import QueryReuse.Proofs.Clearance.Order

/-!
# What collecting finds and reads

Collecting may end before the last of the listed clearances, and what it finds still accounts
for all of them. Unlike the calls of a query, arbitrary clearances may withdraw different kinds
of reuse one after the other, so that the end is brought about by several of them together. The
main statement says which kinds of reuse are found admitted and how many clearances are read, and
from that how collecting behaves towards lists that are appended, reordered or repeated.
-/

namespace QueryReuse.Clearance

/-- Each kind of reuse is admitted by a meet when all the listed clearances admit it. -/
theorem meet_eq_all (as : List Clearance) :
  meet as
    = { planCache := as.all planCache
        viewMatch := as.all viewMatch
        incrementalRefresh := as.all incrementalRefresh }
  := by
  ext
  · rw [admits_meet rfl planCache_and as]
  · rw [admits_meet rfl viewMatch_and as]
  · rw [admits_meet rfl incrementalRefresh_and as]

/-- What several clearances admit together depends only on which clearances they are. -/
theorem meet_eq_meet_of_mem_iff {as bs : List Clearance} (h : ∀ a, a ∈ as ↔ a ∈ bs) :
  meet as = meet bs
  := by
  apply le_antisymm
  · apply meet_le_meet_of_subset fun a ha => (h a).mpr ha
  · apply meet_le_meet_of_subset fun a ha => (h a).mp ha

/-- A list is settled by as many clearances as collecting reads, and by no other number. -/
theorem settles_iff_taken_collect_eq {as : List Clearance} {n : Nat} :
  Settles as n ↔ (collect as).taken = n
  := by
  constructor
  · intro h
    apply (settles_collect as).unique h
  · intro h
    rw [← h]
    apply settles_collect

/-! ### Appended lists -/

theorem taken_collectFrom_pos (a : Clearance) {as : List Clearance} (has : as ≠ []) :
  0 < (collectFrom a as).taken
  := by
  cases as with
  | nil => contradiction
  | cons b bs =>
    by_cases h : a &&& b = void
    · rw [taken_collectFrom_cons_of_eq_void h]
      apply Nat.zero_lt_one
    · rw [taken_collectFrom_cons_of_ne_void h]
      apply Nat.succ_pos

/-- If the first list leaves no reuse, then no more is read of the two lists than of the first. -/
theorem taken_collectFrom_append_of_eq_void {a : Clearance} (ha : a ≠ void)
    {as : List Clearance} (h : a &&& meet as = void) (bs : List Clearance) :
  (collectFrom a (as ++ bs)).taken = (collectFrom a as).taken
  := by
  induction as generalizing a with
  | nil =>
    rw [meet_nil, and_full] at h
    contradiction
  | cons b as ih =>
    rw [List.cons_append]
    by_cases hb : a &&& b = void
    · rw [taken_collectFrom_cons_of_eq_void hb, taken_collectFrom_cons_of_eq_void hb]
    · rw [meet_cons, ← and_assoc] at h
      rw [taken_collectFrom_cons_of_ne_void hb, taken_collectFrom_cons_of_ne_void hb, ih hb h]

/-- If the first list leaves some reuse, then all of it is read, and the second list is collected
onto what the first admits. -/
theorem taken_collectFrom_append_of_ne_void {a : Clearance} {as : List Clearance}
    (h : a &&& meet as ≠ void) (bs : List Clearance) :
  (collectFrom a (as ++ bs)).taken = as.length + (collectFrom (a &&& meet as) bs).taken
  := by
  induction as generalizing a with
  | nil => rw [List.nil_append, List.length_nil, Nat.zero_add, meet_nil, and_full]
  | cons b as ih =>
    rw [meet_cons, ← and_assoc] at h ⊢
    have hb : a &&& b ≠ void := by
      intro hvoid
      rw [hvoid, void_and] at h
      contradiction
    rw [List.cons_append, taken_collectFrom_cons_of_ne_void hb, ih h, List.length_cons]
    omega

/-- Of a list that is appended nothing is read exactly if the list before it leaves no reuse. -/
theorem taken_collect_append_le_length_iff (as : List Clearance) {bs : List Clearance}
    (hbs : bs ≠ []) :
  (collect (as ++ bs)).taken ≤ as.length ↔ (collect as).clearance = void
  := by
  rw [clearance_collect, collect]
  by_cases h : meet as = void
  · rw [taken_collectFrom_append_of_eq_void (by decide) (by rw [full_and, h])]
    simp only [h, taken_collectFrom_le]
  · rw [taken_collectFrom_append_of_ne_void (by rwa [full_and])]
    have hpos := taken_collectFrom_pos (full &&& meet as) hbs
    simp only [h, iff_false]
    omega

/-- Collecting admits the kinds of reuse that all the listed clearances admit, also those that
are not read, and reads the least number of clearances that leave no reuse together, or all of
them if they leave some. Lists that are appended admit what each of them admits. Only which
clearances are listed matters for what is admitted, not their order or number. Of a list that is
appended nothing is read exactly if the list before it leaves no reuse. -/
theorem collect_reads_least_and_admits_all (as : List Clearance) :
  (collect as).clearance
      = { planCache := as.all planCache
          viewMatch := as.all viewMatch
          incrementalRefresh := as.all incrementalRefresh }
    ∧ (∀ n, Settles as n ↔ (collect as).taken = n)
    ∧ (∀ bs, (collect (as ++ bs)).clearance = (collect as).clearance &&& (collect bs).clearance)
    ∧ (∀ bs, (∀ a, a ∈ as ↔ a ∈ bs) → (collect as).clearance = (collect bs).clearance)
    ∧ ∀ bs, bs ≠ [] →
      ((collect (as ++ bs)).taken ≤ as.length ↔ (collect as).clearance = void)
  := by
  constructor
  · rw [clearance_collect, meet_eq_all]
  constructor
  · intro n
    apply settles_iff_taken_collect_eq
  constructor
  · intro bs
    rw [clearance_collect, clearance_collect, clearance_collect, meet_append]
  constructor
  · intro bs h
    rw [clearance_collect, clearance_collect, meet_eq_meet_of_mem_iff h]
  · intro bs hbs
    apply taken_collect_append_le_length_iff as hbs

/-- A plan that is not to be kept and a view that is of no use leave nothing for a third
clearance to withdraw, in either order and also if the first is given twice. -/
theorem collect_noPlan_noView :
  (collect [full.denyPlanCache, full.denyViewMatch.denyIncrementalRefresh]).clearance
      = (collect [full.denyViewMatch.denyIncrementalRefresh, full.denyPlanCache,
          full.denyPlanCache]).clearance
    ∧ (collect ([full.denyPlanCache, full.denyViewMatch.denyIncrementalRefresh] ++ [full])).taken
      ≤ 2
  := by
  obtain ⟨-, -, -, hmem, hrest⟩ := collect_reads_least_and_admits_all
    [full.denyPlanCache, full.denyViewMatch.denyIncrementalRefresh]
  constructor
  · apply hmem
    intro a
    simp [or_comm]
  · apply (hrest [full] (by decide)).mpr
    decide

end QueryReuse.Clearance
