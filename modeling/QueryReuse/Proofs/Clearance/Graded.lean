import QueryReuse.Proofs.Clearance.Meet

/-!
# Graded clearances

The three kinds of reuse ask for more and more: what keeps a view from standing in also
keeps it from being refreshed incrementally, and that in turn keeps the plan from being
kept. A clearance with these two properties is graded, and so is the meet of graded
clearances. The main statement is that graded clearances leave no reuse together only if
one of them leaves none. Hence it is the first such clearance that settles a list, and what
is collected onto makes no difference to how many are read.
-/

namespace QueryReuse

namespace Clearance

/-- Without view matching there is no incremental refresh, and without that no plan
caching. -/
structure Graded (a : Clearance) : Prop where
  incrementalRefresh_eq_false : a.viewMatch = false → a.incrementalRefresh = false
  planCache_eq_false : a.incrementalRefresh = false → a.planCache = false

theorem graded_full :
  full.Graded
  := by
  constructor <;> simp [full]

theorem Graded.and {a b : Clearance} (ha : a.Graded) (hb : b.Graded) :
  (a &&& b).Graded
  := by
  constructor
  · rw [viewMatch_and, incrementalRefresh_and, Bool.and_eq_false_iff, Bool.and_eq_false_iff]
    exact Or.imp ha.incrementalRefresh_eq_false hb.incrementalRefresh_eq_false
  · rw [incrementalRefresh_and, planCache_and, Bool.and_eq_false_iff, Bool.and_eq_false_iff]
    exact Or.imp ha.planCache_eq_false hb.planCache_eq_false

theorem graded_meet {as : List Clearance} (h : ∀ a ∈ as, a.Graded) :
  (meet as).Graded
  := by
  induction as with
  | nil => apply graded_full
  | cons a as ih =>
    obtain ⟨ha, has⟩ := List.forall_mem_cons.mp h
    apply Graded.and ha (ih has)

/-- A graded clearance leaves no reuse when it leaves no view matching. -/
theorem Graded.eq_void_iff {a : Clearance} (ha : a.Graded) :
  a = void ↔ a.viewMatch = false
  := by
  constructor
  · intro h
    rw [h]
    rfl
  · intro hview
    have hrefresh := ha.incrementalRefresh_eq_false hview
    have hplan := ha.planCache_eq_false hrefresh
    ext
    · rw [hplan]
      rfl
    · rw [hview]
      rfl
    · rw [hrefresh]
      rfl

/-- A graded clearance is full when it admits plan caching. -/
theorem Graded.eq_full_iff {a : Clearance} (ha : a.Graded) :
  a = full ↔ a.planCache = true
  := by
  constructor
  · intro h
    rw [h]
    rfl
  · intro hplan
    have hrefresh : a.incrementalRefresh = true := by
      by_contra h
      rw [Bool.not_eq_true] at h
      rw [ha.planCache_eq_false h] at hplan
      contradiction
    have hview : a.viewMatch = true := by
      by_contra h
      rw [Bool.not_eq_true] at h
      rw [ha.incrementalRefresh_eq_false h] at hrefresh
      contradiction
    ext
    · rw [hplan]
      rfl
    · rw [hview]
      rfl
    · rw [hrefresh]
      rfl

/-- Two graded clearances leave no reuse together only if one of them leaves none. -/
theorem Graded.and_eq_void_iff {a b : Clearance} (ha : a.Graded) (hb : b.Graded) :
  a &&& b = void ↔ a = void ∨ b = void
  := by
  rw [(ha.and hb).eq_void_iff, ha.eq_void_iff, hb.eq_void_iff, viewMatch_and,
    Bool.and_eq_false_iff]

/-- Graded clearances leave no reuse together only if one of them leaves none. -/
theorem meet_eq_void_iff {as : List Clearance} (h : ∀ a ∈ as, a.Graded) :
  meet as = void ↔ void ∈ as
  := by
  rw [(graded_meet h).eq_void_iff, viewMatch_meet, List.all_eq_false]
  constructor
  · rintro ⟨a, ha, hview⟩
    rw [Bool.not_eq_true] at hview
    rw [← (h a ha).eq_void_iff.mpr hview]
    apply ha
  · intro hvoid
    use void, hvoid
    decide

/-! ### Settling -/

theorem meet_ne_void {as : List Clearance} (h : ∀ a ∈ as, a.Graded ∧ a ≠ void) :
  meet as ≠ void
  := by
  rw [ne_eq, meet_eq_void_iff (fun a ha => (h a ha).1)]
  intro hvoid
  apply (h void hvoid).2 rfl

/-- A list of graded clearances is settled by the first one that leaves no reuse. -/
theorem settles_append_void {as : List Clearance} (h : ∀ a ∈ as, a.Graded ∧ a ≠ void)
    (bs : List Clearance) :
  Settles (as ++ void :: bs) (as.length + 1)
  := by
  constructor
  · simp
  · left
    rw [List.take_length_add_append, List.take_succ_cons, List.take_zero, meet_append, meet_cons,
      void_and, and_void]
  · intro m hm
    rw [List.take_append_of_le_length (Nat.le_of_lt_succ hm)]
    apply meet_ne_void fun a ha => h a (List.mem_of_mem_take ha)

/-- A list of graded clearances that each leave some reuse is settled only by all of them. -/
theorem settles_length {as : List Clearance} (h : ∀ a ∈ as, a.Graded ∧ a ≠ void) :
  Settles as as.length
  := by
  constructor
  · apply Nat.le_refl
  · right
    rfl
  · intro m _
    apply meet_ne_void fun a ha => h a (List.mem_of_mem_take ha)

/-- What has been found before does not change how many graded clearances are read, as long
as it leaves some reuse. -/
theorem taken_collectFrom_eq {a b : Clearance} (ha : a.Graded) (hb : b.Graded)
    (ha' : a ≠ void) (hb' : b ≠ void) {as : List Clearance} (h : ∀ x ∈ as, x.Graded) :
  (collectFrom a as).taken = (collectFrom b as).taken
  := by
  induction as generalizing a b with
  | nil => rfl
  | cons x as ih =>
    obtain ⟨hx, has⟩ := List.forall_mem_cons.mp h
    by_cases hvoid : x = void
    · rw [taken_collectFrom_cons_of_eq_void ((ha.and_eq_void_iff hx).mpr (.inr hvoid)),
        taken_collectFrom_cons_of_eq_void ((hb.and_eq_void_iff hx).mpr (.inr hvoid))]
    · have hax : a &&& x ≠ void := by simp [ha.and_eq_void_iff hx, ha', hvoid]
      have hbx : b &&& x ≠ void := by simp [hb.and_eq_void_iff hx, hb', hvoid]
      rw [taken_collectFrom_cons_of_ne_void hax, taken_collectFrom_cons_of_ne_void hbx,
        ih (ha.and hx) (hb.and hx) hax hbx has]

end Clearance

end QueryReuse
