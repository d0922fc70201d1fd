import QueryReuse.Catalog.ProfileTable
import QueryReuse.Proofs.Clearance.Order
import QueryReuse.Proofs.Walk.Trace

/-!
# Two policies

The staleness policy has a say in view matching alone. Under different policies a walk may end
at different calls, so that it sees different parts of the query, and yet it finds the same as
to plan caching and incremental refresh. A policy that tolerates more functions never admits
less view matching, and the walk under it goes at least as far: it accesses the catalog in the
same way and then perhaps some more. These are the main statements.
-/

namespace QueryReuse

namespace Profile

variable (p q : StalenessPolicy) (f : Profile)

theorem planCache_clearance_eq :
  (f.clearance p).planCache = (f.clearance q).planCache
  := by
  unfold clearance
  split <;> rfl

theorem incrementalRefresh_clearance_eq :
  (f.clearance p).incrementalRefresh = (f.clearance q).incrementalRefresh
  := by
  unfold clearance
  split <;> rfl

variable {p q}

theorem clearance_le_of_tolerates (h : ∀ name, p.Tolerates name → q.Tolerates name) :
  f.clearance p ≤ f.clearance q
  := by
  unfold clearance
  split
  · apply Clearance.le_refl
  · refine ⟨id, fun hview => ?_, id⟩
    rw [Bool.or_eq_true, decide_eq_true_eq] at hview ⊢
    exact Or.imp_right (h f.name) hview

end Profile

namespace Assessor

variable {κ : Type} [Catalog κ]

/-- The catalog is asked about the calls that settle the clearances. -/
theorem accesses_assess_of_settles {c : Assessor κ} {t : Tree} {n : Nat}
    (h : Clearance.Settles (c.clearances t) n) :
  (c.assess t).accesses
    = (t.calls.take n).flatMap fun f => (Assessment.ofEvents (c.inquiry f.name)).accesses
  := by
  rw [accesses_assess, walk_eq_of_settles h, Assessment.assessment_proceed,
    Assessment.accesses_join, List.flatMap_map]
  simp only [accesses_assessCall]

/-- Under a policy by which every function admits at least as much, the catalog is accessed in
the same way as before and then perhaps some more. -/
theorem accesses_assess_prefix {p q : StalenessPolicy}
    (h : ∀ f : Profile, f.clearance p ≤ f.clearance q) (catalog : Option κ) (t : Tree) :
  ((Assessor.mk p catalog).assess t).accesses <+: ((Assessor.mk q catalog).assess t).accesses
  := by
  have hp := Clearance.settles_collect ((Assessor.mk p catalog).clearances t)
  have hq := Clearance.settles_collect ((Assessor.mk q catalog).clearances t)
  have htaken := hp.le_of_map_le (fun f => h ((Assessor.mk p catalog).resolve f)) hq
  obtain ⟨rest, hrest⟩ := List.take_prefix_take_left htaken (l := t.calls)
  rw [accesses_assess_of_settles hp, accesses_assess_of_settles hq, ← hrest, List.flatMap_append]
  apply List.prefix_append

/-- Whatever the policy, a query admits the same plan caching and incremental refresh. Under a
policy that tolerates more, it admits view matching if it did so before, and the accesses to
the catalog are those made before, perhaps followed by others. -/
theorem assess_under_two_policies (catalog : Option κ) (p q : StalenessPolicy) (t : Tree) :
  let a := (Assessor.mk p catalog).assess t
  let b := (Assessor.mk q catalog).assess t
  a.clearance.planCache = b.clearance.planCache
    ∧ a.clearance.incrementalRefresh = b.clearance.incrementalRefresh
    ∧ ((∀ name, p.Tolerates name → q.Tolerates name) →
      (a.clearance.viewMatch = true → b.clearance.viewMatch = true) ∧ a.accesses <+: b.accesses)
  := by
  intro a b
  constructor
  · rw [admits_assess rfl Clearance.planCache_and, admits_assess rfl Clearance.planCache_and]
    congr 1
    funext f
    apply Profile.planCache_clearance_eq
  constructor
  · rw [admits_assess rfl Clearance.incrementalRefresh_and,
      admits_assess rfl Clearance.incrementalRefresh_and]
    congr 1
    funext f
    apply Profile.incrementalRefresh_clearance_eq
  intro htolerates
  have hle (f : Profile) := f.clearance_le_of_tolerates htolerates
  constructor
  · apply Clearance.viewMatch_of_le
    rw [clearance_assess, clearance_assess]
    apply Clearance.meet_map_le fun f => hle ((Assessor.mk p catalog).resolve f)
  · apply accesses_assess_prefix hle

/-- The expression `now() - current_date() < random()`. -/
def timeOfDayByChance : Tree :=
  .expr (.binary "<"
    (.binary "-" (.scalarCall ⟨"now", .stable⟩ []) (.scalarCall ⟨"current_date", .stable⟩ []))
    (.scalarCall ⟨"random", .volatile⟩ []))

/-- To tolerate `now` alone is to tolerate less than the standard policy does. Then the walk
ends at the second call, and under the standard policy it goes through all three. -/
theorem assess_timeOfDayByChance_under_two_policies :
  ((Assessor.mk (StalenessPolicy.strict.tolerate "now") (some ProfileTable.empty)).assess
      timeOfDayByChance).accesses
    <+: ((Assessor.mk .standard (some ProfileTable.empty)).assess timeOfDayByChance).accesses
    ∧ ((Assessor.mk (StalenessPolicy.strict.tolerate "now") (some ProfileTable.empty)).assess
        timeOfDayByChance).accesses.length = 2
    ∧ ((Assessor.mk .standard (some ProfileTable.empty)).assess
        timeOfDayByChance).accesses.length = 3
  := by
  have htolerates (name : String) (h : (StalenessPolicy.strict.tolerate "now").Tolerates name) :
      StalenessPolicy.standard.Tolerates name := by
    rcases StalenessPolicy.mem_tolerated_tolerate.mp h with hnow | hstrict
    · rw [StalenessPolicy.Tolerates, hnow]
      decide +kernel
    · cases Std.ExtTreeSet.not_mem_empty hstrict
  obtain ⟨-, -, h⟩ := assess_under_two_policies (some ProfileTable.empty) _ _ timeOfDayByChance
  constructor
  · apply (h htolerates).2
  · constructor <;> decide +kernel

end Assessor

end QueryReuse
