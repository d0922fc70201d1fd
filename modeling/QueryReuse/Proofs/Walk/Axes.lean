import QueryReuse.Proofs.Walk.Trace

/-!
# Why a query is denied a kind of reuse

Each kind of reuse is denied on account of single calls. A plan is not to be kept if some
call depends on the context or on chance, a view is not to be refreshed incrementally if
some call depends on the context, and a view is not to stand in if moreover the policy does
not tolerate stale values of the called function. Exempt functions are no reason to deny
anything. The main statement is that these are the only reasons and that each of them is
sufficient, wherever in the query the call stands and although the walk ends early.
-/

namespace QueryReuse

namespace Profile

variable (policy : StalenessPolicy) (f : Profile)

theorem planCache_clearance_eq_false_iff :
  (f.clearance policy).planCache = false
    ↔ Exemption.find? f.name = none ∧ (f.dynamic = true ∨ f.deterministic = false)
  := by
  unfold clearance
  cases Exemption.find? f.name with
  | some exemption => simp [Clearance.full]
  | none =>
    simp only [Option.isSome_none, Bool.false_eq_true, if_false, Bool.and_eq_false_iff,
      Bool.not_eq_false', true_and]
    exact or_comm

theorem incrementalRefresh_clearance_eq_false_iff :
  (f.clearance policy).incrementalRefresh = false
    ↔ Exemption.find? f.name = none ∧ f.dynamic = true
  := by
  unfold clearance
  cases Exemption.find? f.name with
  | some exemption => simp [Clearance.full]
  | none =>
    simp only [Option.isSome_none, Bool.false_eq_true, if_false, Bool.not_eq_false', true_and]

theorem viewMatch_clearance_eq_false_iff :
  (f.clearance policy).viewMatch = false
    ↔ Exemption.find? f.name = none ∧ f.dynamic = true ∧ ¬policy.Tolerates f.name
  := by
  unfold clearance
  cases Exemption.find? f.name with
  | some exemption => simp [Clearance.full]
  | none =>
    simp only [Option.isSome_none, Bool.false_eq_true, if_false, Bool.or_eq_false_iff,
      Bool.not_eq_false', decide_eq_false_iff_not, true_and]

end Profile

namespace Assessor

variable {κ : Type} [Catalog κ]

/-- A tree calls some function that is not exempt and whose profile has a property. -/
def CallsUnexempt (c : Assessor κ) (t : Tree) (property : Profile → Prop) : Prop :=
  ∃ f ∈ t.calls, Exemption.find? (c.resolve f).name = none ∧ property (c.resolve f)

/-- A kind of reuse that is denied to the functions with a property, exempt ones aside, is
denied to the queries that call such a function. -/
theorem admits_assess_eq_false_iff {admits : Clearance → Bool}
    (hfull : admits .full = true) (hand : ∀ a b, admits (a &&& b) = (admits a && admits b))
    {property : Profile → Prop} (c : Assessor κ)
    (hproperty : ∀ f : Profile, admits (f.clearance c.policy) = false
      ↔ Exemption.find? f.name = none ∧ property f) (t : Tree) :
  admits (c.assess t).clearance = false ↔ c.CallsUnexempt t property
  := by
  rw [admits_assess hfull hand, List.all_eq_false]
  constructor
  · rintro ⟨f, hf, hdenied⟩
    rw [Bool.not_eq_true] at hdenied
    use f, hf
    apply (hproperty _).mp hdenied
  · rintro ⟨f, hf, hproperties⟩
    use f, hf
    rw [Bool.not_eq_true]
    apply (hproperty _).mpr hproperties

/-- Every query is assessed, and is denied plan caching exactly on account of a call that
depends on the context or on chance, incremental refresh exactly on account of one that
depends on the context, and view matching exactly on account of one that depends on the
context and whose stale values the policy does not tolerate, exempt functions aside. -/
theorem assess_eq_false_iff_calls (c : Assessor κ) (t : Tree) :
  ((c.assess t).clearance.planCache = false
      ↔ c.CallsUnexempt t fun f => f.dynamic = true ∨ f.deterministic = false)
    ∧ ((c.assess t).clearance.incrementalRefresh = false
      ↔ c.CallsUnexempt t fun f => f.dynamic = true)
    ∧ ((c.assess t).clearance.viewMatch = false
      ↔ c.CallsUnexempt t fun f => f.dynamic = true ∧ ¬c.policy.Tolerates f.name)
  := by
  constructor
  · apply admits_assess_eq_false_iff rfl Clearance.planCache_and
    apply Profile.planCache_clearance_eq_false_iff
  constructor
  · apply admits_assess_eq_false_iff rfl Clearance.incrementalRefresh_and
    apply Profile.incrementalRefresh_clearance_eq_false_iff
  · apply admits_assess_eq_false_iff rfl Clearance.viewMatch_and
    apply Profile.viewMatch_clearance_eq_false_iff

end Assessor

end QueryReuse
