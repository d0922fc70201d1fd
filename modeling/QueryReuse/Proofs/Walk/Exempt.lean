import QueryReuse.Catalog.Registry
import QueryReuse.Proofs.Walk.Axes
import QueryReuse.Proofs.Walk.Names

/-!
# Exempt functions in a query

An exemption goes by the name of the profile under which a function is judged. Without a catalog
that is the name in the query, but a catalog may list a profile that bears another name, such as
a function that is registered under a second name. The main statement says exactly when a name
with an exemption is exempt in a query: when the catalog does not know it, or knows it as that of
an exempt function, or else as that of a function with nothing to withdraw. Then its calls may be
left out and the query has the clearance of its other calls.
-/

namespace QueryReuse

namespace Exemption

/-- There is an exemption for the name, in whatever case it is written. -/
def Covers (name : String) : Prop := ∃ exemption ∈ table, Name.Alike exemption.name name

instance (name : String) : Decidable (Covers name) :=
  inferInstanceAs (Decidable (∃ exemption ∈ table, Name.Alike exemption.name name))

theorem find?_eq_none_iff {name : String} :
  find? name = none ↔ ¬Covers name
  := by
  simp [find?, Covers]

end Exemption

/-- A function has full clearance if it is exempt or if its value depends on the arguments
alone. -/
theorem Profile.clearance_eq_full_iff {policy : StalenessPolicy} {f : Profile} :
  f.clearance policy = .full
    ↔ Exemption.Covers f.name ∨ f.deterministic = true ∧ f.dynamic = false
  := by
  rw [(graded_clearance policy f).eq_full_iff, ← Bool.not_eq_false,
    planCache_clearance_eq_false_iff, Exemption.find?_eq_none_iff]
  simp only [not_and_or, not_not, not_or, Bool.not_eq_true, Bool.not_eq_false]
  apply or_congr_right and_comm

namespace Assessor

variable {κ : Type} [Catalog κ] {c : Assessor κ}

/-- If the catalog knows the name, then as that of a function that is exempt or whose value
depends on the arguments alone. -/
def Clears (c : Assessor κ) (name : String) : Prop :=
  ∀ f ∈ c.describe name, Exemption.Covers f.name ∨ f.deterministic = true ∧ f.dynamic = false

/-- Where there is an exemption for the profile that is taken if the catalog does not know the
name, the catalog decides. -/
theorem clearance_describe_getD_eq_full_iff {f : Profile} (hf : Exemption.Covers f.name)
    (name : String) :
  ((c.describe name).getD f).clearance c.policy = .full ↔ c.Clears name
  := by
  rw [Profile.clearance_eq_full_iff, Clears]
  cases c.describe name with
  | none => simp [hf]
  | some g => simp

theorem calls_scalarCall (f : FunctionDecl) :
  (Tree.expr (.scalarCall f [])).calls = [f]
  := by
  rw [Tree.calls_eq]
  rfl

/-- A name with an exemption has full clearance, and the calls of the function may be left out of
every query, exactly if the catalog does not know the name, or knows it as that of a function
that is exempt or whose value depends on the arguments alone. -/
theorem exempt_iff_clears (c : Assessor κ) {name : String} (hname : Exemption.Covers name) :
  ((c.assessName name).clearance = .full ↔ c.Clears name)
    ∧ ((∀ t : Tree, ∀ visited ∈ [t.calls, c.assessed t],
        (c.assess t).clearance
          = .meet ((visited.filter fun f => f.name ≠ name).map fun f =>
            (c.assessProfile (c.resolve f)).clearance))
      ↔ c.Clears name)
  := by
  have hcall {f : FunctionDecl} (hf : f.name = name) :
      (c.assessCall f).clearance = .full ↔ c.Clears name := by
    rw [clearance_assessCall, resolve, hf]
    apply clearance_describe_getD_eq_full_iff
    rwa [FunctionDecl.profile, hf]
  constructor
  · rw [clearance_assessName]
    apply clearance_describe_getD_eq_full_iff
    apply hname
  constructor
  · intro h
    -- The shortest query that calls the function has no other call.
    have hquery := h (.expr (.scalarCall ⟨name, .immutable⟩ [])) _ List.mem_cons_self
    rw [calls_scalarCall, List.filter_cons_of_neg (by simp), List.filter_nil,
      assess_eq_assessCall List.mem_cons_self rfl (calls_scalarCall _)] at hquery
    apply (hcall rfl).mp hquery
  · intro hclears t visited hvisited
    rw [clearance_assess_eq_meet_assessCall hvisited]
    simp only [clearance_assessCall]
    symm
    apply Clearance.meet_map_filter
    intro f _ hf
    rw [decide_eq_false_iff_not, not_not] at hf
    apply (hcall hf).mpr hclears

/-- The registry has `flatten` under its own name, as a function whose value is a matter of
chance. -/
def flattenByChance : Assessor Registry where
  catalog := some (Registry.empty.register .scalar "flatten" ⟨"Flatten", .volatile⟩)

/-- `FLATTEN(now())`. -/
def flattenOfNow : Tree :=
  .expr (.scalarCall ⟨"FLATTEN", .stable⟩ [.scalarCall ⟨"now", .stable⟩ []])

/-- Of the two calls in `FLATTEN(now())` the inner one counts alone. -/
theorem clearance_flattenOfNow :
  Exemption.Covers "FLATTEN"
    ∧ flattenByChance.Clears "FLATTEN"
    ∧ (flattenByChance.assessName "FLATTEN").clearance = .full
    ∧ (flattenByChance.assess flattenOfNow).clearance
      = (flattenByChance.assessProfile (FunctionDecl.mk "now" .stable).profile).clearance
  := by
  have hcovers : Exemption.Covers "FLATTEN" := by decide +kernel
  have hdescribe : flattenByChance.describe "FLATTEN" = some ⟨"Flatten", false, false⟩ := by
    decide +kernel
  have hclears : flattenByChance.Clears "FLATTEN" := by
    intro f hf
    rw [hdescribe, Option.mem_some] at hf
    left
    rw [← hf]
    decide +kernel
  have hcalls : flattenOfNow.calls = [⟨"FLATTEN", .stable⟩, ⟨"now", .stable⟩] := by decide +kernel
  have hresolve : flattenByChance.resolve ⟨"now", .stable⟩
      = (FunctionDecl.mk "now" .stable).profile := by decide +kernel
  obtain ⟨hname, hquery⟩ := exempt_iff_clears flattenByChance hcovers
  use hcovers, hclears, hname.mpr hclears
  rw [hquery.mpr hclears flattenOfNow _ List.mem_cons_self, hcalls]
  simp [hresolve]

/-- The registry has the function `explode` under the name `flatten`. -/
def flattenIsExplode : Assessor Registry where
  catalog := some (Registry.empty.register .scalar "flatten" ⟨"explode", .stable⟩)

/-- There is an exemption for `flatten`, and yet neither the name has full clearance nor the query
`flatten(a)`, which has no other call. -/
theorem not_clearance_flattenIsExplode_full :
  Exemption.Covers "flatten"
    ∧ (flattenIsExplode.assessName "flatten").clearance ≠ .full
    ∧ (flattenIsExplode.assess
        (.expr (.scalarCall ⟨"flatten", .immutable⟩ [.column "a"]))).clearance ≠ .full
  := by
  decide +kernel

end Assessor

end QueryReuse
