import QueryReuse.Proofs.Catalog.LowerKeyed
import QueryReuse.Proofs.Clearance.Order
import QueryReuse.Proofs.Walk.Trace

/-!
# What a query admits depends on the functions it calls

Exempt functions, tolerated functions and registered functions are each found by name in
another way, and each way passes over the case of the letters. So functions that differ at most
in the case of the letters of their names have the same clearance. It follows that what a query
admits depends only on which functions it calls, up to letter case: not on the order in which
it calls them, on how often, from where and in what kind of call.
-/

namespace QueryReuse

theorem Exemption.find?_congr {a b : String} (h : Name.Alike a b) :
  find? a = find? b
  := by
  have halike (name : String) : Name.Alike name a ↔ Name.Alike name b := by
    rw [Name.Alike, h, Name.Alike]
  simp only [find?, halike]

theorem StalenessPolicy.tolerates_congr (policy : StalenessPolicy) {a b : String}
    (h : Name.Alike a b) :
  policy.Tolerates a ↔ policy.Tolerates b
  := by
  rw [Tolerates, Tolerates, Name.alike_iff_upper_eq.mp h]

/-- Functions with names that are alike and the same properties have the same clearance. -/
theorem Profile.clearance_congr (policy : StalenessPolicy) {f g : Profile}
    (hname : Name.Alike f.name g.name) (hdeterministic : f.deterministic = g.deterministic)
    (hdynamic : f.dynamic = g.dynamic) :
  f.clearance policy = g.clearance policy
  := by
  simp only [clearance, Exemption.find?_congr hname, policy.tolerates_congr hname, hdeterministic,
    hdynamic]

/-- The declaration with its name in upper case. -/
def FunctionDecl.caseless (f : FunctionDecl) : FunctionDecl where
  name := Name.upper f.name
  volatility := f.volatility

theorem FunctionDecl.caseless_eq_iff {f g : FunctionDecl} :
  f.caseless = g.caseless ↔ Name.Alike f.name g.name ∧ f.volatility = g.volatility
  := by
  rw [caseless, caseless, FunctionDecl.mk.injEq, Name.alike_iff_upper_eq]

/-- The functions that a tree calls, with their names in upper case. -/
def Tree.caselessCalls (t : Tree) : Set FunctionDecl :=
  { f | f ∈ t.calls.map FunctionDecl.caseless }

namespace Assessor

variable {c : Assessor Registry}

/-- Names that are alike are described alike. -/
theorem describe_congr (hc : ∀ registry ∈ c.catalog, registry.LowerKeyed) {a b : String}
    (h : Name.Alike a b) :
  c.describe a = c.describe b
  := by
  rw [describe, describe]
  cases hcatalog : c.catalog with
  | none => rfl
  | some registry =>
    rw [Option.bind_some, Option.bind_some]
    apply (hc registry hcatalog).profile?_consult_congr h

/-- Called functions that differ at most in letter case have the same clearance. -/
theorem clearance_resolve_congr (hc : ∀ registry ∈ c.catalog, registry.LowerKeyed)
    {f g : FunctionDecl} (h : f.caseless = g.caseless) :
  (c.resolve f).clearance c.policy = (c.resolve g).clearance c.policy
  := by
  obtain ⟨hname, hvolatility⟩ := FunctionDecl.caseless_eq_iff.mp h
  rw [resolve, resolve, describe_congr hc hname]
  cases c.describe g.name with
  | some profile => rfl
  | none =>
    -- Each call is judged under its own spelling of the name.
    rw [Option.getD_none, Option.getD_none]
    apply Profile.clearance_congr
    · apply hname
    · simp only [FunctionDecl.profile, hvolatility]
    · simp only [FunctionDecl.profile, hvolatility]

/-- A query that calls all the functions that another one calls admits no more. -/
theorem clearance_assess_le_of_caselessCalls_subset
    (hc : ∀ registry ∈ c.catalog, registry.LowerKeyed) {t u : Tree}
    (h : t.caselessCalls ⊆ u.caselessCalls) :
  (c.assess u).clearance ≤ (c.assess t).clearance
  := by
  rw [clearance_assess, clearance_assess]
  apply Clearance.meet_le_meet_of_subset
  intro a ha
  obtain ⟨f, hf, rfl⟩ := List.mem_map.mp ha
  obtain ⟨g, hg, hcaseless⟩ := List.mem_map.mp (h (List.mem_map_of_mem hf))
  apply List.mem_map.mpr
  use g, hg
  apply clearance_resolve_congr hc hcaseless

/-- What a query admits depends only on the set of the functions that it calls, up to letter
case. -/
theorem clearance_assess_eq_of_caselessCalls_eq
    (hc : ∀ registry ∈ c.catalog, registry.LowerKeyed) {t u : Tree}
    (h : t.caselessCalls = u.caselessCalls) :
  (c.assess t).clearance = (c.assess u).clearance
  := by
  apply Clearance.le_antisymm
  · apply clearance_assess_le_of_caselessCalls_subset hc h.ge
  · apply clearance_assess_le_of_caselessCalls_subset hc h.le

/-- `NOW() - Random()`. -/
def elapsedByChance : Tree :=
  .expr (.binary "-" (.scalarCall ⟨"NOW", .stable⟩ []) (.scalarCall ⟨"Random", .volatile⟩ []))

/-- `SELECT random() OVER (PARTITION BY now()), Now() FROM t`. -/
def chanceByTime : Tree :=
  .plan (.projection
    [.windowCall .window ⟨"random", .volatile⟩ [] [.scalarCall ⟨"now", .stable⟩ []] [],
      .scalarCall ⟨"Now", .stable⟩ []]
    (.scan "t" []))

/-- An assessor that has `now` in its registry and tolerates no stale values of it. -/
def strictAboutNow : Assessor Registry where
  policy := .strict
  catalog := some (Registry.empty.register .scalar "now" ⟨"now", .stable⟩)

/-- The walk over the first query ends at its first call, and that over the second at its
second. -/
theorem clearance_elapsedByChance_eq_chanceByTime :
  (strictAboutNow.assess elapsedByChance).clearance = (strictAboutNow.assess chanceByTime).clearance
  := by
  apply clearance_assess_eq_of_caselessCalls_eq
  · intro registry hregistry
    rw [← Option.some_inj.mp hregistry]
    apply Registry.lowerKeyed_empty.register
    simp [Name.IsLower]
  · have helapsed : elapsedByChance.calls.map FunctionDecl.caseless
        = [⟨"NOW", .stable⟩, ⟨"RANDOM", .volatile⟩] := by decide +kernel
    have hchance : chanceByTime.calls.map FunctionDecl.caseless
        = [⟨"RANDOM", .volatile⟩, ⟨"NOW", .stable⟩, ⟨"NOW", .stable⟩] := by decide +kernel
    ext f
    simp [Tree.caselessCalls, helapsed, hchance, or_comm]

end Assessor

end QueryReuse
