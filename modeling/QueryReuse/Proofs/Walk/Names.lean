import QueryReuse.Catalog.ProfileTable
import QueryReuse.Proofs.Clearance.Order
import QueryReuse.Proofs.Walk.Reach

/-!
# Queries and the names they mention

A function can be assessed by its name alone. Then the worst is assumed where the catalog has
nothing to say, while a call is still judged by the declaration that comes with it. So a name
admits no more than a call of the function. The main statement lifts this to queries: the names
of the called functions admit together no more than the query, and the same as the query if the
catalog has them all, and a call of a function that the catalog has is assessed like its name.
-/

namespace QueryReuse

/-- A function about which nothing is known admits no more than a function of the same name. -/
theorem Profile.clearance_unknown_le (policy : StalenessPolicy) (f : Profile) :
  (unknown f.name).clearance policy ≤ f.clearance policy
  := by
  show clearance policy ⟨f.name, false, true⟩ ≤ f.clearance policy
  unfold clearance
  split
  · apply Clearance.le_refl
  · refine ⟨Bool.false_le _, fun hview => ?_, Bool.false_le _⟩
    rw [Bool.or_eq_true] at hview ⊢
    right
    simpa using hview

namespace Assessor

variable {κ : Type} [Catalog κ] {c : Assessor κ}

/-- The name of a function admits no more than a call of the function. -/
theorem clearance_assessName_le (c : Assessor κ) (f : FunctionDecl) :
  (c.assessName f.name).clearance ≤ (c.assessCall f).clearance
  := by
  rw [clearance_assessName, clearance_assessCall, resolve]
  cases c.describe f.name with
  | none => apply f.profile.clearance_unknown_le
  | some p => apply Clearance.le_refl

/-- If the catalog has the name of a function, then a call of the function is assessed like the
name. -/
theorem assessCall_eq_assessName {f : FunctionDecl} (h : (c.describe f.name).isSome) :
  c.assessCall f = c.assessName f.name
  := by
  obtain ⟨p, hp⟩ := Option.isSome_iff_exists.mp h
  rw [assessCall, assessName, resolve, hp, Option.getD_some]

theorem meet_assessCall_eq_meet_assessName {fs : List FunctionDecl}
    (h : ∀ f ∈ fs, (c.describe f.name).isSome) :
  Clearance.meet (fs.map fun f => (c.assessName f.name).clearance)
    = .meet (fs.map fun f => (c.assessCall f).clearance)
  := by
  congr 1
  apply List.map_congr_left
  intro f hf
  rw [assessCall_eq_assessName (h f hf)]

/-- A query has the clearance that its calls have together, be they all calls or the assessed
ones. -/
theorem clearance_assess_eq_meet_assessCall {t : Tree} {visited : List FunctionDecl}
    (hvisited : visited ∈ [t.calls, c.assessed t]) :
  (c.assess t).clearance = .meet (visited.map fun f => (c.assessCall f).clearance)
  := by
  simp only [clearance_assessCall]
  obtain rfl | rfl := List.mem_pair.mp hvisited
  · apply clearance_assess
  · apply clearance_assess_eq_meet_assessed

/-- An expression that calls a single function is assessed like the call. -/
theorem assess_eq_assessCall {t : Tree} {visited : List FunctionDecl}
    (hvisited : visited ∈ [t.calls, c.assessed t]) {f : FunctionDecl} (hcall : t.call? = some f)
    (hsingle : visited = [f]) :
  c.assess t = c.assessCall f
  := by
  have hassessed : c.assessed t = [f] := by
    obtain hcalls | hassessed := List.mem_pair.mp hvisited
    · rw [assessed, ← hcalls, hsingle, callsMet_singleton]
    · rw [← hassessed, hsingle]
  cases t with
  | plan p => cases hcall
  | expr e =>
    rw [assess_eq_join_assessed, hassessed, List.map_singleton, Assessment.join_cons,
      Assessment.join_nil, Assessment.append_empty]
    apply Assessment.append_empty

/-- The names of the called functions admit together no more than the query. If the catalog has
all these names, they admit the same as the query, and an expression that calls a function which
the catalog has, and no other function below that, is assessed like the name, down to each
access and each message. All this holds of all calls, and of the calls that are assessed. -/
theorem assess_against_names (c : Assessor κ) (t : Tree) :
  ∀ visited ∈ [t.calls, c.assessed t],
    Clearance.meet (visited.map fun f => (c.assessName f.name).clearance)
      ≤ (c.assess t).clearance
    ∧ ((∀ f ∈ visited, (c.describe f.name).isSome) →
      Clearance.meet (visited.map fun f => (c.assessName f.name).clearance)
        = (c.assess t).clearance)
    ∧ ∀ f, t.call? = some f → visited = [f] → (c.describe f.name).isSome →
      c.assess t = c.assessName f.name
  := by
  intro visited hvisited
  -- The names may end a walk sooner than the calls, so the two are compared as meets.
  rw [clearance_assess_eq_meet_assessCall hvisited]
  constructor
  · apply Clearance.meet_map_le c.clearance_assessName_le
  constructor
  · apply meet_assessCall_eq_meet_assessName
  · intro f hcall hsingle hdescribed
    rw [assess_eq_assessCall hvisited hcall hsingle, assessCall_eq_assessName hdescribed]

/-- A table that knows that `whoami` depends on the session. -/
def sessionTable : ProfileTable :=
  (ProfileTable.empty.insert "whoami" ⟨"whoami", true, true⟩).insert "upper"
    ⟨"upper", true, false⟩

/-- In `upper(whoami(x))` the table has both names, and in `whoami(x)` there is a single call,
of a function that declares itself immutable. -/
theorem assess_whoami_against_names :
  Clearance.meet
        ([⟨"upper", .immutable⟩, ⟨"whoami", .immutable⟩].map fun f : FunctionDecl =>
          ((Assessor.mk .standard (some sessionTable)).assessName f.name).clearance)
      = ((Assessor.mk .standard (some sessionTable)).assess (.expr (.scalarCall
          ⟨"upper", .immutable⟩ [.scalarCall ⟨"whoami", .immutable⟩ [.column "x"]]))).clearance
    ∧ (Assessor.mk .standard (some sessionTable)).assess
        (.expr (.scalarCall ⟨"whoami", .immutable⟩ [.column "x"]))
      = (Assessor.mk .standard (some sessionTable)).assessName "whoami"
  := by
  have hupper : ((Assessor.mk .standard (some sessionTable)).describe "upper").isSome := by
    decide +kernel
  have hwhoami : ((Assessor.mk .standard (some sessionTable)).describe "whoami").isSome := by
    decide +kernel
  have hcalls : (Tree.expr (.scalarCall ⟨"upper", .immutable⟩
      [.scalarCall ⟨"whoami", .immutable⟩ [.column "x"]])).calls
        = [⟨"upper", .immutable⟩, ⟨"whoami", .immutable⟩] := by decide +kernel
  have hcall : (Tree.expr (.scalarCall ⟨"whoami", .immutable⟩ [.column "x"])).calls
      = [⟨"whoami", .immutable⟩] := by decide +kernel
  constructor
  · rw [← hcalls]
    apply (assess_against_names _ _ _ List.mem_cons_self).2.1
    rw [hcalls]
    simp [hupper, hwhoami]
  · apply (assess_against_names _ _ _ List.mem_cons_self).2.2 _ rfl hcall hwhoami

end Assessor

end QueryReuse
