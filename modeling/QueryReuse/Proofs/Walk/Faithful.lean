import QueryReuse.Proofs.Catalog.Rounds
import QueryReuse.Proofs.Walk.LetterCase
import QueryReuse.Proofs.Walk.Reach

/-!
# Registries that agree with the declarations

A call brings along the declaration of the called function, and a registry is asked for its own
before that one is believed. The registry is faithful to the declaration if whatever it has
under the name, in any of its tables and in either spelling that is looked up, declares the same
volatility under a name that is alike. The main statement is that a registry which is faithful
to the assessed calls makes no difference: a query has the clearance that it has without any
catalog, and the registry is asked once about each call that is assessed without it.
-/

namespace QueryReuse

namespace Registry

/-- What the registry has under the name of a function agrees with the declaration at hand. -/
def Faithful (registry : Registry) (f : FunctionDecl) : Prop :=
  ∀ kind, ∀ key ∈ [f.name, Name.lower f.name], ∀ g ∈ registry.find? kind key,
    Name.Alike g.name f.name ∧ g.volatility = f.volatility

theorem faithful_iff_forall_mem {registry : Registry} {f : FunctionDecl} :
  registry.Faithful f
    ↔ ∀ kind ∈ [FunctionKind.scalar, .aggregate, .window], ∀ key ∈ [f.name, Name.lower f.name],
      ∀ g ∈ registry.find? kind key, Name.Alike g.name f.name ∧ g.volatility = f.volatility
  := by
  constructor
  · intro h kind _
    apply h kind
  · intro h kind
    apply h kind
    cases kind <;> decide

instance (registry : Registry) (f : FunctionDecl) : Decidable (registry.Faithful f) :=
  decidable_of_iff' _ faithful_iff_forall_mem

/-- What the registry says of a name is what one of its tables has under the name, as it is
written or in lower case. -/
theorem exists_find?_of_profile?_consult {registry : Registry} {name : String} {p : Profile}
    (h : (Catalog.consult registry name).profile? = some p) :
  ∃ kind, ∃ key ∈ [name, Name.lower name], ∃ g, registry.find? kind key = some g ∧ p = g.profile
  := by
  rw [consult_eq_consultPlaces] at h
  obtain ⟨⟨kind, key⟩, hplace, g, hfind, hp⟩ := exists_entry?_of_profile?_consultPlaces h
  rw [places, List.mem_append, mem_round, mem_round] at hplace
  use kind, key, List.mem_pair.mpr hplace, g, hfind

end Registry

/-! ### The names that a catalog is asked about -/

/-- The name that a catalog answers about, if the access is such an answer. -/
def Access.subject? : Access → Option String
  | .lookup _ => none
  | .described name _ => some name

/-- The names that the catalog is asked about, in order. -/
def Assessment.inquiries (a : Assessment) : List String := a.accesses.filterMap Access.subject?

namespace Assessor

theorem inquiries_inquiry {κ : Type} [Catalog κ] (policy : StalenessPolicy) (catalog : κ)
    (name : String) :
  (Assessment.ofEvents ((Assessor.mk policy (some catalog)).inquiry name)).inquiries = [name]
  := by
  rw [Assessment.inquiries, accesses_inquiry rfl, List.filterMap_append, List.filterMap_map,
    List.filterMap_eq_nil_iff.mpr]
  · rfl
  · intro l _
    rfl

/-- A catalog is asked once about each assessed call. -/
theorem inquiries_assess {κ : Type} [Catalog κ] (policy : StalenessPolicy) (catalog : κ)
    (t : Tree) :
  ((Assessor.mk policy (some catalog)).assess t).inquiries
    = ((Assessor.mk policy (some catalog)).assessed t).map FunctionDecl.name
  := by
  have hinquiry (f : FunctionDecl) := inquiries_inquiry policy catalog f.name
  simp only [Assessment.inquiries] at hinquiry ⊢
  rw [accesses_assess_eq_flatMap_assessed, List.filterMap_flatMap, List.map_eq_flatMap]
  simp only [hinquiry]

/-! ### A faithful registry -/

variable {policy : StalenessPolicy} {registry : Registry}

/-- A call has the clearance that its declaration implies. -/
theorem clearance_assessCall_of_faithful {f : FunctionDecl} (h : registry.Faithful f) :
  ((Assessor.mk policy (some registry)).assessCall f).clearance
    = ((Assessor.mk policy (none : Option Registry)).assessCall f).clearance
  := by
  rw [clearance_assessCall, clearance_assessCall, resolve, resolve, describe, describe,
    Option.bind_some, Option.bind_none, Option.getD_none]
  cases hprofile : (Catalog.consult registry f.name).profile? with
  | none => rfl
  | some p =>
    obtain ⟨kind, key, hkey, g, hfind, rfl⟩ := Registry.exists_find?_of_profile?_consult hprofile
    obtain ⟨hname, hvolatility⟩ := h kind key hkey g hfind
    rw [Option.getD_some]
    apply Profile.clearance_congr
    · apply hname
    · simp only [FunctionDecl.profile, hvolatility]
    · simp only [FunctionDecl.profile, hvolatility]

/-- With a registry that is faithful to the calls that are assessed without it, a query has the
same clearance as without it. The registry is asked about these calls, about each of them once,
and about no other. -/
theorem assess_with_faithful_registry {t : Tree}
    (h : ∀ f ∈ (Assessor.mk policy (none : Option Registry)).assessed t, registry.Faithful f) :
  ((Assessor.mk policy (some registry)).assess t).clearance
      = ((Assessor.mk policy (none : Option Registry)).assess t).clearance
    ∧ ((Assessor.mk policy (some registry)).assess t).inquiries
      = ((Assessor.mk policy (none : Option Registry)).assessed t).map FunctionDecl.name
    ∧ ((Assessor.mk policy (some registry)).assess t).inquiries.length
      = ((Assessor.mk policy (none : Option Registry)).assessed t).length
  := by
  have hclearance : ∀ f ∈ (Assessor.mk policy (none : Option Registry)).assessed t,
      ((Assessor.mk policy (some registry)).assessCall f).clearance
        = ((Assessor.mk policy (none : Option Registry)).assessCall f).clearance := by
    intro f hf
    apply clearance_assessCall_of_faithful (h f hf)
  constructor
  · apply clearance_assess_congr hclearance
  · rw [inquiries_assess, assessed_congr hclearance, List.length_map]
    trivial

/-- A registry that has `now` under two spellings, in different tables. -/
def nowTwice : Registry :=
  (Registry.empty.register .scalar "now" ⟨"now", .stable⟩).register .aggregate "NOW"
    ⟨"Now", .stable⟩

/-- In `NOW() - Random()` the one function is found among the aggregate functions, under another
spelling of its name, and the other function is not found. -/
theorem assess_elapsedByChance_with_nowTwice :
  (Assessor.mk .standard (none : Option Registry)).assessed elapsedByChance
      = [⟨"NOW", .stable⟩, ⟨"Random", .volatile⟩]
    ∧ nowTwice.Faithful ⟨"NOW", .stable⟩
    ∧ nowTwice.Faithful ⟨"Random", .volatile⟩
    ∧ ((Assessor.mk .standard (some nowTwice)).assess elapsedByChance).clearance
      = ((Assessor.mk .standard (none : Option Registry)).assess elapsedByChance).clearance
    ∧ ((Assessor.mk .standard (some nowTwice)).assess elapsedByChance).inquiries
      = ["NOW", "Random"]
  := by
  have hassessed : (Assessor.mk .standard (none : Option Registry)).assessed elapsedByChance
      = [⟨"NOW", .stable⟩, ⟨"Random", .volatile⟩] := by decide +kernel
  have hnow : nowTwice.Faithful ⟨"NOW", .stable⟩ := by decide +kernel
  have hrandom : nowTwice.Faithful ⟨"Random", .volatile⟩ := by decide +kernel
  have hfaithful : ∀ f ∈ (Assessor.mk .standard (none : Option Registry)).assessed elapsedByChance,
      nowTwice.Faithful f := by
    rw [hassessed]
    simp [hnow, hrandom]
  obtain ⟨hclearance, hinquiries, -⟩ := assess_with_faithful_registry hfaithful
  rw [hassessed] at hinquiries
  use hassessed, hnow, hrandom, hclearance, hinquiries

end Assessor

end QueryReuse
