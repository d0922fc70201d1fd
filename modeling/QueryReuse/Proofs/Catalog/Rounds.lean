import QueryReuse.Proofs.Catalog.LowerKeyed

/-!
# The rounds of a look-up

A registry looks a name up at six places: in its three tables as the name is written, and then
in the three tables in lower case. The first function found answers, and nothing is looked up
after it. The main statement says this of every registry and name, for the answer and for the
look-ups made. So a function under the very name comes before all functions under the name in
lower case, and among functions under the same spelling the table decides.
-/

namespace QueryReuse.Registry

/-- The places at which a key is looked up, in order: one in each table. -/
def round (key : String) : List (FunctionKind × String) :=
  [(.scalar, key), (.aggregate, key), (.window, key)]

/-- The places at which a name is looked up, in order. -/
def places (name : String) : List (FunctionKind × String) :=
  round name ++ round (Name.lower name)

/-- The function registered at a place. -/
def entry? (registry : Registry) (place : FunctionKind × String) : Option FunctionDecl :=
  registry.find? place.1 place.2

/-- The look-up at a place. -/
def lookupAt (registry : Registry) (place : FunctionKind × String) : Lookup where
  kind := place.1
  key := place.2
  found := (registry.entry? place).isSome

/-- The answer of several places together. -/
def consultPlaces (registry : Registry) : List (FunctionKind × String) → Catalog.Answer
  | [] => { profile? := none, lookups := [] }
  | place :: places =>
    (registry.consultTable place.1 place.2).orElse (registry.consultPlaces places)

variable {registry : Registry}

theorem mem_round {place : FunctionKind × String} {key : String} :
  place ∈ round key ↔ place.2 = key
  := by
  obtain ⟨kind, key'⟩ := place
  cases kind <;> simp [round]

theorem consultPlaces_append (registry : Registry) (ps qs : List (FunctionKind × String)) :
  registry.consultPlaces (ps ++ qs)
    = (registry.consultPlaces ps).orElse (registry.consultPlaces qs)
  := by
  induction ps with
  | nil => rfl
  | cons p ps ih =>
    rw [List.cons_append, consultPlaces, ih, consultPlaces, Catalog.Answer.orElse_assoc]

theorem consultKey_eq_consultPlaces (registry : Registry) (key : String) :
  registry.consultKey key = registry.consultPlaces (round key)
  := by
  simp only [consultKey, round, consultPlaces, Catalog.Answer.orElse_nothing]

theorem consult_eq_consultPlaces (registry : Registry) (name : String) :
  Catalog.consult registry name = registry.consultPlaces (places name)
  := by
  rw [places, consultPlaces_append, ← consultKey_eq_consultPlaces, ← consultKey_eq_consultPlaces]
  rfl

/-! ### The first function found -/

theorem consultTable_eq (registry : Registry) (place : FunctionKind × String) :
  registry.consultTable place.1 place.2
    = { profile? := (registry.entry? place).map FunctionDecl.profile
        lookups := [registry.lookupAt place] }
  := rfl

theorem consultPlaces_cons_of_eq_some {place : FunctionKind × String} {f : FunctionDecl}
    (h : registry.entry? place = some f) (places : List (FunctionKind × String)) :
  registry.consultPlaces (place :: places)
    = { profile? := some f.profile, lookups := [registry.lookupAt place] }
  := by
  rw [consultPlaces, consultTable_eq, h, Option.map_some, Catalog.Answer.orElse_of_eq_some rfl]

theorem consultPlaces_cons_of_eq_none {place : FunctionKind × String}
    (h : registry.entry? place = none) (places : List (FunctionKind × String)) :
  registry.consultPlaces (place :: places)
    = { profile? := (registry.consultPlaces places).profile?
        lookups := registry.lookupAt place :: (registry.consultPlaces places).lookups }
  := by
  rw [consultPlaces, consultTable_eq, h, Option.map_none, Catalog.Answer.orElse_of_eq_none rfl,
    List.singleton_append]

/-- The first function found answers, and the look-ups end with it. -/
theorem consultPlaces_eq (registry : Registry) (places : List (FunctionKind × String)) :
  registry.consultPlaces places
    = { profile? := (places.findSome? registry.entry?).map FunctionDecl.profile
        lookups :=
          let lookups := places.map registry.lookupAt
          lookups.take (lookups.findIdx Lookup.found + 1) }
  := by
  induction places with
  | nil => rfl
  | cons place places ih =>
    rw [List.map_cons, List.findSome?_cons]
    cases h : registry.entry? place with
    | some f =>
      have hfound : (registry.lookupAt place).found = true := by
        rw [lookupAt, h, Option.isSome_some]
      rw [consultPlaces_cons_of_eq_some h]
      simp [List.findIdx_cons, hfound]
    | none =>
      have hfound : (registry.lookupAt place).found = false := by
        rw [lookupAt, h, Option.isSome_none]
      rw [consultPlaces_cons_of_eq_none h, ih]
      simp [List.findIdx_cons, hfound]

theorem mem_lookups_consultPlaces {places : List (FunctionKind × String)} {l : Lookup}
    (h : l ∈ (registry.consultPlaces places).lookups) :
  ∃ place ∈ places, l = registry.lookupAt place
  := by
  rw [consultPlaces_eq] at h
  obtain ⟨place, hplace, rfl⟩ := List.mem_map.mp (List.mem_of_mem_take h)
  use place, hplace

theorem exists_entry?_of_profile?_consultPlaces {places : List (FunctionKind × String)}
    {p : Profile} (h : (registry.consultPlaces places).profile? = some p) :
  ∃ place ∈ places, ∃ f, registry.entry? place = some f ∧ p = f.profile
  := by
  rw [consultPlaces_eq] at h
  obtain ⟨f, hfirst, rfl⟩ := Option.map_eq_some_iff.mp h
  obtain ⟨place, hplace, hf⟩ := List.exists_of_findSome?_eq_some hfirst
  use place, hplace, f, hf

theorem profile?_consultPlaces_eq_none_iff {places : List (FunctionKind × String)} :
  (registry.consultPlaces places).profile? = none
    ↔ ∀ place ∈ places, registry.entry? place = none
  := by
  rw [consultPlaces_eq, Option.map_eq_none_iff, List.findSome?_eq_none_iff]

/-- If no function is found, then all places are looked up. -/
theorem lookups_consultPlaces_of_eq_none {places : List (FunctionKind × String)}
    (h : (registry.consultPlaces places).profile? = none) :
  (registry.consultPlaces places).lookups = places.map registry.lookupAt
  := by
  induction places with
  | nil => rfl
  | cons place places ih =>
    obtain ⟨hplace, hplaces⟩ := List.forall_mem_cons.mp (profile?_consultPlaces_eq_none_iff.mp h)
    rw [consultPlaces_cons_of_eq_none hplace, ih (profile?_consultPlaces_eq_none_iff.mpr hplaces),
      List.map_cons]

/-- If one of the places has a function, then a function at one of them answers. -/
theorem exists_profile?_consultPlaces {places : List (FunctionKind × String)}
    {place : FunctionKind × String} (hplace : place ∈ places) {f : FunctionDecl}
    (hf : registry.entry? place = some f) :
  ∃ place ∈ places, ∃ g, registry.entry? place = some g
    ∧ (registry.consultPlaces places).profile? = some g.profile
  := by
  cases hprofile : (registry.consultPlaces places).profile? with
  | none =>
    rw [profile?_consultPlaces_eq_none_iff.mp hprofile place hplace] at hf
    contradiction
  | some p =>
    obtain ⟨place, hplace, g, hg, rfl⟩ := exists_entry?_of_profile?_consultPlaces hprofile
    use place, hplace, g, hg

/-- If a function is registered under a name as it is written, then such a function answers, and
the name is looked up in no other spelling. -/
theorem consult_of_find?_eq_some {kind : FunctionKind} {name : String} {f : FunctionDecl}
    (hf : registry.find? kind name = some f) :
  (∃ kind' g, registry.find? kind' name = some g
      ∧ (Catalog.consult registry name).profile? = some g.profile)
    ∧ ∀ l ∈ (Catalog.consult registry name).lookups, l.key = name
  := by
  have hplace : (kind, name) ∈ round name := mem_round.mpr rfl
  obtain ⟨⟨kind', key⟩, hfirst, g, hg, hprofile⟩ := exists_profile?_consultPlaces hplace hf
  obtain rfl : key = name := mem_round.mp hfirst
  rw [consult_eq_consultPlaces, places, consultPlaces_append,
    Catalog.Answer.orElse_of_eq_some hprofile]
  constructor
  · use kind', g, hg, hprofile
  · intro l hl
    obtain ⟨place, hplace, rfl⟩ := mem_lookups_consultPlaces hl
    apply mem_round.mp hplace

/-- The first function found at the places of a name answers, and the look-ups end with it. There
is no answer exactly if no place has a function, and then all places are looked up. A function
under the name as it is written comes before all functions under the name in lower case, in
whatever tables they are. If all keys are in lower case, then names that are alike get the same
answer. -/
theorem consult_first_of_places (registry : Registry) (name : String) :
  Catalog.consult registry name
      = { profile? := ((places name).findSome? registry.entry?).map FunctionDecl.profile
          lookups :=
            let lookups := (places name).map registry.lookupAt
            lookups.take (lookups.findIdx Lookup.found + 1) }
    ∧ ((Catalog.consult registry name).profile? = none
      ↔ ∀ place ∈ places name, registry.entry? place = none)
    ∧ ((Catalog.consult registry name).profile? = none →
      (Catalog.consult registry name).lookups = (places name).map registry.lookupAt)
    ∧ (∀ kind f, registry.find? kind name = some f →
      (∃ kind' g, registry.find? kind' name = some g
        ∧ (Catalog.consult registry name).profile? = some g.profile)
      ∧ ∀ l ∈ (Catalog.consult registry name).lookups, l.key = name)
    ∧ (registry.LowerKeyed → ∀ other, Name.Alike name other →
      (Catalog.consult registry name).profile? = (Catalog.consult registry other).profile?)
  := by
  constructor
  · rw [consult_eq_consultPlaces, consultPlaces_eq]
  constructor
  · rw [consult_eq_consultPlaces, profile?_consultPlaces_eq_none_iff]
  constructor
  · rw [consult_eq_consultPlaces]
    apply lookups_consultPlaces_of_eq_none
  constructor
  · intro kind f hf
    apply consult_of_find?_eq_some hf
  · intro h other halike
    apply h.profile?_consult_congr halike

/-- A registry that has `now` among the scalar functions. -/
def lowerNow : Registry := empty.register .scalar "now" ⟨"now", .stable⟩

/-- A window function under `NOW` comes before the scalar function under `now`, which `Now` finds
in the second round. -/
theorem consult_now_first_of_places :
  (lowerNow.register .window "NOW" ⟨"moment", .volatile⟩).find? .window "NOW"
      = some ⟨"moment", .volatile⟩
    ∧ (∀ l ∈ (Catalog.consult (lowerNow.register .window "NOW" ⟨"moment", .volatile⟩)
        "NOW").lookups, l.key = "NOW")
    ∧ lowerNow.LowerKeyed
    ∧ (Catalog.consult lowerNow "Now").profile? = (Catalog.consult lowerNow "NOW").profile?
    ∧ (Catalog.consult lowerNow "today").profile? = none
    ∧ (Catalog.consult lowerNow "today").lookups.length = 6
  := by
  have hwindow : (lowerNow.register .window "NOW" ⟨"moment", .volatile⟩).find? .window "NOW"
      = some ⟨"moment", .volatile⟩ := by decide +kernel
  have hlower : lowerNow.LowerKeyed := by
    apply lowerKeyed_empty.register
    simp [Name.IsLower]
  have htoday : (Catalog.consult lowerNow "today").profile? = none := by decide +kernel
  obtain ⟨-, -, -, hexact, -⟩ :=
    consult_first_of_places (lowerNow.register .window "NOW" ⟨"moment", .volatile⟩) "NOW"
  obtain ⟨-, -, -, -, halike⟩ := consult_first_of_places lowerNow "Now"
  obtain ⟨-, -, hmissed, -, -⟩ := consult_first_of_places lowerNow "today"
  use hwindow, (hexact _ _ hwindow).2, hlower
  constructor
  · apply halike hlower
    decide +kernel
  · use htoday
    rw [hmissed htoday, List.length_map]
    rfl

end QueryReuse.Registry
