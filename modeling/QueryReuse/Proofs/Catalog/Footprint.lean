import QueryReuse.Catalog.Source

/-!
# What an answer depends on

A registry answers from the entries that it looks up, and a table of profiles from the entry
under the name. So an answer depends on few places: what a registry has in lower case does not
matter if the name is found as it is written, and an aggregate function does not matter behind a
scalar function of the same name. The main statement is that an edit anywhere else leaves the
answer as it is, the look-ups included.
-/

namespace QueryReuse

/-- A place where a catalog has an entry. -/
inductive Place where
  /-- A key in one of the tables of a registry. -/
  | function (kind : FunctionKind) (key : String)
  /-- A key in a table of profiles. -/
  | profile (key : String)
deriving DecidableEq, Repr

/-- The place that is read. -/
def Access.place : Access → Place
  | .lookup l => .function l.kind l.key
  | .described name _ => .profile name

/-- The place that is changed. -/
def Source.Edit.place : Source.Edit → Place
  | .register kind key _ => .function kind key
  | .unregister kind key => .function kind key
  | .insert key _ => .profile key
  | .erase key => .profile key

/-- If each of two answers depends on its look-ups only, then so does the answer that takes the
second where the first has no profile. -/
theorem Catalog.Answer.orElse_congr {a a' b b' : Answer} {same : Lookup → Prop}
    (ha : (∀ l ∈ a.lookups, same l) → a' = a) (hb : (∀ l ∈ b.lookups, same l) → b' = b)
    (h : ∀ l ∈ (a.orElse b).lookups, same l) :
  a'.orElse b' = a.orElse b
  := by
  cases hprofile : a.profile? with
  | some p =>
    rw [orElse_of_eq_some hprofile] at h ⊢
    rw [ha h, orElse_of_eq_some hprofile]
  | none =>
    rw [orElse_of_eq_none hprofile] at h
    obtain ⟨hla, hlb⟩ := List.forall_mem_append.mp h
    rw [ha hla, hb hlb]

namespace Registry

variable {r r' : Registry}

theorem consultTable_congr {kind : FunctionKind} {key : String}
    (h : ∀ l ∈ (r.consultTable kind key).lookups,
      r'.find? l.kind l.key = r.find? l.kind l.key) :
  r'.consultTable kind key = r.consultTable kind key
  := by
  have hfind : r'.find? kind key = r.find? kind key := h _ List.mem_cons_self
  rw [consultTable, consultTable, hfind]

theorem consultKey_congr {key : String}
    (h : ∀ l ∈ (r.consultKey key).lookups, r'.find? l.kind l.key = r.find? l.kind l.key) :
  r'.consultKey key = r.consultKey key
  := by
  apply Catalog.Answer.orElse_congr consultTable_congr _ h
  apply Catalog.Answer.orElse_congr consultTable_congr consultTable_congr

/-- Registries that have the same at the places looked up for an answer give the same answer. -/
theorem consult_congr {name : String}
    (h : ∀ l ∈ (Catalog.consult r name).lookups,
      r'.find? l.kind l.key = r.find? l.kind l.key) :
  Catalog.consult r' name = Catalog.consult r name
  := by
  apply Catalog.Answer.orElse_congr consultKey_congr consultKey_congr h

end Registry

namespace Source

theorem find?_edit_registry {r r' : Registry} {edit : Edit} {kind : FunctionKind} {key : String}
    (hedit : (registry r).edit edit = registry r') (h : edit.place ≠ .function kind key) :
  r'.find? kind key = r.find? kind key
  := by
  cases edit with
  | register kind' key' f =>
    obtain rfl := registry.inj hedit
    rw [Registry.find?_register, if_neg]
    simpa [Edit.place] using h
  | unregister kind' key' =>
    obtain rfl := registry.inj hedit
    rw [Registry.find?_unregister, if_neg]
    simpa [Edit.place] using h
  | insert key' f => rw [registry.inj hedit]
  | erase key' => rw [registry.inj hedit]

theorem consult_edit_profiles {table : ProfileTable} {edit : Edit} {name : String}
    (h : edit.place ≠ .profile name) :
  Catalog.consult ((profiles table).edit edit) name = Catalog.consult (profiles table) name
  := by
  cases edit with
  | register kind key f => rfl
  | unregister kind key => rfl
  | insert key f =>
    apply Eq.trans (ProfileTable.consult_insert table key name f)
    rw [if_neg]
    · rfl
    · simpa [Edit.place] using h
  | erase key =>
    apply Eq.trans (ProfileTable.consult_erase table key name)
    rw [if_neg]
    · rfl
    · simpa [Edit.place] using h

/-- An edit at a place that is not read for an answer leaves the answer as it is. -/
theorem consult_edit {source : Source} {edit : Edit} {name : String}
    (hname : edit.place ≠ .profile name)
    (hlookups : ∀ l ∈ (Catalog.consult source name).lookups, edit.place ≠ (Access.lookup l).place) :
  Catalog.consult (source.edit edit) name = Catalog.consult source name
  := by
  cases source with
  | profiles table => apply consult_edit_profiles hname
  | registry r =>
    obtain ⟨r', hr'⟩ : ∃ r', (registry r).edit edit = registry r' := by
      cases edit <;> exact ⟨_, rfl⟩
    rw [hr']
    apply Registry.consult_congr
    intro l hl
    apply find?_edit_registry hr' (hlookups l hl)

end Source

end QueryReuse
