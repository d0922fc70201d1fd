import QueryReuse.Catalog.Basic
import QueryReuse.Name
import Std.Data.ExtTreeMap

/-!
# Function registries

A registry holds one table of function declarations for each kind of function. A name is
looked up as it is written in all three tables, scalar functions first and window
functions last, and then in lower case in the same tables; the first entry found answers.
The second round is made also for a name that is in lower case already. A declaration
found may bear another name than its key, and the profile bears the declared one.
-/

namespace QueryReuse

/-- The declarations of one kind of function, by key. -/
abbrev FunctionTable := Std.ExtTreeMap String FunctionDecl

/-- The functions of a system. -/
structure Registry where
  /-- The scalar functions. -/
  scalars : FunctionTable
  /-- The aggregate functions. -/
  aggregates : FunctionTable
  /-- The window functions. -/
  windows : FunctionTable

namespace Registry

/-- The registry with no function. -/
def empty : Registry := ⟨∅, ∅, ∅⟩

/-- The table of a kind of function. -/
def table (registry : Registry) : FunctionKind → FunctionTable
  | .scalar => registry.scalars
  | .aggregate => registry.aggregates
  | .window => registry.windows

/-- Changes the table of a kind of function. -/
def modify (registry : Registry) (kind : FunctionKind) (change : FunctionTable → FunctionTable) :
    Registry :=
  match kind with
  | .scalar => { registry with scalars := change registry.scalars }
  | .aggregate => { registry with aggregates := change registry.aggregates }
  | .window => { registry with windows := change registry.windows }

/-- Registers a function under a key, in place of any function registered there before. -/
def register (registry : Registry) (kind : FunctionKind) (key : String) (f : FunctionDecl) :
    Registry :=
  registry.modify kind (·.insert key f)

/-- Removes the function registered under a key. -/
def unregister (registry : Registry) (kind : FunctionKind) (key : String) : Registry :=
  registry.modify kind (·.erase key)

/-- The function registered under a key. -/
def find? (registry : Registry) (kind : FunctionKind) (key : String) : Option FunctionDecl :=
  (registry.table kind)[key]?

/-- The answer of a single table. -/
def consultTable (registry : Registry) (kind : FunctionKind) (key : String) : Catalog.Answer where
  profile? := (registry.find? kind key).map FunctionDecl.profile
  lookups := [{ kind := kind, key := key, found := (registry.find? kind key).isSome }]

/-- The answer of the three tables together. -/
def consultKey (registry : Registry) (key : String) : Catalog.Answer :=
  (registry.consultTable .scalar key).orElse
    ((registry.consultTable .aggregate key).orElse (registry.consultTable .window key))

instance : Catalog Registry where
  consult registry name :=
    (registry.consultKey name).orElse (registry.consultKey (Name.lower name))

theorem find?_register (registry : Registry) (kind kind' : FunctionKind) (key key' : String)
    (f : FunctionDecl) :
  (registry.register kind key f).find? kind' key'
    = if kind = kind' ∧ key = key' then some f else registry.find? kind' key'
  := by
  cases kind <;> cases kind' <;>
    simp [find?, register, modify, table, Std.ExtTreeMap.getElem?_insert]

theorem find?_unregister (registry : Registry) (kind kind' : FunctionKind) (key key' : String) :
  (registry.unregister kind key).find? kind' key'
    = if kind = kind' ∧ key = key' then none else registry.find? kind' key'
  := by
  cases kind <;> cases kind' <;>
    simp [find?, unregister, modify, table, Std.ExtTreeMap.getElem?_erase]

end Registry

end QueryReuse
