import QueryReuse.Catalog.Basic
import Std.Data.ExtTreeMap

/-!
# Tables of profiles

The plainest catalog lists profiles by key. A name is found under the key that equals it,
letter case included, and the profile found may bear another name than its key.
-/

namespace QueryReuse

/-- A catalog that lists profiles by key. -/
structure ProfileTable where
  /-- The profiles. -/
  entries : Std.ExtTreeMap String Profile

namespace ProfileTable

/-- The table with no profile. -/
def empty : ProfileTable := ⟨∅⟩

/-- Lists a profile under a key, in place of any profile listed there before. -/
def insert (table : ProfileTable) (key : String) (f : Profile) : ProfileTable :=
  ⟨table.entries.insert key f⟩

/-- Takes the profile listed under a key off the table. -/
def erase (table : ProfileTable) (key : String) : ProfileTable := ⟨table.entries.erase key⟩

instance : Catalog ProfileTable where
  consult table name := { profile? := table.entries[name]?, lookups := [] }

theorem consult_insert (table : ProfileTable) (key name : String) (f : Profile) :
  Catalog.consult (table.insert key f) name
    = if key = name then ⟨some f, []⟩ else Catalog.consult table name
  := by
  by_cases h : key = name <;>
    simp [Catalog.consult, insert, Std.ExtTreeMap.getElem?_insert, h]

theorem consult_erase (table : ProfileTable) (key name : String) :
  Catalog.consult (table.erase key) name
    = if key = name then ⟨none, []⟩ else Catalog.consult table name
  := by
  by_cases h : key = name <;>
    simp [Catalog.consult, erase, Std.ExtTreeMap.getElem?_erase, h]

end ProfileTable

end QueryReuse
