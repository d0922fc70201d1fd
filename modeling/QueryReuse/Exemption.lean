import QueryReuse.Name

/-!
# Exemptions

A few functions are cleared for every reuse whatever their profile says. Each exemption
carries its reason, and is to be removed once the profile of the function is right.
-/

namespace QueryReuse

/-- A function cleared for every reuse. -/
structure Exemption where
  /-- The upper-cased name of the function. -/
  name : String
  /-- Why the function is exempt. -/
  reason : String
deriving DecidableEq, Repr

namespace Exemption

/-- All exemptions. -/
def table : List Exemption :=
  [{ name := "FLATTEN"
     reason := "flatten changes row cardinality, so it is declared non-deterministic to keep "
      ++ "expression simplification from folding it into a constant; its results are "
      ++ "still safe to cache. Remove once flatten is retired." }]

/-- The exemption of the named function, if it has one. -/
def find? (name : String) : Option Exemption :=
  table.find? fun exemption => Name.Alike exemption.name name

end Exemption

end QueryReuse
