import QueryReuse.Assessment
import QueryReuse.Catalog.Basic
import QueryReuse.Profile.Clearance

/-!
# Assessors

An assessor has a staleness policy and may have a catalog. It assesses functions: one
whose profile is given, one that is known by name alone, and one that is called with a
declaration at hand. The catalog comes first in the last two cases. Where it has nothing
to say, the worst is assumed of a name, and the declaration is believed of a call.
-/

namespace QueryReuse

/-- What functions are assessed by. -/
structure Assessor (κ : Type) where
  /-- The staleness policy. -/
  policy : StalenessPolicy := .standard
  /-- The catalog, if there is one. -/
  catalog : Option κ := none

namespace Assessor

variable {κ : Type}

/-- The assessment of a function with the given profile. -/
def assessProfile (c : Assessor κ) (f : Profile) : Assessment where
  clearance := f.clearance c.policy
  events := f.remarks c.policy

variable [Catalog κ]

/-- What the catalog says about a name. -/
def describe (c : Assessor κ) (name : String) : Option Profile :=
  c.catalog.bind fun catalog => (Catalog.consult catalog name).profile?

/-- The events of asking the catalog about a name. -/
def inquiry (c : Assessor κ) (name : String) : List Event :=
  match c.catalog with
  | none => []
  | some catalog =>
    let answer := Catalog.consult catalog name
    answer.lookups.map (fun lookup => .access (.lookup lookup))
      ++ [.access (.described name answer.profile?)]

/-- The assessment of a function of which only the name is known. -/
def assessName (c : Assessor κ) (name : String) : Assessment :=
  .ofEvents (c.inquiry name)
    ++ match c.describe name with
      | some f => c.assessProfile f
      | none => .ofEvents [.unlisted name] ++ c.assessProfile (.unknown name)

/-- The profile by which a called function is judged. -/
def resolve (c : Assessor κ) (f : FunctionDecl) : Profile :=
  (c.describe f.name).getD f.profile

/-- The assessment of a call, its arguments aside. -/
def assessCall (c : Assessor κ) (f : FunctionDecl) : Assessment :=
  .ofEvents (c.inquiry f.name) ++ c.assessProfile (c.resolve f)

end Assessor

end QueryReuse
