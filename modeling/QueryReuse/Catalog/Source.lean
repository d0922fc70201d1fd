import QueryReuse.Catalog.ProfileTable
import QueryReuse.Catalog.Registry

/-!
# Sources

A source is one of the two catalogs at hand, a table of profiles or a registry. It can be
edited entry by entry; an edit that is meant for the other catalog changes nothing.
-/

namespace QueryReuse

/-- A catalog of either form. -/
inductive Source where
  /-- A table of profiles. -/
  | profiles (table : ProfileTable)
  /-- A registry of functions. -/
  | registry (registry : Registry)

namespace Source

instance : Catalog Source where
  consult
    | .profiles t, name => Catalog.consult t name
    | .registry r, name => Catalog.consult r name

/-- A change to one entry. -/
inductive Edit where
  /-- Registers a function under a key. -/
  | register (kind : FunctionKind) (key : String) (f : FunctionDecl)
  /-- Removes the function registered under a key. -/
  | unregister (kind : FunctionKind) (key : String)
  /-- Lists a profile under a key. -/
  | insert (key : String) (f : Profile)
  /-- Removes the profile listed under a key. -/
  | erase (key : String)
deriving DecidableEq, Repr

/-- Makes a change. -/
def edit : Source → Edit → Source
  | .registry r, .register kind key f => .registry (r.register kind key f)
  | .registry r, .unregister kind key => .registry (r.unregister kind key)
  | .profiles t, .insert key f => .profiles (t.insert key f)
  | .profiles t, .erase key => .profiles (t.erase key)
  | source, _ => source

end Source

end QueryReuse
