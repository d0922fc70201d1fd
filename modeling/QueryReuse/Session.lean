import QueryReuse.Catalog.Source
import QueryReuse.Walk

/-!
# Sessions

In a session one assessor answers questions one after the other, while its catalog is
edited or replaced between them. Each step has one reply.
-/

namespace QueryReuse

namespace Session

/-- A step of a session. -/
inductive Step where
  /-- Assesses a function known by name. -/
  | assessName (name : String)
  /-- Assesses a function with a given profile. -/
  | assessProfile (f : Profile)
  /-- Assesses an expression or a plan. -/
  | assess (t : Tree)
  /-- Asks the catalog about a name. -/
  | describe (name : String)
  /-- Asks for the names on the staleness policy. -/
  | listNames
  /-- Goes on with a copy of the assessor, which is the assessor. -/
  | copy
  /-- Goes on with another assessor. -/
  | renew (c : Assessor Source)
  /-- Goes on with another catalog. -/
  | adopt (source : Source)
  /-- Edits the catalog. -/
  | edit (change : Source.Edit)

/-- The reply to a step. -/
inductive Reply where
  /-- An assessment. -/
  | assessed (a : Assessment)
  /-- What the catalog said, and how it was accessed. -/
  | described (f : Option Profile) (accesses : List Access)
  /-- The names on the staleness policy. -/
  | names (names : List String)
  /-- The step is done. -/
  | done
deriving DecidableEq, Repr

/-- The assessor after a step. -/
def next (c : Assessor Source) : Step → Assessor Source
  | .renew c' => c'
  | .adopt source => { c with catalog := some source }
  | .edit change => { c with catalog := c.catalog.map fun source => source.edit change }
  | _ => c

/-- The reply to a step. -/
def reply (c : Assessor Source) : Step → Reply
  | .assessName name => .assessed (c.assessName name)
  | .assessProfile f => .assessed (c.assessProfile f)
  | .assess t => .assessed (c.assess t)
  | .describe name =>
    .described (c.describe name) (Assessment.ofEvents (c.inquiry name)).accesses
  | .listNames => .names c.policy.names
  | .copy => .done
  | .renew _ => .done
  | .adopt _ => .done
  | .edit _ => .done

/-- The replies to the steps of a session. -/
def run (c : Assessor Source) : List Step → List Reply
  | [] => []
  | step :: steps => reply c step :: run (next c step) steps

end Session

end QueryReuse
