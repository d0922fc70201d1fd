import QueryReuse.Clearance
import QueryReuse.Profile

/-!
# Events

What happens while a query is judged, in order: functions are looked up in a catalog, and
messages are logged. An event is one such step. `Event.access?` picks out the look-ups,
`Event.message?` the messages with their wording.
-/

namespace QueryReuse

/-- The three kinds of function, each with a table of its own in a registry. -/
inductive FunctionKind where
  /-- One value for each row. -/
  | scalar
  /-- One value for a group of rows. -/
  | aggregate
  /-- One value for each row, from the rows around it. -/
  | window
deriving DecidableEq, Repr

/-- A look-up of a key in one table of a registry. -/
structure Lookup where
  /-- The table. -/
  kind : FunctionKind
  /-- The key. -/
  key : String
  /-- The table has an entry under the key. -/
  found : Bool
deriving DecidableEq, Repr

/-- An access to a catalog. -/
inductive Access where
  /-- A table of the registry behind the catalog was consulted. -/
  | lookup (lookup : Lookup)
  /-- The catalog answered what it knows of the named function. -/
  | described (name : String) (answer : Option Profile)
deriving DecidableEq, Repr

/-- One step of judging a query. -/
inductive Event where
  /-- The catalog was accessed. -/
  | access (access : Access)
  /-- The named function is in no catalog, and nothing is known of it. -/
  | unlisted (name : String)
  /-- The named function is exempt, for the given reason. -/
  | exempted (name reason : String)
  /-- The named function has this clearance, which is not full. -/
  | restricted (name : String) (clearance : Clearance)
  /-- A plan was found to have this clearance, by a walk that ended early or not. -/
  | concluded (clearance : Clearance) (early : Bool)
deriving DecidableEq, Repr

/-- The importance of a message. -/
inductive Level where
  /-- The account of a single function. -/
  | trace
  /-- The account of a whole plan. -/
  | debug
deriving DecidableEq, Repr

/-- A line of the log. -/
structure Message where
  /-- The importance. -/
  level : Level
  /-- The text. -/
  text : String
deriving DecidableEq, Repr

namespace Event

/-- The catalog access that an event is, if it is one. -/
def access? : Event → Option Access
  | .access made => some made
  | _ => none

/-- The message that an event logs, if it logs one. -/
def message? : Event → Option Message
  | .access _ => none
  | .unlisted name =>
    some ⟨.trace, "no catalog entry for '" ++ name ++ "', assuming the worst"⟩
  | .exempted name reason => some ⟨.trace, "operator '" ++ name ++ "' is exempt: " ++ reason⟩
  | .restricted name clearance =>
    some ⟨.trace, "operator '" ++ name ++ "' restricts eligibility: " ++ clearance.text⟩
  | .concluded clearance early =>
    some ⟨.debug, "classified plan: " ++ clearance.text
      ++ " (stopped early: " ++ toString early ++ ")"⟩

end Event

end QueryReuse
