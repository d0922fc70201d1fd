import QueryReuse.Name
import Std.Data.ExtTreeSet

/-!
# Staleness policies

A materialized view holds what was true when it was last refreshed. A function of the
current time gave a value that was right then and will be right again, so a view may
serve it stale; a function of the current user never gave the value of another user. A
policy lists the dynamic functions whose stale values views may serve.

The list holds upper-cased names, and a function is looked up by its upper-cased name. A
listed name that is not its own upper-casing is kept, and makes no function tolerated.
-/

namespace QueryReuse

/-- The dynamic functions whose stale values a view may serve, by upper-cased name. -/
structure StalenessPolicy where
  /-- The listed names. -/
  tolerated : Std.ExtTreeSet String
deriving DecidableEq

namespace StalenessPolicy

/-- The names that a policy lists unless told otherwise: functions of the current time. -/
def timeFunctions : List String :=
  ["CURRENT_TIME", "CURRENT_DATE", "CURRENT_TIMESTAMP", "LOCALTIME", "LOCALTIMESTAMP", "NOW",
    "STATEMENT_TIMESTAMP", "TRANSACTION_TIMESTAMP", "CURRENT_TIME_UTC", "CURRENT_DATE_UTC",
    "CURRENT_TIMESTAMP_UTC", "TIMEOFDAY", "UNIX_TIMESTAMP"]

/-- The policy that lists the given names as they are. -/
def ofNames (names : List String) : StalenessPolicy := ⟨.ofList names⟩

/-- The policy that tolerates functions of the current time. -/
def standard : StalenessPolicy := ofNames timeFunctions

/-- The policy that tolerates no function. -/
def strict : StalenessPolicy := ⟨∅⟩

instance : Inhabited StalenessPolicy := ⟨standard⟩

/-- Lists the named function. -/
def tolerate (policy : StalenessPolicy) (name : String) : StalenessPolicy :=
  ⟨policy.tolerated.insert (Name.upper name)⟩

/-- Takes the named function off the list. -/
def revoke (policy : StalenessPolicy) (name : String) : StalenessPolicy :=
  ⟨policy.tolerated.erase (Name.upper name)⟩

/-- A change to the list. -/
inductive Edit where
  /-- Lists the named function. -/
  | tolerate (name : String)
  /-- Takes the named function off the list. -/
  | revoke (name : String)
deriving DecidableEq, Repr

/-- Makes a change. -/
def edit (policy : StalenessPolicy) : Edit → StalenessPolicy
  | .tolerate name => policy.tolerate name
  | .revoke name => policy.revoke name

/-- Views may serve stale values of the named function. -/
def Tolerates (policy : StalenessPolicy) (name : String) : Prop :=
  Name.upper name ∈ policy.tolerated

instance (policy : StalenessPolicy) (name : String) : Decidable (policy.Tolerates name) :=
  inferInstanceAs (Decidable (_ ∈ _))

/-- The listed names, in the order of their characters' code points. -/
def names (policy : StalenessPolicy) : List String := policy.tolerated.toList

theorem mem_tolerated_tolerate {policy : StalenessPolicy} {name entry : String} :
  entry ∈ (policy.tolerate name).tolerated ↔ entry = Name.upper name ∨ entry ∈ policy.tolerated
  := by
  simp only [tolerate, Std.ExtTreeSet.mem_insert, Std.compare_eq_iff_eq]
  rw [eq_comm]

theorem mem_tolerated_revoke {policy : StalenessPolicy} {name entry : String} :
  entry ∈ (policy.revoke name).tolerated ↔ entry ≠ Name.upper name ∧ entry ∈ policy.tolerated
  := by
  simp only [revoke, Std.ExtTreeSet.mem_erase, Std.compare_eq_iff_eq, ne_eq]
  rw [eq_comm]

end StalenessPolicy

end QueryReuse
