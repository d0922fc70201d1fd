/-!
# Functions and their profiles

A function declares a name and a volatility. Its profile says two things about its
values: whether they depend on the arguments alone or also on chance, and whether they
depend on the context that the query runs in.
-/

namespace QueryReuse

/-- How far a function's value may vary between calls with the same arguments. -/
inductive Volatility where
  /-- The value never varies. -/
  | immutable
  /-- The value is the same throughout one query and may differ in the next. -/
  | stable
  /-- The value may differ at every call. -/
  | volatile
deriving DecidableEq, Repr

/-- A function as it declares itself. -/
structure FunctionDecl where
  /-- The name. -/
  name : String
  /-- The volatility. -/
  volatility : Volatility
deriving DecidableEq, Repr

/-- What is known of a function. -/
structure Profile where
  /-- The name. -/
  name : String
  /-- The same arguments always give the same value. -/
  deterministic : Bool
  /-- The value depends on the context that the query runs in, such as time and user. -/
  dynamic : Bool
deriving DecidableEq, Repr

/-- The profile of a function about which nothing is known: the worst is assumed. -/
def Profile.unknown (name : String) : Profile where
  name := name
  deterministic := false
  dynamic := true

/-- The profile that a declaration implies. A stable function's value comes from the
context of the query, a volatile one's from chance. -/
def FunctionDecl.profile (f : FunctionDecl) : Profile where
  name := f.name
  deterministic := f.volatility ≠ .volatile
  dynamic := f.volatility = .stable

end QueryReuse
