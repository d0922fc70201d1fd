import QueryReuse.Event
import QueryReuse.Profile

/-!
# Catalogs

A catalog knows the profiles of functions by name. It answers every question about a name
in the same way, and its answer lists the registry tables that were consulted for it.
-/

namespace QueryReuse

namespace Catalog

/-- What a catalog answers about a name. -/
structure Answer where
  /-- The profile of the named function, if the catalog has it. -/
  profile? : Option Profile
  /-- The tables consulted, in order. -/
  lookups : List Lookup
deriving DecidableEq, Repr

/-- The answer `a`, or `b` if `a` has no profile; then the tables behind `a` were consulted
before those behind `b`. -/
def Answer.orElse (a b : Answer) : Answer where
  profile? := a.profile?.or b.profile?
  lookups :=
    match a.profile? with
    | some _ => a.lookups
    | none => a.lookups ++ b.lookups

namespace Answer

variable {a : Answer}

theorem orElse_of_eq_some {p : Profile} (h : a.profile? = some p) (b : Answer) :
  a.orElse b = a
  := by
  cases a
  cases h
  rfl

theorem orElse_of_eq_none (h : a.profile? = none) (b : Answer) :
  a.orElse b = { profile? := b.profile?, lookups := a.lookups ++ b.lookups }
  := by
  rw [orElse, h, Option.none_or]

theorem orElse_assoc (a b c : Answer) :
  (a.orElse b).orElse c = a.orElse (b.orElse c)
  := by
  cases ha : a.profile? with
  | some p => rw [orElse_of_eq_some ha, orElse_of_eq_some ha, orElse_of_eq_some ha]
  | none =>
    rw [orElse_of_eq_none ha, orElse_of_eq_none ha]
    cases hb : b.profile? with
    | some p => rw [orElse_of_eq_some hb, orElse_of_eq_some rfl, hb]
    | none => rw [orElse_of_eq_none hb, orElse_of_eq_none rfl, List.append_assoc]

theorem orElse_nothing (a : Answer) :
  a.orElse { profile? := none, lookups := [] } = a
  := by
  obtain ⟨_ | p, lookups⟩ := a <;> simp [orElse]

end Answer

end Catalog

/-- The type `κ` is a type of catalogs. -/
class Catalog (κ : Type) where
  /-- What the catalog answers about a name. -/
  consult : κ → String → Catalog.Answer

end QueryReuse
