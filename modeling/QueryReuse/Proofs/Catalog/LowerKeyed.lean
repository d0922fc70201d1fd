import QueryReuse.Catalog.Registry
import QueryReuse.Proofs.Name

/-!
# Registries with keys in lower case

The registries that occur in practice have keys in lower case. Such a registry has nothing
under a name with letters in upper case, so that the second round of the look-up decides, and
under a name in lower case both rounds find the same. Therefore the case of the letters of a
name makes no difference to the answer.
-/

namespace QueryReuse.Registry

/-- All keys of the registry are in lower case. -/
def LowerKeyed (registry : Registry) : Prop :=
  ∀ kind key f, registry.find? kind key = some f → Name.IsLower key

theorem lowerKeyed_empty :
  empty.LowerKeyed
  := by
  intro kind key f hfind
  cases kind <;> simp [find?, table, empty] at hfind

/-- A registry stays in lower case when a function is registered under such a key. -/
theorem LowerKeyed.register {registry : Registry} (h : registry.LowerKeyed) (kind : FunctionKind)
    {key : String} (hkey : Name.IsLower key) (f : FunctionDecl) :
  (registry.register kind key f).LowerKeyed
  := by
  intro kind' key' f' hfind
  rw [find?_register] at hfind
  split at hfind
  case isTrue hkeys =>
    rw [← hkeys.2]
    apply hkey
  case isFalse =>
    apply h kind' key' f' hfind

/-- A registry stays in lower case when a function is removed. -/
theorem LowerKeyed.unregister {registry : Registry} (h : registry.LowerKeyed)
    (kind : FunctionKind) (key : String) :
  (registry.unregister kind key).LowerKeyed
  := by
  intro kind' key' f' hfind
  rw [find?_unregister] at hfind
  split at hfind
  case isTrue => cases hfind
  case isFalse => apply h kind' key' f' hfind

/-- The three tables have nothing under a name that is not in lower case. -/
theorem LowerKeyed.profile?_consultKey_eq_none {registry : Registry} (h : registry.LowerKeyed)
    {key : String} (hkey : ¬Name.IsLower key) :
  (registry.consultKey key).profile? = none
  := by
  have hfind (kind : FunctionKind) : registry.find? kind key = none := by
    apply Option.eq_none_iff_forall_ne_some.mpr
    intro f hf
    apply hkey (h kind key f hf)
  simp only [consultKey, Catalog.Answer.orElse, consultTable, hfind, Option.map_none,
    Option.or_none]

/-- The answer is that of the second round. -/
theorem LowerKeyed.profile?_consult {registry : Registry} (h : registry.LowerKeyed)
    (name : String) :
  (Catalog.consult registry name).profile? = (registry.consultKey (Name.lower name)).profile?
  := by
  show (registry.consultKey name).profile?.or (registry.consultKey (Name.lower name)).profile? = _
  by_cases hname : Name.IsLower name
  · rw [hname.lower_eq, Option.or_self]
  · rw [h.profile?_consultKey_eq_none hname, Option.none_or]

/-- Under names that are alike the same function is found. -/
theorem LowerKeyed.profile?_consult_congr {registry : Registry} (h : registry.LowerKeyed)
    {a b : String} (hab : Name.Alike a b) :
  (Catalog.consult registry a).profile? = (Catalog.consult registry b).profile?
  := by
  rw [h.profile?_consult, h.profile?_consult, hab]

end QueryReuse.Registry
