import QueryReuse.Clearance
import QueryReuse.Event
import QueryReuse.Exemption
import QueryReuse.StalenessPolicy

/-!
# The clearance of a single function

What a function admits follows from its profile and the staleness policy. A plan that
calls it may be kept if its value depends on the arguments alone; a view may be refreshed
incrementally if its value does not depend on the context; a view may stand in if, beyond
that, the policy tolerates stale values of the function. Exempt functions admit all.
-/

namespace QueryReuse.Profile

/-- The clearance of a function, its arguments aside. -/
def clearance (policy : StalenessPolicy) (f : Profile) : Clearance :=
  if (Exemption.find? f.name).isSome then .full
  else
    { planCache := f.deterministic && !f.dynamic
      viewMatch := !f.dynamic || policy.Tolerates f.name
      incrementalRefresh := !f.dynamic }

/-- What is said about the clearance of a function: that it is exempt, or that it
restricts reuse, and nothing about any other. -/
def remarks (policy : StalenessPolicy) (f : Profile) : List Event :=
  match Exemption.find? f.name with
  | some exemption => [.exempted f.name exemption.reason]
  | none =>
    if f.clearance policy = .full then [] else [.restricted f.name (f.clearance policy)]

end QueryReuse.Profile
