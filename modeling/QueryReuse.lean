import QueryReuse.Clearance
import QueryReuse.Name
import QueryReuse.StalenessPolicy
import QueryReuse.Profile
import QueryReuse.Exemption
import QueryReuse.Event
import QueryReuse.Profile.Clearance
import QueryReuse.Catalog.Basic
import QueryReuse.Catalog.ProfileTable
import QueryReuse.Catalog.Registry
import QueryReuse.Catalog.Source
import QueryReuse.Query.Syntax
import QueryReuse.Query.Tree
import QueryReuse.Query.Calls
import QueryReuse.Query.Parts
import QueryReuse.Query.Context
import QueryReuse.Query.Traversal
import QueryReuse.Assessment
import QueryReuse.Assessor
import QueryReuse.Walk
import QueryReuse.Session
import QueryReuse.Walk.Calls
import QueryReuse.Walk.Fold
import QueryReuse.Proofs.Clearance.Graded
import QueryReuse.Proofs.Clearance.Order
import QueryReuse.Proofs.Clearance.Collect
import QueryReuse.Proofs.StalenessPolicy.History
import QueryReuse.Proofs.Walk.Axes
import QueryReuse.Proofs.Walk.Ending
import QueryReuse.Proofs.Walk.Attached
import QueryReuse.Proofs.Walk.Context
import QueryReuse.Proofs.Walk.Policies
import QueryReuse.Proofs.Walk.Account
import QueryReuse.Proofs.Catalog.LowerKeyed
import QueryReuse.Proofs.Catalog.Rounds
import QueryReuse.Proofs.Walk.LetterCase
import QueryReuse.Proofs.Walk.Faithful
import QueryReuse.Proofs.Walk.Names
import QueryReuse.Proofs.Walk.Exempt
import QueryReuse.Proofs.Catalog.Footprint
import QueryReuse.Proofs.Walk.Footprint
import QueryReuse.Proofs.Walk.Held
import QueryReuse.Proofs.Walk.Fold
