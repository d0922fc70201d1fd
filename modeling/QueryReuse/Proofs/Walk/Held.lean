import QueryReuse.Catalog.Registry
import QueryReuse.Proofs.Clearance.Order
import QueryReuse.Proofs.Walk.Trace
import QueryReuse.Query.Held

/-!
# Which calls a clearance takes into account

A query admits no more than any of its calls that is visited, however deep. A call that stands
in an expression which a node keeps aside is not visited, and the query may well admit more than
the function. The main statement is that these are the only calls of which this can be said: a
call that a plan holds anywhere else bounds what the plan admits.
-/

namespace QueryReuse.Assessor

variable {κ : Type} [Catalog κ]

/-- A query admits no more than each of its calls. -/
theorem clearance_assess_le_of_mem_calls (c : Assessor κ) {t : Tree} {f : FunctionDecl}
    (hf : f ∈ t.calls) :
  (c.assess t).clearance ≤ (c.assessCall f).clearance
  := by
  rw [clearance_assess, clearance_assessCall]
  apply Clearance.meet_le_of_mem (List.mem_map_of_mem hf)

/-- Without a catalog a plan admits no more than each function that it calls in a part that is
visited. Any other call that the plan holds stands in an expression kept aside by a visited
node: what replaces columns of a wildcard, the outer columns of a subquery, the default values
of a table's columns, the order of an external table, the columns of an index, the default
values of a function's arguments or the body of a function. -/
theorem clearance_assessPlan_le_of_visited (policy : StalenessPolicy) (p : Plan) :
  (∀ f ∈ (Tree.plan p).calls,
      ((Assessor.mk policy (none : Option κ)).assessPlan p).clearance
        ≤ ((Assessor.mk policy (none : Option κ)).assessProfile f.profile).clearance)
    ∧ ∀ f, (Tree.plan p).Holds f → f ∈ (Tree.plan p).calls ∨ (Tree.plan p).HoldsAside f
  := by
  constructor
  · intro f hf
    have h := (Assessor.mk policy (none : Option κ)).clearance_assess_le_of_mem_calls hf
    rwa [clearance_assessCall] at h
  · intro f hf
    apply Tree.holds_iff.mp hf

/-- `SELECT * REPLACE (random()) FROM t WHERE a IN (SELECT now() FROM u)`, where the replaced
column is left open. -/
def replacedByChance : Plan :=
  .projection [.wildcard [.scalarCall ⟨"random", .volatile⟩ []]]
    (.filter
      (.inSubquery (.column "a") (.projection [.scalarCall ⟨"now", .stable⟩ []] (.scan "u" []))
        [] false)
      false (.scan "t" []))

/-- The call of `now` is visited, and that of `random` is kept aside. -/
theorem clearance_replacedByChance_le :
  ((Assessor.mk .standard (none : Option Registry)).assessPlan replacedByChance).clearance
      ≤ ((Assessor.mk .standard (none : Option Registry)).assessProfile
        (FunctionDecl.mk "now" .stable).profile).clearance
    ∧ ((⟨"random", .volatile⟩ : FunctionDecl) ∈ (Tree.plan replacedByChance).calls
      ∨ (Tree.plan replacedByChance).HoldsAside ⟨"random", .volatile⟩)
  := by
  obtain ⟨hvisited, hheld⟩ :=
    clearance_assessPlan_le_of_visited (κ := Registry) .standard replacedByChance
  have hcalls : (Tree.plan replacedByChance).calls = [⟨"now", .stable⟩] := by decide +kernel
  constructor
  · apply hvisited ⟨"now", .stable⟩
    rw [hcalls]
    apply List.mem_cons_self
  · apply hheld ⟨"random", .volatile⟩
    apply Tree.Holds.part List.mem_cons_self
    apply Tree.Holds.part List.mem_cons_self
    apply Tree.Holds.root rfl

/-! ### Calls that are kept aside -/

/-- Plans that keep a call of `now` aside, each in another field. -/
def nowAside : List Plan :=
  let now : Expr := .scalarCall ⟨"now", .stable⟩ []
  [.projection [.wildcard [now]] (.scan "t" []),
    .projection [.scalarSubquery (.scan "u" []) [now]] (.scan "t" []),
    .filter (.existsSubquery (.scan "u" []) [now] false) false (.scan "t" []),
    .filter (.inSubquery (.column "a") (.scan "u" []) [now] false) false (.scan "t" []),
    .subquery (.scan "t" []) [now],
    .createTable "t" [now] (.empty false),
    .createExternalTable "t" [now] [],
    .createExternalTable "t" [] [now],
    .createIndex "i" [now],
    .createFunctionWith "f" [now] none,
    .createFunction "f" (some now)]

/-- Each of these plans holds a call of `now`, and none of them admits as little as `now`. -/
theorem not_clearance_nowAside_le :
  (∀ p ∈ nowAside, (Tree.plan p).Holds ⟨"now", .stable⟩)
    ∧ ¬∃ p ∈ nowAside,
      ((Assessor.mk .standard (none : Option Registry)).assessPlan p).clearance
        ≤ ((Assessor.mk .standard (none : Option Registry)).assessProfile
          (FunctionDecl.mk "now" .stable).profile).clearance
  := by
  have haside : ∀ p ∈ nowAside, ∃ path ∈ [[], [0]], ∃ node ∈ (Tree.plan p).at? path,
      ∃ e ∈ node.asides, e.call? = some ⟨"now", .stable⟩ := by decide +kernel
  constructor
  · intro p hp
    obtain ⟨path, -, node, hnode, e, he, hcall⟩ := haside p hp
    apply Tree.HoldsAside.holds
    use path, node, hnode, e, he
    apply Tree.Holds.root
    apply hcall
  · decide +kernel

end QueryReuse.Assessor
