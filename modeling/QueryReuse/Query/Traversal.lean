import QueryReuse.Query.Tree

/-!
# Traversals

A traversal takes a visitor from node to node, root first and children in order. With each
node the visitor signals how to go on: to what is below the node, past it, or not at all.
Expressions are traversed without their subqueries, and plans without the expressions that
their steps hold: where these are to be visited, the visitor sees to it.
-/

namespace QueryReuse

/-- How to go on after a visit. -/
inductive Signal where
  /-- To what is below the node, and then to what comes after it. -/
  | goOn
  /-- To what comes after the node, past what is below it. -/
  | skip
  /-- Not at all. -/
  | stop
deriving DecidableEq, Repr

variable {σ α : Type}

/-- What follows a node that was left with this signal, where `visit` is the visit to what is
below it. The signal to skip ends here: for the nodes around, the traversal just goes on. -/
def Signal.follow (visit : StateM σ Signal) : Signal → StateM σ Signal
  | .goOn => visit
  | .skip => pure .goOn
  | .stop => pure .stop

/-- Visits the listed nodes one after the other, up to the one that signals to stop. The
signal is the last one received. -/
def visitEach (visit : α → StateM σ Signal) (xs : List α) : StateM σ Signal :=
  xs.foldlM (fun signal x => if signal = .stop then pure signal else visit x) .goOn

/-- Once there is a signal to stop, no other node is visited. -/
theorem foldlM_visit_stop (visit : α → StateM σ Signal) (xs : List α) :
  xs.foldlM (fun signal x => if signal = .stop then pure signal else visit x) .stop
    = (pure .stop : StateM σ Signal)
  := by
  induction xs with
  | nil => rfl
  | cons x xs ih =>
    rw [List.foldlM_cons, if_pos rfl, pure_bind]
    apply ih

theorem visitEach_attach (visit : α → StateM σ Signal) (xs : List α) :
  visitEach (fun x : { x // x ∈ xs } => visit x.val) xs.attach = visitEach visit xs
  := by
  rw [visitEach, List.foldlM_subtype]
  · rw [List.unattach_attach]
    rfl
  · intros
    rfl

/-- The nodes of type `α` have smaller nodes below them. -/
class Node (α : Type) [SizeOf α] where
  /-- The nodes right below a node. -/
  below : α → List α
  /-- What is below a node is smaller. -/
  sizeOf_lt {x y : α} (h : y ∈ below x) : sizeOf y < sizeOf x

instance : Node Expr where
  below := Expr.operands
  sizeOf_lt := Expr.sizeOf_lt_of_mem_operands

instance : Node Plan where
  below := Plan.inputs
  sizeOf_lt := Plan.sizeOf_lt_of_mem_inputs

variable [SizeOf α] [Node α]

/-- Visits a node and then, as the visitor signals, what is below it. The visitor is told that
no node it visits is larger than the whole, so that it may recur to the parts of the node. -/
def traverseWithin (x : α) (visit : (y : α) → sizeOf y ≤ sizeOf x → StateM σ Signal) :
    StateM σ Signal := do
  let signal ← visit x (Nat.le_refl _)
  signal.follow
    (visitEach
      (fun ⟨y, h⟩ => traverseWithin y fun z hz =>
        visit z (Nat.le_trans hz (Nat.le_of_lt (Node.sizeOf_lt h))))
      (Node.below x).attach)
termination_by sizeOf x
decreasing_by
  apply Node.sizeOf_lt
  assumption

/-- Visits a node and then, as the visitor signals, what is below it. -/
def traverse (visit : α → StateM σ Signal) (x : α) : StateM σ Signal :=
  traverseWithin x fun y _ => visit y

theorem traverse_eq (visit : α → StateM σ Signal) (x : α) :
  traverse visit x
    = (do
        let signal ← visit x
        signal.follow (visitEach (traverse visit) (Node.below x)))
  := by
  rw [traverse, traverseWithin, ← visitEach_attach (traverse visit)]
  rfl

end QueryReuse
