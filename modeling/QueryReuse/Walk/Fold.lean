import QueryReuse.Assessor
import QueryReuse.Query.Traversal

/-!
# Folds

Another account of how a query is assessed keeps what has been found apart from the signals
by which a traversal goes on or stops. An expression is folded by one traversal, a plan by
another. The visitor of expressions folds the plan of a subquery, and the visitor of plans
folds the expressions of a step. After each node the visitor makes up its signal from what
has been found by then, and the signals that the folds inside it end with are dropped.
-/

namespace QueryReuse

/-- To go on unless no reuse is left. -/
def Assessment.signal (a : Assessment) : Signal :=
  if a.clearance = .void then .stop else .goOn

theorem Assessment.signal_eq_stop_iff {a : Assessment} :
  a.signal = .stop ↔ a.clearance = .void
  := by
  unfold signal
  split <;> simp [*]

/-- Does nothing but signal to stop if no reuse is left. -/
@[inline]
def unlessVoid (act : StateM Assessment Signal) : StateM Assessment Signal := do
  if (← get).clearance = .void then
    return .stop
  act

/-- Signals by what has been found after an action, whatever the action itself returns. -/
def signalAfter {α : Type} (act : StateM Assessment α) : StateM Assessment Signal := do
  discard act
  return (← get).signal

section Run

variable {a : Assessment}

theorem run_unlessVoid_of_eq_void (h : a.clearance = .void) (act : StateM Assessment Signal) :
  (unlessVoid act).run a = (.stop, a)
  := by
  show (if a.clearance = .void then pure .stop else act : StateM Assessment Signal).run a = _
  rw [if_pos h]
  rfl

theorem run_unlessVoid_of_ne_void (h : a.clearance ≠ .void) (act : StateM Assessment Signal) :
  (unlessVoid act).run a = act.run a
  := by
  show (if a.clearance = .void then pure .stop else act : StateM Assessment Signal).run a = _
  rw [if_neg h]

theorem run_signalAfter {α : Type} (act : StateM Assessment α) :
  (signalAfter act).run a = ((act.run a).2.signal, (act.run a).2)
  := rfl

end Run

namespace Assessor

variable {κ : Type} [Catalog κ]

mutual

/-- Assesses the calls of an expression onto what has been found. -/
def foldExpr (c : Assessor κ) (e : Expr) : StateM Assessment Signal :=
  unlessVoid <| traverseWithin e fun x hx => signalAfter do
    match hp : x.subquery? with
    | some p =>
      have := Nat.lt_of_lt_of_le (Expr.sizeOf_lt_of_subquery? hp) hx
      discard (c.foldPlan p)
    | none =>
      if let some f := x.call? then
        modify (· ++ c.assessCall f)
termination_by sizeOf e

/-- Assesses the calls of a plan onto what has been found. -/
def foldPlan (c : Assessor κ) (p : Plan) : StateM Assessment Signal :=
  unlessVoid <| traverseWithin p fun q hq => signalAfter do
    visitEach
      (fun ⟨e, he⟩ =>
        have := Nat.lt_of_lt_of_le (Plan.sizeOf_lt_of_mem_exprs he) hq
        c.foldExpr e)
      q.exprs.attach
termination_by sizeOf p

end

/-- Assesses the calls of an expression or a plan onto what has been found. -/
def fold (c : Assessor κ) : Tree → StateM Assessment Signal
  | .expr e => c.foldExpr e
  | .plan p => c.foldPlan p

/-! ### The two visitors -/

/-- The visit to an expression on the way of a fold. -/
def visitExpr (c : Assessor κ) (e : Expr) : StateM Assessment Signal :=
  signalAfter do
    match e.subquery? with
    | some p => discard (c.foldPlan p)
    | none =>
      if let some f := e.call? then
        modify (· ++ c.assessCall f)

/-- The visit to a step of a plan on the way of a fold. -/
def visitPlan (c : Assessor κ) (p : Plan) : StateM Assessment Signal :=
  signalAfter (visitEach c.foldExpr p.exprs)

theorem foldExpr_eq (c : Assessor κ) (e : Expr) :
  c.foldExpr e = unlessVoid (traverse c.visitExpr e)
  := by
  rw [foldExpr, traverse]
  congr 2
  funext x hx
  rw [visitExpr]
  congr 1
  split
  case h_1 p hp => simp only [hp]
  case h_2 hp => simp only [hp]

theorem foldPlan_eq (c : Assessor κ) (p : Plan) :
  c.foldPlan p = unlessVoid (traverse c.visitPlan p)
  := by
  rw [foldPlan, traverse]
  congr 2
  funext q hq
  rw [visitPlan, ← visitEach_attach c.foldExpr]

end Assessor

end QueryReuse
