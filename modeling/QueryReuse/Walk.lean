import QueryReuse.Assessor
import QueryReuse.Query.Tree

/-!
# Walks

A query is assessed by a walk over its tree, root first and children in order, that
assesses every call it meets. The walk ends early as soon as no reuse is left to withdraw:
nothing that comes later is looked up or logged. A walk that goes on holds its assessment
as `ok`, one that has ended early as `error`.
-/

namespace QueryReuse

/-- Where a walk has come to. -/
abbrev Walk := Except Assessment Assessment

namespace Walk

/-- What the walk has found. -/
def assessment : Walk → Assessment
  | .ok a => a
  | .error a => a

/-- The walk has ended early. -/
def endedEarly : Walk → Bool
  | .ok _ => false
  | .error _ => true

end Walk

/-- The walk that has found this goes on unless no reuse is left. -/
def Assessment.proceed (a : Assessment) : Walk :=
  if a.clearance = .void then .error a else .ok a

theorem Assessment.proceed_eq_ok {a b : Assessment} :
  a.proceed = .ok b ↔ a.clearance ≠ .void ∧ a = b
  := by
  unfold proceed
  split <;> simp [*]

theorem Assessment.proceed_eq_error {a b : Assessment} :
  a.proceed = .error b ↔ a.clearance = .void ∧ a = b
  := by
  unfold proceed
  split <;> simp [*]

namespace Assessor

variable {κ : Type} [Catalog κ]

/-- Assesses one more call. -/
def meet (c : Assessor κ) (a : Assessment) (f : FunctionDecl) : Walk :=
  (a ++ c.assessCall f).proceed

/-- Assesses the call at the root of a tree, if there is one. -/
def visit (c : Assessor κ) (t : Tree) (a : Assessment) : Walk :=
  t.call?.toList.foldlM c.meet a

/-- The walk over a tree that sets out with what has been found before. -/
def walk (c : Assessor κ) (t : Tree) (a : Assessment) : Walk := do
  let a ← a.proceed
  let a ← c.visit t a
  t.children.attach.foldlM (fun a ⟨child, _⟩ => c.walk child a) a
termination_by sizeOf t
decreasing_by
  apply Tree.sizeOf_lt_of_mem_children
  assumption

/-- The assessment of an expression. -/
def assessExpr (c : Assessor κ) (e : Expr) : Assessment := (c.walk (.expr e) ∅).assessment

/-- The assessment of a plan, which ends with an account of the walk. -/
def assessPlan (c : Assessor κ) (p : Plan) : Assessment :=
  let walk := c.walk (.plan p) ∅
  walk.assessment ++ .ofEvents [.concluded walk.assessment.clearance walk.endedEarly]

/-- The assessment of an expression or a plan. -/
def assess (c : Assessor κ) : Tree → Assessment
  | .expr e => c.assessExpr e
  | .plan p => c.assessPlan p

/-- The assessment of what planning a statement returned; an error in planning stands. -/
def assessPlanned {ε : Type} (c : Assessor κ) (planned : Except ε Plan) : Except ε Assessment :=
  planned.map c.assessPlan

/-- The children of a tree are walked over one after the other. -/
theorem walk_eq (c : Assessor κ) (t : Tree) (a : Assessment) :
  c.walk t a
    = a.proceed >>= fun a => c.visit t a >>= fun a =>
        t.children.foldlM (fun a child => c.walk child a) a
  := by
  rw [walk]
  congr 1
  funext a
  congr 1
  funext a
  rw [List.foldlM_subtype]
  · rw [List.unattach_attach]
  · intros
    rfl

end Assessor

end QueryReuse
