import QueryReuse.Query.Tree

/-!
# The function calls of a query

`Tree.calls` lists the functions that a query calls, in the order in which its nodes are
visited, each as often as it is called. `Plan.attached` lists the expressions of a plan
without those of its subqueries.
-/

namespace QueryReuse

/-- The functions called in a tree, in the order of the visit. -/
def Tree.calls (t : Tree) : List FunctionDecl :=
  t.call?.toList ++ t.children.attach.flatMap fun ⟨c, _⟩ => c.calls
termination_by sizeOf t
decreasing_by
  apply Tree.sizeOf_lt_of_mem_children
  assumption

theorem Tree.calls_eq (t : Tree) :
  t.calls = t.call?.toList ++ t.children.flatMap Tree.calls
  := by
  rw [Tree.calls, List.flatMap_subtype]
  · rw [List.unattach_attach]
  · intros
    rfl

/-- The expressions that the steps of a plan evaluate, in the order of the visit. -/
def Plan.attached (p : Plan) : List Expr :=
  p.exprs ++ p.inputs.attach.flatMap fun ⟨q, _⟩ => q.attached
termination_by sizeOf p
decreasing_by
  apply Plan.sizeOf_lt_of_mem_inputs
  assumption

theorem Plan.attached_eq (p : Plan) :
  p.attached = p.exprs ++ p.inputs.flatMap Plan.attached
  := by
  rw [Plan.attached, List.flatMap_subtype]
  · rw [List.unattach_attach]
  · intros
    rfl

/-- A plan calls what its attached expressions call. -/
theorem Plan.calls_eq_attached (p : Plan) :
  (Tree.plan p).calls = p.attached.flatMap fun e => (Tree.expr e).calls
  := by
  induction p using Plan.induction with
  | step p ih =>
    rw [Tree.calls_eq, Plan.attached_eq]
    simp only [Tree.call?, Tree.children, Option.toList_none, List.nil_append, List.flatMap_append,
      List.flatMap_map, List.flatMap_assoc]
    congr 1
    simp only [List.flatMap_def]
    congr 1
    apply List.map_congr_left ih

end QueryReuse
