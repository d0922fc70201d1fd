import QueryReuse.Query.Context

/-!
# The calls that a query holds

A query holds a call if the call stands anywhere in it, in whatever field of whatever node.
Each field of a node is either visited, and then among the children, or kept aside. The main
statement is that the calls which a query holds are those that are visited and those that stand
in an expression kept aside by a visited node.
-/

namespace QueryReuse

/-- What an expression is made of: the expressions and plans in all its fields. -/
def Expr.parts : Expr → List Tree
  | .column _ => []
  | .sessionVariable _ => []
  | .outerColumn _ => []
  | .placeholder _ => []
  | .literal _ => []
  | .wildcard replace => replace.map .expr
  | .named body _ => [.expr body]
  | .unary _ operand => [.expr operand]
  | .binary _ left right => [.expr left, .expr right]
  | .pattern _ _ operand model => [.expr operand, .expr model]
  | .between operand low high => [.expr operand, .expr low, .expr high]
  | .caseOf operand branches otherwise =>
    operand.toList.map .expr ++ (unpair branches).map .expr ++ otherwise.toList.map .expr
  | .inList operand items => .expr operand :: items.map .expr
  | .scalarCall _ args => args.map .expr
  | .aggregateCall _ args filter orderBy _ =>
    args.map .expr ++ filter.toList.map .expr ++ orderBy.map .expr
  | .windowCall _ _ args partitionBy orderBy =>
    args.map .expr ++ partitionBy.map .expr ++ orderBy.map .expr
  | .rollup items => items.map .expr
  | .cube items => items.map .expr
  | .groupingSets sets => sets.flatten.map .expr
  | .scalarSubquery plan outer => .plan plan :: outer.map .expr
  | .existsSubquery plan outer _ => .plan plan :: outer.map .expr
  | .inSubquery operand plan outer _ => .expr operand :: .plan plan :: outer.map .expr

/-- What the root of a plan is made of: the expressions and plans in all its fields. -/
def Plan.parts : Plan → List Tree
  | .empty _ => []
  | .describe => []
  | .scan _ filters => filters.map .expr
  | .values rows => rows.flatten.map .expr
  | .projection exprs input => exprs.map .expr ++ [.plan input]
  | .filter predicate _ input => [.expr predicate, .plan input]
  | .window exprs input => exprs.map .expr ++ [.plan input]
  | .aggregate groupBy aggregates input =>
    groupBy.map .expr ++ aggregates.map .expr ++ [.plan input]
  | .sort keys input => keys.map .expr ++ [.plan input]
  | .join keys condition left right =>
    (unpair keys).map .expr ++ condition.toList.map .expr ++ [.plan left, .plan right]
  | .hashRepartition keys input => keys.map .expr ++ [.plan input]
  | .keyRepartition keys input => keys.map .expr ++ [.plan input]
  | .roundRobin input => [.plan input]
  | .union inputs => inputs.map .plan
  | .subquery plan outer => .plan plan :: outer.map .expr
  | .subqueryAlias _ input => [.plan input]
  | .limit skip fetch input => skip.toList.map .expr ++ fetch.toList.map .expr ++ [.plan input]
  | .distinct input => [.plan input]
  | .distinctOn keys select order input =>
    keys.map .expr ++ select.map .expr ++ order.map .expr ++ [.plan input]
  | .explain input => [.plan input]
  | .analyze input => [.plan input]
  | .extension exprs inputs => exprs.map .expr ++ inputs.map .plan
  | .unnest _ input => [.plan input]
  | .recursive _ base step => [.plan base, .plan step]
  | .write _ _ input => [.plan input]
  | .copy input => [.plan input]
  | .createView _ input => [.plan input]
  | .createTable _ defaults input => defaults.map .expr ++ [.plan input]
  | .createExternalTable _ defaults order => defaults.map .expr ++ order.map .expr
  | .createIndex _ columns => columns.map .expr
  | .createFunctionWith _ defaults body => defaults.map .expr ++ body.toList.map .expr
  | .createSchema _ => []
  | .createCatalog _ => []
  | .drop _ _ => []
  | .prepare _ input => [.plan input]
  | .execute _ params => params.map .expr
  | .set _ _ => []
  | .deallocate _ => []
  | .startTransaction _ _ => []
  | .endTransaction _ _ => []

namespace Tree

/-- What the root of a tree is made of: the expressions and plans in all its fields. -/
def parts : Tree → List Tree
  | .expr e => e.parts
  | .plan p => p.parts

/-- A part is visited or kept aside, and nothing else is visited or kept aside. -/
theorem mem_parts_iff {t s : Tree} :
  s ∈ t.parts ↔ s ∈ t.children ∨ s ∈ t.asides.map .expr
  := by
  cases t with
  | expr e =>
    cases e <;>
      simp [parts, Expr.parts, children, asides, Expr.asides, Expr.subquery?, Expr.operands,
        or_assoc, or_comm]
  | plan p =>
    cases p <;>
      simp [parts, Plan.parts, children, asides, Plan.asides, Plan.exprs, Plan.inputs,
        or_assoc, or_comm, or_left_comm]

/-- A call of the function stands somewhere in the tree. -/
inductive Holds (f : FunctionDecl) : Tree → Prop where
  /-- The function is called at the root. -/
  | root {t : Tree} (hcall : t.call? = some f) : Holds f t
  /-- The function is called in a part. -/
  | part {t s : Tree} (hs : s ∈ t.parts) (h : Holds f s) : Holds f t

/-- A call of the function stands in an expression that some visited node keeps aside. -/
def HoldsAside (f : FunctionDecl) (t : Tree) : Prop :=
  ∃ path node, t.at? path = some node ∧ ∃ e ∈ node.asides, Holds f (.expr e)

theorem Holds.of_mem_calls {f : FunctionDecl} {t : Tree} (h : f ∈ t.calls) :
  t.Holds f
  := by
  induction t using Tree.induction with
  | step t ih =>
    rw [calls_eq, List.mem_append, Option.mem_toList, List.mem_flatMap] at h
    obtain hcall | ⟨s, hs, h⟩ := h
    · apply Holds.root hcall
    · apply Holds.part (mem_parts_iff.mpr (.inl hs)) (ih s hs h)

theorem HoldsAside.holds {f : FunctionDecl} {t : Tree} (h : t.HoldsAside f) :
  t.Holds f
  := by
  obtain ⟨path, node, hnode, e, he, h⟩ := h
  induction path generalizing t with
  | nil =>
    cases hnode
    apply Holds.part (mem_parts_iff.mpr (.inr (List.mem_map_of_mem he))) h
  | cons i path ih =>
    obtain ⟨s, hs, hnode⟩ := Option.bind_eq_some_iff.mp hnode
    apply Holds.part (mem_parts_iff.mpr (.inl (List.mem_of_getElem? hs))) (ih hnode)

/-- What a visited part keeps aside is kept aside in the tree. -/
theorem HoldsAside.of_child {f : FunctionDecl} {t s : Tree} (hs : s ∈ t.children)
    (h : s.HoldsAside f) :
  t.HoldsAside f
  := by
  obtain ⟨i, hi⟩ := List.mem_iff_getElem?.mp hs
  obtain ⟨path, node, hnode, haside⟩ := h
  refine ⟨i :: path, node, ?_, haside⟩
  rw [at?, hi, Option.bind_some, hnode]

/-- A tree holds the calls that are visited and the calls that visited nodes keep aside, and no
other call. -/
theorem holds_iff {f : FunctionDecl} {t : Tree} :
  t.Holds f ↔ f ∈ t.calls ∨ t.HoldsAside f
  := by
  constructor
  · intro h
    induction h with
    | @root t hcall =>
      left
      rw [calls_eq, List.mem_append, Option.mem_toList]
      left
      apply hcall
    | @part t s hs h ih =>
      -- What a visited part keeps aside lies deeper; a part kept aside is kept by the root itself.
      rcases mem_parts_iff.mp hs with hchild | haside
      · rcases ih with hcalls | hasides
        · left
          rw [calls_eq, List.mem_append]
          right
          apply List.mem_flatMap_of_mem hchild hcalls
        · right
          apply hasides.of_child hchild
      · right
        obtain ⟨e, he, rfl⟩ := List.mem_map.mp haside
        exact ⟨[], t, rfl, e, he, h⟩
  · rintro (hcalls | hasides)
    · apply Holds.of_mem_calls hcalls
    · apply hasides.holds

end Tree

end QueryReuse
