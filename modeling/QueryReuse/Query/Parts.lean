import QueryReuse.Query.Tree

/-!
# Changing the parts of a node

The parts of a node are its children. A `PartMap` says, position by position, which
expression is to stand for an expression among them and which plan for a plan. The node with
its parts so changed is the same in all other respects, and its children are the changed
children in the same order. If every part is to stand for itself, the node is the same.
-/

namespace QueryReuse

/-- What is to stand for each part of a node, by its position among the parts. -/
structure PartMap where
  /-- What is to stand for an expression. -/
  expr : Nat → Expr → Expr
  /-- What is to stand for a plan. -/
  plan : Nat → Plan → Plan

namespace PartMap

/-- What is to stand for the parts that come after the first `n`. -/
def shift (g : PartMap) (n : Nat) : PartMap where
  expr i := g.expr (i + n)
  plan i := g.plan (i + n)

/-- What is to stand for a part, be it an expression or a plan. -/
def tree (g : PartMap) (i : Nat) : Tree → Tree
  | .expr e => .expr (g.expr i e)
  | .plan p => .plan (g.plan i p)

/-- The tree `s` is to stand for the part at position `i`, if it is an expression in the
place of an expression or a plan in the place of a plan. -/
def put (i : Nat) : Tree → PartMap
  | .expr e => { expr := fun j x => if j = i then e else x, plan := fun _ p => p }
  | .plan p => { expr := fun _ x => x, plan := fun j q => if j = i then p else q }

/-- The listed pairs with their members changed, the first of a pair before its second. -/
def pairs (g : PartMap) : List (Expr × Expr) → List (Expr × Expr)
  | [] => []
  | (a, b) :: rest => (g.expr 0 a, g.expr 1 b) :: (g.shift 2).pairs rest

/-- The listed rows with their members changed, row by row. -/
def rows (g : PartMap) : List (List Expr) → List (List Expr)
  | [] => []
  | row :: rest => row.mapIdx g.expr :: (g.shift row.length).rows rest

theorem unpair_pairs (g : PartMap) (ps : List (Expr × Expr)) :
  unpair (g.pairs ps) = (unpair ps).mapIdx g.expr
  := by
  induction ps generalizing g with
  | nil => rfl
  | cons p ps ih =>
    have h := ih (g.shift 2)
    simp only [unpair, pairs, List.flatMap_cons, List.mapIdx_append] at h ⊢
    rw [h]
    rfl

theorem flatten_rows (g : PartMap) (rs : List (List Expr)) :
  (g.rows rs).flatten = rs.flatten.mapIdx g.expr
  := by
  induction rs generalizing g with
  | nil => rfl
  | cons r rs ih =>
    rw [rows, List.flatten_cons, List.flatten_cons, List.mapIdx_append, ih]
    rfl

theorem toList_map_expr (g : PartMap) (n : Nat) (e : Option Expr) :
  (e.map (g.expr n)).toList = e.toList.mapIdx fun i => g.expr (i + n)
  := by
  cases e <;> simp

theorem map_expr (g : PartMap) (es : List Expr) :
  (es.mapIdx g.expr).map .expr = (es.map .expr).mapIdx g.tree
  := by
  apply List.ext_getElem?
  intro i
  rw [List.getElem?_map, List.getElem?_mapIdx, List.getElem?_mapIdx, List.getElem?_map]
  cases es[i]? <;> rfl

theorem map_plan (g : PartMap) (ps : List Plan) :
  (ps.mapIdx g.plan).map .plan = (ps.map .plan).mapIdx g.tree
  := by
  apply List.ext_getElem?
  intro i
  rw [List.getElem?_map, List.getElem?_mapIdx, List.getElem?_mapIdx, List.getElem?_map]
  cases ps[i]? <;> rfl

/-- Two lists of parts, the second coming after the first. -/
theorem mapIdx_tree_append (g : PartMap) (ss ts : List Tree) :
  (ss ++ ts).mapIdx g.tree = ss.mapIdx g.tree ++ ts.mapIdx (g.shift ss.length).tree
  := by
  rw [List.mapIdx_append]
  rfl

end PartMap

/-- The expression with its parts changed: its subquery first and then its operands. -/
def Expr.mapParts (g : PartMap) : Expr → Expr
  | .named body name => .named (g.expr 0 body) name
  | .unary op operand => .unary op (g.expr 0 operand)
  | .binary op left right => .binary op (g.expr 0 left) (g.expr 1 right)
  | .pattern op negated operand model => .pattern op negated (g.expr 0 operand) (g.expr 1 model)
  | .between operand low high => .between (g.expr 0 operand) (g.expr 1 low) (g.expr 2 high)
  | .caseOf operand branches otherwise =>
    let g' := g.shift operand.toList.length
    let g'' := g'.shift (unpair branches).length
    .caseOf (operand.map (g.expr 0)) (g'.pairs branches) (otherwise.map (g''.expr 0))
  | .inList operand items => .inList (g.expr 0 operand) (items.mapIdx (g.shift 1).expr)
  | .scalarCall f args => .scalarCall f (args.mapIdx g.expr)
  | .aggregateCall f args filter orderBy distinct =>
    let g' := g.shift args.length
    let g'' := g'.shift filter.toList.length
    .aggregateCall f (args.mapIdx g.expr) (filter.map (g'.expr 0)) (orderBy.mapIdx g''.expr)
      distinct
  | .windowCall callee f args partitionBy orderBy =>
    let g' := g.shift args.length
    let g'' := g'.shift partitionBy.length
    .windowCall callee f (args.mapIdx g.expr) (partitionBy.mapIdx g'.expr)
      (orderBy.mapIdx g''.expr)
  | .rollup items => .rollup (items.mapIdx g.expr)
  | .cube items => .cube (items.mapIdx g.expr)
  | .groupingSets sets => .groupingSets (g.rows sets)
  | .scalarSubquery plan outer => .scalarSubquery (g.plan 0 plan) outer
  | .existsSubquery plan outer negated => .existsSubquery (g.plan 0 plan) outer negated
  | .inSubquery operand plan outer negated =>
    .inSubquery (g.expr 1 operand) (g.plan 0 plan) outer negated
  | e => e

/-- The plan with its parts changed: its expressions first and then its inputs. -/
def Plan.mapParts (g : PartMap) : Plan → Plan
  | .scan table filters => .scan table (filters.mapIdx g.expr)
  | .values rows => .values (g.rows rows)
  | .projection exprs input => .projection (exprs.mapIdx g.expr) (g.plan exprs.length input)
  | .filter predicate having input => .filter (g.expr 0 predicate) having (g.plan 1 input)
  | .window exprs input => .window (exprs.mapIdx g.expr) (g.plan exprs.length input)
  | .aggregate groupBy aggregates input =>
    let g' := g.shift groupBy.length
    .aggregate (groupBy.mapIdx g.expr) (aggregates.mapIdx g'.expr)
      (g'.plan aggregates.length input)
  | .sort keys input => .sort (keys.mapIdx g.expr) (g.plan keys.length input)
  | .join keys condition left right =>
    let g' := g.shift (unpair keys).length
    let g'' := g'.shift condition.toList.length
    .join (g.pairs keys) (condition.map (g'.expr 0)) (g''.plan 0 left) (g''.plan 1 right)
  | .hashRepartition keys input =>
    .hashRepartition (keys.mapIdx g.expr) (g.plan keys.length input)
  | .keyRepartition keys input =>
    .keyRepartition (keys.mapIdx g.expr) (g.plan keys.length input)
  | .roundRobin input => .roundRobin (g.plan 0 input)
  | .union inputs => .union (inputs.mapIdx g.plan)
  | .subquery plan outer => .subquery (g.plan 0 plan) outer
  | .subqueryAlias name input => .subqueryAlias name (g.plan 0 input)
  | .limit skip fetch input =>
    let g' := g.shift skip.toList.length
    .limit (skip.map (g.expr 0)) (fetch.map (g'.expr 0)) (g'.plan fetch.toList.length input)
  | .distinct input => .distinct (g.plan 0 input)
  | .distinctOn keys select order input =>
    let g' := g.shift keys.length
    let g'' := g'.shift select.length
    .distinctOn (keys.mapIdx g.expr) (select.mapIdx g'.expr) (order.mapIdx g''.expr)
      (g''.plan order.length input)
  | .explain input => .explain (g.plan 0 input)
  | .analyze input => .analyze (g.plan 0 input)
  | .extension exprs inputs =>
    .extension (exprs.mapIdx g.expr) (inputs.mapIdx (g.shift exprs.length).plan)
  | .unnest columns input => .unnest columns (g.plan 0 input)
  | .recursive name base step => .recursive name (g.plan 0 base) (g.plan 1 step)
  | .write table op input => .write table op (g.plan 0 input)
  | .copy input => .copy (g.plan 0 input)
  | .createView name input => .createView name (g.plan 0 input)
  | .createTable name defaults input => .createTable name defaults (g.plan 0 input)
  | .prepare name input => .prepare name (g.plan 0 input)
  | .execute name params => .execute name (params.mapIdx g.expr)
  | p => p

/-- The tree with its parts changed. -/
def Tree.mapParts (g : PartMap) : Tree → Tree
  | .expr e => .expr (e.mapParts g)
  | .plan p => .plan (p.mapParts g)

/-! ### The parts of the changed node -/

theorem Expr.subquery?_mapParts (g : PartMap) (e : Expr) :
  (e.mapParts g).subquery? = e.subquery?.map (g.plan 0)
  := by
  cases e <;> rfl

theorem Expr.operands_mapParts (g : PartMap) (e : Expr) :
  (e.mapParts g).operands = e.operands.mapIdx (g.shift e.subquery?.toList.length).expr
  := by
  cases e <;>
    simp [mapParts, operands, subquery?, PartMap.shift, PartMap.unpair_pairs,
      PartMap.flatten_rows, PartMap.toList_map_expr, List.mapIdx_append, Nat.add_assoc]

theorem Plan.exprs_mapParts (g : PartMap) (p : Plan) :
  (p.mapParts g).exprs = p.exprs.mapIdx g.expr
  := by
  cases p <;>
    simp [mapParts, exprs, PartMap.shift, PartMap.unpair_pairs, PartMap.flatten_rows,
      PartMap.toList_map_expr, List.mapIdx_append]

theorem Plan.inputs_mapParts (g : PartMap) (p : Plan) :
  (p.mapParts g).inputs = p.inputs.mapIdx (g.shift p.exprs.length).plan
  := by
  cases p <;>
    simp [mapParts, exprs, inputs, PartMap.shift, Nat.add_assoc, Nat.add_comm, Nat.add_left_comm]

/-- To change the parts of a node does not change which function it calls. -/
theorem Tree.call?_mapParts (g : PartMap) (t : Tree) :
  (t.mapParts g).call? = t.call?
  := by
  cases t with
  | expr e => cases e <;> rfl
  | plan p => rfl

/-- The children of a node with its parts changed are the changed children. -/
theorem Tree.children_mapParts (g : PartMap) (t : Tree) :
  (t.mapParts g).children = t.children.mapIdx g.tree
  := by
  cases t with
  | expr e =>
    rw [mapParts, children, children, PartMap.mapIdx_tree_append, List.length_map,
      ← PartMap.map_expr, ← Expr.operands_mapParts, Expr.subquery?_mapParts]
    cases e.subquery? <;> rfl
  | plan p =>
    rw [mapParts, children, children, PartMap.mapIdx_tree_append, List.length_map,
      ← PartMap.map_expr, ← PartMap.map_plan, Plan.exprs_mapParts, Plan.inputs_mapParts]

/-! ### Parts that stay -/

namespace PartMap

theorem mapIdx_append_eq_self_iff {α : Type} {f : Nat → α → α} {as bs : List α} :
  (as ++ bs).mapIdx f = as ++ bs
    ↔ as.mapIdx f = as ∧ bs.mapIdx (fun i => f (i + as.length)) = bs
  := by
  rw [List.mapIdx_append]
  constructor
  · intro h
    apply List.append_inj h List.length_mapIdx
  · rintro ⟨has, hbs⟩
    rw [has, hbs]

theorem mapIdx_toList_eq_self_iff {f : Nat → Expr → Expr} {e : Option Expr} :
  e.toList.mapIdx f = e.toList ↔ e.map (f 0) = e
  := by
  cases e <;> simp

theorem pairs_eq_self_iff {g : PartMap} {ps : List (Expr × Expr)} :
  g.pairs ps = ps ↔ (unpair ps).mapIdx g.expr = unpair ps
  := by
  induction ps generalizing g with
  | nil => simp [unpair, pairs]
  | cons p ps ih =>
    have h := @ih (g.shift 2)
    simp only [unpair, pairs, List.flatMap_cons, List.cons.injEq, Prod.ext_iff,
      mapIdx_append_eq_self_iff] at h ⊢
    rw [h]
    simp [shift]

theorem rows_eq_self_iff {g : PartMap} {rs : List (List Expr)} :
  g.rows rs = rs ↔ rs.flatten.mapIdx g.expr = rs.flatten
  := by
  induction rs generalizing g with
  | nil => simp [rows]
  | cons r rs ih =>
    rw [rows, List.flatten_cons, List.cons.injEq, mapIdx_append_eq_self_iff, ih]
    rfl

end PartMap

theorem Expr.mapParts_eq_self {g : PartMap} {e : Expr}
    (hsubquery : e.subquery?.map (g.plan 0) = e.subquery?)
    (hoperands : e.operands.mapIdx (g.shift e.subquery?.toList.length).expr = e.operands) :
  e.mapParts g = e
  := by
  cases e <;>
    simp_all [mapParts, operands, subquery?, PartMap.shift, PartMap.mapIdx_append_eq_self_iff,
      PartMap.mapIdx_toList_eq_self_iff, PartMap.pairs_eq_self_iff, PartMap.rows_eq_self_iff]

theorem Plan.mapParts_eq_self {g : PartMap} {p : Plan}
    (hexprs : p.exprs.mapIdx g.expr = p.exprs)
    (hinputs : p.inputs.mapIdx (g.shift p.exprs.length).plan = p.inputs) :
  p.mapParts g = p
  := by
  cases p <;>
    simp_all [mapParts, exprs, inputs, PartMap.shift, PartMap.mapIdx_append_eq_self_iff,
      PartMap.mapIdx_toList_eq_self_iff, PartMap.pairs_eq_self_iff, PartMap.rows_eq_self_iff,
      Nat.add_assoc, Nat.add_comm, Nat.add_left_comm]

/-- A node is the same if each of its children stands for itself. -/
theorem Tree.mapParts_eq_self {g : PartMap} {t : Tree}
    (h : t.children.mapIdx g.tree = t.children) :
  t.mapParts g = t
  := by
  cases t with
  | expr e =>
    rw [children, PartMap.mapIdx_tree_append] at h
    obtain ⟨hsubquery, hoperands⟩ := List.append_inj h List.length_mapIdx
    rw [List.length_map, ← PartMap.map_expr] at hoperands
    rw [mapParts, Expr.mapParts_eq_self]
    · cases hq : e.subquery? with
      | none => rfl
      | some q => simpa [hq, PartMap.tree] using hsubquery
    · apply (List.map_inj_right fun _ _ => expr.inj).mp hoperands
  | plan p =>
    rw [children, PartMap.mapIdx_tree_append] at h
    obtain ⟨hexprs, hinputs⟩ := List.append_inj h List.length_mapIdx
    rw [← PartMap.map_expr] at hexprs
    rw [List.length_map, ← PartMap.map_plan] at hinputs
    rw [mapParts, Plan.mapParts_eq_self]
    · apply (List.map_inj_right fun _ _ => expr.inj).mp hexprs
    · apply (List.map_inj_right fun _ _ => plan.inj).mp hinputs

end QueryReuse
