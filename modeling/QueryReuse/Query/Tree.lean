import QueryReuse.Query.Syntax

/-!
# Queries as trees

Expressions and plans together form one kind of tree. `Tree.children` are the parts of a
node that belong to the evaluation of the query, in the order in which they are visited:
of an expression its subquery and then its operands, of a plan its expressions and then
its inputs. A child is smaller than its parent, so definitions and proofs may recur through
the children. `Tree.asides` are the other expressions that a node holds.
-/

namespace QueryReuse

/-- The members of the listed pairs, the first of a pair before its second. -/
def unpair (pairs : List (Expr × Expr)) : List Expr :=
  pairs.flatMap fun pair => [pair.1, pair.2]

namespace Expr

/-- The declaration of the function that an expression calls, if it is a call. -/
def call? : Expr → Option FunctionDecl
  | .scalarCall f _ => some f
  | .aggregateCall f _ _ _ _ => some f
  | .windowCall _ f _ _ _ => some f
  | _ => none

/-- An expression calls a function as a scalar function, as an aggregate function or over a
window, and in no other way. -/
theorem call?_eq_some_iff {e : Expr} {f : FunctionDecl} :
  e.call? = some f
    ↔ (∃ args, e = .scalarCall f args)
      ∨ (∃ args filter orderBy distinct, e = .aggregateCall f args filter orderBy distinct)
      ∨ ∃ callee args partitionBy orderBy, e = .windowCall callee f args partitionBy orderBy
  := by
  cases e <;> simp [call?]

/-- The plan of a subquery expression. -/
def subquery? : Expr → Option Plan
  | .scalarSubquery plan _ => some plan
  | .existsSubquery plan _ _ => some plan
  | .inSubquery _ plan _ _ => some plan
  | _ => none

/-- The operands of an expression. -/
def operands : Expr → List Expr
  | .column _ => []
  | .sessionVariable _ => []
  | .outerColumn _ => []
  | .placeholder _ => []
  | .literal _ => []
  | .wildcard _ => []
  | .named body _ => [body]
  | .unary _ operand => [operand]
  | .binary _ left right => [left, right]
  | .pattern _ _ operand model => [operand, model]
  | .between operand low high => [operand, low, high]
  | .caseOf operand branches otherwise =>
    operand.toList ++ unpair branches ++ otherwise.toList
  | .inList operand items => operand :: items
  | .scalarCall _ args => args
  | .aggregateCall _ args filter orderBy _ => args ++ filter.toList ++ orderBy
  | .windowCall _ _ args partitionBy orderBy => args ++ partitionBy ++ orderBy
  | .rollup items => items
  | .cube items => items
  | .groupingSets sets => sets.flatten
  | .scalarSubquery _ _ => []
  | .existsSubquery _ _ _ => []
  | .inSubquery operand _ _ _ => [operand]

/-- The expressions that an expression holds beside its operands: what replaces columns of
a wildcard, and the outer columns of a subquery. -/
def asides : Expr → List Expr
  | .wildcard replace => replace
  | .scalarSubquery _ outer => outer
  | .existsSubquery _ outer _ => outer
  | .inSubquery _ _ outer _ => outer
  | _ => []

end Expr

namespace Plan

/-- The expressions that the step at the root of a plan evaluates. -/
def exprs : Plan → List Expr
  | .scan _ filters => filters
  | .values rows => rows.flatten
  | .projection exprs _ => exprs
  | .filter predicate _ _ => [predicate]
  | .window exprs _ => exprs
  | .aggregate groupBy aggregates _ => groupBy ++ aggregates
  | .sort keys _ => keys
  | .join keys condition _ _ => unpair keys ++ condition.toList
  | .hashRepartition keys _ => keys
  | .keyRepartition keys _ => keys
  | .limit skip fetch _ => skip.toList ++ fetch.toList
  | .distinctOn keys select order _ => keys ++ select ++ order
  | .extension exprs _ => exprs
  | .execute _ params => params
  | _ => []

/-- The plans that the step at the root of a plan takes its rows from. -/
def inputs : Plan → List Plan
  | .empty _ => []
  | .describe => []
  | .scan _ _ => []
  | .values _ => []
  | .projection _ input => [input]
  | .filter _ _ input => [input]
  | .window _ input => [input]
  | .aggregate _ _ input => [input]
  | .sort _ input => [input]
  | .join _ _ left right => [left, right]
  | .hashRepartition _ input => [input]
  | .keyRepartition _ input => [input]
  | .roundRobin input => [input]
  | .union inputs => inputs
  | .subquery plan _ => [plan]
  | .subqueryAlias _ input => [input]
  | .limit _ _ input => [input]
  | .distinct input => [input]
  | .distinctOn _ _ _ input => [input]
  | .explain input => [input]
  | .analyze input => [input]
  | .extension _ inputs => inputs
  | .unnest _ input => [input]
  | .recursive _ base step => [base, step]
  | .write _ _ input => [input]
  | .copy input => [input]
  | .createView _ input => [input]
  | .createTable _ _ input => [input]
  | .createExternalTable _ _ _ => []
  | .createIndex _ _ => []
  | .createFunctionWith _ _ _ => []
  | .createSchema _ => []
  | .createCatalog _ => []
  | .drop _ _ => []
  | .prepare _ input => [input]
  | .execute _ _ => []
  | .set _ _ => []
  | .deallocate _ => []
  | .startTransaction _ _ => []
  | .endTransaction _ _ => []

/-- The expressions that the step at the root of a plan holds and does not evaluate: the
outer columns of a subquery, and what a new table, index or function is made of. -/
def asides : Plan → List Expr
  | .subquery _ outer => outer
  | .createTable _ defaults _ => defaults
  | .createExternalTable _ defaults order => defaults ++ order
  | .createIndex _ columns => columns
  | .createFunctionWith _ defaults body => defaults ++ body.toList
  | _ => []

end Plan

/-- An expression or a plan. -/
inductive Tree where
  /-- An expression. -/
  | expr (e : Expr)
  /-- A plan. -/
  | plan (p : Plan)

namespace Tree

/-- The declaration of the function that is called at the root, if one is. -/
def call? : Tree → Option FunctionDecl
  | .expr e => e.call?
  | .plan _ => none

/-- The parts that are visited after the root, in order. -/
def children : Tree → List Tree
  | .expr e => e.subquery?.toList.map .plan ++ e.operands.map .expr
  | .plan p => p.exprs.map .expr ++ p.inputs.map .plan

/-- The expressions that the root holds and that are not visited. -/
def asides : Tree → List Expr
  | .expr e => e.asides
  | .plan p => p.asides

end Tree

/-! ### Parts are smaller -/

theorem sizeOf_lt_of_mem_unpair {x : Expr} {pairs : List (Expr × Expr)} (h : x ∈ unpair pairs) :
  sizeOf x < sizeOf pairs
  := by
  obtain ⟨⟨a, b⟩, hpair, h⟩ := List.mem_flatMap.mp h
  have hpair := List.sizeOf_lt_of_mem hpair
  simp only [Prod.mk.sizeOf_spec] at hpair
  simp only [List.mem_cons, List.not_mem_nil, or_false] at h
  obtain rfl | rfl := h <;> omega

theorem Expr.sizeOf_lt_of_mem_operands {e x : Expr} (h : x ∈ e.operands) :
  sizeOf x < sizeOf e
  := by
  cases e <;> simp only [operands] at h <;>
    grind [List.mem_flatten, → List.sizeOf_lt_of_mem, → sizeOf_lt_of_mem_unpair]

theorem Expr.sizeOf_lt_of_subquery? {e : Expr} {p : Plan} (h : e.subquery? = some p) :
  sizeOf p < sizeOf e
  := by
  cases e <;> grind [subquery?]

theorem Plan.sizeOf_lt_of_mem_exprs {p : Plan} {x : Expr} (h : x ∈ p.exprs) :
  sizeOf x < sizeOf p
  := by
  cases p <;> simp only [exprs] at h <;>
    grind [List.mem_flatten, → List.sizeOf_lt_of_mem, → sizeOf_lt_of_mem_unpair]

theorem Plan.sizeOf_lt_of_mem_inputs {p q : Plan} (h : q ∈ p.inputs) :
  sizeOf q < sizeOf p
  := by
  cases p <;> simp only [inputs] at h <;> grind [→ List.sizeOf_lt_of_mem]

/-- Every child is smaller than its parent. -/
theorem Tree.sizeOf_lt_of_mem_children {t c : Tree} (h : c ∈ t.children) :
  sizeOf c < sizeOf t
  := by
  cases t with
  | expr e =>
    simp only [children, List.mem_append, List.mem_map, Option.mem_toList] at h
    obtain ⟨p, hp, rfl⟩ | ⟨x, hx, rfl⟩ := h
    · have hp := Expr.sizeOf_lt_of_subquery? hp
      simpa
    · have hx := Expr.sizeOf_lt_of_mem_operands hx
      simpa
  | plan p =>
    simp only [children, List.mem_append, List.mem_map] at h
    obtain ⟨x, hx, rfl⟩ | ⟨q, hq, rfl⟩ := h
    · have hx := Plan.sizeOf_lt_of_mem_exprs hx
      simpa
    · have hq := Plan.sizeOf_lt_of_mem_inputs hq
      simpa

/-- What passes from the children to the parent holds of every tree. -/
@[elab_as_elim]
theorem Tree.induction {motive : Tree → Prop}
    (step : ∀ t, (∀ c ∈ t.children, motive c) → motive t) (t : Tree) :
  motive t
  := step t fun c _ => Tree.induction step c
termination_by sizeOf t
decreasing_by
  apply Tree.sizeOf_lt_of_mem_children
  assumption

/-- What passes from the inputs to a plan holds of every plan. -/
@[elab_as_elim]
theorem Plan.induction {motive : Plan → Prop}
    (step : ∀ p, (∀ q ∈ p.inputs, motive q) → motive p) (p : Plan) :
  motive p
  := step p fun q _ => Plan.induction step q
termination_by sizeOf p
decreasing_by
  apply Plan.sizeOf_lt_of_mem_inputs
  assumption

end QueryReuse
