import QueryReuse.Profile

/-!
# Expressions and plans

A logical plan is a tree of relational steps that hold expressions, and an expression may
hold plans in turn, as subqueries. Columns, literals and the like are kept although they
call no function, and so are the expressions that a node holds for later use, such as the
default values of a new table's columns.
-/

namespace QueryReuse

/-- A literal value. -/
inductive Literal where
  /-- The missing value. -/
  | null
  /-- A truth value. -/
  | boolean (value : Bool)
  /-- A number, as it is written. -/
  | number (text : String)
  /-- A text. -/
  | text (value : String)
deriving DecidableEq, Repr

/-- The operators with one operand. -/
inductive UnaryOp where
  /-- A list, spread over rows. -/
  | unnest
  /-- The logical negation. -/
  | not
  /-- The number with the opposite sign. -/
  | neg
  /-- The test for the missing value. -/
  | isNull
  /-- The test for a present value. -/
  | isNotNull
  /-- The test for truth. -/
  | isTrue
  /-- The test for falsehood or the missing value. -/
  | isNotTrue
  /-- The test for falsehood. -/
  | isFalse
  /-- The test for truth or the missing value. -/
  | isNotFalse
  /-- The test for a missing truth value. -/
  | isUnknown
  /-- The test for a present truth value. -/
  | isNotUnknown
  /-- The value in another type. -/
  | cast
  /-- The value in another type, or the missing value where it has none. -/
  | tryCast
deriving DecidableEq, Repr

/-- The ways to match a text against a pattern. -/
inductive PatternOp where
  /-- The pattern has wildcards. -/
  | like
  /-- The pattern is a regular expression. -/
  | similar
deriving DecidableEq, Repr

/-- What is called over a window. -/
inductive WindowCallee where
  /-- An aggregate function, whose group is the window. -/
  | aggregate
  /-- A window function proper. -/
  | window
deriving DecidableEq, Repr

mutual

/-- An expression. -/
inductive Expr where
  /-- A column of the input. -/
  | column (name : String)
  /-- A variable of the session. -/
  | sessionVariable (name : String)
  /-- A column of the query around a subquery. -/
  | outerColumn (name : String)
  /-- A parameter of a prepared statement. -/
  | placeholder (id : String)
  /-- A literal value. -/
  | literal (value : Literal)
  /-- All columns, with expressions that replace some of them. -/
  | wildcard (replace : List Expr)
  /-- An expression under a name. -/
  | named (body : Expr) (name : String)
  /-- An operator with one operand. -/
  | unary (op : UnaryOp) (operand : Expr)
  /-- An operator with two operands. -/
  | binary (op : String) (left right : Expr)
  /-- A text matched against a pattern. -/
  | pattern (op : PatternOp) (negated : Bool) (operand pattern : Expr)
  /-- A value compared with two bounds. -/
  | between (operand low high : Expr)
  /-- A choice among branches, each a condition and a value. -/
  | caseOf (operand : Option Expr) (branches : List (Expr × Expr)) (otherwise : Option Expr)
  /-- A value looked for in a list. -/
  | inList (operand : Expr) (items : List Expr)
  /-- A call of a scalar function. -/
  | scalarCall (f : FunctionDecl) (args : List Expr)
  /-- A call of an aggregate function. -/
  | aggregateCall (f : FunctionDecl) (args : List Expr) (filter : Option Expr)
      (orderBy : List Expr) (distinct : Bool)
  /-- A call of a function over a window. -/
  | windowCall (callee : WindowCallee) (f : FunctionDecl) (args partitionBy orderBy : List Expr)
  /-- The leading parts of a list, each as a grouping. -/
  | rollup (items : List Expr)
  /-- The parts of a list, each as a grouping. -/
  | cube (items : List Expr)
  /-- The listed groupings. -/
  | groupingSets (sets : List (List Expr))
  /-- The value of a subquery, with the outer columns it refers to. -/
  | scalarSubquery (plan : Plan) (outer : List Expr)
  /-- The test whether a subquery has a row. -/
  | existsSubquery (plan : Plan) (outer : List Expr) (negated : Bool)
  /-- The test whether a subquery has a value. -/
  | inSubquery (operand : Expr) (plan : Plan) (outer : List Expr) (negated : Bool)

/-- A logical plan. -/
inductive Plan where
  /-- No row, or a single row without columns. -/
  | empty (oneRow : Bool)
  /-- The columns of a table. -/
  | describe
  /-- The rows of a table that pass the filters. -/
  | scan (table : String) (filters : List Expr)
  /-- The listed rows. -/
  | values (rows : List (List Expr))
  /-- One column for each expression. -/
  | projection (exprs : List Expr) (input : Plan)
  /-- The rows that satisfy a predicate, before or after grouping. -/
  | filter (predicate : Expr) (having : Bool) (input : Plan)
  /-- The input with a column for each call over a window. -/
  | window (exprs : List Expr) (input : Plan)
  /-- One row for each group. -/
  | aggregate (groupBy aggregates : List Expr) (input : Plan)
  /-- The rows in the order of the keys. -/
  | sort (keys : List Expr) (input : Plan)
  /-- The pairs of rows that agree on pairs of keys and pass the filter. -/
  | join (keys : List (Expr × Expr)) (filter : Option Expr) (left right : Plan)
  /-- The rows distributed by the hash of the keys. -/
  | hashRepartition (keys : List Expr) (input : Plan)
  /-- The rows distributed by the keys. -/
  | keyRepartition (keys : List Expr) (input : Plan)
  /-- The rows distributed in turn. -/
  | roundRobin (input : Plan)
  /-- The rows of all inputs. -/
  | union (inputs : List Plan)
  /-- A subquery, with the outer columns it refers to. -/
  | subquery (plan : Plan) (outer : List Expr)
  /-- A subquery under a name. -/
  | subqueryAlias (name : String) (input : Plan)
  /-- The rows after some, up to a number. -/
  | limit (skip fetch : Option Expr) (input : Plan)
  /-- The rows without repetitions. -/
  | distinct (input : Plan)
  /-- The first row for each value of the keys. -/
  | distinctOn (keys select sort : List Expr) (input : Plan)
  /-- The text of a plan. -/
  | explain (input : Plan)
  /-- The measurements of a plan's run. -/
  | analyze (input : Plan)
  /-- A step that is defined elsewhere. -/
  | extension (exprs : List Expr) (inputs : List Plan)
  /-- The rows with list columns spread over rows. -/
  | unnest (columns : List String) (input : Plan)
  /-- A query that refers to its own result. -/
  | recursive (name : String) (base step : Plan)
  /-- The rows written to a table. -/
  | write (table op : String) (input : Plan)
  /-- The rows written to a file. -/
  | copy (input : Plan)
  /-- A new view. -/
  | createView (name : String) (input : Plan)
  /-- A new table, with default values of its columns. -/
  | createTable (name : String) (defaults : List Expr) (input : Plan)
  /-- A new table over files, with default values of its columns and the order of its rows. -/
  | createExternalTable (name : String) (defaults order : List Expr)
  /-- A new index. -/
  | createIndex (name : String) (columns : List Expr)
  /-- A new function, with default values of its arguments. -/
  | createFunctionWith (name : String) (defaults : List Expr) (body : Option Expr)
  /-- A new schema. -/
  | createSchema (name : String)
  /-- A new catalog. -/
  | createCatalog (name : String)
  /-- The removal of an object. -/
  | drop (what : String) (name : Option String)
  /-- A prepared statement. -/
  | prepare (name : String) (input : Plan)
  /-- A run of a prepared statement. -/
  | execute (name : String) (params : List Expr)
  /-- The setting of a variable of the session. -/
  | set (name value : String)
  /-- The removal of a prepared statement. -/
  | deallocate (name : String)
  /-- The start of a transaction. -/
  | startTransaction (access isolation : String)
  /-- The end of a transaction. -/
  | endTransaction (conclusion : String) (chain : Bool)

end

/-- A new function whose arguments have no default values. -/
def Plan.createFunction (name : String) (body : Option Expr) : Plan :=
  .createFunctionWith name [] body

instance : Inhabited Expr := ⟨.literal .null⟩

instance : Inhabited Plan := ⟨.empty false⟩

end QueryReuse
