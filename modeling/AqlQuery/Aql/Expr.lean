import AqlQuery.Column

/-!
# AQL expressions and filter formulas

The pieces of a statement as trees, each with the text it is written as. A filter is a chain of
formulas linked by `AND` and `OR`, of which `AND` binds tighter; a formula is a comparison or a
chain in parentheses.
-/

namespace AqlQuery.Aql

/-- Name under which an aggregated value is returned. -/
def aggregateKey : String := "aggregate"

/-- Variable that carries a grouped aggregate. -/
def aggregateVariable : String := "aggregate_value"

/-- Variable of the `index`-th group, counted from one. -/
def groupVariable (index : Nat) : String := "group_" ++ Text.decimal index

inductive Expr where
  | column (c : ResolvedColumn)
  | document (entity : String)
  | group (index : Nat)
  | aggregateValue
  | operand (o : Operand)
  | adjusted (c : ResolvedColumn) (op : AdjustOp) (amount : Number)
  | null
  | one
  deriving DecidableEq

def Expr.text : Expr → String
  | .column c => c.expression
  | .document entity => entity
  | .group index => groupVariable index
  | .aggregateValue => aggregateVariable
  | .operand o => o.text
  | .adjusted c op amount => c.expression ++ " " ++ op.keyword ++ " " ++ amount.text
  | .null => "null"
  | .one => "1"

/-- `{"key": value, …}` with the keys in quotes and the values as they are (`object_literal`). -/
def objectText (pairs : List (String × String)) : String :=
  "\x7b" ++ ", ".intercalate (pairs.map fun (key, value) => Json.quote key ++ ": " ++ value) ++
    "\x7d"

/-! ## Filters -/

/-- A condition without connectives. Membership in no set at all never holds. -/
inductive Comparison where
  | binary (left : ResolvedColumn) (operator : Operator) (right : Expr)
  | among (values : List Operand) (negated : Bool) (column : ResolvedColumn)
  | never
  deriving DecidableEq

def Comparison.text : Comparison → String
  | .binary left operator right =>
    left.expression ++ " " ++ operator.keyword ++ " " ++ right.text
  | .among values negated column =>
    "[" ++ ", ".intercalate (values.map Operand.text) ++ "] " ++
      (if negated then "NONE" else "ANY") ++ " == " ++ column.expression
  | .never => "false"

inductive Formula where
  | leaf (c : Comparison)
  | paren (chain : List (Connective × Formula))

/-- Linked formulas; the connective of the first one is not written. -/
abbrev Chain := List (Connective × Formula)

mutual
/-- The text of a formula. -/
def Formula.text : Formula → String
  | .leaf c => c.text
  | .paren chain => "(" ++ Formula.chainText chain ++ ")"
/-- The text of a chain. -/
def Formula.chainText : List (Connective × Formula) → String
  | [] => ""
  | (_, f) :: rest => f.text ++ Formula.linkedText rest
/-- The text of the formulas after the first, each after its connective. -/
def Formula.linkedText : List (Connective × Formula) → String
  | [] => ""
  | (link, f) :: rest => " " ++ link.keyword ++ " " ++ f.text ++ Formula.linkedText rest
end

mutual
/-- The formula of a condition in a scope; a group that says nothing has none (`render_node`). -/
def formulaOf (scope : Scope) : Condition → Except ResolveError (Option Formula)
  | .compare column operator value => do
    let c ← scope.resolve column
    .ok (some (.leaf (.binary c operator (.operand value))))
  | .member column values => do
    let c ← scope.resolve column
    .ok (some (.leaf (if values.isEmpty then .never else .among values false c)))
  | .notMember column values => do
    let c ← scope.resolve column
    .ok (some (.leaf (if values.isEmpty then .never else .among values true c)))
  | .isNull column => do
    let c ← scope.resolve column
    .ok (some (.leaf (.binary c .eq .null)))
  | .notNull column => do
    let c ← scope.resolve column
    .ok (some (.leaf (.binary c .ne .null)))
  | .compareColumns first operator second => do
    let a ← scope.resolve first
    let b ← scope.resolve second
    .ok (some (.leaf (.binary a operator (.column b))))
  | .group members => do
    let chain ← chainOf scope members
    .ok (if chain.isEmpty then none else some (.paren chain))
/-- The formulas of predicates, those that say nothing left out (`render_predicates`). -/
def chainOf (scope : Scope) : List (Connective × Condition) →
    Except ResolveError (List (Connective × Formula))
  | [] => .ok []
  | (link, condition) :: rest => do
    let formula ← formulaOf scope condition
    let chain ← chainOf scope rest
    match formula with
    | some f => .ok ((link, f) :: chain)
    | none => .ok chain
end

/-- Whether a predicate after the first is linked by `OR` (`has_top_level_or`). -/
def isDisjunctive (predicates : List Predicate) : Bool :=
  (predicates.drop 1).any fun p => p.1 == .or

/-- A part of a filter as it stands among other parts. -/
def asConjunct (part : Chain × Bool) : Chain :=
  match part with
  | (chain, true) => [(.and, .paren chain)]
  | ([], false) => []
  | ((_, f) :: rest, false) => (.and, f) :: rest

/-- The conjunction of the parts of a filter. A part that stands alone is written as it is; among
others, one with an `OR` of its own goes into parentheses. -/
def conjoin (parts : List (Chain × Bool)) : Chain :=
  match parts with
  | [] => []
  | [(chain, _)] => chain
  | parts => parts.flatMap asConjunct

/-- The lists of predicates that a filter joins: the conditions of each join, then the query's
own. -/
def predicateLists (q : Query) : List (List Predicate) :=
  q.joins.map Join.conditions ++ [q.predicates]

/-- The chain that a query filters by; empty if there is nothing to filter. -/
def filterChain (scope : Scope) (q : Query) : Except ResolveError Chain := do
  let parts ← (predicateLists q).mapM fun predicates => do
    let chain ← chainOf scope predicates
    .ok (chain, isDisjunctive predicates)
  .ok (conjoin (parts.filter fun part => !part.1.isEmpty))

end AqlQuery.Aql
