import AqlQuery.BindTable

/-!
# Queries

A query is the structure of one statement before any text is written: a source collection, the
conditions on it, joined collections, what to return and in which order, and a pending mutation.
Columns are raw texts here; they are resolved when the statement is written.
-/

namespace AqlQuery

/-- How a condition is linked to the one before it. -/
inductive Connective where
  | and
  | or
  deriving DecidableEq, Repr, Inhabited

inductive Operator where
  | eq
  | ne
  | lt
  | le
  | gt
  | ge
  | like
  | regexMatch
  | regexNotMatch
  deriving DecidableEq, Repr, Inhabited

inductive Direction where
  | asc
  | desc
  deriving DecidableEq, Repr

inductive AggregateFunction where
  | count
  | sum
  | min
  | max
  | avg
  deriving DecidableEq, Repr, Inhabited

inductive AdjustOp where
  | add
  | subtract
  deriving DecidableEq, Repr, Inhabited

/-- The four forms of a statement. -/
inductive Shape where
  | select
  | insert
  | update
  | delete
  deriving DecidableEq, Repr, Inhabited

/-! ## Keywords -/

namespace Connective

def keyword : Connective → String
  | .and => "AND"
  | .or => "OR"

end Connective

namespace Operator

def keyword : Operator → String
  | .eq => "=="
  | .ne => "!="
  | .lt => "<"
  | .le => "<="
  | .gt => ">"
  | .ge => ">="
  | .like => "LIKE"
  | .regexMatch => "=~"
  | .regexNotMatch => "!~"

/-- Only tests of equality may compare against null. -/
def acceptsNull : Operator → Bool
  | .eq => true
  | .ne => true
  | _ => false

/-- The accepted spellings, in lower case. -/
def spellings : List (String × Operator) :=
  [("=", .eq), ("==", .eq), ("!=", .ne), ("<>", .ne), ("<", .lt), ("<=", .le), (">", .gt),
    (">=", .ge), ("like", .like), ("=~", .regexMatch), ("!~", .regexNotMatch)]

/-- Reads an operator; blanks around it and the case of ASCII letters do not matter. -/
def ofText? (s : String) : Option Operator :=
  spellings.lookup (Text.lower (Text.trim s))

end Operator

namespace Direction

instance : Inhabited Direction := ⟨.asc⟩

def keyword : Direction → String
  | .asc => "ASC"
  | .desc => "DESC"

/-- Whatever is not `asc` sorts descending. -/
def ofText (s : String) : Direction :=
  if Text.lower (Text.trim s) = "asc" then .asc else .desc

end Direction

def AggregateFunction.keyword : AggregateFunction → String
  | .count => "COUNT"
  | .sum => "SUM"
  | .min => "MIN"
  | .max => "MAX"
  | .avg => "AVERAGE"

namespace AdjustOp

def keyword : AdjustOp → String
  | .add => "+"
  | .subtract => "-"

/-- Name of the step that adjusts a column this way. -/
def stepName : AdjustOp → String
  | .add => "increment"
  | .subtract => "decrement"

end AdjustOp

def Shape.name : Shape → String
  | .select => "select"
  | .insert => "insert"
  | .update => "update"
  | .delete => "delete"

/-! ## Conditions -/

/-- A condition on a row. A group is evaluated as a unit; the connective of its first member has no
meaning. -/
inductive Condition where
  | compare (column : String) (operator : Operator) (value : Operand)
  | member (column : String) (values : List Operand)
  | notMember (column : String) (values : List Operand)
  | isNull (column : String)
  | notNull (column : String)
  | compareColumns (first : String) (operator : Operator) (second : String)
  | group (members : List (Connective × Condition))
  deriving Repr, Inhabited

/-- A condition and its link to the one on its left. -/
abbrev Predicate := Connective × Condition

mutual
/-- Decides equality of two conditions. -/
def Condition.decEq : (a b : Condition) → Decidable (a = b)
  | .compare c o v, b => by
    cases b with
    | compare c' o' v' =>
      exact if h : c = c' ∧ o = o' ∧ v = v' then isTrue (by simp [h])
        else isFalse (by simpa using h)
    | _ => exact isFalse (by simp)
  | .member c vs, b => by
    cases b with
    | member c' vs' =>
      exact if h : c = c' ∧ vs = vs' then isTrue (by simp [h]) else isFalse (by simpa using h)
    | _ => exact isFalse (by simp)
  | .notMember c vs, b => by
    cases b with
    | notMember c' vs' =>
      exact if h : c = c' ∧ vs = vs' then isTrue (by simp [h]) else isFalse (by simpa using h)
    | _ => exact isFalse (by simp)
  | .isNull c, b => by
    cases b with
    | isNull c' => exact if h : c = c' then isTrue (by simp [h]) else isFalse (by simp [h])
    | _ => exact isFalse (by simp)
  | .notNull c, b => by
    cases b with
    | notNull c' => exact if h : c = c' then isTrue (by simp [h]) else isFalse (by simp [h])
    | _ => exact isFalse (by simp)
  | .compareColumns f o s, b => by
    cases b with
    | compareColumns f' o' s' =>
      exact if h : f = f' ∧ o = o' ∧ s = s' then isTrue (by simp [h])
        else isFalse (by simpa using h)
    | _ => exact isFalse (by simp)
  | .group ms, b => by
    cases b with
    | group ms' =>
      exact match Condition.decEqMembers ms ms' with
        | isTrue h => isTrue (by simp [h])
        | isFalse h => isFalse (by simp [h])
    | _ => exact isFalse (by simp)
/-- Decides equality of two lists of predicates. -/
def Condition.decEqMembers : (xs ys : List (Connective × Condition)) → Decidable (xs = ys)
  | [], [] => isTrue rfl
  | [], _ :: _ => isFalse (by simp)
  | _ :: _, [] => isFalse (by simp)
  | (k, x) :: xs, (l, y) :: ys =>
    match Condition.decEq x y, Condition.decEqMembers xs ys with
    | isTrue h, isTrue hs =>
      if hk : k = l then isTrue (by simp [hk, h, hs]) else isFalse (by simp [hk])
    | isFalse h, _ => isFalse (by simp [h])
    | _, isFalse hs => isFalse (by simp [hs])
end

instance : DecidableEq Condition := Condition.decEq

/-! ## The parts of a query -/

/-- A joined collection and the conditions that relate it to the others. -/
structure Join where
  collection : String
  conditions : List Predicate
  deriving DecidableEq, Inhabited

/-- What a select returns: whole documents of the source, or columns with optional labels. -/
inductive Projection where
  | all
  | columns (columns : List String)
  deriving DecidableEq, Inhabited

structure OrderBy where
  column : String
  direction : Direction
  deriving DecidableEq, Inhabited

/-- An aggregate over its first column; `*` stands for whole documents. -/
structure Aggregate where
  function : AggregateFunction
  columns : List String
  deriving DecidableEq, Inhabited

/-- One `column: value` pair of an update. -/
inductive Assignment where
  | set (column : String) (value : Operand)
  | adjust (column : String) (op : AdjustOp) (amount : Number)
  deriving DecidableEq, Inhabited

def Assignment.column : Assignment → String
  | .set column _ => column
  | .adjust column _ _ => column

inductive Mutation where
  | insert (records : List (OrderedMap Operand))
  | update (assignments : List Assignment)
  | delete
  deriving DecidableEq, Inhabited

def Mutation.shape : Mutation → Shape
  | .insert _ => .insert
  | .update _ => .update
  | .delete => .delete

/-- A query under construction, with the bindings of its literals. -/
structure Query where
  source : String
  predicates : List Predicate := []
  joins : List Join := []
  projection : Projection := .all
  groups : List String := []
  ordering : List OrderBy := []
  limit : Option UInt64 := none
  offset : Option UInt64 := none
  aggregate : Option Aggregate := none
  mutation : Option Mutation := none
  bindings : BindTable := .empty
  deriving DecidableEq, Inhabited

namespace Query

/-- A query over a collection, with nothing asked of it yet. -/
def table (collection : String) : Query := { source := collection }

/-- The form of the statement, decided by the pending mutation. -/
def shape (q : Query) : Shape :=
  match q.mutation with
  | some m => m.shape
  | none => .select

/-- An aggregate over all rows at once. -/
def isScalarAggregate (q : Query) : Bool :=
  q.aggregate.isSome && q.groups.isEmpty

end Query

/-- The attribute that holds a document's key. -/
def primaryKey : String := "_key"

/-- The column that stands for the whole document. -/
def wholeDocument : String := "*"

end AqlQuery
