import AqlQuery.Query.Builder

/-!
# Steps

The steps that build a query, as data. A step either leads to a query or fails, and a group holds
the steps that run on its scratch query; the first of them to fail fails the group.
-/

namespace AqlQuery

inductive Step where
  | table (name : String)
  | load (query : Query)
  | filter (link : Connective) (column : String) (operator : Operator) (value : Literal)
  | filterEq (link : Connective) (column : String) (value : Literal)
  | whereKey (key : Literal)
  | whereIn (link : Connective) (negated : Bool) (column : String) (values : List Literal)
  | whereNull (link : Connective) (negated : Bool) (column : String)
  | whereColumn (link : Connective) (first : String) (operator : Operator) (second : String)
  | whereBetween (link : Connective) (negated : Bool) (column : String) (low high : Literal)
  | whereNested (link : Connective) (steps : List Step)
  | join (collection first : String) (operator : Operator) (second : String)
  | joinWhere (collection : String) (steps : List Step)
  | crossJoin (collection : String)
  | select (columns : List String)
  | addSelect (column : String)
  | groupBy (columns : List String)
  | orderBy (column : String) (direction : Direction)
  | take (n : UInt64)
  | skip (n : UInt64)
  | forPage (page perPage : UInt64)
  | aggregate (function : AggregateFunction) (columns : List String)
  | insert (records : List (List (String × Literal)))
  | insertJson (records : List Json)
  | update (values : List (String × Literal))
  | adjust (op : AdjustOp) (column : String) (amount : Json) (extra : List (String × Literal))
  | delete

mutual
/-- What a step makes of a query. -/
def Step.apply : Step → Query → Except BuildError Query
  | .table name, _ => .ok (.table name)
  | .load query, _ => .ok query
  | .filter link column operator value, q => q.filter link column operator value
  | .filterEq link column value, q => .ok (q.filterEq link column value)
  | .whereKey key, q => .ok (q.whereKey key)
  | .whereIn link negated column values, q => .ok (q.whereIn link negated column values)
  | .whereNull link negated column, q => .ok (q.whereNull link negated column)
  | .whereColumn link first operator second, q => .ok (q.whereColumn link first operator second)
  | .whereBetween link negated column low high, q =>
    .ok (q.whereBetween link negated column low high)
  | .whereNested link steps, q => q.whereNested link fun scratch => Step.applyAll steps scratch
  | .join collection first operator second, q => .ok (q.join collection first operator second)
  | .joinWhere collection steps, q =>
    q.joinWhere collection fun scratch => Step.applyAll steps scratch
  | .crossJoin collection, q => .ok (q.crossJoin collection)
  | .select columns, q => .ok (q.select columns)
  | .addSelect column, q => .ok (q.addSelect column)
  | .groupBy columns, q => .ok (q.groupBy columns)
  | .orderBy column direction, q => .ok (q.orderBy column direction)
  | .take n, q => .ok (q.take n)
  | .skip n, q => .ok (q.skip n)
  | .forPage page perPage, q => .ok (q.forPage page perPage)
  | .aggregate function columns, q => q.withAggregate function columns
  | .insert records, q => q.insert records
  | .insertJson records, q => q.insertJson records
  | .update values, q => q.update values
  | .adjust op column amount extra, q => q.adjust op column amount extra
  | .delete, q => q.delete
/-- Runs steps in order and stops at the first that fails. -/
def Step.applyAll : List Step → Query → Except BuildError Query
  | [], q => .ok q
  | step :: rest, q =>
    match step.apply q with
    | .error e => .error e
    | .ok q => Step.applyAll rest q
end

namespace Query

/-- Runs steps in order and stops at the first that fails. -/
def run (steps : List Step) (q : Query) : Except BuildError Query := Step.applyAll steps q

/-- Runs steps in order; one that fails leaves the query as it was. -/
def runLenient (steps : List Step) (q : Query) : Query :=
  steps.foldl (fun q step => match step.apply q with | .ok q' => q' | .error _ => q) q

end Query

end AqlQuery
