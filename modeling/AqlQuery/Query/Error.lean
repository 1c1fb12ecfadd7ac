import AqlQuery.Json.Printer
import AqlQuery.Query.Basic

/-!
# What can be wrong with a query

Errors name their causes; the wording stands in the `message` functions alone. A build error comes
from the step that caused it, a resolve error from a column that the scope does not know, and a
structural error from the query as a whole.
-/

namespace AqlQuery

inductive BuildError where
  | unknownOperator (text : String)
  | illegalOperatorValue (operator : Operator)
  | nonNumericAmount (op : AdjustOp) (value : Json)
  | emptyInsert
  | invalidRecord (index : Nat)
  | mutationAlreadySet (existing : Shape)
  | aggregateWithoutColumn (function : AggregateFunction)
  deriving DecidableEq

inductive ResolveError where
  | unqualified (column : String)
  | unknownEntity (column qualifier : String)
  | notGrouped (column : String)
  | notWritable (column source : String)
  deriving DecidableEq

inductive StructuralError where
  | offsetWithoutLimit
  | missingSource
  | aggregateWithMutation (mutation : Shape)
  | shapeMismatch (expected found : Shape)
  deriving DecidableEq

inductive CompileError where
  | build (e : BuildError)
  | resolve (e : ResolveError)
  | structural (e : StructuralError)
  deriving DecidableEq

def BuildError.message : BuildError → String
  | .unknownOperator text => "unknown operator '" ++ text ++ "'"
  | .illegalOperatorValue operator =>
    "illegal operator and value combination: '" ++ operator.keyword ++
      "' cannot compare against null"
  | .nonNumericAmount op value =>
    "non-numeric value passed to " ++ op.stepName ++ ": " ++ value.text
  | .emptyInsert => "insert requires at least one record with at least one column"
  | .invalidRecord index => "insert record " ++ Text.decimal index ++ " is not a JSON object"
  | .mutationAlreadySet existing => "query already carries a " ++ existing.name ++ " mutation"
  | .aggregateWithoutColumn function =>
    "aggregate " ++ function.keyword ++ " requires a target column"

def ResolveError.message : ResolveError → String
  | .unqualified column =>
    "column '" ++ column ++ "' must be qualified with an entity name when joins are present"
  | .unknownEntity column qualifier =>
    "column '" ++ column ++ "' references '" ++ qualifier ++
      "', which is neither the source nor a joined collection"
  | .notGrouped column => "column '" ++ column ++ "' is not part of the group-by clause"
  | .notWritable column source =>
    "cannot write column '" ++ column ++ "': only attributes of '" ++ source ++
      "' can be updated"

def StructuralError.message : StructuralError → String
  | .offsetWithoutLimit => "offset requires a limit: AQL has no unbounded skip"
  | .missingSource => "query has no source collection"
  | .aggregateWithMutation mutation =>
    "aggregate cannot be combined with a " ++ mutation.name ++ " mutation"
  | .shapeMismatch expected found =>
    "cannot compile a " ++ expected.name ++ " statement from a query shaped as " ++ found.name

def CompileError.message : CompileError → String
  | .build e => e.message
  | .resolve e => e.message
  | .structural e => e.message

end AqlQuery
