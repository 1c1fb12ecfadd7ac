import AqlQuery.Query.Error

/-!
# Checks and normal form

Before a statement is written, its query passes a pipeline: the check refuses what no statement can
say, and normalisation drops what no statement would show. The bindings of an insert are numbered
anew, since the dropped conditions take theirs with them.
-/

namespace AqlQuery

namespace Query

/-- Whether the name of the source is blank or backticks only. -/
def lacksSource (q : Query) : Bool :=
  Text.strip (· == '\x60') (Text.trim q.source) == ""

/-- Refuses a query without a source, with an offset but no limit, or with an aggregate beside a
mutation, in this order. -/
def check (q : Query) : Except StructuralError Unit :=
  if q.lacksSource then .error .missingSource
  else if q.offset.isSome && q.limit.isNone then .error .offsetWithoutLimit
  else
    match q.aggregate, q.mutation with
    | some _, some m => .error (.aggregateWithMutation m.shape)
    | _, _ => .ok ()

/-- The literal behind an operand; a binding that is missing counts as null. -/
def literalOf (previous : BindTable) : Operand → Literal
  | .bound name => .value ((previous.get? name).getD .null)
  | .raw text => .raw text

/-- Moves the operands of a record into another table. -/
def rebindEntries (previous table : BindTable) :
    List (String × Operand) → List (String × Operand) × BindTable
  | [] => ([], table)
  | (key, operand) :: rest =>
    let (operand, table) := table.allocate (literalOf previous operand)
    let (pairs, table) := rebindEntries previous table rest
    ((key, operand) :: pairs, table)

theorem keys_rebindEntries (previous table : BindTable) (pairs : List (String × Operand)) :
    Entries.keys (rebindEntries previous table pairs).1 = Entries.keys pairs := by
  induction pairs generalizing table with
  | nil => rfl
  | cons pair rest ih =>
    have := ih (table.allocate (literalOf previous pair.2)).2
    simp only [Entries.keys] at this
    simp [rebindEntries, Entries.keys, this]

/-- Moves the operands of a record into another table, under the same keys. -/
def rebindRecord (previous table : BindTable) (record : OrderedMap Operand) :
    OrderedMap Operand × BindTable :=
  (⟨(rebindEntries previous table record.entries).1,
    by rw [keys_rebindEntries]; exact record.nodup⟩,
    (rebindEntries previous table record.entries).2)

/-- Moves the operands of records into another table, record by record. -/
def rebindRecords (previous table : BindTable) :
    List (OrderedMap Operand) → List (OrderedMap Operand) × BindTable
  | [] => ([], table)
  | record :: rest =>
    let (record, table) := rebindRecord previous table record
    let (records, table) := rebindRecords previous table rest
    (record :: records, table)

/-- A single value has no order. -/
def dropScalarOrder (q : Query) : Query :=
  if q.isScalarAggregate then { q with ordering := [] } else q

/-- An insert depends on its source and its records only. -/
def isolateInsert (q : Query) : Query :=
  match q.mutation with
  | some (.insert records) =>
    let (records, table) := rebindRecords q.bindings .empty records
    { q with
      predicates := []
      joins := []
      ordering := []
      limit := none
      offset := none
      mutation := some (.insert records)
      bindings := table }
  | _ => q

/-- No column at all means whole documents. -/
def fillProjection (q : Query) : Query :=
  if q.projection = .columns [] then { q with projection := .all } else q

/-- Drops the parts of a query that its statement would not show. -/
def normalize (q : Query) : Query :=
  q.dropScalarOrder.isolateInsert.fillProjection

end Query

/-! ## Pipelines -/

/-- A stage that a query passes before its statement is written. -/
inductive Stage where
  | validate
  | normalize
  deriving DecidableEq, Repr

namespace Stage

def name : Stage → String
  | .validate => "validate"
  | .normalize => "normalize"

def apply (stage : Stage) (q : Query) : Except CompileError Query :=
  match stage with
  | .validate =>
    match q.check with
    | .ok () => .ok q
    | .error e => .error (.structural e)
  | .normalize => .ok q.normalize

end Stage

/-- Stages in the order in which they are passed. -/
abbrev Pipeline := List Stage

namespace Pipeline

/-- The check comes first, so that only what can be said is normalised. -/
def default : Pipeline := [.validate, .normalize]

def run : Pipeline → Query → Except CompileError Query
  | [], q => .ok q
  | stage :: rest, q =>
    match stage.apply q with
    | .error e => .error e
    | .ok q => run rest q

/-- The stages that a run starts: all up to the first that fails. -/
def started : Pipeline → Query → List Stage
  | [], _ => []
  | stage :: rest, q =>
    match stage.apply q with
    | .error _ => [stage]
    | .ok q => stage :: started rest q

end Pipeline

end AqlQuery
