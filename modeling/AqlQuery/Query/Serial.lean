import AqlQuery.Json.Decode
import AqlQuery.Query.Basic

/-!
# Queries as JSON

A query is written as an object of its parts, and read back by the rules of `Json.record?` and
`Json.variant?`. Reading checks the form only: whether a binding that is mentioned exists, and
whether the counter fits the names, is not looked at.
-/

namespace AqlQuery

/-! ## Names of the alternatives -/

def Connective.variants : List (String × Connective) := [("And", .and), ("Or", .or)]

def Connective.variantName : Connective → String
  | .and => "And"
  | .or => "Or"

def Operator.variants : List (String × Operator) :=
  [("Eq", .eq), ("Ne", .ne), ("Lt", .lt), ("Le", .le), ("Gt", .gt), ("Ge", .ge), ("Like", .like),
    ("RegexMatch", .regexMatch), ("RegexNotMatch", .regexNotMatch)]

def Operator.variantName : Operator → String
  | .eq => "Eq"
  | .ne => "Ne"
  | .lt => "Lt"
  | .le => "Le"
  | .gt => "Gt"
  | .ge => "Ge"
  | .like => "Like"
  | .regexMatch => "RegexMatch"
  | .regexNotMatch => "RegexNotMatch"

def Direction.variants : List (String × Direction) := [("Asc", .asc), ("Desc", .desc)]

def Direction.variantName : Direction → String
  | .asc => "Asc"
  | .desc => "Desc"

def AggregateFunction.variants : List (String × AggregateFunction) :=
  [("Count", .count), ("Sum", .sum), ("Min", .min), ("Max", .max), ("Avg", .avg)]

def AggregateFunction.variantName : AggregateFunction → String
  | .count => "Count"
  | .sum => "Sum"
  | .min => "Min"
  | .max => "Max"
  | .avg => "Avg"

def AdjustOp.variants : List (String × AdjustOp) := [("Add", .add), ("Subtract", .subtract)]

def AdjustOp.variantName : AdjustOp → String
  | .add => "Add"
  | .subtract => "Subtract"

namespace Serial

/-! ## Writing -/

def strings (texts : List String) : Json := .array (texts.map Json.string)

def optional {α : Type} (f : α → Json) : Option α → Json
  | some a => f a
  | none => .null

def natural (n : Nat) : Json := .number (.int (Int.ofNat n))

/-- An alternative with content. -/
def tagged (name : String) (content : Json) : Json := .object [(name, content)]

def operand : Operand → Json
  | .bound name => tagged "Bound" (.string name)
  | .raw text => tagged "Raw" (.string text)

mutual
/-- A condition as JSON. -/
def condition : Condition → Json
  | .compare column operator value => tagged "Basic" (.object
      [("column", .string column), ("operator", .string operator.variantName),
        ("value", operand value)])
  | .member column values => tagged "In" (.object
      [("column", .string column), ("values", .array (values.map operand))])
  | .notMember column values => tagged "NotIn" (.object
      [("column", .string column), ("values", .array (values.map operand))])
  | .isNull column => tagged "Null" (.object [("column", .string column)])
  | .notNull column => tagged "NotNull" (.object [("column", .string column)])
  | .compareColumns first operator second => tagged "ColumnComparison" (.object
      [("first", .string first), ("operator", .string operator.variantName),
        ("second", .string second)])
  | .group members => tagged "Nested" (.array (predicates members))
/-- Linked conditions as JSON. -/
def predicates : List (Connective × Condition) → List Json
  | [] => []
  | (link, c) :: rest =>
    .object [("connective", .string link.variantName), ("node", condition c)] :: predicates rest
end

def join (j : Join) : Json :=
  .object [("collection", .string j.collection), ("conditions", .array (predicates j.conditions))]

def projection : Projection → Json
  | .all => .string "All"
  | .columns columns => tagged "Columns" (strings columns)

def order (o : OrderBy) : Json :=
  .object [("column", .string o.column), ("direction", .string o.direction.variantName)]

def aggregate (a : Aggregate) : Json :=
  .object [("function", .string a.function.variantName), ("columns", strings a.columns)]

def assignment : Assignment → Json
  | .set column value => tagged "Set" (.object
      [("column", .string column), ("value", operand value)])
  | .adjust column op amount => tagged "Adjust" (.object
      [("column", .string column), ("op", .string op.variantName), ("amount", .number amount)])

def record (r : OrderedMap Operand) : Json :=
  .object (Entries.mapValues operand r.entries)

def mutation : Mutation → Json
  | .insert records => tagged "Insert" (.array (records.map record))
  | .update assignments => tagged "Update" (.array (assignments.map assignment))
  | .delete => .string "Delete"

def bindings (t : BindTable) : Json :=
  .object [("counter", natural t.counter.toNat), ("entries", t.toJson)]

/-! ## Reading -/

def strings? : Json → Option (List String) := Json.listOf? Json.string?

/-- The content of an alternative whose fields have names: always an object. -/
def fields? (content : Json) : Option (Fields Json) :=
  content.members?.map Fields.ofPairs

def operand? (value : Json) : Option Operand :=
  match value.variant? with
  | some ("Bound", some content) => content.string?.map Operand.bound
  | some ("Raw", some content) => content.string?.map Operand.raw
  | _ => none

def operands? : Json → Option (List Operand) := Json.listOf? operand?

/-- A condition without members of its own, by the name of its alternative. -/
def plainCondition? (name : String) (content : Json) : Option Condition := do
  let fields ← fields? content
  match name with
  | "Basic" =>
    let column ← fields.need "column" Json.string?
    let operator ← fields.need "operator" (Json.unitVariant? Operator.variants)
    let value ← fields.need "value" operand?
    some (.compare column operator value)
  | "In" =>
    let column ← fields.need "column" Json.string?
    let values ← fields.need "values" operands?
    some (.member column values)
  | "NotIn" =>
    let column ← fields.need "column" Json.string?
    let values ← fields.need "values" operands?
    some (.notMember column values)
  | "Null" => (fields.need "column" Json.string?).map Condition.isNull
  | "NotNull" => (fields.need "column" Json.string?).map Condition.notNull
  | "ColumnComparison" =>
    let first ← fields.need "first" Json.string?
    let operator ← fields.need "operator" (Json.unitVariant? Operator.variants)
    let second ← fields.need "second" Json.string?
    some (.compareColumns first operator second)
  | _ => none

/-- Names of the fields of a linked condition. -/
def predicateFields : List String := ["connective", "node"]

mutual
/-- A condition out of JSON; `fuel` bounds how deep groups are nested. -/
def condition? : Nat → Json → Option Condition
  | 0, _ => none
  | fuel + 1, value =>
    match value.variant? with
    | some ("Nested", some content) => (predicates? fuel content).map Condition.group
    | some (name, some content) => plainCondition? name content
    | _ => none
/-- Linked conditions out of JSON. -/
def predicates? : Nat → Json → Option (List (Connective × Condition))
  | 0, _ => none
  | fuel + 1, value =>
    value.listOf? fun item => do
      let fields ← item.record? predicateFields
      let link ← fields.need "connective" (Json.unitVariant? Connective.variants)
      let c ← fields.need "node" (condition? fuel)
      some (link, c)
end

mutual
/-- How deep the arrays and objects of a value are nested. -/
def depth : Json → Nat
  | .array items => depthList items + 1
  | .object members => depthMembers members + 1
  | _ => 0
/-- The greatest depth among items. -/
def depthList : List Json → Nat
  | [] => 0
  | item :: rest => max (depth item) (depthList rest)
/-- The greatest depth among members. -/
def depthMembers : List (String × Json) → Nat
  | [] => 0
  | (_, value) :: rest => max (depth value) (depthMembers rest)
end

/-- Linked conditions out of JSON. Each group takes two levels of fuel and more than two levels of
depth. -/
def predicateList? (value : Json) : Option (List Predicate) :=
  predicates? (depth value + 1) value

def join? (value : Json) : Option Join := do
  let fields ← value.record? ["collection", "conditions"]
  let collection ← fields.need "collection" Json.string?
  let conditions ← fields.need "conditions" predicateList?
  some ⟨collection, conditions⟩

def projection? (value : Json) : Option Projection :=
  match value.variant? with
  | some ("All", none) => some .all
  | some ("All", some .null) => some .all
  | some ("Columns", some content) => (strings? content).map Projection.columns
  | _ => none

def order? (value : Json) : Option OrderBy := do
  let fields ← value.record? ["column", "direction"]
  let column ← fields.need "column" Json.string?
  let direction ← fields.need "direction" (Json.unitVariant? Direction.variants)
  some ⟨column, direction⟩

def aggregate? (value : Json) : Option Aggregate := do
  let fields ← value.record? ["function", "columns"]
  let function ← fields.need "function" (Json.unitVariant? AggregateFunction.variants)
  let columns ← fields.need "columns" strings?
  some ⟨function, columns⟩

def assignment? (value : Json) : Option Assignment :=
  match value.variant? with
  | some ("Set", some content) => do
    let fields ← fields? content
    let column ← fields.need "column" Json.string?
    let operand ← fields.need "value" operand?
    some (.set column operand)
  | some ("Adjust", some content) => do
    let fields ← fields? content
    let column ← fields.need "column" Json.string?
    let op ← fields.need "op" (Json.unitVariant? AdjustOp.variants)
    let amount ← fields.need "amount" Json.number?
    some (.adjust column op amount)
  | _ => none

def record? (value : Json) : Option (OrderedMap Operand) := do
  let members ← value.members?
  let pairs ← members.mapM fun (key, v) => (operand? v).map fun o => (key, o)
  some (.ofList pairs)

def mutation? (value : Json) : Option Mutation :=
  match value.variant? with
  | some ("Insert", some content) => (content.listOf? record?).map Mutation.insert
  | some ("Update", some content) => (content.listOf? assignment?).map Mutation.update
  | some ("Delete", none) => some .delete
  | some ("Delete", some .null) => some .delete
  | _ => none

def bindings? (value : Json) : Option BindTable := do
  let fields ← value.record? ["counter", "entries"]
  let counter ← fields.need "counter" Json.uint32?
  let entries ← fields.need "entries" Json.members?
  some ⟨counter, .ofList entries⟩

/-- Names of the fields of a query, in order. -/
def queryFields : List String :=
  ["source", "predicates", "joins", "projection", "groups", "ordering", "limit", "offset",
    "aggregate", "mutation", "bindings"]

end Serial

namespace Query

def toJson (q : Query) : Json :=
  .object
    [("source", .string q.source),
      ("predicates", .array (Serial.predicates q.predicates)),
      ("joins", .array (q.joins.map Serial.join)),
      ("projection", Serial.projection q.projection),
      ("groups", Serial.strings q.groups),
      ("ordering", .array (q.ordering.map Serial.order)),
      ("limit", Serial.optional (fun n : UInt64 => Serial.natural n.toNat) q.limit),
      ("offset", Serial.optional (fun n : UInt64 => Serial.natural n.toNat) q.offset),
      ("aggregate", Serial.optional Serial.aggregate q.aggregate),
      ("mutation", Serial.optional Serial.mutation q.mutation),
      ("bindings", Serial.bindings q.bindings)]

def ofJson? (value : Json) : Option Query := do
  let fields ← value.record? Serial.queryFields
  let source ← fields.need "source" Json.string?
  let predicates ← fields.need "predicates" Serial.predicateList?
  let joins ← fields.need "joins" (Json.listOf? Serial.join?)
  let projection ← fields.need "projection" Serial.projection?
  let groups ← fields.need "groups" Serial.strings?
  let ordering ← fields.need "ordering" (Json.listOf? Serial.order?)
  let limit ← fields.getOr "limit" none (Json.nullable? Json.uint64?)
  let offset ← fields.getOr "offset" none (Json.nullable? Json.uint64?)
  let aggregate ← fields.getOr "aggregate" none (Json.nullable? Serial.aggregate?)
  let mutation ← fields.getOr "mutation" none (Json.nullable? Serial.mutation?)
  let bindings ← fields.need "bindings" Serial.bindings?
  some
    { source, predicates, joins, projection, groups, ordering, limit, offset, aggregate, mutation
      bindings }

end Query

end AqlQuery
