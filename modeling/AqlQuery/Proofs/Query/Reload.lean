import AqlQuery.Proofs.Entries
import AqlQuery.Proofs.Outcome
import AqlQuery.Query.Serial
import AqlQuery.Query.Step
import AqlQuery.Statement

/-!
# Reading a query back

Every part of a query is read back from the JSON it is written as, with the order of conditions,
record keys and bindings. Readers and writers are taken together part by part: `Restores` says that
a reader undoes a writer, and lists, optional values and named alternatives keep it. Conditions
nest, and the fuel of their reader is measured by the depth of what was written.
-/

namespace AqlQuery

namespace Fields

variable {α β : Type} {read : α → Option β}

@[simp] theorem need_ofPairs_self (name : String) (v : α) (rest : List (String × α)) :
    (ofPairs ((name, v) :: rest)).need name read = read v := by
  simp [need, ofPairs]

@[simp] theorem need_ofPairs_of_ne {name other : String} (h : name ≠ other) (v : α)
    (rest : List (String × α)) :
    (ofPairs ((other, v) :: rest)).need name read = (ofPairs rest).need name read := by
  have hne : (name == other) = false := beq_false_of_ne h
  simp [need, ofPairs, List.lookup_cons, hne]

@[simp] theorem getOr_ofPairs_self (name : String) (fallback : β) (v : α)
    (rest : List (String × α)) :
    (ofPairs ((name, v) :: rest)).getOr name fallback read = read v := by
  simp [getOr, ofPairs]

@[simp] theorem getOr_ofPairs_of_ne {name other : String} (h : name ≠ other) (fallback : β) (v : α)
    (rest : List (String × α)) :
    (ofPairs ((other, v) :: rest)).getOr name fallback read =
      (ofPairs rest).getOr name fallback read := by
  have hne : (name == other) = false := beq_false_of_ne h
  simp [getOr, ofPairs, List.lookup_cons, hne]

end Fields

namespace Serial

/-! ## Readers that undo writers -/

/-- What is written is read back as it was. -/
def Restores {α : Type} (read : Json → Option α) (write : α → Json) : Prop :=
  ∀ a, read (write a) = some a

section Restores

variable {α : Type} {read : Json → Option α} {write : α → Json}

theorem Restores.list (h : Restores read write) :
    Restores (Json.listOf? read) fun xs => .array (xs.map write) :=
  fun _ => Outcome.mapM_map_some fun x _ => h x

/-- Nothing is written as `null`, so what is there must not be. -/
theorem Restores.optional (h : Restores read write) (hn : ∀ a, (write a).isNull = false) :
    Restores (Json.nullable? read) (optional write) := by
  intro o
  cases o with
  | none => rfl
  | some a =>
    show Json.nullable? read (write a) = some (some a)
    rw [Json.nullable?, hn a, h a]
    rfl

theorem restores_unitVariant {alternatives : List (String × α)} {name : α → String}
    (h : ∀ a, alternatives.lookup (name a) = some a) :
    Restores (Json.unitVariant? alternatives) fun a => .string (name a) :=
  h

end Restores

theorem restores_string : Restores Json.string? Json.string := fun _ => rfl

theorem restores_strings : Restores strings? strings := restores_string.list

theorem restores_connective :
    Restores (Json.unitVariant? Connective.variants) fun k => .string k.variantName :=
  restores_unitVariant fun k => by cases k <;> rfl

theorem restores_operator :
    Restores (Json.unitVariant? Operator.variants) fun o => .string o.variantName :=
  restores_unitVariant fun o => by cases o <;> rfl

theorem restores_direction :
    Restores (Json.unitVariant? Direction.variants) fun d => .string d.variantName :=
  restores_unitVariant fun d => by cases d <;> rfl

theorem restores_aggregateFunction :
    Restores (Json.unitVariant? AggregateFunction.variants) fun f => .string f.variantName :=
  restores_unitVariant fun f => by cases f <;> rfl

theorem restores_adjustOp :
    Restores (Json.unitVariant? AdjustOp.variants) fun op => .string op.variantName :=
  restores_unitVariant fun op => by cases op <;> rfl

theorem natBelow?_natural {n bound : Nat} (h : n < bound) :
    (natural n).natBelow? bound = some n := by
  simp [natural, Json.natBelow?, Number.toNat?, h]

theorem restores_uint64 : Restores Json.uint64? fun n => natural n.toNat := by
  intro n
  rw [Json.uint64?, natBelow?_natural n.toNat_lt_size]
  simp

theorem restores_uint32 : Restores Json.uint32? fun n => natural n.toNat := by
  intro n
  rw [Json.uint32?, natBelow?_natural n.toNat_lt_size]
  simp

theorem restores_operand : Restores operand? operand := by
  intro o
  cases o <;> rfl

theorem restores_operands : Restores operands? fun os => .array (os.map operand) :=
  restores_operand.list

/-! ## Conditions -/

/-- One linked condition out of JSON, as `predicates?` reads each item. -/
def predicate? (fuel : Nat) (item : Json) : Option Predicate := do
  let fields ← item.record? predicateFields
  let link ← fields.need "connective" (Json.unitVariant? Connective.variants)
  let c ← fields.need "node" (condition? fuel)
  some (link, c)

theorem predicates?_array (fuel : Nat) (items : List Json) :
    predicates? (fuel + 1) (.array items) = items.mapM (predicate? fuel) := rfl

theorem condition?_nested (fuel : Nat) (content : Json) :
    condition? (fuel + 1) (tagged "Nested" content) =
      (predicates? fuel content).map Condition.group := rfl

/-- The other alternatives hold no conditions of their own. -/
theorem condition?_plain {name : String} (h : name ≠ "Nested") (fuel : Nat) (content : Json) :
    condition? (fuel + 1) (tagged name content) = plainCondition? name content := by
  rw [condition?]
  -- the first alternative of the match is the one that `h` rules out
  simp [tagged, Json.variant?]

mutual
/-- More fuel than depth reads a condition back. -/
theorem condition?_condition (c : Condition) {fuel : Nat} (h : depth (condition c) < fuel) :
    condition? fuel (condition c) = some c := by
  obtain ⟨fuel, rfl⟩ : ∃ n, fuel = n + 1 := ⟨fuel - 1, by omega⟩
  cases c with
  | compare column operator value =>
    have ho := restores_operator operator
    have hv := restores_operand value
    rw [condition, condition?_plain (by decide)]
    simp [plainCondition?, fields?, Json.members?, Json.string?, ho, hv]
  | member column values =>
    have hv := restores_operands values
    rw [condition, condition?_plain (by decide)]
    simp [plainCondition?, fields?, Json.members?, Json.string?, hv]
  | notMember column values =>
    have hv := restores_operands values
    rw [condition, condition?_plain (by decide)]
    simp [plainCondition?, fields?, Json.members?, Json.string?, hv]
  | isNull column => rfl
  | notNull column => rfl
  | compareColumns first operator second =>
    have ho := restores_operator operator
    rw [condition, condition?_plain (by decide)]
    simp [plainCondition?, fields?, Json.members?, Json.string?, ho]
  | group members =>
    -- the brackets of the group take one level of depth and one of fuel, its tag another
    have hdepth : depth (condition (.group members)) = depthList (predicates members) + 2 := by
      simp [condition, tagged, depth, depthMembers]
    rw [hdepth] at h
    obtain ⟨fuel, rfl⟩ : ∃ n, fuel = n + 1 := ⟨fuel - 1, by omega⟩
    rw [condition, condition?_nested, predicates?_array,
      mapM_predicate? members (by omega)]
    rfl
theorem mapM_predicate? (members : List Predicate) {fuel : Nat}
    (h : depthList (predicates members) < fuel) :
    (predicates members).mapM (predicate? fuel) = some members := by
  cases members with
  | nil => rfl
  | cons member rest =>
    obtain ⟨link, c⟩ := member
    simp only [predicates, depthList, depth, depthMembers] at h
    have hlink := restores_connective link
    have hc := @condition?_condition c fuel (by omega)
    have hrest := @mapM_predicate? rest fuel (by omega)
    rw [predicates, List.mapM_cons, hrest]
    simp [predicate?, Json.record?, hlink, hc]
end

theorem restores_predicateList :
    Restores predicateList? fun members => .array (predicates members) := by
  intro members
  rw [predicateList?, predicates?_array, depth]
  exact mapM_predicate? members (Nat.lt_succ_self _)

/-! ## The other parts -/

theorem restores_join : Restores join? join := by
  intro j
  have hc := restores_predicateList j.conditions
  simp [join?, join, Json.record?, Json.string?, hc]

theorem restores_projection : Restores projection? projection := by
  intro p
  cases p with
  | all => rfl
  | columns columns =>
    show (strings? (strings columns)).map Projection.columns = some (.columns columns)
    rw [restores_strings columns]
    rfl

theorem restores_order : Restores order? order := by
  intro o
  have hd := restores_direction o.direction
  simp [order?, order, Json.record?, Json.string?, hd]

theorem restores_aggregate : Restores aggregate? aggregate := by
  intro a
  have hf := restores_aggregateFunction a.function
  have hc := restores_strings a.columns
  simp [aggregate?, aggregate, Json.record?, hf, hc]

theorem restores_assignment : Restores assignment? assignment := by
  intro a
  cases a with
  | set column value =>
    have hv := restores_operand value
    simp [assignment?, assignment, tagged, Json.variant?, fields?, Json.members?, Json.string?, hv]
  | adjust column op amount =>
    have hop := restores_adjustOp op
    simp [assignment?, assignment, tagged, Json.variant?, fields?, Json.members?, Json.string?,
      Json.number?, hop]

/-- A pair of a record out of JSON, as `record?` reads each member. -/
def recordPair? (member : String × Json) : Option (String × Operand) :=
  (operand? member.2).map fun o => (member.1, o)

theorem record?_object (members : List (String × Json)) :
    record? (.object members) =
      (members.mapM recordPair?).bind fun pairs => some (OrderedMap.ofList pairs) := rfl

/-- The keys of a record are distinct, so none of its entries is lost. -/
theorem restores_record : Restores record? record := by
  intro r
  have hentries : (Entries.mapValues operand r.entries).mapM recordPair? = some r.entries := by
    apply Outcome.mapM_map_some
    intro entry _
    rw [recordPair?, restores_operand entry.2]
    rfl
  rw [record, record?_object, hentries]
  exact congrArg some (OrderedMap.ext (OrderedMap.entries_ofList r.nodup))

theorem restores_mutation : Restores mutation? mutation := by
  intro m
  cases m with
  | insert records =>
    show (Json.listOf? record? (.array (records.map record))).map Mutation.insert = _
    rw [restores_record.list records]
    rfl
  | update assignments =>
    show (Json.listOf? assignment? (.array (assignments.map assignment))).map Mutation.update = _
    rw [restores_assignment.list assignments]
    rfl
  | delete => rfl

theorem restores_bindings : Restores bindings? bindings := by
  intro t
  have hc := restores_uint32 t.counter
  have he : OrderedMap.ofList t.entries.entries = t.entries :=
    OrderedMap.ext (OrderedMap.entries_ofList t.entries.nodup)
  simp [bindings?, bindings, Json.record?, BindTable.toJson, Json.members?, hc, he]

theorem isNull_mutation (m : Mutation) : (mutation m).isNull = false := by
  cases m <;> rfl

end Serial

namespace Query

open Serial

theorem restores_query : Restores ofJson? toJson := by
  intro q
  have hpredicates := restores_predicateList q.predicates
  have hjoins := restores_join.list q.joins
  have hprojection := restores_projection q.projection
  have hgroups := restores_strings q.groups
  have hordering := restores_order.list q.ordering
  have hlimit := (restores_uint64.optional fun _ => rfl) q.limit
  have hoffset := (restores_uint64.optional fun _ => rfl) q.offset
  have haggregate := (restores_aggregate.optional fun _ => rfl) q.aggregate
  have hmutation := (restores_mutation.optional isNull_mutation) q.mutation
  have hbindings := restores_bindings q.bindings
  simp [ofJson?, toJson, Json.record?, Json.string?, *]

/-- A query that is written and read back is the same query, in every part and in the order of each
of them: further steps and compilation make the same of it. -/
theorem ofJson?_toJson (q : Query) :
    ofJson? q.toJson = some q ∧
      ∀ steps, (ofJson? q.toJson).map (fun reloaded => (reloaded.run steps).map compile) =
        some ((q.run steps).map compile) := by
  refine ⟨restores_query q, fun steps => ?_⟩
  rw [restores_query q]
  rfl

end Query

end AqlQuery
