import AqlQuery.Proofs.Binding.Growth

/-!
# Steps do not look at data

Masking replaces every datum that is bound by one and the same. Steps commute with it: what a masked
step makes of a masked query is what the step makes of the query, masked, and it fails with the same
error. The exception is null, which decides what becomes of a comparison and so stays.
-/

namespace AqlQuery

/-- The datum that stands for every other one. -/
def Json.masked : Json := .bool false

def Literal.mask : Literal → Literal
  | .value _ => .value .masked
  | .raw text => .raw text

/-- The mask of a literal that a column is compared with. -/
def Literal.maskCompared (literal : Literal) : Literal :=
  if literal.isNull then literal else literal.mask

/-- The mask of a record keeps its keys; what is no object is refused whatever it is. -/
def Json.maskRecord : Json → Json
  | .object members => .object (Entries.mapValues (fun _ => .masked) members)
  | _ => .null

def BindTable.mask (table : BindTable) : BindTable :=
  ⟨table.counter, table.entries.map fun _ => .masked⟩

def Query.mask (q : Query) : Query := { q with bindings := q.bindings.mask }

mutual
/-- A step with the data that it binds masked. -/
def Step.mask : Step → Step
  | .load query => .load query.mask
  | .filter link column operator value => .filter link column operator value.maskCompared
  | .filterEq link column value => .filterEq link column value.maskCompared
  | .whereKey key => .whereKey key.maskCompared
  | .whereIn link negated column values =>
    .whereIn link negated column (values.map Literal.mask)
  | .whereBetween link negated column low high =>
    .whereBetween link negated column low.mask high.mask
  | .whereNested link steps => .whereNested link (Step.maskAll steps)
  | .joinWhere collection steps => .joinWhere collection (Step.maskAll steps)
  | .insert records => .insert (records.map (Entries.mapValues Literal.mask))
  | .insertJson records => .insertJson (records.map Json.maskRecord)
  | .update values => .update (Entries.mapValues Literal.mask values)
  | .adjust op column amount extra =>
    .adjust op column amount (Entries.mapValues Literal.mask extra)
  | step => step
/-- Steps with the data that they bind masked. -/
def Step.maskAll : List Step → List Step
  | [] => []
  | step :: rest => step.mask :: Step.maskAll rest
end

theorem Literal.isNull_maskCompared (literal : Literal) :
    literal.maskCompared.isNull = literal.isNull := by
  unfold Literal.maskCompared
  split
  · rfl
  next h =>
    cases literal with
    | value v => exact (Bool.eq_false_iff.mpr h).symm
    | raw text => rfl

theorem Literal.maskCompared_of_not_null {literal : Literal} (h : ¬ literal.isNull = true) :
    literal.maskCompared = literal.mask :=
  if_neg h

/-! ## Tables -/

namespace BindTable

theorem allocate_mask (table : BindTable) (literal : Literal) :
    table.mask.allocate literal.mask =
      ((table.allocate literal).1, (table.allocate literal).2.mask) := by
  cases literal with
  | raw text => rfl
  | value v =>
    have he := table.entries.map_insert (fun _ => Json.masked) (nameOf (table.counter + 1)) v
    exact Prod.ext rfl (congrArg (BindTable.mk _) he.symm)

theorem allocateAll_mask (table : BindTable) (literals : List Literal) :
    table.mask.allocateAll (literals.map Literal.mask) =
      ((table.allocateAll literals).1, (table.allocateAll literals).2.mask) := by
  induction literals generalizing table with
  | nil => rfl
  | cons literal rest ih =>
    simp only [List.map_cons, allocateAll, allocate_mask, ih]

theorem allocatePairs_mask (table : BindTable) (pairs : List (String × Literal)) :
    table.mask.allocatePairs (Entries.mapValues Literal.mask pairs) =
      ((table.allocatePairs pairs).1, (table.allocatePairs pairs).2.mask) := by
  induction pairs generalizing table with
  | nil => rfl
  | cons pair rest ih =>
    rw [Entries.mapValues] at ih ⊢
    simp only [List.map_cons, allocatePairs, allocate_mask, ih]

end BindTable

/-! ## Builder functions -/

namespace Query

theorem bind_mask (q : Query) (literal : Literal) :
    q.mask.bind literal.mask = ((q.bind literal).1, (q.bind literal).2.mask) := by
  have h := q.bindings.allocate_mask literal
  unfold bind
  simp only [mask] at h ⊢
  rw [h]

theorem compare_mask (q : Query) (link : Connective) (column : String) (operator : Operator)
    (value : Literal) :
    (q.mask.bind value.mask).2.push link (.compare column operator (q.mask.bind value.mask).1) =
      ((q.bind value).2.push link (.compare column operator (q.bind value).1)).mask := by
  rw [bind_mask]
  rfl

theorem filter_mask (q : Query) (link : Connective) (column : String) (operator : Operator)
    (value : Literal) :
    q.mask.filter link column operator value.maskCompared =
      (q.filter link column operator value).map mask := by
  unfold filter
  rw [Literal.isNull_maskCompared]
  split
  · cases operator <;> rfl
  next h =>
    rw [Literal.maskCompared_of_not_null h]
    exact congrArg Except.ok (compare_mask q link column operator value)

theorem filterEq_mask (q : Query) (link : Connective) (column : String) (value : Literal) :
    q.mask.filterEq link column value.maskCompared = (q.filterEq link column value).mask := by
  unfold filterEq
  rw [Literal.isNull_maskCompared]
  split
  · rfl
  next h =>
    rw [Literal.maskCompared_of_not_null h]
    exact compare_mask q link column .eq value

theorem whereIn_mask (q : Query) (link : Connective) (negated : Bool) (column : String)
    (values : List Literal) :
    q.mask.whereIn link negated column (values.map Literal.mask) =
      (q.whereIn link negated column values).mask := by
  have h := q.bindings.allocateAll_mask values
  unfold whereIn
  simp only [mask] at h ⊢
  rw [h]
  rfl

theorem whereBetween_mask (q : Query) (link : Connective) (negated : Bool) (column : String)
    (low high : Literal) :
    q.mask.whereBetween link negated column low.mask high.mask =
      (q.whereBetween link negated column low high).mask := by
  unfold whereBetween
  simp only [bind_mask]
  rfl

theorem withAggregate_mask (q : Query) (function : AggregateFunction) (columns : List String) :
    q.mask.withAggregate function columns = (q.withAggregate function columns).map mask := by
  simp only [withAggregate]
  generalize (if columns = [] then [wholeDocument] else columns) = target
  split <;> rfl

/-- Nothing is bound before the check for a mutation, which does not look at the table. -/
theorem ensureNoMutation_mask (q : Query) {next next' : Except BuildError Query}
    (h : next' = next.map mask) :
    (q.mask.ensureNoMutation >>= fun _ => next') =
      (q.ensureNoMutation >>= fun _ => next).map mask := by
  have he : q.mask.ensureNoMutation = q.ensureNoMutation := rfl
  rw [he, h]
  cases q.ensureNoMutation <;> rfl

theorem recordPairs_map (f : Literal → Literal) (columns : List String)
    (record : OrderedMap Literal) :
    recordPairs columns (record.map f) = Entries.mapValues f (recordPairs columns record) := by
  induction columns with
  | nil => rfl
  | cons column rest ih =>
    have hget : (record.map f).get? column = (record.get? column).map f :=
      Entries.lookup_mapValues f column record.entries
    unfold recordPairs at ih ⊢
    rw [List.filterMap_cons, List.filterMap_cons, hget, ih]
    cases record.get? column <;> rfl

theorem bindRecords_mask (columns : List String) (table : BindTable)
    (records : List (OrderedMap Literal)) :
    bindRecords columns table.mask (records.map (OrderedMap.map Literal.mask)) =
      ((bindRecords columns table records).1, (bindRecords columns table records).2.mask) := by
  induction records generalizing table with
  | nil => rfl
  | cons record rest ih =>
    have hp := table.allocatePairs_mask (recordPairs columns record)
    rw [← recordPairs_map] at hp
    unfold recordPairs at hp
    simp only [List.map_cons, bindRecords, hp, ih]

theorem insert_mask (q : Query) (records : List (List (String × Literal))) :
    q.mask.insert (records.map (Entries.mapValues Literal.mask)) = (q.insert records).map mask := by
  unfold insert
  refine ensureNoMutation_mask q ?_
  have hrecords : (records.map (Entries.mapValues Literal.mask)).map OrderedMap.ofList =
      (records.map OrderedMap.ofList).map (OrderedMap.map Literal.mask) := by
    rw [List.map_map, List.map_map]
    exact List.map_congr_left fun pairs _ => OrderedMap.ofList_mapValues _ pairs
  simp only [hrecords]
  cases records.map OrderedMap.ofList with
  | nil => rfl
  | cons first rest =>
    -- the first record decides whether there is anything to insert and under which columns
    have hempty : (first.map Literal.mask).isEmpty = first.isEmpty := List.isEmpty_map
    have hkeys : (first.map Literal.mask).keys = first.keys := Entries.keys_mapValues _ _
    have hrows := bindRecords_mask first.keys q.bindings (first :: rest)
    rw [List.map_cons] at hrows
    simp only [List.map_cons, hempty, hkeys]
    split
    · rfl
    · simp only [mask, hrows]
      rfl

theorem recordMembers_mask (index : Nat) (records : List Json) :
    recordMembers index (records.map Json.maskRecord) =
      (recordMembers index records).map
        (List.map (Entries.mapValues fun _ => Json.masked)) := by
  induction records generalizing index with
  | nil => rfl
  | cons record rest ih =>
    cases record with
    | object members =>
      rw [List.map_cons, Json.maskRecord, recordMembers, recordMembers, ih]
      cases recordMembers (index + 1) rest <;> rfl
    | _ => rfl

theorem map_value_mask (objects : List (List (String × Json))) :
    (objects.map (Entries.mapValues fun _ => Json.masked)).map (Entries.mapValues Literal.value) =
      (objects.map (Entries.mapValues Literal.value)).map (Entries.mapValues Literal.mask) := by
  simp [Entries.mapValues, Literal.mask]

theorem insertJson_mask (q : Query) (records : List Json) :
    q.mask.insertJson (records.map Json.maskRecord) = (q.insertJson records).map mask := by
  unfold insertJson
  rw [recordMembers_mask]
  cases recordMembers 0 records with
  | error e => rfl
  | ok objects =>
    change q.mask.insert ((objects.map _).map _) = (q.insert _).map mask
    rw [map_value_mask, insert_mask]

theorem update_mask (q : Query) (values : List (String × Literal)) :
    q.mask.update (Entries.mapValues Literal.mask values) = (q.update values).map mask := by
  unfold update
  refine ensureNoMutation_mask q ?_
  have h := q.bindings.allocatePairs_mask values
  simp only [mask] at h ⊢
  rw [h]
  rfl

theorem adjust_mask (q : Query) (op : AdjustOp) (column : String) (amount : Json)
    (extra : List (String × Literal)) :
    q.mask.adjust op column amount (Entries.mapValues Literal.mask extra) =
      (q.adjust op column amount extra).map mask := by
  unfold adjust
  refine ensureNoMutation_mask q ?_
  have h := q.bindings.allocatePairs_mask extra
  cases numericAmount op amount with
  | error e => rfl
  | ok n =>
    simp only [mask] at h ⊢
    change Except.ok _ = _
    rw [h]
    rfl

theorem delete_mask (q : Query) : q.mask.delete = q.delete.map mask :=
  ensureNoMutation_mask q rfl

theorem whereNested_mask {q : Query} {link : Connective}
    {build build' : Query → Except BuildError Query}
    (h : build' q.scratch.mask = (build q.scratch).map mask) :
    q.mask.whereNested link build' = (q.whereNested link build).map mask := by
  have hscratch : q.mask.scratch = q.scratch.mask := rfl
  unfold whereNested
  rw [hscratch, h]
  cases build q.scratch <;> rfl

theorem joinWhere_mask {q : Query} {collection : String}
    {build build' : Query → Except BuildError Query}
    (h : build' q.scratch.mask = (build q.scratch).map mask) :
    q.mask.joinWhere collection build' = (q.joinWhere collection build).map mask := by
  have hscratch : q.mask.scratch = q.scratch.mask := rfl
  unfold joinWhere
  rw [hscratch, h]
  cases build q.scratch <;> rfl

end Query

/-! ## Steps and runs -/

mutual
/-- A step does the same to masked data, and fails alike. -/
theorem Step.apply_mask (s : Step) (q : Query) :
    s.mask.apply q.mask = (s.apply q).map Query.mask := by
  cases s <;> simp only [Step.mask, Step.apply]
  case filter => exact Query.filter_mask _ _ _ _ _
  case filterEq => exact congrArg Except.ok (Query.filterEq_mask _ _ _ _)
  case whereKey => exact congrArg Except.ok (Query.filterEq_mask _ _ _ _)
  case whereIn => exact congrArg Except.ok (Query.whereIn_mask _ _ _ _ _)
  case whereBetween => exact congrArg Except.ok (Query.whereBetween_mask _ _ _ _ _ _)
  case whereNested link steps => exact Query.whereNested_mask (Step.applyAll_mask steps q.scratch)
  case joinWhere collection steps =>
    exact Query.joinWhere_mask (Step.applyAll_mask steps q.scratch)
  case aggregate => exact Query.withAggregate_mask _ _ _
  case insert => exact Query.insert_mask _ _
  case insertJson => exact Query.insertJson_mask _ _
  case update => exact Query.update_mask _ _
  case adjust => exact Query.adjust_mask _ _ _ _ _
  case delete => exact Query.delete_mask _
  -- the others bind nothing
  all_goals rfl
theorem Step.applyAll_mask (steps : List Step) (q : Query) :
    Step.applyAll (Step.maskAll steps) q.mask = (Step.applyAll steps q).map Query.mask := by
  cases steps with
  | nil => rfl
  | cons s rest =>
    rw [Step.maskAll, Step.applyAll, Step.applyAll, Step.apply_mask s q]
    cases s.apply q with
    | error e => rfl
    | ok q' => exact Step.applyAll_mask rest q'
end

namespace Query

/-- What each step of a run fails with, if it does. -/
def stepErrors : List Step → Query → List (Option BuildError)
  | [], _ => []
  | step :: rest, q =>
    match step.apply q with
    | .ok q' => none :: stepErrors rest q'
    | .error e => some e :: stepErrors rest q

theorem runLenient_mask (steps : List Step) (q : Query) :
    q.mask.runLenient (Step.maskAll steps) = (q.runLenient steps).mask := by
  induction steps generalizing q with
  | nil => rfl
  | cons s rest ih =>
    rw [Step.maskAll, runLenient_cons, runLenient_cons, Step.apply_mask]
    cases s.apply q with
    | error e => exact ih q
    | ok q' => exact ih q'

theorem stepErrors_mask (steps : List Step) (q : Query) :
    stepErrors (Step.maskAll steps) q.mask = stepErrors steps q := by
  induction steps generalizing q with
  | nil => rfl
  | cons s rest ih =>
    rw [Step.maskAll, stepErrors, stepErrors, Step.apply_mask]
    cases s.apply q with
    | error e => exact congrArg (some e :: ·) (ih q)
    | ok q' => exact congrArg (none :: ·) (ih q')

end Query

mutual
theorem Step.isBuilder_mask (s : Step) : s.mask.isBuilder = s.isBuilder := by
  cases s <;> simp only [Step.mask, Step.isBuilder]
  case whereNested link steps => exact Step.areBuilders_mask steps
  case joinWhere collection steps => exact Step.areBuilders_mask steps
theorem Step.areBuilders_mask (steps : List Step) :
    Step.areBuilders (Step.maskAll steps) = Step.areBuilders steps := by
  cases steps with
  | nil => rfl
  | cons s rest =>
    rw [Step.maskAll, Step.areBuilders, Step.areBuilders, Step.isBuilder_mask s,
      Step.areBuilders_mask rest]
end

/-! ## The number of data -/

theorem Literal.length_data_mask (literal : Literal) :
    literal.mask.data.length = literal.data.length := by
  cases literal <;> rfl

theorem Literal.length_comparedData_mask (literal : Literal) :
    literal.maskCompared.comparedData.length = literal.comparedData.length := by
  unfold Literal.comparedData
  rw [Literal.isNull_maskCompared]
  split
  · rfl
  next h => rw [Literal.maskCompared_of_not_null h, Literal.length_data_mask]

theorem length_flatMap_data_mask (literals : List Literal) :
    ((literals.map Literal.mask).flatMap Literal.data).length =
      (literals.flatMap Literal.data).length := by
  rw [List.flatMap_map, List.length_flatMap, List.length_flatMap]
  simp only [Literal.length_data_mask]

theorem length_pairsData_mask (pairs : List (String × Literal)) :
    (pairsData (Entries.mapValues Literal.mask pairs)).length = (pairsData pairs).length := by
  rw [pairsData, pairsData, Entries.mapValues, List.flatMap_map, List.length_flatMap,
    List.length_flatMap]
  simp only [Literal.length_data_mask]

theorem length_insertPairs_mask (records : List (List (String × Literal))) :
    ((Query.insertPairs (records.map (Entries.mapValues Literal.mask))).flatMap pairsData).length =
      ((Query.insertPairs records).flatMap pairsData).length := by
  cases records with
  | nil => rfl
  | cons first rest =>
    have hkeys : (OrderedMap.ofList (Entries.mapValues Literal.mask first)).keys =
        (OrderedMap.ofList first).keys := by
      rw [OrderedMap.ofList_mapValues]
      exact Entries.keys_mapValues _ _
    have hrow (record : List (String × Literal)) (columns : List String) :
        (pairsData (Query.recordPairs columns
          (OrderedMap.ofList (Entries.mapValues Literal.mask record)))).length =
          (pairsData (Query.recordPairs columns (OrderedMap.ofList record))).length := by
      rw [OrderedMap.ofList_mapValues, Query.recordPairs_map, length_pairsData_mask]
    rw [List.map_cons, Query.insertPairs, Query.insertPairs, hkeys, ← List.map_cons]
    simp only [List.map_map, List.flatMap_map, List.length_flatMap, Function.comp_apply, hrow]

mutual
theorem Step.length_bound_mask (s : Step) : s.mask.bound.length = s.bound.length := by
  cases s <;> simp only [Step.mask, Step.bound]
  case filter => exact Literal.length_comparedData_mask _
  case filterEq => exact Literal.length_comparedData_mask _
  case whereKey => exact Literal.length_comparedData_mask _
  case whereIn => exact length_flatMap_data_mask _
  case whereBetween =>
    rw [List.length_append, List.length_append, Literal.length_data_mask, Literal.length_data_mask]
  case whereNested link steps => exact Step.length_boundAll_mask steps
  case joinWhere collection steps => exact Step.length_boundAll_mask steps
  case insert => exact length_insertPairs_mask _
  case insertJson records =>
    rw [Query.recordMembers_mask]
    cases Query.recordMembers 0 records with
    | error e => rfl
    | ok objects =>
      change ((Query.insertPairs ((objects.map _).map _)).flatMap pairsData).length = _
      rw [Query.map_value_mask, length_insertPairs_mask]
  case update => exact length_pairsData_mask _
  case adjust => exact length_pairsData_mask _
theorem Step.length_boundAll_mask (steps : List Step) :
    (Step.boundAll (Step.maskAll steps)).length = (Step.boundAll steps).length := by
  cases steps with
  | nil => rfl
  | cons s rest =>
    rw [Step.maskAll, Step.boundAll, Step.boundAll, List.length_append, List.length_append,
      Step.length_bound_mask s, Step.length_boundAll_mask rest]
end

theorem Query.length_boundBy_mask (steps : List Step) (q : Query) :
    (q.mask.boundBy (Step.maskAll steps)).length = (q.boundBy steps).length := by
  induction steps generalizing q with
  | nil => rfl
  | cons s rest ih =>
    rw [Step.maskAll, Query.boundBy, Query.boundBy, Step.apply_mask]
    cases s.apply q with
    | error e => exact ih q
    | ok q' =>
      change (s.mask.bound ++ q'.mask.boundBy _).length = (s.bound ++ q'.boundBy _).length
      rw [List.length_append, List.length_append, ih, Step.length_bound_mask]

end AqlQuery
