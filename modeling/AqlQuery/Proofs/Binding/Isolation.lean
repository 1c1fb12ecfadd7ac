import AqlQuery.Proofs.Binding.Normal

/-!
# Inserts stand alone

The literals of an insert are numbered after whatever its query has bound before, and normalisation
numbers them again from one. What a placeholder of the insert reads as depends on its distance from
the first of them only, not on where the count started. This holds for every counter, also where the
count wraps and names are given out twice, so the statement of an insert is that of the same insert
into a query that has nothing but its source.
-/

namespace AqlQuery

/-! ## Reading at a distance from the counter -/

namespace BindTable

/-- Two tables that take the same data answer alike at each distance at which they did before, or
at which a datum went in. -/
theorem get?_bindAll_congr {first second : BindTable} {data : List Json} {d : UInt32}
    (h : first.get? (nameOf (first.counter + d)) = second.get? (nameOf (second.counter + d)) ∨
      ∃ i < data.length, d = UInt32.ofNat (i + 1)) :
    (first.bindAll data).get? (nameOf (first.counter + d)) =
      (second.bindAll data).get? (nameOf (second.counter + d)) := by
  induction data generalizing first second d with
  | nil =>
    rcases h with hold | ⟨i, hi, _⟩
    · exact hold
    · cases hi
  | cons v rest ih =>
    -- after one datum the counters are one further, and the distance is one less
    have hshift (table : BindTable) :
        table.counter + d = (table.allocate (.value v)).2.counter + (d - 1) := by
      change table.counter + d = table.counter + 1 + (d - 1)
      grind
    rw [hshift first, hshift second]
    apply ih
    by_cases hd : d = 1
    · left
      rw [← hshift, ← hshift, hd, get?_allocate_self, get?_allocate_self]
    · have hne (table : BindTable) : table.counter + d ≠ table.counter + 1 :=
        fun he => hd (UInt32.add_right_inj table.counter |>.mp he)
      rcases h with hold | ⟨i, hi, hdi⟩
      · left
        rw [← hshift, ← hshift, get?_allocate_of_ne (hne first), get?_allocate_of_ne (hne second)]
        exact hold
      · right
        cases i with
        | zero => exact absurd hdi hd
        | succ i =>
          refine ⟨i, Nat.lt_of_succ_lt_succ hi, ?_⟩
          rw [hdi, UInt32.ofNat_add (i + 1)]
          exact UInt32.add_sub_cancel _ _

theorem freshNames_eq_map (counter : UInt32) (n : Nat) :
    freshNames counter n =
      (List.range n).map fun i => nameOf (counter + UInt32.ofNat (i + 1)) := by
  induction n generalizing counter with
  | zero => rfl
  | succ n ih =>
    rw [freshNames, ih, List.range_succ_eq_map, List.map_cons, List.map_map]
    congr 1
    apply List.map_congr_left
    intro i _
    exact congrArg nameOf (counter_add_succ counter (i + 1))

/-- What the new names of two tables stand for, after both took the same data. -/
theorem freshNames_get?_congr (first second : BindTable) (data : List Json) :
    (freshNames first.counter data.length).map (first.bindAll data).get? =
      (freshNames second.counter data.length).map (second.bindAll data).get? := by
  rw [freshNames_eq_map, freshNames_eq_map, List.map_map, List.map_map]
  apply List.map_congr_left
  intro i hi
  exact get?_bindAll_congr (Or.inr ⟨i, List.mem_range.mp hi, rfl⟩)

end BindTable

/-! ## Rows read back -/

namespace Query

open BindTable

section ReadBack

-- two allocations that start at any counters, and tables to read their placeholders through
variable {first second later later' : BindTable}

theorem literalOf_allocatePairs_congr {pairs : List (String × Literal)}
    (h : (freshNames first.counter (pairsData pairs).length).map later.get? =
      (freshNames second.counter (pairsData pairs).length).map later'.get?) :
    Entries.mapValues (literalOf later) (first.allocatePairs pairs).1 =
      Entries.mapValues (literalOf later') (second.allocatePairs pairs).1 := by
  induction pairs generalizing first second with
  | nil => rfl
  | cons pair rest ih =>
    obtain ⟨key, literal⟩ := pair
    cases literal with
    | raw text => exact congrArg ((key, .raw text) :: ·) (ih h)
    | value v =>
      obtain ⟨hhead, htail⟩ := List.cons.inj h
      have hv : literalOf later (.bound (nameOf (first.counter + 1))) =
          literalOf later' (.bound (nameOf (second.counter + 1))) := by
        rw [literalOf, literalOf, hhead]
      have hrest := @ih (first.allocate (.value v)).2 (second.allocate (.value v)).2 htail
      exact List.cons_eq_cons.mpr ⟨Prod.ext rfl hv, hrest⟩

theorem literalOf_allocateRows_congr {rows : List (List (String × Literal))}
    (h : (freshNames first.counter (rows.flatMap pairsData).length).map later.get? =
      (freshNames second.counter (rows.flatMap pairsData).length).map later'.get?) :
    (first.allocateRows rows).1.map (Entries.mapValues (literalOf later)) =
      (second.allocateRows rows).1.map (Entries.mapValues (literalOf later')) := by
  induction rows generalizing first second with
  | nil => rfl
  | cons pairs rest ih =>
    -- the names of the first row come before those of the others
    rw [List.flatMap_cons, List.length_append, freshNames_add, freshNames_add, List.map_append,
      List.map_append] at h
    obtain ⟨hrow, hrest⟩ := List.append_inj h (by simp only [List.length_map, length_freshNames])
    rw [allocateRows_cons, allocateRows_cons, List.map_cons, List.map_cons,
      literalOf_allocatePairs_congr hrow]
    congr 1
    apply ih
    rw [allocatePairs_table, allocatePairs_table, counter_bindAll, counter_bindAll]
    exact hrest

end ReadBack

/-- Rows that were bound in any table are bound anew alike. -/
theorem rebindRecords_congr {first second : BindTable} {pairs : List (List (String × Literal))}
    {rows rows' : List (OrderedMap Operand)}
    (h : rows.map OrderedMap.entries = (first.allocateRows pairs).1)
    (h' : rows'.map OrderedMap.entries = (second.allocateRows pairs).1) :
    rebindRecords (first.allocateRows pairs).2 .empty rows =
      rebindRecords (second.allocateRows pairs).2 .empty rows' := by
  have hread : (rows.map fun record =>
        Entries.mapValues (literalOf (first.allocateRows pairs).2) record.entries) =
      rows'.map fun record =>
        Entries.mapValues (literalOf (second.allocateRows pairs).2) record.entries := by
    have hboth := @literalOf_allocateRows_congr first second (first.allocateRows pairs).2
      (second.allocateRows pairs).2 pairs (by
        rw [allocateRows_table, allocateRows_table]
        exact freshNames_get?_congr first second _)
    rw [← h, ← h', List.map_map, List.map_map] at hboth
    exact hboth
  have heq := (rebindRecords_eq (first.allocateRows pairs).2 .empty rows).trans
    ((congrArg BindTable.empty.allocateRows hread).trans
      (rebindRecords_eq (second.allocateRows pairs).2 .empty rows').symm)
  obtain ⟨hrows, htable⟩ := Prod.mk.inj heq
  exact Prod.ext ((List.map_inj_right fun _ _ => OrderedMap.ext).mp hrows) htable

/-! ## Statements of inserts -/

/-- Whether there is no record, or nothing in the first one. -/
def insertsNothing (records : List (List (String × Literal))) : Bool :=
  match records with
  | [] => true
  | first :: _ => (OrderedMap.ofList first).isEmpty

/-- Whether an insert succeeds depends on the records alone, once there is no other mutation. -/
theorem insert_cases {q : Query} (hm : q.mutation = none)
    (records : List (List (String × Literal))) :
    (insertsNothing records = true ∧ q.insert records = .error .emptyInsert) ∨
      (insertsNothing records = false ∧ ∃ q', q.insert records = .ok q') := by
  have hfree : q.ensureNoMutation = .ok () := by rw [ensureNoMutation, hm]
  unfold insert
  rw [hfree]
  cases records with
  | nil => exact Or.inl ⟨rfl, rfl⟩
  | cons first rest =>
    by_cases he : (OrderedMap.ofList first).isEmpty = true
    · exact Or.inl ⟨he, if_pos he⟩
    · exact Or.inr ⟨Bool.eq_false_iff.mpr he, _, if_neg he⟩

/-- The text of an insert takes the source and the rows from its query, and nothing else. -/
theorem ofQuery_normalize_of_insert {q : Query} {rows : List (OrderedMap Operand)}
    (hm : q.mutation = some (.insert rows)) :
    Aql.Program.ofQuery q.normalize =
      .ok (.insert (Collection.variableName q.source)
        ((rebindRecords q.bindings .empty rows).1.map OrderedMap.entries)
        (Collection.bareName q.source)) := by
  rw [normalize_of_insert hm]
  rfl

theorem compileWith_insert_congr {p q : Query} {rows rows' : List (OrderedMap Operand)}
    (hp : p.mutation = some (.insert rows)) (hq : q.mutation = some (.insert rows'))
    (hsource : p.source = q.source) (hcheck : p.check = q.check)
    (hrows : rebindRecords p.bindings .empty rows = rebindRecords q.bindings .empty rows')
    (expected : Option Shape) :
    p.compileWith .default expected = q.compileWith .default expected := by
  have hshape : p.shape = q.shape := by
    rw [shape_eq_insert_iff.mpr ⟨rows, hp⟩, shape_eq_insert_iff.mpr ⟨rows', hq⟩]
  have hrequire : p.requireShape expected = q.requireShape expected := by
    unfold requireShape
    rw [hshape]
  have hbindings : p.normalize.bindings = q.normalize.bindings := by
    rw [normalize_of_insert hp, normalize_of_insert hq]
    exact congrArg Prod.snd hrows
  rw [compileWith_default, compileWith_default, hrequire, hcheck, hshape, hbindings,
    ofQuery_normalize_of_insert hp, ofQuery_normalize_of_insert hq, hsource, hrows]

/-- Without an aggregate and without an offset that lacks a limit, only the source can be wrong. -/
theorem check_of_window {q : Query} (ha : q.aggregate = none)
    (hw : q.offset.isSome = true → q.limit.isSome = true) :
    q.check = if q.lacksSource then .error .missingSource else .ok () := by
  have hwindow : (q.offset.isSome && q.limit.isNone) = false := by
    by_cases ho : q.offset.isSome = true
    · rw [ho, Bool.true_and, ← Option.not_isSome, hw ho]
      rfl
    · rw [Bool.eq_false_iff.mpr ho, Bool.false_and]
  rw [check, hwindow, ha]
  rfl

/-- An insert depends on nothing but its source and its records. -/
theorem insert_depends_on_records (q : Query) (records : List (List (String × Literal)))
    (hm : q.mutation = none) (ha : q.aggregate = none)
    (hw : q.offset.isSome = true → q.limit.isSome = true) :
    (∃ e, q.insert records = .error e ∧ (table q.source).insert records = .error e) ∨
      ∃ p r, q.insert records = .ok p ∧ (table q.source).insert records = .ok r ∧
        p.compile = r.compile ∧ (∀ shape, p.compileAs shape = r.compileAs shape) ∧
        p.compileInsertGetId = r.compileInsertGetId := by
  -- both look at the records alone, so they fail together
  rcases insert_cases hm records with ⟨hnone, he⟩ | ⟨hsome, p, hp⟩
  · rcases @insert_cases (table q.source) rfl records with ⟨_, he'⟩ | ⟨hsome, _⟩
    · exact Or.inl ⟨_, he, he'⟩
    · cases hnone.symm.trans hsome
  rcases @insert_cases (table q.source) rfl records with ⟨hnone, _⟩ | ⟨_, r, hr⟩
  · cases hnone.symm.trans hsome
  refine Or.inr ⟨p, r, hp, hr, ?_⟩
  obtain ⟨_, rows, hpe, hrows⟩ := insert_ok hp
  obtain ⟨_, rows', hre, hrows'⟩ := insert_ok hr
  have hsource : p.source = r.source := by rw [hpe, hre]; rfl
  have hcheck : p.check = r.check := by
    have hpc : p.check = if p.lacksSource then .error .missingSource else .ok () := by
      rw [hpe]
      exact check_of_window ha hw
    have hrc : r.check = if r.lacksSource then .error .missingSource else .ok () := by
      rw [hre]
      exact check_of_window rfl fun h => nomatch h
    rw [hpc, hrc, lacksSource, lacksSource, hsource]
  -- the rows are bound at different counters, but come out of normalisation alike
  have hrebind : rebindRecords p.bindings .empty rows = rebindRecords r.bindings .empty rows' := by
    rw [hpe, hre]
    exact rebindRecords_congr hrows hrows'
  have hcompile := compileWith_insert_congr (by rw [hpe]) (by rw [hre]) hsource hcheck hrebind
  refine ⟨hcompile none, fun shape => hcompile (some shape), ?_⟩
  unfold compileInsertGetId compileInsertGetIdWith
  rw [hcompile (some .insert)]

/-- A query that uses every part an insert ignores, with three bindings of its own. -/
def busyQuery : Query :=
  (table "users").runLenient
    [.filter .and "users.age" .gt (.value (.number (.int 18))),
      .whereNested .or [.filterEq .and "users.name" (.value (.string "x"))],
      .joinWhere "orders" [.whereIn .and false "orders.state" [.value .null, .raw "1"]],
      .groupBy ["users.name"],
      .select ["users.name AS who"],
      .orderBy "users.name" .desc,
      .forPage 2 10]

/-- Records with a raw expression between data, a key that is missing and one that is dropped. -/
def mixedRecords : List (List (String × Literal)) :=
  [[("name", .value (.string "y")), ("at", .raw "DATE_NOW()"), ("age", .value .null)],
    [("age", .value (.bool true)), ("other", .value .null)],
    [("at", .value (.string "now")), ("name", .raw "'z'")]]

theorem insert_depends_on_records_busy :
    (busyQuery.mutation = none ∧ busyQuery.aggregate = none ∧
      (busyQuery.offset.isSome = true → busyQuery.limit.isSome = true)) ∧
      busyQuery.bindings.size = 3 ∧
      ∃ p r statement, busyQuery.insert mixedRecords = .ok p ∧
        (table "users").insert mixedRecords = .ok r ∧
        p.compileInsertGetId = .ok statement ∧ r.compileInsertGetId = .ok statement := by
  refine ⟨⟨rfl, rfl, fun _ => rfl⟩, rfl, ?_⟩
  rcases insert_depends_on_records busyQuery mixedRecords rfl rfl (fun _ => rfl) with
    ⟨e, he, _⟩ | ⟨p, r, hp, hr, _, _, hid⟩
  · cases he
  · obtain ⟨statement, hs⟩ : ∃ statement, r.compileInsertGetId = .ok statement := by
      cases hr
      exact ⟨_, rfl⟩
    exact ⟨p, r, statement, hp, hr, hid.trans hs, hs⟩

end Query

end AqlQuery
