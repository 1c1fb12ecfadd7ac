import AqlQuery.Proofs.Aql.Documents
import AqlQuery.Proofs.Binding.Rows
import Mathlib.Data.List.Induction

/-!
# What an insert writes

The first record decides which keys are written, and in which order; of every record the last value
under each of these keys is written, and nothing else. The documents of the statement, read with the
bindings that come with it, are these objects again: that keys are merged, data bound, numbered anew
and keys escaped on the way leaves no trace.
-/

namespace AqlQuery

/-! ## Maps of pairs with repeated keys -/

namespace OrderedMap

variable {α : Type}

theorem ofList_concat (pairs : List (String × α)) (pair : String × α) :
    ofList (pairs ++ [pair]) = (ofList pairs).insert pair.1 pair.2 :=
  List.foldl_append ..

/-- A map has the keys of its pairs, each where it came first. -/
theorem keys_ofList (pairs : List (String × α)) :
    (ofList pairs).keys = (Entries.keys pairs).eraseDups := by
  -- the pairs go in from the left, so the last one is the one to split off
  induction pairs using List.reverseRecOn with
  | nil => rfl
  | append_singleton pairs pair ih =>
    have hkeys : Entries.keys (ofList pairs).entries = (Entries.keys pairs).eraseDups := ih
    have happend : Entries.keys (pairs ++ [pair]) = Entries.keys pairs ++ [pair.1] :=
      List.map_append ..
    rw [ofList_concat, happend, List.eraseDups_append, ← hkeys]
    by_cases h : pair.1 ∈ Entries.keys pairs
    · have hold : pair.1 ∈ Entries.keys (ofList pairs).entries := by
        rw [hkeys, List.mem_eraseDups]
        exact h
      have hnone : [pair.1].removeAll (Entries.keys pairs) = [] := by simp [List.removeAll, h]
      rw [hnone]
      exact (Entries.keys_put_of_mem pair.2 hold).trans (List.append_nil _).symm
    · have hnew : pair.1 ∉ Entries.keys (ofList pairs).entries := by
        rw [hkeys, List.mem_eraseDups]
        exact h
      have hone : [pair.1].removeAll (Entries.keys pairs) = [pair.1] := by
        simp [List.removeAll, h]
      rw [hone]
      exact Entries.keys_put_of_not_mem pair.2 hnew

/-- A map has the last value that its pairs give to a key. -/
theorem get?_ofList (pairs : List (String × α)) (key : String) :
    (ofList pairs).get? key = pairs.reverse.lookup key := by
  induction pairs using List.reverseRecOn with
  | nil => rfl
  | append_singleton pairs pair ih =>
    rw [ofList_concat, List.reverse_concat, List.lookup_cons]
    by_cases h : key = pair.1
    · subst h
      rw [beq_self_eq_true]
      exact Entries.lookup_put_self pair.1 pair.2 _
    · rw [beq_false_of_ne h, ← ih]
      exact Entries.lookup_put_of_ne h pair.2 _

end OrderedMap

namespace Query

open Aql BindTable

/-! ## Written objects -/

/-- What is written of a record: the keys of the first one that it has, in their order and each
once, with its last value for each. -/
def writtenObject (first record : List (String × Json)) : List (String × Json) :=
  (Entries.keys first).eraseDups.filterMap fun key =>
    (record.reverse.lookup key).map fun v => (key, v)

theorem recordPairs_values (first record : List (String × Json)) :
    recordPairs (OrderedMap.ofList (Entries.mapValues Literal.value first)).keys
        (OrderedMap.ofList (Entries.mapValues .value record)) =
      Entries.mapValues .value (writtenObject first record) := by
  have hvalue (key : String) :
      (OrderedMap.ofList (Entries.mapValues Literal.value record)).get? key =
        (record.reverse.lookup key).map Literal.value := by
    rw [OrderedMap.get?_ofList, Entries.mapValues, ← List.map_reverse]
    exact Entries.lookup_mapValues Literal.value key record.reverse
  unfold recordPairs writtenObject Entries.mapValues
  rw [List.map_filterMap, ← Entries.mapValues, ← Entries.mapValues, OrderedMap.keys_ofList,
    Entries.keys_mapValues]
  simp only [hvalue, Option.map_map, Function.comp_def]

theorem insertPairs_values (first : List (String × Json)) (rest : List (List (String × Json))) :
    insertPairs ((first :: rest).map (Entries.mapValues .value)) =
      ((first :: rest).map (writtenObject first)).map (Entries.mapValues .value) := by
  rw [List.map_cons, insertPairs, ← List.map_cons, List.map_map, List.map_map]
  apply List.map_congr_left
  intro record _
  exact recordPairs_values first record

theorem exists_insert {q : Query} {first : List (String × Json)} (hm : q.mutation = none)
    (hf : first ≠ []) (rest : List (List (String × Json))) :
    ∃ p, q.insert ((first :: rest).map (Entries.mapValues .value)) = .ok p := by
  rcases insert_cases hm ((first :: rest).map (Entries.mapValues .value)) with ⟨hnone, _⟩ | ⟨_, hp⟩
  · -- the key of the first member is there after merging
    have hkeys := OrderedMap.keys_ofList (Entries.mapValues Literal.value first)
    have hempty : (OrderedMap.ofList (Entries.mapValues Literal.value first)).entries = [] :=
      List.isEmpty_iff.mp hnone
    rw [OrderedMap.keys, hempty, Entries.keys_mapValues] at hkeys
    cases first with
    | nil => exact absurd rfl hf
    | cons member others =>
      have hcons := @List.eraseDups_cons String _ member.1 (Entries.keys others)
      cases hkeys.trans hcons
  · exact hp

theorem recordMembers_objects (index : Nat) (records : List (List (String × Json))) :
    recordMembers index (records.map Json.object) = .ok records := by
  induction records generalizing index with
  | nil => rfl
  | cons record rest ih =>
    rw [List.map_cons, recordMembers, ih]
    rfl

theorem insertJson_objects (q : Query) (records : List (List (String × Json))) :
    q.insertJson (records.map Json.object) =
      q.insert (records.map (Entries.mapValues .value)) := by
  rw [insertJson, recordMembers_objects]
  rfl

/-! ## Documents -/

/-- The documents of a statement that inserts the given objects. -/
def documentTexts (objects : List (List (String × Json))) : List String :=
  (placeholderRows 0 (objects.map Entries.keys)).map fun members =>
    Program.documentText (Entries.mapValues .bound members)

theorem isName_of_mem_placeholderRows {counter : UInt32} {rows : List (List String)}
    {row : List (String × String)} (hrow : row ∈ placeholderRows counter rows) :
    ∀ member ∈ row, Document.IsName member.2 := by
  intro member hm
  obtain ⟨n, hn⟩ := exists_nameOf_of_mem_placeholderRows hrow hm
  rw [hn]
  exact Document.isName_nameOf n

theorem keys_documentTexts (objects : List (List (String × Json))) :
    (documentTexts objects).map (fun document => (Document.read? document).map Entries.keys) =
      objects.map fun object => some (Entries.keys object) := by
  have hread : (documentTexts objects).map Document.read? =
      (placeholderRows 0 (objects.map Entries.keys)).map some := by
    rw [documentTexts, List.map_map]
    apply List.map_congr_left
    intro row hrow
    exact Document.read?_documentText (isName_of_mem_placeholderRows hrow)
  have hkeys := congrArg (List.map (Option.map Entries.keys)) hread
  rw [List.map_map, List.map_map] at hkeys
  calc
    _ = (placeholderRows 0 (objects.map Entries.keys)).map fun row => some (Entries.keys row) :=
      hkeys
    _ = ((placeholderRows 0 (objects.map Entries.keys)).map Entries.keys).map some := by
      rw [List.map_map]
      rfl
    _ = objects.map fun object => some (Entries.keys object) := by
      rw [keys_placeholderRows, List.map_map]
      rfl

theorem values_documentTexts {table : BindTable} {objects : List (List (String × Json))}
    (h : table.Holds 0 (objects.flatMap memberData)) :
    (documentTexts objects).map (Document.value? table) = objects.map some := by
  calc
    _ = (placeholderRows 0 (objects.map Entries.keys)).map fun row =>
        Document.complete? (Entries.mapValues table.get? row) := by
      rw [documentTexts, List.map_map]
      apply List.map_congr_left
      intro row hrow
      exact Document.value?_documentText (isName_of_mem_placeholderRows hrow) table
    _ = ((placeholderRows 0 (objects.map Entries.keys)).map
        (Entries.mapValues table.get?)).map Document.complete? := by
      rw [List.map_map]
      rfl
    _ = (objects.map (Entries.mapValues some)).map Document.complete? := by
      rw [h.placeholderRows]
    _ = objects.map some := by
      rw [List.map_map]
      apply List.map_congr_left
      intro object _
      exact Document.complete?_some object

/-! ## Statements -/

/-- An insert of data binds them at the end of the table and writes their placeholders. -/
theorem insert_values {q p : Query} {first : List (String × Json)}
    {rest : List (List (String × Json))}
    (h : q.insert ((first :: rest).map (Entries.mapValues .value)) = .ok p) :
    p.source = q.source ∧
      p.bindings = q.bindings.bindAll
        (((first :: rest).map (writtenObject first)).flatMap memberData) ∧
      ∃ rows, p.mutation = some (.insert rows) ∧
        rows.map OrderedMap.entries =
          (placeholderRows q.bindings.counter
            (((first :: rest).map (writtenObject first)).map Entries.keys)).map
              (Entries.mapValues .bound) := by
  obtain ⟨_, rows, hp, hrows⟩ := insert_ok h
  rw [insertPairs_values] at hp hrows
  rw [allocateRows_values] at hrows
  rw [allocateRows_table, List.flatMap_map] at hp
  simp only [pairsData_values] at hp
  rw [hp]
  exact ⟨rfl, rfl, rows, rfl, hrows⟩

/-- Whatever its keys and its values are, an insert of data writes one document for each record,
in their order. With the bindings of the statement the documents are what is to be written of the
records, as long as the values are no more than the names there are for them. -/
theorem insert_writes (q : Query) (first : List (String × Json))
    (rest : List (List (String × Json))) (hm : q.mutation = none) (hf : first ≠ []) :
    ∃ p, q.insert ((first :: rest).map (Entries.mapValues .value)) = .ok p ∧
      q.insertJson ((first :: rest).map .object) = .ok p ∧
      ∀ statement, p.compile = .ok statement → ∃ documents,
        statement.text =
            "FOR " ++ Collection.variableName q.source ++ " IN [" ++
              ", ".intercalate documents ++ "] INSERT " ++ Collection.variableName q.source ++
              " INTO " ++ Collection.inBackticks (Collection.bareName q.source) ∧
          (documents.map fun document => (Document.read? document).map Entries.keys) =
            ((first :: rest).map fun record =>
              some (Entries.keys (writtenObject first record))) ∧
          (((first :: rest).flatMap (writtenObject first)).length ≤ UInt32.size →
            documents.map (Document.value? statement.bindings) =
              (first :: rest).map fun record => some (writtenObject first record)) := by
  obtain ⟨p, hp⟩ := exists_insert hm hf rest
  refine ⟨p, hp, (q.insertJson_objects (first :: rest)).trans hp, ?_⟩
  intro statement hstatement
  obtain ⟨hsource, hbindings, rows, hmutation, hrows⟩ := insert_values hp
  obtain ⟨hdocuments, htable⟩ := rebindRecords_bound p.bindings hrows
  obtain ⟨program, hprogram, rfl⟩ := compileWith_ok hstatement
  rw [ofQuery_normalize_of_insert hmutation, hdocuments, keys_placeholderRows] at hprogram
  cases hprogram
  refine ⟨documentTexts ((first :: rest).map (writtenObject first)), ?_, ?_, ?_⟩
  · rw [documentTexts, ← hsource, ← Function.comp_def, ← List.map_map]
    rfl
  · rw [keys_documentTexts, List.map_map]
    rfl
  · intro hfit
    have hlength : (((first :: rest).map (writtenObject first)).flatMap memberData).length ≤
        UInt32.size := by
      have hdata : ((first :: rest).map (writtenObject first)).flatMap memberData =
          memberData ((first :: rest).flatMap (writtenObject first)) := by
        rw [memberData, List.map_flatMap, List.flatMap_map]
        rfl
      rw [hdata, memberData, List.length_map]
      exact hfit
    -- both tables took the data at once, the first one after whatever it held
    have hheld := holds_bindAll q.bindings hlength
    have hfresh := holds_bindAll .empty hlength
    rw [← hbindings] at hheld
    rw [rowData_of_holds hheld] at htable
    rw [← htable] at hfresh
    have hvalues := values_documentTexts hfresh
    rw [List.map_map] at hvalues
    rw [show p.normalize.bindings = (rebindRecords p.bindings .empty rows).2 by
      rw [normalize_of_insert hmutation]]
    exact hvalues

/-- A record with a key that comes twice and keys that have to be escaped. -/
def oddRecord : List (String × Json) :=
  [("say \"hi\"", .string "a"), ("a\\b", .number (.int 1)), ("say \"hi\"", .null),
    ("\n\x7d", .string "b")]

/-- Records that have other keys than `oddRecord`, in another order, or none. -/
def looseRecords : List (List (String × Json)) :=
  [[("more", .null), ("\n\x7d", .bool true), ("a\\b", .string "@B1"), ("a\\b", .array [])], [],
    [("say \"hi\"", .object [])]]

/-- What is written of these. -/
def oddObjects : List (List (String × Json)) :=
  [[("say \"hi\"", .null), ("a\\b", .number (.int 1)), ("\n\x7d", .string "b")],
    [("a\\b", .array []), ("\n\x7d", .bool true)], [], [("say \"hi\"", .object [])]]

theorem insert_writes_odd :
    busyQuery.mutation = none ∧ oddRecord ≠ [] ∧
      ((oddRecord :: looseRecords).flatMap (writtenObject oddRecord)).length ≤ UInt32.size ∧
      ∃ p statement documents,
        busyQuery.insertJson ((oddRecord :: looseRecords).map .object) = .ok p ∧
          p.compile = .ok statement ∧
          statement.text =
            "FOR users_entity IN [" ++ ", ".intercalate documents ++
              "] INSERT users_entity INTO \x60users\x60" ∧
          documents.map (Document.value? statement.bindings) = oddObjects.map some := by
  have hfit : ((oddRecord :: looseRecords).flatMap (writtenObject oddRecord)).length ≤
      UInt32.size := by decide
  have hobjects : ((oddRecord :: looseRecords).map fun record =>
      some (writtenObject oddRecord record)) = oddObjects.map some := by decide +kernel
  have hvariable : Collection.variableName busyQuery.source = "users_entity" := by decide +kernel
  have hname : Collection.inBackticks (Collection.bareName busyQuery.source) =
      "\x60users\x60" := by decide +kernel
  have hcompiles : ((busyQuery.insert ((oddRecord :: looseRecords).map
      (Entries.mapValues .value))).toOption.bind fun p => p.compile.toOption).isSome = true := by
    decide +kernel
  obtain ⟨p, hp, hjson, hwrites⟩ :=
    insert_writes busyQuery oddRecord looseRecords rfl (by decide)
  rw [hp, show (Except.ok p : Except BuildError Query).toOption = some p from rfl,
    Option.bind_some] at hcompiles
  obtain ⟨statement, hstatement⟩ := Outcome.exists_ok hcompiles
  obtain ⟨documents, htext, _, hvalues⟩ := hwrites statement hstatement
  rw [hvariable, hname] at htext
  refine ⟨rfl, by decide, hfit, p, statement, documents, hjson, hstatement, ?_,
    (hvalues hfit).trans hobjects⟩
  rw [htext]
  simp only [String.append_assoc]
  rfl

end Query

end AqlQuery
