import AqlQuery.Proofs.Aql.Clauses
import AqlQuery.Proofs.Binding.Density
import AqlQuery.Proofs.Binding.Normal

/-!
# Selects preview writes

A select without groups and without an aggregate goes over the same rows as an update or a removal
made of the same query: its clauses are those of the write, and only the output comes after them.
So a removal compiles whenever the select does, and fails with the same error.
-/

namespace AqlQuery

namespace Aql

namespace Frame

theorem forSelect_of_ungrouped {q : Query} (hg : q.groups = []) :
    forSelect q = .ok (forMutation q) := by
  unfold forSelect
  rw [hg]
  rfl

/-- Without groups a select has the clauses of a write, and then its output. -/
theorem clauses_selectOrder (q : Query) :
    (forMutation q).clauses ClauseKind.selectOrder = (do
      let rows ← (forMutation q).clauses ClauseKind.mutationOrder
      let output ← (forMutation q).output.mapError .resolve
      .ok (rows ++ [.returning output])) := by
  -- the one kind that writes do not have is silent without groups
  have hcollect : (forMutation q).clause .collect = .ok none := rfl
  have horder : (forMutation q).clauses ClauseKind.selectOrder =
      (forMutation q).clauses (ClauseKind.mutationOrder ++ [.returning]) := by
    change (forMutation q).clauses
        ([.loop, .joins, .filter] ++ .collect :: [.sort, .limit, .returning]) =
      (forMutation q).clauses ([.loop, .joins, .filter] ++ [.sort, .limit, .returning])
    rw [clauses_append, clauses_skip hcollect, ← clauses_append]
  rw [horder, clauses_append]
  cases (forMutation q).clauses ClauseKind.mutationOrder with
  | error e => rfl
  | ok rows =>
    rw [clauses_cons, clause]
    cases (forMutation q).output <;> rfl

/-- The clauses of a write start with the loop over the source. -/
theorem clauses_mutationOrder_ok {f : Frame} {rows : List Clause}
    (h : f.clauses ClauseKind.mutationOrder = .ok rows) :
    ∃ rest, rows = f.loopClause :: rest ∧
      (rest.map Clause.kind).Sublist [.joins, .filter, .sort, .limit] := by
  obtain ⟨c, rest, hc, hrest, rfl⟩ := clauses_cons_ok h
  cases hc
  exact ⟨rest, rfl, kinds_clauses hrest⟩

theorem clauses_forMutation (q : Query) (m : Option Mutation) (table : BindTable)
    (kinds : List ClauseKind) :
    (forMutation { q with mutation := m, bindings := table }).clauses kinds =
      (forMutation q).clauses kinds :=
  clauses_mutated q m table (Scope.ofQuery q) [] kinds

end Frame

namespace Program

theorem ofSelect_plain {q : Query} (ha : q.aggregate = none) (hg : q.groups = []) :
    ofSelect q = (do
      let rows ← (Frame.forMutation q).clauses ClauseKind.mutationOrder
      let output ← (Frame.forMutation q).output.mapError .resolve
      .ok (.select (rows ++ [.returning output]))) := by
  unfold ofSelect
  rw [Frame.forSelect_of_ungrouped hg, ha]
  change ((Frame.forMutation q).clauses ClauseKind.selectOrder >>= fun clauses =>
    .ok (Program.select clauses)) = _
  rw [Frame.clauses_selectOrder]
  cases (Frame.forMutation q).clauses ClauseKind.mutationOrder with
  | error e => rfl
  | ok rows => cases (Frame.forMutation q).output <;> rfl

theorem ofQuery_delete (q : Query) (table : BindTable) :
    ofQuery { q with mutation := some .delete, bindings := table } = (do
      let rows ← (Frame.forMutation q).clauses ClauseKind.mutationOrder
      .ok (.remove rows (Scope.ofQuery q).sourceVariable
        (Collection.bareName (Scope.ofQuery q).source))) := by
  change ofDelete _ = _
  unfold ofDelete
  rw [Frame.clauses_forMutation]
  rfl

theorem ofQuery_update (q : Query) (assignments : List Assignment) (table : BindTable) :
    ofQuery { q with mutation := some (.update assignments), bindings := table } = (do
      let rows ← (Frame.forMutation q).clauses ClauseKind.mutationOrder
      let pairs ← (assignments.mapM (assignmentPair (Scope.ofQuery q))).mapError .resolve
      .ok (.update rows (Scope.ofQuery q).sourceVariable pairs
        (Collection.bareName (Scope.ofQuery q).source))) := by
  change ofUpdate _ assignments = _
  unfold ofUpdate
  rw [Frame.clauses_forMutation]
  rfl

end Program

end Aql

namespace Query

open Aql

/-! ## The programs of a select and of its writes -/

section Programs

variable {q : Query}

theorem compile_eq (q : Query) :
    q.compile = (do
      q.check.mapError .structural
      let program ← Program.ofQuery q.normalize
      .ok ⟨program.text, q.normalize.bindings, q.shape⟩) := by
  have hshape : q.requireShape none = .ok () := rfl
  rw [compile, compileWith_default, hshape]
  generalize q.check = checked
  generalize Program.ofQuery q.normalize = program
  rfl

theorem normalize_of_select (hm : q.mutation = none) :
    q.normalize = { q with
      projection := shownProjection q.projection
      ordering := if q.isScalarAggregate then [] else q.ordering } :=
  normalize_of_not_insert fun _ he => nomatch hm.symm.trans he

theorem normalize_write (hm : q.mutation = none) {m : Mutation}
    (hw : ∀ records, m ≠ .insert records) (table : BindTable) :
    normalize { q with mutation := some m, bindings := table } =
      { q.normalize with mutation := some m, bindings := table } := by
  rw [normalize_of_not_insert fun records he => hw records (Option.some.inj he),
    normalize_of_select hm]
  rfl

theorem check_write (ha : q.aggregate = none) (m : Mutation) (table : BindTable) :
    check { q with mutation := some m, bindings := table } = q.check := by
  unfold check
  rw [ha]
  rfl

/-- What a write compiles to, once its clauses have been written. -/
theorem compile_write (hm : q.mutation = none) (ha : q.aggregate = none) {m : Mutation}
    (hw : ∀ records, m ≠ .insert records) (table : BindTable) :
    compile { q with mutation := some m, bindings := table } = (do
      q.check.mapError .structural
      let program ← Program.ofQuery { q.normalize with mutation := some m, bindings := table }
      .ok ⟨program.text, table, m.shape⟩) := by
  rw [compile_eq, normalize_write hm hw, check_write ha]
  rfl

theorem scope_normalize (hm : q.mutation = none) : Scope.ofQuery q.normalize = Scope.ofQuery q := by
  rw [normalize_of_select hm]
  rfl

theorem ofQuery_select (hm : q.mutation = none) (ha : q.aggregate = none) (hg : q.groups = []) :
    Program.ofQuery q.normalize = (do
      let rows ← (Frame.forMutation q.normalize).clauses ClauseKind.mutationOrder
      let output ← (Frame.forMutation q.normalize).output.mapError .resolve
      .ok (.select (rows ++ [.returning output]))) := by
  have hn := normalize_of_select hm
  have hmutation : q.normalize.mutation = none := (congrArg Query.mutation hn).trans hm
  have haggregate : q.normalize.aggregate = none := (congrArg Query.aggregate hn).trans ha
  have hgroups : q.normalize.groups = [] := (congrArg Query.groups hn).trans hg
  rw [Program.ofQuery, hmutation]
  exact Program.ofSelect_plain haggregate hgroups

end Programs

/-! ## Outcomes -/

section Outcomes

variable {q : Query} (hm : q.mutation = none) (ha : q.aggregate = none)
include hm ha

theorem compile_select_ok (hg : q.groups = []) {preview : Statement}
    (h : q.compile = .ok preview) :
    ∃ rows output, q.check = .ok () ∧
      (Frame.forMutation q.normalize).clauses ClauseKind.mutationOrder = .ok rows ∧
      preview.text = clausesText (rows ++ [.returning output]) ∧ preview.bindings = q.bindings := by
  rw [compile_eq, ofQuery_select hm ha hg] at h
  obtain ⟨_, hcheck, h⟩ := Outcome.bind_ok h
  obtain ⟨program, hprogram, h⟩ := Outcome.bind_ok h
  obtain ⟨rows, hrows, hprogram⟩ := Outcome.bind_ok hprogram
  obtain ⟨output, _, hprogram⟩ := Outcome.bind_ok hprogram
  cases hprogram
  cases h
  have hbindings : q.normalize.bindings = q.bindings := by rw [normalize_of_select hm]
  exact ⟨rows, output, Outcome.mapError_ok hcheck, hrows, rfl, hbindings⟩

theorem compile_delete_of_rows (hcheck : q.check = .ok ()) {rows : List Clause}
    (hrows : (Frame.forMutation q.normalize).clauses ClauseKind.mutationOrder = .ok rows) :
    compile { q with mutation := some .delete } =
      .ok ⟨clausesText rows ++ " REMOVE " ++ (Scope.ofQuery q).sourceVariable ++ " IN " ++
        Collection.inBackticks (Collection.bareName (Scope.ofQuery q).source), q.bindings,
        .delete⟩ := by
  have hwrite := compile_write hm ha (m := .delete) (fun _ h => nomatch h) q.bindings
  rw [hwrite, hcheck, Program.ofQuery_delete, hrows, scope_normalize hm]
  rfl

theorem compile_update_ok {rows : List Clause}
    (hrows : (Frame.forMutation q.normalize).clauses ClauseKind.mutationOrder = .ok rows)
    {assignments : List Assignment} {table : BindTable} {change : Statement}
    (h : compile { q with mutation := some (.update assignments), bindings := table } =
      .ok change) :
    (∃ pairs, change.text = clausesText rows ++ " UPDATE " ++ (Scope.ofQuery q).sourceVariable ++
      " WITH " ++ pairsText pairs ++ " IN " ++
        Collection.inBackticks (Collection.bareName (Scope.ofQuery q).source)) ∧
      change.bindings = table := by
  have hwrite := compile_write hm ha (m := .update assignments) (fun _ h => nomatch h) table
  rw [hwrite, Program.ofQuery_update, hrows, scope_normalize hm] at h
  obtain ⟨_, _, h⟩ := Outcome.bind_ok h
  obtain ⟨program, hprogram, h⟩ := Outcome.bind_ok h
  obtain ⟨_, hsame, hprogram⟩ := Outcome.bind_ok hprogram
  cases hsame
  obtain ⟨pairs, _, hprogram⟩ := Outcome.bind_ok hprogram
  cases hprogram
  cases h
  exact ⟨⟨pairs, rfl⟩, rfl⟩

theorem compile_error_of_delete (hg : q.groups = []) {e : CompileError}
    (h : compile { q with mutation := some .delete } = .error e) : q.compile = .error e := by
  have hwrite := compile_write hm ha (m := .delete) (fun _ h => nomatch h) q.bindings
  rw [hwrite, Program.ofQuery_delete] at h
  rw [compile_eq, ofQuery_select hm ha hg]
  -- the removal fails in the check or in a clause, and the select comes to both first
  cases hcheck : q.check with
  | error failure =>
    rw [hcheck] at h
    exact h
  | ok u =>
    cases hrows : (Frame.forMutation q.normalize).clauses ClauseKind.mutationOrder with
    | error failure =>
      rw [hcheck, hrows] at h
      exact h
    | ok rows =>
      rw [hcheck, hrows] at h
      cases h

end Outcomes

/-- A write touches what the select shows: the texts agree up to the output, a removal has the
bindings of the select, and an update adds its own names behind them. The values of the select are
kept as long as all of them and those of the update fit into the count of a table, which starts
over at `UInt32.size`. -/
theorem write_touches_previewed (q : Query) (values : List (String × Literal)) (hq : q.Built)
    (hm : q.mutation = none) (ha : q.aggregate = none) (hg : q.groups = []) :
    ∃ removing changing, q.delete = .ok removing ∧ q.update values = .ok changing ∧
      (∀ preview, q.compile = .ok preview → ∃ rest output removal,
        let entity := (Scope.ofQuery q).sourceVariable
        let collection := Collection.bareName (Scope.ofQuery q).source
        let rows := clausesText (.loop ⟨entity, collection⟩ :: rest)
        (rest.map Clause.kind).Sublist [.joins, .filter, .sort, .limit] ∧
          preview.text = rows ++ " RETURN " ++ Output.text output ∧
          removing.compile = .ok removal ∧
          removal.text = rows ++ " REMOVE " ++ entity ++ " IN " ++
            Collection.inBackticks collection ∧
          removal.bindings = preview.bindings ∧
          ∀ change, changing.compile = .ok change →
            (∃ pairs, change.text = rows ++ " UPDATE " ++ entity ++ " WITH " ++ pairsText pairs ++
              " IN " ++ Collection.inBackticks collection) ∧
            preview.bindings.names <+: change.bindings.names ∧
            (preview.bindings.size + (pairsData values).length < UInt32.size →
              preview.bindings.PrefixOf change.bindings)) ∧
      ∀ e, removing.compile = .error e → q.compile = .error e := by
  have hfree : q.ensureNoMutation = .ok () := by rw [ensureNoMutation, hm]
  refine ⟨{ q with mutation := some .delete },
    { q with
      mutation := some (.update (setAll (q.bindings.allocatePairs values).1))
      bindings := (q.bindings.allocatePairs values).2 },
    by rw [delete, hfree]; rfl, by rw [update, hfree]; rfl, ?_,
    fun e => compile_error_of_delete hm ha hg⟩
  intro preview hpreview
  obtain ⟨rows, output, hcheck, hrows, htext, hbindings⟩ := compile_select_ok hm ha hg hpreview
  obtain ⟨rest, hfirst, hkinds⟩ := Frame.clauses_mutationOrder_ok hrows
  -- normalisation leaves the source alone, so the loop is over the source of the query
  have hloop : rows = .loop ⟨(Scope.ofQuery q).sourceVariable,
      Collection.bareName (Scope.ofQuery q).source⟩ :: rest := by
    rw [hfirst, ← scope_normalize hm]
    rfl
  refine ⟨rest, output, _, hkinds, ?_, compile_delete_of_rows hm ha hcheck hrows, ?_, ?_, ?_⟩
  · rw [htext, hloop, clausesText_concat (List.cons_ne_nil _ _)]
    simp only [Clause.text, String.append_assoc]
    rfl
  · rw [hloop]
  · exact hbindings.symm
  · intro change hchange
    obtain ⟨⟨pairs, hpairs⟩, htable⟩ := compile_update_ok hm ha hrows hchange
    rw [BindTable.allocatePairs_table] at htable
    rw [htable, hbindings]
    refine ⟨⟨pairs, ?_⟩, BindTable.names_bindAll_prefix _ _, fun hfit => ?_⟩
    · rw [hpairs, hloop]
    · exact hq.denseUntilFull.prefixOf_bindAll hfit

/-- Conditions in groups, a join with conditions, an ordering, a window and a projection. -/
def pagedQuery : Query :=
  (table "users").runLenient
    [.filter .and "users.age" .gt (.value (.number (.int 18))),
      .whereNested .or
        [.filterEq .and "users.name" (.value (.string "x")), .whereNull .or true "users.mail"],
      .joinWhere "orders"
        [.whereColumn .and "orders.user" .eq "users._key",
          .whereIn .and false "orders.state" [.value .null, .raw "1"]],
      .orderBy "orders.total" .desc,
      .forPage 2 10,
      .select ["users.name AS who"]]

theorem write_touches_previewed_paged :
    (pagedQuery.Built ∧ pagedQuery.mutation = none ∧ pagedQuery.aggregate = none ∧
      pagedQuery.groups = []) ∧
      ∃ preview removing removal changing change, pagedQuery.compile = .ok preview ∧
        pagedQuery.delete = .ok removing ∧ removing.compile = .ok removal ∧
        pagedQuery.update [("name", .value (.string "y"))] = .ok changing ∧
        changing.compile = .ok change ∧
        removal.bindings = preview.bindings ∧ preview.bindings.PrefixOf change.bindings := by
  have hbuilt : pagedQuery.Built := ⟨"users", _, by decide, rfl⟩
  obtain ⟨removing, changing, hdelete, hupdate, hwrites, _⟩ :=
    write_touches_previewed pagedQuery [("name", .value (.string "y"))] hbuilt rfl rfl rfl
  obtain ⟨preview, hpreview⟩ : ∃ preview, pagedQuery.compile = .ok preview := ⟨_, rfl⟩
  obtain ⟨change, hchange⟩ : ∃ change, changing.compile = .ok change := by
    cases hupdate
    exact ⟨_, rfl⟩
  obtain ⟨_, _, removal, _, _, hremoval, _, hsame, hchanges⟩ := hwrites preview hpreview
  have hbindings : preview.bindings = pagedQuery.bindings := by
    obtain ⟨_, _, _, _, _, h⟩ := compile_select_ok rfl rfl rfl hpreview
    exact h
  have hroom : preview.bindings.size +
      (pairsData [("name", .value (.string "y"))]).length < UInt32.size := by
    rw [hbindings]
    decide
  exact ⟨⟨hbuilt, rfl, rfl, rfl⟩, preview, removing, removal, changing, change, hpreview, hdelete,
    hremoval, hupdate, hchange, hsame, (hchanges change hchange).2.2 hroom⟩

end Query

end AqlQuery
