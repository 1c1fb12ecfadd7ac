import AqlQuery.Proofs.Aql.Layout
import AqlQuery.Proofs.Query.Texts

/-!
# One more joined collection

A collection that is joined without conditions adds a loop behind the others and takes part in nothing
else. It comes last in the scope, so a qualifier that names a collection names the same one as before,
and a column without a qualifier is refused under joins unless it means the whole document. The
clauses of a query whose columns are explicit in this sense are the same with and without the join.
-/

namespace AqlQuery

open Outcome

/-- Whether a column says which collection it belongs to, or means the whole document. -/
def ColumnRef.isExplicit (c : ColumnRef) : Bool := c.qualifier.isSome || c.isWhole

/-- The columns that a query reads. -/
def Query.readColumns (q : Query) : List String :=
  q.conditionColumns ++ q.groups ++ q.ordering.map OrderBy.column ++ q.projection.texts ++
    q.aggregate.elim [] Aggregate.columns

/-! ## Columns -/

namespace Scope

/-- A scope with another collection behind the joined ones. -/
def join (s : Scope) (collection : String) : Scope := ⟨s.source, s.joined ++ [collection]⟩

theorem ofQuery_crossJoin (q : Query) (collection : String) :
    ofQuery (q.crossJoin collection) = (ofQuery q).join (Collection.bareName collection) := by
  simp only [ofQuery, ofNames, Query.crossJoin, Query.pushJoin, join, List.map_append,
    List.map_cons, List.map_nil]

variable (s : Scope) (collection : String)

theorem find?_join {qualifier found : String} (h : s.find? qualifier = some found) :
    (s.join collection).find? qualifier = some found := by
  unfold find? at h ⊢
  -- the first match stays the first when a collection comes behind all others
  change (s.collections ++ [collection]).find? (names qualifier) = some found
  rw [List.find?_append, h]
  rfl

theorem resolve_join {raw : String} (hraw : (ColumnRef.parse raw).isExplicit = true) :
    Keeps (s.resolve raw) ((s.join collection).resolve raw) := by
  have hcollection : Keeps (s.collectionOf raw (ColumnRef.parse raw))
      ((s.join collection).collectionOf raw (ColumnRef.parse raw)) := by
    intro found h
    unfold collectionOf at h ⊢
    cases hq : (ColumnRef.parse raw).qualifier with
    | none =>
      -- without a qualifier the whole document of the source is meant, joins or not
      have hwhole : (ColumnRef.parse raw).isWhole = true := by
        simpa [ColumnRef.isExplicit, hq] using hraw
      rw [hq] at h
      simp only [hwhole, Bool.not_true, Bool.and_false] at h ⊢
      exact h
    | some qualifier =>
      rw [hq] at h
      cases hf : s.find? qualifier with
      | none =>
        simp only [hf] at h
        cases h
      | some name =>
        simp only [hf] at h
        simp only [find?_join s collection hf]
        exact h
  intro c h
  unfold resolve at h ⊢
  cases hs : s.collectionOf raw (ColumnRef.parse raw) with
  | error e =>
    simp only [hs] at h
    cases h
  | ok found =>
    simp only [hs] at h
    simp only [hcollection found hs]
    exact h

/-- What is written belongs to the source, qualified or not. -/
theorem resolveTarget_join (raw : String) :
    Keeps (s.resolveTarget raw) ((s.join collection).resolveTarget raw) := by
  intro c h
  unfold resolveTarget at h ⊢
  cases hw : (ColumnRef.parse raw).isWhole with
  | true =>
    simp only [hw] at h
    cases h
  | false =>
    cases hq : (ColumnRef.parse raw).qualifier with
    | none =>
      -- no look at the joined collections at all
      simp only [hw, hq] at h ⊢
      exact h
    | some qualifier =>
      have hexplicit : (ColumnRef.parse raw).isExplicit = true := by
        simp [ColumnRef.isExplicit, hq]
      simp only [hw, hq] at h ⊢
      cases hs : s.resolve raw with
      | error e =>
        simp only [hs] at h
        cases h
      | ok found =>
        rw [resolve_join s collection hexplicit found hs]
        rw [hs] at h
        exact h

end Scope

/-- Columns that are explicit. -/
def Explicit (columns : List String) : Prop :=
  ∀ column ∈ columns, (ColumnRef.parse column).isExplicit = true

instance (columns : List String) : Decidable (Explicit columns) :=
  inferInstanceAs (Decidable (∀ column ∈ columns, (ColumnRef.parse column).isExplicit = true))

theorem explicit_append {columns columns' : List String} :
    Explicit (columns ++ columns') ↔ Explicit columns ∧ Explicit columns' :=
  List.forall_mem_append

theorem Explicit.subset {columns columns' : List String} (h : Explicit columns)
    (hsub : columns' ⊆ columns) : Explicit columns' :=
  fun column hc => h column (hsub hc)

namespace Aql

/-! ## Conditions -/

section Conditions

variable (s : Scope) (collection : String)

mutual
theorem formulaOf_join (condition : Condition) (h : Explicit condition.columns) :
    Keeps (formulaOf s condition) (formulaOf (s.join collection) condition) := by
  cases condition with
  | compare column operator value =>
    exact (s.resolve_join collection (h column List.mem_cons_self)).andThen _
  | member column values =>
    exact (s.resolve_join collection (h column List.mem_cons_self)).andThen _
  | notMember column values =>
    exact (s.resolve_join collection (h column List.mem_cons_self)).andThen _
  | isNull column => exact (s.resolve_join collection (h column List.mem_cons_self)).andThen _
  | notNull column => exact (s.resolve_join collection (h column List.mem_cons_self)).andThen _
  | compareColumns first operator second =>
    have hsecond := h second (List.mem_cons_of_mem first List.mem_cons_self)
    exact (s.resolve_join collection (h first List.mem_cons_self)).bind fun a _ =>
      (s.resolve_join collection hsecond).andThen _
  | group members => exact (chainOf_join members h).andThen _
theorem chainOf_join (members : List Predicate) (h : Explicit (Condition.memberColumns members)) :
    Keeps (chainOf s members) (chainOf (s.join collection) members) := by
  cases members with
  | nil => exact .refl _
  | cons p rest =>
    obtain ⟨link, condition⟩ := p
    have hfirst : Explicit condition.columns := h.subset (List.subset_append_left _ _)
    have hrest : Explicit (Condition.memberColumns rest) := h.subset (List.subset_append_right _ _)
    exact (formulaOf_join condition hfirst).bind fun formula _ =>
      (chainOf_join rest hrest).andThen _
end

theorem filterChain_join {q : Query} (h : Explicit q.conditionColumns) :
    Keeps (filterChain s q) (filterChain (s.join collection) q) := by
  refine Keeps.andThen (Keeps.mapM fun predicates hp => ?_) _
  have hcolumns : Explicit (Condition.memberColumns predicates) :=
    fun column hc => h column (List.mem_flatMap.mpr ⟨predicates, hp, hc⟩)
  exact (chainOf_join s collection predicates hcolumns).andThen _

/-- A join without conditions is a part that says nothing, so the other parts are conjoined as if it
were not there. -/
theorem filterChain_crossJoin (q : Query) :
    filterChain s (q.crossJoin collection) = filterChain s q := by
  have hlists : predicateLists (q.crossJoin collection) =
      q.joins.map Join.conditions ++ ([] :: [q.predicates]) := by
    simp [predicateLists, Query.crossJoin, Query.pushJoin]
  unfold filterChain
  rw [hlists, predicateLists, List.mapM_append, List.mapM_append, List.mapM_cons]
  cases (q.joins.map Join.conditions).mapM fun predicates => do
      let chain ← chainOf s predicates
      .ok (chain, isDisjunctive predicates) with
  | error e => rfl
  | ok parts =>
    cases [q.predicates].mapM fun predicates => do
        let chain ← chainOf s predicates
        .ok (chain, isDisjunctive predicates) with
    | error e => rfl
    | ok own =>
      -- the part of the new join is empty and is dropped before the parts are counted
      change Except.ok (conjoin ((parts ++ ([], false) :: own).filter _)) =
        Except.ok (conjoin ((parts ++ own).filter _))
      simp

end Conditions

/-! ## Clauses -/

namespace Frame

/-- A frame with another collection that is joined without conditions. -/
def join (f : Frame) (collection : String) : Frame :=
  ⟨f.query.crossJoin collection, f.scope.join (Collection.bareName collection), f.groups⟩

variable (f : Frame) (collection : String)

theorem isGrouped_join : (f.join collection).isGrouped = f.isGrouped := rfl

theorem aggregate_join : (f.join collection).query.aggregate = f.query.aggregate := rfl

theorem ordering_join : (f.join collection).query.ordering = f.query.ordering := rfl

theorem isScalarAggregate_join :
    (f.join collection).query.isScalarAggregate = f.query.isScalarAggregate := rfl

theorem projection_join : (f.join collection).query.projection = f.query.projection := rfl

theorem read_join {raw : String} (h : (ColumnRef.parse raw).isExplicit = true) :
    Keeps (f.read raw) ((f.join collection).read raw) :=
  (f.scope.resolve_join _ h).andThen _

theorem aggregateColumn_join {a : Aggregate} (h : Explicit a.columns) :
    Keeps (f.aggregateColumn a) ((f.join collection).aggregateColumn a) := by
  unfold aggregateColumn
  cases hc : a.columns with
  | nil => exact .refl _
  | cons raw rest =>
    rw [hc] at h
    exact (f.scope.resolve_join _ (h raw List.mem_cons_self)).andThen _

theorem outputPairs_join {columns : List String} (h : Explicit columns) :
    Keeps (f.outputPairs columns) ((f.join collection).outputPairs columns) :=
  Keeps.mapM fun raw hraw => (f.read_join collection (h raw hraw)).andThen _

theorem filterClause_join (h : Explicit f.query.conditionColumns) :
    Keeps f.filterClause (f.join collection).filterClause := by
  have hchain : filterChain (f.join collection).scope (f.join collection).query =
      filterChain (f.scope.join (Collection.bareName collection)) f.query :=
    filterChain_crossJoin _ collection f.query
  unfold filterClause
  rw [hchain]
  exact (filterChain_join f.scope _ h).andThen _

theorem collectClause_join (h : ∀ a, f.query.aggregate = some a → Explicit a.columns) :
    Keeps f.collectClause (f.join collection).collectClause := by
  unfold collectClause
  rw [isGrouped_join, aggregate_join]
  by_cases hg : f.isGrouped = true
  · rw [if_pos hg, if_pos hg]
    cases ha : f.query.aggregate with
    | none => exact .refl _
    | some a => exact ((f.aggregateColumn_join collection (h a ha)).andThen _).andThen _
  · rw [if_neg hg, if_neg hg]
    exact .refl _

theorem sortClause_join (h : Explicit (f.query.ordering.map OrderBy.column)) :
    Keeps f.sortClause (f.join collection).sortClause := by
  unfold sortClause
  rw [ordering_join, isScalarAggregate_join]
  by_cases hempty : (f.query.ordering.isEmpty || f.query.isScalarAggregate) = true
  · rw [if_pos hempty, if_pos hempty]
    exact .refl _
  · rw [if_neg hempty, if_neg hempty]
    refine Keeps.andThen (Keeps.mapM fun order horder => ?_) _
    exact (f.read_join collection (h _ (List.mem_map_of_mem horder))).andThen _

theorem output_join (hshown : Explicit f.query.projection.texts)
    (h : ∀ a, f.query.aggregate = some a → Explicit a.columns) :
    Keeps f.output (f.join collection).output := by
  unfold output
  rw [isGrouped_join, aggregate_join, projection_join]
  by_cases hg : f.isGrouped = true
  · rw [if_pos hg, if_pos hg]
    cases hp : f.query.projection with
    | all => exact .refl _
    | columns columns =>
      rw [hp] at hshown
      exact (f.outputPairs_join collection hshown).andThen _
  · rw [if_neg hg, if_neg hg]
    cases ha : f.query.aggregate with
    | some a => exact (f.aggregateColumn_join collection (h a ha)).andThen _
    | none =>
      cases hp : f.query.projection with
      | all => exact .refl _
      | columns columns =>
        rw [hp] at hshown
        exact (f.outputPairs_join collection hshown).andThen _

/-- Behind the loops, a clause does not see the join. -/
theorem clause_join (h : Explicit f.query.readColumns) {kind : ClauseKind}
    (hkind : kind ∈ ClauseKind.selectRest) :
    Keeps (f.clause kind) ((f.join collection).clause kind) := by
  simp only [Query.readColumns, explicit_append] at h
  obtain ⟨⟨⟨⟨hconditions, _⟩, hordering⟩, hshown⟩, haggregate⟩ := h
  have haggregates : ∀ a, f.query.aggregate = some a → Explicit a.columns := by
    intro a ha
    rwa [ha] at haggregate
  cases kind with
  | filter => exact (f.filterClause_join collection hconditions).mapError _
  | collect => exact (f.collectClause_join collection haggregates).mapError _
  | sort => exact (f.sortClause_join collection hordering).mapError _
  | limit => exact .refl _
  | returning =>
    exact ((f.output_join collection hshown haggregates).mapError _).map _
  | loop => exact absurd hkind (by decide)
  | joins => exact absurd hkind (by decide)

theorem clauses_join (h : Explicit f.query.readColumns) {kinds : List ClauseKind}
    (hkinds : kinds ⊆ ClauseKind.selectRest) :
    Keeps (f.clauses kinds) ((f.join collection).clauses kinds) := by
  induction kinds with
  | nil => exact .refl _
  | cons kind rest ih =>
    rw [clauses_cons, clauses_cons]
    refine (f.clause_join collection h (hkinds List.mem_cons_self)).bind fun c _ => ?_
    exact (ih fun k hk => hkinds (List.mem_cons_of_mem kind hk)).andThen _

end Frame

/-! ## Programs -/

namespace Program

theorem opening_returning (q : Query) (cs ds : List Clause) :
    (returning q cs).opening = (returning q ds).opening := by
  unfold returning
  split
  · split <;> rfl
  · rfl

theorem ending_returning (q : Query) (cs ds : List Clause) :
    (returning q cs).ending = (returning q ds).ending := by
  unfold returning
  split
  · split <;> rfl
  · rfl

theorem assignmentPair_join (s : Scope) (collection : String) (a : Assignment) :
    Keeps (assignmentPair s a) (assignmentPair (s.join collection) a) :=
  (s.resolveTarget_join collection a.column).andThen _

variable {q : Query} (collection : String)

theorem clauses_crossJoin (h : Explicit q.readColumns) (groups : List ResolvedColumn)
    {kinds : List ClauseKind} (hkinds : kinds ⊆ ClauseKind.selectRest) :
    Keeps (Frame.clauses ⟨q, Scope.ofQuery q, groups⟩ kinds)
      (Frame.clauses ⟨q.crossJoin collection, Scope.ofQuery (q.crossJoin collection), groups⟩
        kinds) := by
  rw [Scope.ofQuery_crossJoin]
  exact Frame.clauses_join ⟨q, Scope.ofQuery q, groups⟩ collection h hkinds

theorem groups_crossJoin (h : Explicit q.groups) :
    Keeps (q.groups.mapM (Scope.ofQuery q).resolve)
      ((q.crossJoin collection).groups.mapM (Scope.ofQuery (q.crossJoin collection)).resolve) := by
  rw [Scope.ofQuery_crossJoin]
  exact Keeps.mapM fun column hc => (Scope.ofQuery q).resolve_join _ (h column hc)

theorem assignments_crossJoin (assignments : List Assignment) :
    Keeps (assignments.mapM (assignmentPair (Scope.ofQuery q)))
      (assignments.mapM (assignmentPair (Scope.ofQuery (q.crossJoin collection)))) := by
  rw [Scope.ofQuery_crossJoin]
  exact Keeps.mapM fun a _ => assignmentPair_join (Scope.ofQuery q) _ a

/-- The program of a query over rows, with a join and without, differs in the loops only. -/
theorem ofQuery_crossJoin {p : Program} (hm : ∀ records, q.mutation ≠ some (.insert records))
    (hexplicit : Explicit q.readColumns) (h : ofQuery q = .ok p) :
    ∃ p' rest, ofQuery (q.crossJoin collection) = .ok p' ∧ p.clauses = loopClauses q ++ rest ∧
      p'.clauses = loopClauses (q.crossJoin collection) ++ rest ∧
      (rest.map Clause.kind).Sublist ClauseKind.selectRest ∧
      p'.opening = p.opening ∧ p'.ending = p.ending := by
  have hmutation : (q.crossJoin collection).mutation = q.mutation := rfl
  have hrest : ClauseKind.mutationRest.Sublist ClauseKind.selectRest := by decide
  have hrows := clauses_crossJoin collection hexplicit [] hrest.subset
  unfold ofQuery at h ⊢
  rw [hmutation]
  split at h
  next =>
    rw [ofSelect_eq] at h ⊢
    obtain ⟨groups, hgroups, h⟩ := Outcome.bind_ok h
    obtain ⟨rest, hclauses, h⟩ := Outcome.bind_ok h
    cases h
    -- the groups are resolved before any clause, and to the same columns
    have hcolumns : Explicit q.groups := by
      simp only [Query.readColumns, explicit_append] at hexplicit
      exact hexplicit.1.1.1.2
    rw [(groups_crossJoin collection hcolumns).mapError _ groups hgroups]
    refine ⟨returning q (loopClauses (q.crossJoin collection) ++ rest), rest, ?_,
      clauses_returning q _, clauses_returning q _, Frame.kinds_clauses hclauses,
      opening_returning q _ _, ending_returning q _ _⟩
    change (Frame.clauses _ _ >>= _) = _
    rw [clauses_crossJoin collection hexplicit groups (List.Subset.refl _) rest hclauses]
    rfl
  next records hq => exact absurd hq (hm records)
  next assignments _ =>
    rw [ofUpdate_eq] at h ⊢
    obtain ⟨rest, hclauses, h⟩ := Outcome.bind_ok h
    obtain ⟨pairs, hpairs, h⟩ := Outcome.bind_ok h
    cases h
    have hpairs' := (assignments_crossJoin collection assignments).mapError _ pairs hpairs
    rw [Frame.forMutation, hrows rest hclauses, hpairs', Scope.ofQuery_crossJoin]
    exact ⟨_, rest, rfl, rfl, rfl, (Frame.kinds_clauses hclauses).trans hrest, rfl, rfl⟩
  next =>
    rw [ofDelete_eq] at h ⊢
    obtain ⟨rest, hclauses, h⟩ := Outcome.bind_ok h
    cases h
    rw [Frame.forMutation, hrows rest hclauses, Scope.ofQuery_crossJoin]
    exact ⟨_, rest, rfl, rfl, rfl, (Frame.kinds_clauses hclauses).trans hrest, rfl, rfl⟩

end Program

end Aql

/-! ## Statements -/

namespace Query

open Aql

variable {q : Query} (collection : String)

theorem normalize_crossJoin_of_insert (hshape : q.shape = .insert) :
    (q.crossJoin collection).normalize = q.normalize := by
  obtain ⟨records, hm⟩ := shape_eq_insert_iff.mp hshape
  have hm' : (q.crossJoin collection).mutation = some (.insert records) := hm
  rw [normalize_of_insert hm, normalize_of_insert hm']
  rfl

theorem normalize_crossJoin_of_rows (hshape : q.shape ≠ .insert) :
    (q.crossJoin collection).normalize = q.normalize.crossJoin collection := by
  have hm := not_insert_of_shape hshape
  have hm' : ∀ records, (q.crossJoin collection).mutation ≠ some (.insert records) := hm
  rw [normalize_of_not_insert hm, normalize_of_not_insert hm']
  rfl

theorem explicit_normalize (hshape : q.shape ≠ .insert) (h : Explicit q.readColumns) :
    Explicit q.normalize.readColumns := by
  rw [normalize_of_not_insert (not_insert_of_shape hshape)]
  simp only [readColumns, explicit_append, texts_shownProjection] at h ⊢
  obtain ⟨⟨⟨⟨hconditions, hgroups⟩, hordering⟩, hshown⟩, haggregate⟩ := h
  refine ⟨⟨⟨⟨hconditions, hgroups⟩, ?_⟩, hshown⟩, haggregate⟩
  split
  · exact fun _ hc => nomatch hc
  · exact hordering

theorem loopsText_crossJoin (q : Query) :
    loopsText (q.crossJoin collection).loops = loopsText q.loops ++
      (" FOR " ++ Collection.bareName collection ++ "_entity IN \x60" ++
        Collection.bareName collection ++ "\x60") := by
  have hloops : (q.crossJoin collection).loops =
      ⟨(Scope.ofQuery q).sourceVariable, Collection.bareName (Scope.ofQuery q).source⟩ ::
        (q.joins.map Frame.joinLoop ++ [Frame.joinLoop ⟨collection, []⟩]) := by
    simp only [loops, crossJoin, pushJoin, List.map_append, List.map_cons, List.map_nil]
    rfl
  have hfor : " FOR " = " " ++ "FOR " := rfl
  have hin : "_entity IN \x60" = "_entity" ++ (" IN " ++ "\x60") := rfl
  rw [hloops, loopsText_concat, hfor, hin]
  simp only [Loop.text, Frame.joinLoop, Collection.variableName, Collection.variableSuffix,
    Collection.inBackticks, loops, String.append_assoc]

/-- The checks before a statement is written do not look at the joins. -/
theorem compileWith_of_crossJoin {expected : Option Shape} {statement : Statement}
    (h : q.compileWith .default expected = .ok statement) {program : Program}
    (hprogram : Program.ofQuery (q.crossJoin collection).normalize = .ok program) :
    (q.crossJoin collection).compileWith .default expected =
      .ok ⟨program.text, (q.crossJoin collection).normalize.bindings, q.shape⟩ := by
  have hrequire : (q.crossJoin collection).requireShape expected = q.requireShape expected := rfl
  have hcheck : (q.crossJoin collection).check = q.check := rfl
  rw [compileWith_default] at h ⊢
  obtain ⟨u, hu, h⟩ := Outcome.bind_ok h
  obtain ⟨v, hv, h⟩ := Outcome.bind_ok h
  rw [hrequire, hcheck, hu, hv, hprogram]
  rfl

/-- A join without conditions never changes what an explicit column means: the query compiles as it
did before, with one more loop behind the others and nothing else in another place. An insert has no
loops to add to. -/
theorem compileWith_crossJoin (expected : Option Shape) {statement : Statement}
    (hexplicit : ∀ column ∈ q.readColumns, (ColumnRef.parse column).isExplicit = true)
    (h : q.compileWith .default expected = .ok statement) :
    ∃ joined, (q.crossJoin collection).compileWith .default expected = .ok joined ∧
      joined.bindings = statement.bindings ∧ joined.shape = statement.shape ∧
      (q.shape = .insert → joined.text = statement.text) ∧
      (q.shape ≠ .insert → ∃ program rest, Program.ofQuery q.normalize = .ok program ∧
        (rest.map Clause.kind).Sublist ClauseKind.selectRest ∧
        statement.text = program.opening ++ loopsText q.loops ++ followingText rest ++
          program.ending ∧
        joined.text = program.opening ++ loopsText q.loops ++
          (" FOR " ++ Collection.bareName collection ++ "_entity IN \x60" ++
            Collection.bareName collection ++ "\x60") ++ followingText rest ++
          program.ending) := by
  obtain ⟨program, hprogram, rfl⟩ := compileWith_ok h
  by_cases hshape : q.shape = .insert
  · -- the normal form of an insert has no joins, so that of the joined query is the same
    have hnormal := normalize_crossJoin_of_insert collection hshape
    rw [← hnormal] at hprogram
    refine ⟨_, compileWith_of_crossJoin collection h hprogram, ?_, rfl, fun _ => rfl,
      fun hrows => absurd hshape hrows⟩
    rw [hnormal]
  · have hnormal := normalize_crossJoin_of_rows collection hshape
    have hrows : q.normalize.shape ≠ .insert := by rwa [shape_normalize]
    obtain ⟨joined, rest, hjoined, hclauses, hclauses', hkinds, hopening, hending⟩ :=
      Program.ofQuery_crossJoin collection (not_insert_of_shape hrows)
        (explicit_normalize hshape hexplicit) hprogram
    rw [← hnormal] at hjoined
    refine ⟨_, compileWith_of_crossJoin collection h hjoined, ?_, rfl, fun hinsert =>
      absurd hinsert hshape, fun _ => ⟨program, rest, hprogram, hkinds, ?_, ?_⟩⟩
    · rw [hnormal]
      rfl
    · rw [← loops_normalize hshape]
      exact Program.text_of_loops hclauses
    · have htext := Program.text_of_loops hclauses'
      rw [hopening, hending, loopsText_crossJoin, loops_normalize hshape] at htext
      simp only [String.append_assoc] at htext ⊢
      exact htext

/-- Items counted by the town of their stores, where both the join and the query have an `OR`. -/
def stockQuery : Query :=
  (table "items").runLenient
    [.joinWhere "\x60stores\x60"
        [.whereColumn .and "stores._key" .eq "items.store",
          .filter .or "stores_entity.open" .eq (.value (.bool true))],
      .filter .and "items.left" .gt (.value (.number (.int 0))),
      .whereNull .or false "\x60items\x60.due",
      .groupBy ["stores.city as town"], .aggregate .count ["*"],
      .orderBy "\x60stores\x60.city" .asc, .take 3]

theorem compileWith_crossJoin_stock :
    (∀ column ∈ stockQuery.readColumns, (ColumnRef.parse column).isExplicit = true) ∧
      stockQuery.shape ≠ .insert ∧
      ∃ statement joined before after, stockQuery.compile = .ok statement ∧
        (stockQuery.crossJoin "\x60logs\x60").compile = .ok joined ∧
        joined.bindings = statement.bindings ∧ statement.text = before ++ after ∧
        joined.text = before ++ " FOR logs_entity IN \x60logs\x60" ++ after := by
  have hexplicit : ∀ column ∈ stockQuery.readColumns,
      (ColumnRef.parse column).isExplicit = true := by decide +kernel
  have hshape : stockQuery.shape ≠ .insert := by decide
  obtain ⟨statement, hstatement⟩ : ∃ statement,
      stockQuery.compileWith .default none = .ok statement := Outcome.exists_ok (by decide +kernel)
  obtain ⟨joined, hjoined, hbindings, _, _, hrows⟩ :=
    compileWith_crossJoin "\x60logs\x60" none hexplicit hstatement
  obtain ⟨program, rest, _, _, htext, htext'⟩ := hrows hshape
  refine ⟨hexplicit, hshape, statement, joined, program.opening ++ loopsText stockQuery.loops,
    followingText rest ++ program.ending, hstatement, hjoined, hbindings, ?_, ?_⟩
  · rw [htext, String.append_assoc]
  · rw [htext', String.append_assoc]
    rfl

end Query

end AqlQuery
