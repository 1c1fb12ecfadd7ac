import AqlQuery.Proofs.Aql.Clauses
import AqlQuery.Proofs.Query.Texts

/-!
# Which error a query fails with

What a statement asks of its query is written down as a list of requirements, in the order in which
they are looked at. A query compiles if it meets all of them, and otherwise fails with the error of
the first one that it does not meet. `Requires` says this of a single computation; it is carried
from the resolution of one column through the clauses to the whole statement.
-/

namespace AqlQuery

/-- One thing that a statement asks of its query. -/
inductive Requirement where
  | shape (expected : Shape)
  | source
  | window
  | soleAggregate
  | resolves (column : String)
  | grouped (column : String)
  | writable (column : String)
  deriving DecidableEq

namespace Query

/-- The expression that reads a column of the query, if the column resolves. -/
def expression? (q : Query) (column : String) : Option String :=
  ((Scope.ofQuery q).resolve column).toOption.map ResolvedColumn.expression

/-- Whether a column reads what one of the groups reads. -/
def isGroupExpression (q : Query) (column : String) : Bool :=
  q.groups.any fun group => q.expression? group == q.expression? column

theorem expression?_of_resolve {q : Query} {column : String} {c : ResolvedColumn}
    (h : (Scope.ofQuery q).resolve column = .ok c) : q.expression? column = some c.expression := by
  rw [expression?, h]
  rfl

/-- The column that an aggregate looks at: its first one, if it has any. -/
def aggregateColumns (q : Query) : List String :=
  (q.aggregate.elim [] Aggregate.columns).take 1

end Query

/-- The error of a query that does not meet a requirement. -/
def Requirement.failure? (q : Query) : Requirement → Option CompileError
  | .shape expected =>
    if q.shape = expected then none
    else some (.structural (.shapeMismatch expected q.shape))
  | .source => if q.lacksSource then some (.structural .missingSource) else none
  | .window =>
    if q.offset.isSome && q.limit.isNone then some (.structural .offsetWithoutLimit) else none
  | .soleAggregate =>
    match q.aggregate, q.mutation with
    | some _, some m => some (.structural (.aggregateWithMutation m.shape))
    | _, _ => none
  | .resolves column => (Outcome.failure? ((Scope.ofQuery q).resolve column)).map .resolve
  | .grouped column =>
    if q.isGroupExpression column then none else some (.resolve (.notGrouped column))
  | .writable column => (Outcome.failure? ((Scope.ofQuery q).resolveTarget column)).map .resolve

namespace Query

/-! ## The requirements of a statement -/

/-- What is asked of a column that is read after grouping, if there is any. -/
def readRequirements (grouped : Bool) (column : String) : List Requirement :=
  [.resolves column] ++ if grouped then [.grouped column] else []

/-- A select looks at its groups, then at its conditions and at the aggregate of groups, at the
ordering unless all rows make one value, and last at what it returns. -/
def selectRequirements (q : Query) : List Requirement :=
  let grouped := !q.groups.isEmpty
  (q.groups ++ q.conditionColumns).map .resolves ++
    (if grouped then q.aggregateColumns.map .resolves else []) ++
    (if q.isScalarAggregate then []
      else q.ordering.flatMap fun order => readRequirements grouped order.column) ++
    if q.isScalarAggregate then q.aggregateColumns.map .resolves
    else q.projection.texts.flatMap (readRequirements grouped)

/-- An update or a removal looks at its conditions and at its ordering; it does not group. -/
def rowRequirements (q : Query) : List Requirement :=
  (q.conditionColumns ++ q.ordering.map OrderBy.column).map .resolves

/-- An insert asks nothing of its columns. -/
def statementRequirements (q : Query) : List Requirement :=
  match q.mutation with
  | none => q.selectRequirements
  | some (.insert _) => []
  | some (.update assignments) =>
    q.rowRequirements ++ assignments.map fun a => .writable a.column
  | some .delete => q.rowRequirements

/-- Everything that is asked of a query, with the form first if one is expected. -/
def requirements (expected : Option Shape) (q : Query) : List Requirement :=
  expected.toList.map .shape ++ ([.source, .window, .soleAggregate] ++ q.statementRequirements)

/-- The outcome of a compilation agrees with the requirements: it succeeds if all are met, and
otherwise it is the error of the first that is not. -/
structure FailsFirst (q : Query) (expected : Option Shape)
    (outcome : Except CompileError Statement) : Prop where
  ok : (∃ statement, outcome = .ok statement) ↔
    ∀ r ∈ q.requirements expected, r.failure? q = none
  error (e : CompileError) : outcome = .error e ↔ ∃ met r rest,
    q.requirements expected = met ++ r :: rest ∧ r.failure? q = some e ∧
      ∀ m ∈ met, m.failure? q = none

end Query

/-! ## Requirements of computations -/

/-- A computation fails as the first of the requirements that the query does not meet. -/
def Requires {ε α : Type} (q : Query) (wrap : ε → CompileError) (x : Except ε α)
    (rs : List Requirement) : Prop :=
  (Outcome.failure? x).map wrap = rs.findSome? (Requirement.failure? q)

namespace Requires

variable {ε α β : Type} {q : Query} {wrap : ε → CompileError}

theorem pure (a : α) : Requires q wrap (.ok a) [] := rfl

theorem bind {x : Except ε α} {f : α → Except ε β} {rs rs' : List Requirement}
    (hx : Requires q wrap x rs) (hf : ∀ a, x = .ok a → Requires q wrap (f a) rs') :
    Requires q wrap (x >>= f) (rs ++ rs') := by
  unfold Requires at hx ⊢
  rw [List.findSome?_append, ← hx]
  cases x with
  | error e => rfl
  | ok a =>
    have ha := hf a rfl
    rw [Requires] at ha
    change Option.map wrap (Outcome.failure? (f a)) = Option.or none _
    rw [ha, Option.none_or]

/-- What comes after a computation and cannot fail asks for nothing more. -/
theorem andThen {x : Except ε α} {f : α → Except ε β} {rs : List Requirement}
    (hx : Requires q wrap x rs) (hf : ∀ a, ∃ b, f a = .ok b) : Requires q wrap (x >>= f) rs := by
  rw [← List.append_nil rs]
  refine hx.bind fun a _ => ?_
  obtain ⟨b, hb⟩ := hf a
  rw [hb]
  exact .pure b

theorem map {x : Except ε α} {rs : List Requirement} (hx : Requires q wrap x rs) (g : α → β) :
    Requires q wrap (x >>= fun a => .ok (g a)) rs :=
  hx.andThen fun a => ⟨g a, rfl⟩

theorem mapM {f : α → Except ε β} {xs : List α} {rs : α → List Requirement}
    (h : ∀ x ∈ xs, Requires q wrap (f x) (rs x)) :
    Requires q wrap (xs.mapM f) (xs.flatMap rs) := by
  induction xs with
  | nil => rfl
  | cons x rest ih =>
    rw [List.mapM_cons, List.flatMap_cons]
    refine (h x List.mem_cons_self).bind fun y _ => ?_
    exact (ih fun x' hm => h x' (List.mem_cons_of_mem x hm)).map fun ys => y :: ys

theorem mapError {x : Except ε α} {rs : List Requirement} (hx : Requires q wrap x rs) :
    Requires q id (x.mapError wrap) rs := by
  unfold Requires at hx ⊢
  rw [← hx]
  cases x <;> rfl

theorem clauses {f : Aql.Frame} {rs : Aql.ClauseKind → List Requirement}
    {kinds : List Aql.ClauseKind} (h : ∀ kind ∈ kinds, Requires q id (f.clause kind) (rs kind)) :
    Requires q id (f.clauses kinds) (kinds.flatMap rs) := by
  induction kinds with
  | nil => rfl
  | cons kind rest ih =>
    rw [Aql.Frame.clauses_cons, List.flatMap_cons]
    refine (h kind List.mem_cons_self).bind fun c _ => ?_
    exact (ih fun k hm => h k (List.mem_cons_of_mem kind hm)).map fun cs => c.toList ++ cs

end Requires

/-! ## Conditions -/

section Columns

variable (q : Query)

theorem requires_resolve (column : String) :
    Requires q .resolve ((Scope.ofQuery q).resolve column) [.resolves column] := by
  unfold Requires
  rw [List.findSome?_singleton]
  rfl

theorem requires_resolveTarget (column : String) :
    Requires q .resolve ((Scope.ofQuery q).resolveTarget column) [.writable column] := by
  unfold Requires
  rw [List.findSome?_singleton]
  rfl

mutual
theorem requires_formulaOf (condition : Condition) :
    Requires q .resolve (Aql.formulaOf (Scope.ofQuery q) condition)
      (condition.columns.map .resolves) := by
  cases condition with
  | compare column operator value => exact (requires_resolve q column).map _
  | member column values => exact (requires_resolve q column).map _
  | notMember column values => exact (requires_resolve q column).map _
  | isNull column => exact (requires_resolve q column).map _
  | notNull column => exact (requires_resolve q column).map _
  | compareColumns first operator second =>
    exact (requires_resolve q first).bind fun a _ => (requires_resolve q second).map _
  | group members => exact (requires_chainOf members).map _
theorem requires_chainOf (members : List Predicate) :
    Requires q .resolve (Aql.chainOf (Scope.ofQuery q) members)
      ((Condition.memberColumns members).map .resolves) := by
  cases members with
  | nil => rfl
  | cons p rest =>
    obtain ⟨link, condition⟩ := p
    rw [Condition.memberColumns, List.map_append]
    refine (requires_formulaOf condition).bind fun formula _ => ?_
    -- a member that says nothing is left out, but its columns have been looked at
    cases formula with
    | none => exact (requires_chainOf rest).map fun chain => chain
    | some f => exact (requires_chainOf rest).map fun chain => (link, f) :: chain
end

theorem requires_filterChain :
    Requires q .resolve (Aql.filterChain (Scope.ofQuery q) q)
      (q.conditionColumns.map .resolves) := by
  have hlists := @Requires.mapM _ _ _ q .resolve
    (fun predicates => do
      let chain ← Aql.chainOf (Scope.ofQuery q) predicates
      .ok (chain, Aql.isDisjunctive predicates)) (Aql.predicateLists q)
    (fun predicates => (Condition.memberColumns predicates).map .resolves)
    fun predicates _ => (requires_chainOf q predicates).map _
  rw [← List.map_flatMap] at hlists
  exact hlists.map _

end Columns

/-! ## Clauses -/

namespace Aql.Frame

section Clauses

variable {q : Query} {groups : List ResolvedColumn}

/-- Among the expressions of resolved columns, that of another one is found by its text. -/
theorem any_expression? {columns : List String} {column : String} {c : ResolvedColumn}
    (hg : columns.mapM (Scope.ofQuery q).resolve = .ok groups)
    (hc : (Scope.ofQuery q).resolve column = .ok c) :
    (columns.any fun group => q.expression? group == q.expression? column) =
      groups.any fun g => g.expression == c.expression := by
  rw [Query.expression?_of_resolve hc]
  induction columns generalizing groups with
  | nil =>
    cases hg
    rfl
  | cons first rest ih =>
    obtain ⟨g, gs, hfirst, hrest, rfl⟩ := Outcome.mapM_cons_ok hg
    rw [List.any_cons, List.any_cons, ih hrest, Query.expression?_of_resolve hfirst]
    rfl

-- a frame that groups does so by the groups of its query
variable (hg : groups ≠ [] → q.groups.mapM (Scope.ofQuery q).resolve = .ok groups)
include hg

theorem requires_read (column : String) :
    Requires q .resolve (read ⟨q, Scope.ofQuery q, groups⟩ column)
      (Query.readRequirements (!groups.isEmpty) column) := by
  unfold Query.readRequirements
  refine (requires_resolve q column).bind fun c hc => ?_
  by_cases hne : groups = []
  · -- without groups any column that resolves can be read
    subst hne
    exact .pure (c, Expr.column c)
  · have hany := any_expression? (hg hne) hc
    have hgrouped : (!groups.isEmpty) = true := by simpa using hne
    rw [isGrouped, hgrouped]
    unfold Requires
    change _ = [Requirement.grouped column].findSome? _
    rw [List.findSome?_singleton, Requirement.failure?, Query.isGroupExpression, hany,
      ← List.findIdx?_isSome]
    unfold groupIndex?
    cases groups.findIdx? fun g => g.expression == c.expression <;> rfl

omit hg in
theorem requires_aggregateColumn (a : Aggregate) :
    Requires q .resolve (aggregateColumn ⟨q, Scope.ofQuery q, groups⟩ a)
      ((a.columns.take 1).map .resolves) := by
  unfold aggregateColumn
  cases a.columns with
  | nil => rfl
  | cons column rest => exact (requires_resolve q column).map _

omit hg in
theorem requires_aggregateArgument (a : Aggregate) :
    Requires q .resolve (aggregateArgument ⟨q, Scope.ofQuery q, groups⟩ a)
      ((a.columns.take 1).map .resolves) := by
  refine (requires_aggregateColumn a).andThen fun found => ?_
  cases found with
  | none => exact ⟨_, rfl⟩
  | some c => exact ⟨_, rfl⟩

omit hg in
theorem requires_collectClause :
    Requires q .resolve (collectClause ⟨q, Scope.ofQuery q, groups⟩)
      (if !groups.isEmpty then q.aggregateColumns.map .resolves else []) := by
  unfold collectClause isGrouped Query.aggregateColumns
  by_cases hne : (!groups.isEmpty) = true
  · rw [if_pos hne, if_pos hne]
    cases q.aggregate with
    | none => rfl
    | some a => exact (requires_aggregateArgument a).map _
  · rw [if_neg hne, if_neg hne]
    rfl

theorem requires_sortClause :
    Requires q .resolve (sortClause ⟨q, Scope.ofQuery q, groups⟩)
      (if q.isScalarAggregate then []
        else q.ordering.flatMap fun order =>
          Query.readRequirements (!groups.isEmpty) order.column) := by
  unfold sortClause
  by_cases hscalar : q.isScalarAggregate = true
  · simp only [hscalar, Bool.or_true, if_true]
    rfl
  · simp only [Bool.eq_false_iff.mpr hscalar, Bool.or_false, Bool.false_eq_true, if_false]
    by_cases hempty : q.ordering.isEmpty = true
    · rw [if_pos hempty, List.isEmpty_iff.mp hempty]
      rfl
    · rw [if_neg hempty]
      refine Requires.map (Requires.mapM fun order _ => ?_) _
      exact (requires_read hg order.column).map fun found => (found.2, order.direction)

theorem requires_outputPairs (columns : List String) :
    Requires q .resolve (outputPairs ⟨q, Scope.ofQuery q, groups⟩ columns)
      (columns.flatMap (Query.readRequirements (!groups.isEmpty))) :=
  Requires.mapM fun column _ =>
    (requires_read hg column).map fun found => (found.1.outputKey, found.2)

theorem requires_output :
    Requires q .resolve (output ⟨q, Scope.ofQuery q, groups⟩)
      (if q.aggregate.isSome && groups.isEmpty then q.aggregateColumns.map .resolves
        else q.projection.texts.flatMap (Query.readRequirements (!groups.isEmpty))) := by
  unfold output isGrouped
  by_cases hne : groups = []
  · subst hne
    have hpairs := requires_outputPairs hg
    cases ha : q.aggregate with
    | some a =>
      rw [Query.aggregateColumns, ha]
      refine (requires_aggregateColumn a).andThen fun found => ?_
      cases found with
      | none => exact ⟨_, rfl⟩
      | some c => exact ⟨_, rfl⟩
    | none =>
      cases q.projection with
      | all => rfl
      | columns columns => exact (hpairs columns).map _
  · have hgrouped : groups.isEmpty = false := by simpa using hne
    rw [hgrouped, Bool.not_false, Bool.and_false]
    cases q.projection with
    | all => rfl
    | columns columns =>
      have hpairs := (requires_outputPairs hg columns).map fun pairs =>
        Output.object (pairs ++ aggregatePair q)
      rw [hgrouped] at hpairs
      exact hpairs

/-- What a clause asks of the query, in a frame that groups or does not. -/
def clauseRequirements (q : Query) (grouped : Bool) : ClauseKind → List Requirement
  | .filter => q.conditionColumns.map .resolves
  | .collect => if grouped then q.aggregateColumns.map .resolves else []
  | .sort =>
    if q.isScalarAggregate then []
    else q.ordering.flatMap fun order => Query.readRequirements grouped order.column
  | .returning =>
    if q.aggregate.isSome && !grouped then q.aggregateColumns.map .resolves
    else q.projection.texts.flatMap (Query.readRequirements grouped)
  | _ => []

theorem requires_clause (hw : (q.offset.isSome && q.limit.isNone) = false) (kind : ClauseKind) :
    Requires q id (clause ⟨q, Scope.ofQuery q, groups⟩ kind)
      (clauseRequirements q (!groups.isEmpty) kind) := by
  cases kind with
  | loop => rfl
  | joins => rfl
  | filter => exact ((requires_filterChain q).map _).mapError
  | collect => exact requires_collectClause.mapError
  | sort => exact (requires_sortClause hg).mapError
  | limit =>
    -- the window was checked before any clause is written
    obtain ⟨c, hc⟩ := exists_limitClause hw (Scope.ofQuery q) groups
    rw [clause, hc]
    rfl
  | returning =>
    have hout := (requires_output hg).mapError.map fun output => some (Clause.returning output)
    simp only [clauseRequirements, Bool.not_not]
    rw [clause]
    cases ho : (output ⟨q, Scope.ofQuery q, groups⟩).mapError CompileError.resolve with
    | error e =>
      rw [ho] at hout
      exact hout
    | ok output =>
      rw [ho] at hout
      exact hout

end Clauses

end Aql.Frame

/-! ## Statements -/

namespace Aql.Program

variable {q : Query} (hw : (q.offset.isSome && q.limit.isNone) = false)
include hw

theorem requires_ofSelect : Requires q id (ofSelect q) q.selectRequirements := by
  have hframe : Requires q id ((Frame.forSelect q).mapError .resolve)
      (q.groups.map .resolves) := by
    have hgroups := @Requires.mapM _ _ _ q CompileError.resolve (Scope.ofQuery q).resolve q.groups
      (fun column => [.resolves column]) fun column _ => requires_resolve q column
    rw [← List.map_eq_flatMap] at hgroups
    exact (hgroups.map fun groups => (⟨q, Scope.ofQuery q, groups⟩ : Frame)).mapError
  have hsplit : q.selectRequirements = q.groups.map .resolves ++
      ClauseKind.selectOrder.flatMap (Frame.clauseRequirements q (!q.groups.isEmpty)) := by
    simp only [Query.selectRequirements, ClauseKind.selectOrder, Frame.clauseRequirements,
      List.flatMap_cons, List.flatMap_nil, List.nil_append, List.append_nil, List.map_append,
      List.append_assoc, Bool.not_not]
    rfl
  rw [hsplit]
  refine hframe.bind fun f hf => ?_
  obtain ⟨groups, hg, hf⟩ := Outcome.bind_ok (Outcome.mapError_ok hf)
  cases hf
  -- the frame groups if the query does, as there is one resolved group for each
  have hempty : groups.isEmpty = q.groups.isEmpty := by
    cases hq : q.groups with
    | nil =>
      rw [hq] at hg
      cases hg
      rfl
    | cons first rest =>
      rw [hq] at hg
      obtain ⟨_, _, _, _, rfl⟩ := Outcome.mapM_cons_ok hg
      rfl
  have hclauses := @Requires.clauses q ⟨q, Scope.ofQuery q, groups⟩
    (Frame.clauseRequirements q (!groups.isEmpty)) ClauseKind.selectOrder
    fun kind _ => Frame.requires_clause (fun _ => hg) hw kind
  rw [hempty] at hclauses
  refine hclauses.andThen fun clauses => ?_
  cases q.aggregate with
  | none => exact ⟨_, rfl⟩
  | some a =>
    by_cases hscalar : q.groups.isEmpty = true
    · exact ⟨_, if_pos hscalar⟩
    · exact ⟨_, if_neg hscalar⟩

/-- The clauses before an update or a removal. -/
theorem requires_rowClauses (hs : q.isScalarAggregate = false) :
    Requires q id ((Frame.forMutation q).clauses ClauseKind.mutationOrder) q.rowRequirements := by
  have hsplit : q.rowRequirements =
      ClauseKind.mutationOrder.flatMap (Frame.clauseRequirements q false) := by
    have hread : (q.ordering.flatMap fun order => Query.readRequirements false order.column) =
        q.ordering.map (Requirement.resolves ∘ OrderBy.column) := List.map_eq_flatMap.symm
    simp only [Query.rowRequirements, ClauseKind.mutationOrder, Frame.clauseRequirements,
      List.flatMap_cons, List.flatMap_nil, List.nil_append, List.append_nil, List.map_append, hs,
      Bool.false_eq_true, if_false, hread, List.map_map]
  rw [hsplit]
  exact Requires.clauses fun kind _ =>
    Frame.requires_clause (fun hne => absurd rfl hne) hw kind

theorem requires_ofUpdate (hs : q.isScalarAggregate = false) (assignments : List Assignment) :
    Requires q id (ofUpdate q assignments)
      (q.rowRequirements ++ assignments.map fun a => .writable a.column) := by
  refine (requires_rowClauses hw hs).bind fun clauses _ => ?_
  have hpairs : Requires q .resolve (assignments.mapM (assignmentPair (Scope.ofQuery q)))
      (assignments.map fun a => .writable a.column) := by
    rw [List.map_eq_flatMap]
    refine Requires.mapM fun a _ => ?_
    refine (requires_resolveTarget q a.column).andThen fun target => ?_
    cases a with
    | set column value => exact ⟨_, rfl⟩
    | adjust column op amount => exact ⟨_, rfl⟩
  exact hpairs.mapError.map _

theorem requires_ofQuery (ha : q.mutation ≠ none → q.aggregate = none) :
    Requires q id (ofQuery q) q.statementRequirements := by
  have hscalar (hm : q.mutation ≠ none) : q.isScalarAggregate = false := by
    rw [Query.isScalarAggregate, ha hm]
    rfl
  unfold ofQuery Query.statementRequirements
  cases hm : q.mutation with
  | none => exact requires_ofSelect hw
  | some m =>
    have hs := hscalar (by rw [hm]; exact Option.some_ne_none m)
    cases m with
    | insert records => rfl
    | update assignments => exact requires_ofUpdate hw hs assignments
    | delete => exact (requires_rowClauses hw hs).map _

end Aql.Program

namespace Query

theorem requires_requireShape (expected : Option Shape) (q : Query) :
    Requires q id (q.requireShape expected) (expected.toList.map .shape) := by
  cases expected with
  | none => rfl
  | some shape =>
    unfold Requires
    change _ = [Requirement.shape shape].findSome? _
    rw [List.findSome?_singleton, Requirement.failure?, requireShape]
    by_cases hs : q.shape = shape
    · rw [if_pos hs, if_pos hs]
      rfl
    · rw [if_neg hs, if_neg hs]
      rfl

theorem requires_check (q : Query) :
    Requires q id (q.check.mapError .structural) [.source, .window, .soleAggregate] := by
  unfold Requires
  simp only [List.findSome?_cons, List.findSome?_nil, Requirement.failure?, check]
  by_cases hs : q.lacksSource = true
  · rw [if_pos hs, if_pos hs]
    rfl
  rw [if_neg hs, if_neg hs]
  by_cases hw : (q.offset.isSome && q.limit.isNone) = true
  · rw [if_pos hw, if_pos hw]
    rfl
  rw [if_neg hw, if_neg hw]
  cases q.aggregate with
  | none => rfl
  | some a => cases q.mutation <;> rfl

/-- What a query that passes the check has to do with its window and its aggregate. -/
theorem of_check_ok {q : Query} (h : q.check = .ok ()) :
    (q.offset.isSome && q.limit.isNone) = false ∧ (q.mutation ≠ none → q.aggregate = none) := by
  unfold check at h
  split at h
  next => cases h
  next =>
    split at h
    next => cases h
    next hw =>
      refine ⟨Bool.eq_false_iff.mpr hw, fun hm => ?_⟩
      split at h
      next => cases h
      next hboth =>
        cases ha : q.aggregate with
        | none => rfl
        | some a =>
          obtain ⟨m, hm⟩ := Option.ne_none_iff_exists'.mp hm
          exact absurd hm (hboth a m ha)

/-- Normalisation drops nothing that is looked at. -/
theorem statementRequirements_normalize {q : Query}
    (hm : ∀ records, q.mutation ≠ some (.insert records))
    (ha : q.mutation ≠ none → q.aggregate = none) :
    q.normalize.statementRequirements = q.statementRequirements := by
  rw [normalize_of_not_insert hm]
  cases hq : q.mutation with
  | none =>
    -- the ordering is dropped for a single value only, and is not looked at then
    simp only [statementRequirements, selectRequirements, hq, isScalarAggregate, conditionColumns,
      aggregateColumns, texts_shownProjection]
    by_cases hs : (q.aggregate.isSome && q.groups.isEmpty) = true
    · simp only [hs, if_true]
      rfl
    · simp only [hs, if_false, Bool.false_eq_true]
      rfl
  | some m =>
    have hnone : q.aggregate = none := ha (by rw [hq]; exact Option.some_ne_none m)
    rw [hnone]
    cases m with
    | insert records => exact absurd hq (hm records)
    | update assignments =>
      simp only [statementRequirements, hq]
      rfl
    | delete =>
      simp only [statementRequirements, hq]
      rfl

theorem failure?_normalize {q : Query} (hm : ∀ records, q.mutation ≠ some (.insert records))
    (r : Requirement) : r.failure? q.normalize = r.failure? q := by
  rw [normalize_of_not_insert hm]
  cases r <;> rfl

theorem requires_ofQuery_normalize {q : Query} (h : q.check = .ok ()) :
    Requires q id (Aql.Program.ofQuery q.normalize) q.statementRequirements := by
  obtain ⟨hw, ha⟩ := of_check_ok h
  rcases q.insert_or_not with ⟨records, hm⟩ | hm
  · -- an insert is written without looking at a column
    rw [normalize_of_insert hm, statementRequirements, hm]
    rfl
  · have hnormal : Requires q.normalize id (Aql.Program.ofQuery q.normalize)
        q.normalize.statementRequirements := by
      apply Aql.Program.requires_ofQuery
      · rw [normalize_of_not_insert hm]
        exact hw
      · rw [normalize_of_not_insert hm]
        exact ha
    have hfailure : Requirement.failure? q.normalize = Requirement.failure? q :=
      funext (failure?_normalize hm)
    rwa [Requires, hfailure, statementRequirements_normalize hm ha] at hnormal

theorem requires_compileWith (expected : Option Shape) (q : Query) :
    Requires q id (q.compileWith .default expected) (q.requirements expected) := by
  rw [compileWith_default, requirements]
  refine (requires_requireShape expected q).bind fun _ _ => ?_
  refine (requires_check q).bind fun u hu => ?_
  exact (requires_ofQuery_normalize (Outcome.mapError_ok hu)).map _

/-- A query that does not meet a requirement fails with its error, or with that of an earlier one. -/
theorem compileWith_error_of_unmet {q : Query} {expected : Option Shape} {r : Requirement}
    {e : CompileError} (hr : r ∈ q.requirements expected) (he : r.failure? q = some e) :
    ∃ before after, q.requirements expected = before ++ r :: after ∧
      q.compileWith .default expected =
        .error ((before.findSome? (Requirement.failure? q)).getD e) := by
  obtain ⟨before, after, hsplit⟩ := List.append_of_mem hr
  refine ⟨before, after, hsplit, Outcome.failure?_eq_some_iff.mp ?_⟩
  have hrequires := requires_compileWith expected q
  rw [Requires, Option.map_id, hsplit, List.findSome?_append, List.findSome?_cons, he] at hrequires
  change Outcome.failure? (q.compileWith .default expected) = _ at hrequires
  rw [hrequires]
  cases before.findSome? (Requirement.failure? q) <;> rfl

theorem failsFirst_of_requires {expected : Option Shape} {q : Query}
    {outcome : Except CompileError Statement}
    (h : Requires q id outcome (q.requirements expected)) : q.FailsFirst expected outcome := by
  have hfailure : Outcome.failure? outcome =
      (q.requirements expected).findSome? (Requirement.failure? q) := by
    rw [← h, Option.map_id]
    rfl
  refine ⟨?_, fun e => ?_⟩
  · rw [← List.findSome?_eq_none_iff, ← hfailure]
    cases outcome with
    | ok statement => exact ⟨fun _ => rfl, fun _ => ⟨statement, rfl⟩⟩
    | error e => exact ⟨fun ⟨_, hs⟩ => (nomatch hs), fun hnone => (nomatch hnone)⟩
  · rw [← Outcome.failure?_eq_some_iff, hfailure, List.findSome?_eq_some_iff]

/-- A query compiles if it meets every requirement of its statement, and fails with the error of the
first one that it does not meet. -/
theorem compile_fails_first (q : Query) :
    q.FailsFirst none q.compile ∧ ∀ shape, q.FailsFirst (some shape) (q.compileAs shape) :=
  ⟨failsFirst_of_requires (requires_compileWith none q),
    fun shape => failsFirst_of_requires (requires_compileWith (some shape) q)⟩

-- groups come before the conditions, which are written first
example : requirements (some .select)
    (((table "users").whereNull .and false "b").groupBy ["a"] |>.orderBy "c" .asc) =
      [.shape .select, .source, .window, .soleAggregate, .resolves "a", .resolves "b",
        .resolves "c", .grouped "c"] := by
  decide

end Query

end AqlQuery
