import AqlQuery.Proofs.Aql.Layout
import AqlQuery.Proofs.Binding.Density
import AqlQuery.Proofs.Column.Names
import AqlQuery.Proofs.Filter.Key

/-!
# Loop variables

Whatever a statement reads, returns or writes goes through a variable of its scope: a column through
that of its collection, a whole document through that of the source. The loops introduce the same
variables as long as a bare name is left as it is when it is read once more, and so if no name has
blanks. Nothing keeps them apart: two loops have the same variable if their collections have the
same bare name.
-/

namespace AqlQuery

namespace Aql

/-! ## The expressions of a statement -/

/-- What a comparison compares. -/
def Comparison.expressions : Comparison → List Expr
  | .binary left _ right => [.column left, right]
  | .among values _ column => values.map .operand ++ [.column column]
  | .never => []

def Output.expressions : Output → List Expr
  | .value e => [e]
  | .object pairs => pairs.map Prod.snd

/-- The expressions that a clause is written with. -/
def Clause.expressions : Clause → List Expr
  | .filter chain => (Formula.chainLeaves chain).flatMap Comparison.expressions
  | .collect groups aggregate => groups.map .column ++ (aggregate.map Prod.snd).toList
  | .sort items => items.map Prod.fst
  | .returning output => output.expressions
  | _ => []

namespace Program

/-- The expressions that a statement is written with, and the document that it writes to. -/
def expressions (p : Program) : List Expr :=
  p.clauses.flatMap Clause.expressions ++
    match p with
    | .update _ entity pairs _ => .document entity :: pairs.map Prod.snd
    | .remove _ entity _ => [.document entity]
    | _ => []

/-- The collection that an update or a removal names. -/
def target? : Program → Option String
  | .update _ _ _ collection => some collection
  | .remove _ _ collection => some collection
  | _ => none

/-- The variable and the collection by which an update or a removal writes. -/
def writes? : Program → Option Loop
  | .update _ entity _ collection => some ⟨entity, collection⟩
  | .remove _ entity collection => some ⟨entity, collection⟩
  | _ => none

theorem exists_writes? {p : Program} {collection : String} (h : collection ∈ p.target?) :
    ∃ l ∈ p.writes?, l.collection = collection := by
  cases p with
  | update clauses entity pairs target => exact ⟨⟨entity, target⟩, rfl, Option.some.inj h⟩
  | remove clauses entity target => exact ⟨⟨entity, target⟩, rfl, Option.some.inj h⟩
  | _ => cases h

end Program

/-- The loop that a column is read through. -/
def columnLoop (c : ResolvedColumn) : Loop := ⟨c.entity, c.collection⟩

/-- The expression has no loop variable, or one of the given loops introduces it. A column goes
through a loop over its own collection. -/
def Expr.Declared (loops : List Loop) : Expr → Prop
  | .column c => columnLoop c ∈ loops
  | .adjusted c _ _ => columnLoop c ∈ loops
  | .document entity => entity ∈ loops.map Loop.entity
  | _ => True

/-! ## The loops of a scope -/

/-- Loops over the collections in scope, with the variables that columns are read through. -/
def scopeLoops (s : Scope) : List Loop :=
  s.collections.map fun collection => ⟨Collection.variableName collection, collection⟩

theorem sourceVariable_mem (s : Scope) : s.sourceVariable ∈ (scopeLoops s).map Loop.entity :=
  List.mem_cons_self

theorem columnLoop_mem {s : Scope} {raw : String} {c : ResolvedColumn}
    (h : s.resolve raw = .ok c) : columnLoop c ∈ scopeLoops s := by
  obtain ⟨hmem, hentity, _⟩ := Scope.resolve_ok h
  rw [columnLoop, hentity]
  exact List.mem_map_of_mem hmem

theorem columnLoop_mem_of_target {s : Scope} {raw : String} {c : ResolvedColumn}
    (h : s.resolveTarget raw = .ok c) : columnLoop c ∈ scopeLoops s := by
  obtain ⟨hsource, hentity, _⟩ := Scope.resolveTarget_ok h
  rw [columnLoop, hentity, hsource]
  exact List.mem_cons_self

/-- The loops of a query are those of its scope if the bare names are left as they are when they are
read once more: the variable of a join is spelled from the name as it was given, and the collection
of the source from its bare name. -/
theorem scopeLoops_eq_loops_iff (q : Query) :
    scopeLoops (Scope.ofQuery q) = q.loops ↔ ∀ name ∈ q.collections,
      Collection.bareName (Collection.bareName name) = Collection.bareName name := by
  have hscope : scopeLoops (Scope.ofQuery q) =
      ⟨(Scope.ofQuery q).sourceVariable, (Scope.ofQuery q).source⟩ ::
        q.joins.map fun j => ⟨Collection.variableName (Collection.bareName j.collection),
          Collection.bareName j.collection⟩ := by
    simp only [scopeLoops, Scope.collections, Scope.ofQuery, Scope.ofNames, List.map_cons,
      List.map_map]
    rfl
  have hjoin (j : Join) : (⟨Collection.variableName (Collection.bareName j.collection),
      Collection.bareName j.collection⟩ : Loop) = Frame.joinLoop j ↔
        Collection.bareName (Collection.bareName j.collection) =
          Collection.bareName j.collection := by
    rw [← Collection.variableName_bareName_iff, Frame.joinLoop, Loop.mk.injEq]
    exact and_iff_left rfl
  have hsource : (⟨(Scope.ofQuery q).sourceVariable, (Scope.ofQuery q).source⟩ : Loop) =
      ⟨(Scope.ofQuery q).sourceVariable, Collection.bareName (Scope.ofQuery q).source⟩ ↔
        Collection.bareName (Collection.bareName q.source) = Collection.bareName q.source := by
    have hname : (Scope.ofQuery q).source = Collection.bareName q.source := rfl
    rw [hname, Loop.mk.injEq, and_iff_right rfl]
    exact eq_comm
  rw [hscope, Query.loops, List.cons.injEq, List.map_inj_left, hsource, Query.collections,
    List.forall_mem_cons, List.forall_mem_map]
  simp only [hjoin]

/-- The loops of a query are those of its scope if none of the names has blanks. -/
theorem scopeLoops_ofQuery {q : Query} (h : ∀ name ∈ q.collections, Text.IsUnbroken name) :
    scopeLoops (Scope.ofQuery q) = q.loops :=
  (scopeLoops_eq_loops_iff q).mpr fun name hm => Collection.bareName_bareName (h name hm)

/-! ## Clauses -/

theorem declared_comparison {s : Scope} {condition : Condition} {c : Comparison}
    (h : comparison? s condition = some c) : ∀ e ∈ c.expressions, e.Declared (scopeLoops s) := by
  -- membership in no set at all does not write its column
  have hmembership {values : List Operand} {negated : Bool} {column : ResolvedColumn}
      (hcolumn : columnLoop column ∈ scopeLoops s) :
      ∀ e ∈ (if values = [] then Comparison.never else .among values negated column).expressions,
        e.Declared (scopeLoops s) := by
    split
    · exact fun e he => nomatch he
    · intro e he
      rcases List.mem_append.mp he with hm | hm
      · obtain ⟨value, _, rfl⟩ := List.mem_map.mp hm
        trivial
      · rw [List.mem_singleton.mp hm]
        exact hcolumn
  cases condition with
  | compare column operator value =>
    obtain ⟨resolved, hr, h⟩ := Outcome.bind_toOption h
    cases h
    exact List.forall_mem_cons.mpr ⟨columnLoop_mem hr, List.forall_mem_singleton.mpr trivial⟩
  | member column values =>
    obtain ⟨resolved, hr, h⟩ := Outcome.bind_toOption h
    cases h
    exact hmembership (columnLoop_mem hr)
  | notMember column values =>
    obtain ⟨resolved, hr, h⟩ := Outcome.bind_toOption h
    cases h
    exact hmembership (columnLoop_mem hr)
  | isNull column =>
    obtain ⟨resolved, hr, h⟩ := Outcome.bind_toOption h
    cases h
    exact List.forall_mem_cons.mpr ⟨columnLoop_mem hr, List.forall_mem_singleton.mpr trivial⟩
  | notNull column =>
    obtain ⟨resolved, hr, h⟩ := Outcome.bind_toOption h
    cases h
    exact List.forall_mem_cons.mpr ⟨columnLoop_mem hr, List.forall_mem_singleton.mpr trivial⟩
  | compareColumns first operator second =>
    obtain ⟨left, hl, h⟩ := Outcome.bind_toOption h
    obtain ⟨right, hr, h⟩ := Outcome.bind_toOption h
    cases h
    exact List.forall_mem_cons.mpr
      ⟨columnLoop_mem hl, List.forall_mem_singleton.mpr (columnLoop_mem hr)⟩
  | group members => cases h

theorem declared_filterChain {q : Query} {chain : Chain}
    (h : filterChain (Scope.ofQuery q) q = .ok chain) :
    ∀ e ∈ (Clause.filter chain).expressions, e.Declared (scopeLoops (Scope.ofQuery q)) := by
  -- each comparison of the chain is what one of the conditions is written as
  obtain ⟨chain', hchain, _, hleaves, _⟩ := filterChain_means (Query.resolves_of_filterChain h)
  cases h.symm.trans hchain
  intro e he
  obtain ⟨c, hc, he⟩ := List.mem_flatMap.mp he
  have hwritten : some c ∈ (Formula.chainLeaves chain).map some := List.mem_map_of_mem hc
  rw [hleaves] at hwritten
  obtain ⟨condition, _, hcondition⟩ := List.mem_map.mp hwritten
  exact declared_comparison hcondition e he

namespace Frame

variable {f : Frame}

theorem declared_read {raw : String} {c : ResolvedColumn} {e : Expr}
    (h : f.read raw = .ok (c, e)) : e.Declared (scopeLoops f.scope) := by
  obtain ⟨found, hfound, h⟩ := Outcome.bind_ok h
  split at h
  · split at h
    · cases h
      trivial
    · cases h
  · cases h
    exact columnLoop_mem hfound

theorem declared_aggregateColumn {a : Aggregate} {c : ResolvedColumn}
    (h : f.aggregateColumn a = .ok (some c)) : (Expr.column c).Declared (scopeLoops f.scope) := by
  unfold aggregateColumn at h
  split at h
  · cases h
  · obtain ⟨found, hfound, h⟩ := Outcome.bind_ok h
    split at h
    · cases h
      exact columnLoop_mem hfound
    · cases h

theorem declared_aggregateArgument {a : Aggregate} {e : Expr}
    (h : f.aggregateArgument a = .ok e) : e.Declared (scopeLoops f.scope) := by
  obtain ⟨found, hfound, h⟩ := Outcome.bind_ok h
  cases found with
  | some c =>
    cases h
    exact declared_aggregateColumn hfound
  | none =>
    cases h
    split
    · trivial
    · exact sourceVariable_mem f.scope

theorem declared_outputPairs {columns : List String} {pairs : List (String × Expr)}
    (h : f.outputPairs columns = .ok pairs) :
    ∀ e ∈ pairs.map Prod.snd, e.Declared (scopeLoops f.scope) := by
  intro e he
  obtain ⟨pair, hpair, rfl⟩ := List.mem_map.mp he
  obtain ⟨raw, _, hr⟩ := Outcome.mem_mapM_ok h hpair
  obtain ⟨⟨c, read⟩, hread, hr⟩ := Outcome.bind_ok hr
  cases hr
  exact declared_read hread

theorem declared_groupPairs (index : Nat) (columns : List ResolvedColumn) (loops : List Loop) :
    ∀ e ∈ (groupPairs index columns).map Prod.snd, e.Declared loops := by
  induction columns generalizing index with
  | nil => exact fun e he => nomatch he
  | cons c rest ih => exact List.forall_mem_cons.mpr ⟨trivial, ih (index + 1)⟩

theorem declared_sortClause {c : Clause} (h : f.sortClause = .ok (some c)) :
    ∀ e ∈ c.expressions, e.Declared (scopeLoops f.scope) := by
  unfold sortClause at h
  split at h
  · cases h
  · obtain ⟨items, hitems, h⟩ := Outcome.bind_ok h
    cases h
    intro e he
    obtain ⟨item, hitem, rfl⟩ := List.mem_map.mp he
    obtain ⟨order, _, hr⟩ := Outcome.mem_mapM_ok hitems hitem
    obtain ⟨⟨c, read⟩, hread, hr⟩ := Outcome.bind_ok hr
    cases hr
    exact declared_read hread

theorem declared_output {o : Output} (h : f.output = .ok o) :
    ∀ e ∈ o.expressions, e.Declared (scopeLoops f.scope) := by
  -- the aggregate of groups is a variable of its own
  have hgrouped {pairs : List (String × Expr)}
      (hpairs : ∀ e ∈ pairs.map Prod.snd, e.Declared (scopeLoops f.scope)) :
      ∀ e ∈ (Output.object (pairs ++ aggregatePair f.query)).expressions,
        e.Declared (scopeLoops f.scope) := by
    intro e he
    rw [Output.expressions, List.map_append] at he
    rcases List.mem_append.mp he with hm | hm
    · exact hpairs e hm
    · unfold aggregatePair at hm
      split at hm
      · rw [List.mem_singleton.mp hm]
        trivial
      · cases hm
  unfold output at h
  split at h
  · simp only at h
    split at h
    next =>
      cases h
      exact hgrouped (declared_groupPairs 1 f.groups _)
    next columns _ =>
      obtain ⟨pairs, hpairs, h⟩ := Outcome.bind_ok h
      cases h
      exact hgrouped (declared_outputPairs hpairs)
  · split at h
    next a _ =>
      obtain ⟨found, hfound, h⟩ := Outcome.bind_ok h
      cases found with
      | none =>
        cases h
        exact List.forall_mem_singleton.mpr (sourceVariable_mem f.scope)
      | some c =>
        cases h
        exact List.forall_mem_singleton.mpr (declared_aggregateColumn hfound)
    next =>
      cases h
      exact List.forall_mem_singleton.mpr (sourceVariable_mem f.scope)
    next columns _ =>
      obtain ⟨pairs, hpairs, h⟩ := Outcome.bind_ok h
      cases h
      exact declared_outputPairs hpairs

section Groups

variable {q : Query} {groups : List ResolvedColumn}
  (hgroups : ∀ g ∈ groups, columnLoop g ∈ scopeLoops (Scope.ofQuery q))
include hgroups

theorem declared_collectClause {c : Clause}
    (h : collectClause ⟨q, Scope.ofQuery q, groups⟩ = .ok (some c)) :
    ∀ e ∈ c.expressions, e.Declared (scopeLoops (Scope.ofQuery q)) := by
  have hcolumns : ∀ e ∈ groups.map Expr.column, e.Declared (scopeLoops (Scope.ofQuery q)) := by
    intro e he
    obtain ⟨g, hg, rfl⟩ := List.mem_map.mp he
    exact hgroups g hg
  unfold collectClause at h
  split at h
  · split at h
    next =>
      cases h
      intro e he
      rcases List.mem_append.mp he with hm | hm
      · exact hcolumns e hm
      · cases hm
    next a _ =>
      obtain ⟨argument, hargument, h⟩ := Outcome.bind_ok h
      cases h
      intro e he
      rcases List.mem_append.mp he with hm | hm
      · exact hcolumns e hm
      · have hdeclared := declared_aggregateArgument hargument
        rw [List.mem_singleton.mp hm]
        exact hdeclared
  · cases h

theorem declared_clause {kind : ClauseKind} {c : Clause}
    (h : clause ⟨q, Scope.ofQuery q, groups⟩ kind = .ok (some c)) :
    ∀ e ∈ c.expressions, e.Declared (scopeLoops (Scope.ofQuery q)) := by
  cases kind with
  | loop =>
    cases h
    exact fun e he => nomatch he
  | joins =>
    have hj : joinsClause ⟨q, Scope.ofQuery q, groups⟩ = some c := Except.ok.inj h
    unfold joinsClause at hj
    split at hj
    · cases hj
    · cases hj
      exact fun e he => nomatch he
  | filter =>
    obtain ⟨chain, hchain, hc⟩ := Outcome.bind_ok (Outcome.mapError_ok h)
    split at hc
    · cases hc
    · cases hc
      exact declared_filterChain hchain
  | collect => exact declared_collectClause hgroups (Outcome.mapError_ok h)
  | sort =>
    have hsort := declared_sortClause (Outcome.mapError_ok h)
    exact hsort
  | limit =>
    have hc := Outcome.mapError_ok h
    unfold limitClause at hc
    split at hc
    · cases hc
      exact fun e he => nomatch he
    · cases hc
    · cases hc
  | returning =>
    cases ho : output ⟨q, Scope.ofQuery q, groups⟩ with
    | error e =>
      rw [clause, ho] at h
      cases h
    | ok output =>
      have hdeclared := declared_output ho
      rw [clause, ho] at h
      cases h
      exact hdeclared

theorem declared_clauses {kinds : List ClauseKind} {cs : List Clause}
    (h : clauses ⟨q, Scope.ofQuery q, groups⟩ kinds = .ok cs) :
    ∀ e ∈ cs.flatMap Clause.expressions, e.Declared (scopeLoops (Scope.ofQuery q)) := by
  intro e he
  obtain ⟨c, hc, he⟩ := List.mem_flatMap.mp he
  obtain ⟨kind, _, hclause⟩ := clause_of_mem h hc
  exact declared_clause hgroups hclause e he

end Groups

end Frame

/-! ## Statements -/

namespace Program

theorem declared_assignmentPair {s : Scope} {a : Assignment} {pair : String × Expr}
    (h : assignmentPair s a = .ok pair) : pair.2.Declared (scopeLoops s) := by
  obtain ⟨target, htarget, h⟩ := Outcome.bind_ok h
  cases a with
  | set column value =>
    cases h
    trivial
  | adjust column op amount =>
    cases h
    exact columnLoop_mem_of_target htarget

theorem expressions_returning (q : Query) (cs : List Clause) :
    (returning q cs).expressions = cs.flatMap Clause.expressions := by
  unfold returning
  split
  · split <;> exact List.append_nil _
  · exact List.append_nil _

theorem expressions_loopClauses (q : Query) : (loopClauses q).flatMap Clause.expressions = [] := by
  unfold loopClauses
  cases q.joins <;> rfl

/-- A clause with a loop has no expression, so only the clauses behind the loops count. -/
theorem declared_rows {q : Query} {groups : List ResolvedColumn} {kinds : List ClauseKind}
    {rest : List Clause} (hgroups : ∀ g ∈ groups, columnLoop g ∈ scopeLoops (Scope.ofQuery q))
    (h : Frame.clauses ⟨q, Scope.ofQuery q, groups⟩ kinds = .ok rest) :
    ∀ e ∈ (loopClauses q ++ rest).flatMap Clause.expressions,
      e.Declared (scopeLoops (Scope.ofQuery q)) := by
  rw [List.flatMap_append, expressions_loopClauses, List.nil_append]
  exact Frame.declared_clauses hgroups h

theorem declared_ofQuery {q : Query} {p : Program} (h : ofQuery q = .ok p) :
    ∀ e ∈ p.expressions, e.Declared (scopeLoops (Scope.ofQuery q)) := by
  have hungrouped : ∀ g ∈ ([] : List ResolvedColumn),
      columnLoop g ∈ scopeLoops (Scope.ofQuery q) := fun g hg => nomatch hg
  unfold ofQuery at h
  split at h
  next =>
    rw [ofSelect_eq] at h
    obtain ⟨groups, hgroups, h⟩ := Outcome.bind_ok h
    obtain ⟨rest, hrest, h⟩ := Outcome.bind_ok h
    cases h
    rw [expressions_returning]
    refine declared_rows (fun g hg => ?_) hrest
    obtain ⟨raw, _, hraw⟩ := Outcome.mem_mapM_ok (Outcome.mapError_ok hgroups) hg
    exact columnLoop_mem hraw
  next =>
    cases h
    exact fun e he => nomatch he
  next assignments =>
    rw [ofUpdate_eq] at h
    obtain ⟨rest, hrest, h⟩ := Outcome.bind_ok h
    obtain ⟨pairs, hpairs, h⟩ := Outcome.bind_ok h
    cases h
    intro e he
    rcases List.mem_append.mp he with hrow | hwritten
    · exact declared_rows hungrouped hrest e hrow
    · rcases List.mem_cons.mp hwritten with rfl | hpair
      · exact sourceVariable_mem (Scope.ofQuery q)
      · obtain ⟨pair, hm, rfl⟩ := List.mem_map.mp hpair
        obtain ⟨a, _, ha⟩ := Outcome.mem_mapM_ok (Outcome.mapError_ok hpairs) hm
        exact declared_assignmentPair ha
  next =>
    rw [ofDelete_eq] at h
    obtain ⟨rest, hrest, h⟩ := Outcome.bind_ok h
    cases h
    intro e he
    rcases List.mem_append.mp he with hrow | hwritten
    · exact declared_rows hungrouped hrest e hrow
    · rw [List.mem_singleton.mp hwritten]
      exact sourceVariable_mem (Scope.ofQuery q)

/-- An update or a removal writes by the names of the loop over its source. -/
theorem writes?_ofQuery {q : Query} {p : Program} (h : ofQuery q = .ok p) :
    ∀ l ∈ p.writes?,
      l = ⟨(Scope.ofQuery q).sourceVariable, Collection.bareName (Scope.ofQuery q).source⟩ := by
  unfold ofQuery at h
  split at h
  next =>
    rw [ofSelect_eq] at h
    obtain ⟨groups, _, h⟩ := Outcome.bind_ok h
    obtain ⟨rest, _, h⟩ := Outcome.bind_ok h
    cases h
    unfold returning
    split
    · split <;> exact fun _ hl => nomatch hl
    · exact fun _ hl => nomatch hl
  next =>
    cases h
    exact fun _ hl => nomatch hl
  next =>
    rw [ofUpdate_eq] at h
    obtain ⟨rest, _, h⟩ := Outcome.bind_ok h
    obtain ⟨pairs, _, h⟩ := Outcome.bind_ok h
    cases h
    exact fun _ hl => (Option.some.inj hl).symm
  next =>
    rw [ofDelete_eq] at h
    obtain ⟨rest, _, h⟩ := Outcome.bind_ok h
    cases h
    exact fun _ hl => (Option.some.inj hl).symm

theorem target?_ofQuery {q : Query} {p : Program} (h : ofQuery q = .ok p) :
    ∀ collection ∈ p.target?, collection = Collection.bareName (Scope.ofQuery q).source := by
  intro collection hc
  obtain ⟨l, hl, rfl⟩ := exists_writes? hc
  rw [writes?_ofQuery h l hl]

/-- The loops of a statement introduce every loop variable that is used in it, and what it writes to
is the collection of the first loop. -/
structure WellScoped (p : Program) : Prop where
  declared : ∀ e ∈ p.expressions, e.Declared p.loops
  target : ∀ collection ∈ p.target?,
    ∃ first rest, p.loops = first :: rest ∧ first.collection = collection

end Program

end Aql

namespace Query

open Aql

/-- A statement over collections whose names have no blanks uses no loop variable but those that its
loops introduce. What is used and what the loops introduce is read off the pieces that the text is
written with. -/
theorem compileWith_wellScoped {q : Query} {expected : Option Shape} {statement : Statement}
    (hnames : ∀ name ∈ q.collections, Text.IsUnbroken name) (hshape : q.shape ≠ .insert)
    (h : q.compileWith .default expected = .ok statement) :
    ∃ program, Program.ofQuery q.normalize = .ok program ∧ statement.text = program.written ∧
      program.WellScoped := by
  obtain ⟨program, _, hprogram, htext, hloops, _⟩ := compileWith_rows hshape h
  have hscope := scope_normalize_of_rows hshape
  refine ⟨program, hprogram, htext.trans program.text_eq_written, ?_, ?_⟩
  · rw [hloops, ← scopeLoops_ofQuery hnames, ← hscope]
    exact Program.declared_ofQuery hprogram
  · intro collection hc
    have htarget := Program.target?_ofQuery hprogram collection hc
    rw [hscope] at htarget
    exact ⟨_, _, hloops, htarget.symm⟩

/-- An update under a join, with names in backticks, conditions of both collections and an
ordering. -/
def visitQuery : Query :=
  (table "\x60users\x60").runLenient
    [.filter .and "users.age" .gt (.value (.number (.int 18))),
      .joinWhere "\x60orders\x60"
        [.whereColumn .and "orders_entity.user" .eq "users._key",
          .whereIn .or false "orders.state" [.value .null]],
      .orderBy "orders.total" .desc,
      .adjust .add "\x60users\x60.visits" (.number (.int 1)) [("seen", .raw "DATE_NOW()")]]

theorem compileWith_wellScoped_update :
    ((∀ name ∈ visitQuery.collections, Text.IsUnbroken name) ∧ visitQuery.shape ≠ .insert) ∧
      ∃ statement program, visitQuery.compileWith .default none = .ok statement ∧
        statement.text = "FOR users_entity IN \x60users\x60 FOR orders_entity IN \x60orders\x60 " ++
          "FILTER (orders_entity.\x60user\x60 == users_entity._key OR " ++
          "[@B2] ANY == orders_entity.\x60state\x60) AND users_entity.\x60age\x60 > @B1 " ++
          "SORT orders_entity.\x60total\x60 DESC UPDATE users_entity WITH " ++
          "\x7b\"visits\": users_entity.\x60visits\x60 + 1, \"seen\": DATE_NOW()\x7d " ++
          "IN \x60users\x60" ∧
        Program.ofQuery visitQuery.normalize = .ok program ∧ statement.text = program.written ∧
        program.loops = [⟨"users_entity", "users"⟩, ⟨"orders_entity", "orders"⟩] ∧
        program.WellScoped := by
  have hnames : ∀ name ∈ visitQuery.collections, Text.IsUnbroken name := by decide
  have hshape : visitQuery.shape ≠ .insert := by decide
  obtain ⟨statement, hstatement⟩ : ∃ statement,
      visitQuery.compileWith .default none = .ok statement := Outcome.exists_ok (by decide +kernel)
  obtain ⟨program, hprogram, htext, hscoped⟩ := compileWith_wellScoped hnames hshape hstatement
  refine ⟨⟨hnames, hshape⟩, statement, program, hstatement, ?_, hprogram, htext, ?_, hscoped⟩
  · exact Outcome.eq_of_ok (f := Statement.text) hstatement (by decide +kernel)
  · exact Outcome.eq_of_ok (f := Program.loops) hprogram (by decide +kernel)

-- with blanks inside the backticks the loop keeps backticks that the scope takes away
example : ((table "a").crossJoin "\x60 \x60b\x60 \x60").loops.map Loop.entity =
      ["a_entity", "\x60b\x60_entity"] ∧
    (scopeLoops (Scope.ofQuery ((table "a").crossJoin "\x60 \x60b\x60 \x60"))).map Loop.entity =
      ["a_entity", "b_entity"] := by
  decide

/-! ## Loops with the same variable -/

/-- The names that the loops of a query spell their variables from. -/
def loopNames (q : Query) : List String :=
  Collection.bareName (Scope.ofQuery q).source ::
    q.joins.map fun j => Collection.bareName j.collection

theorem entities_loops (q : Query) :
    q.loops.map Loop.entity = q.loopNames.map (· ++ Collection.variableSuffix) := by
  rw [loops, loopNames, List.map_cons, List.map_cons, List.map_map, List.map_map]
  rfl

/-- The loops of a statement have different variables if the bare names of its collections are
different, and only then. -/
theorem compileWith_variables_nodup_iff {q : Query} {expected : Option Shape}
    {statement : Statement} (hshape : q.shape ≠ .insert)
    (h : q.compileWith .default expected = .ok statement) :
    ∃ program rest, Program.ofQuery q.normalize = .ok program ∧
      statement.text = program.opening ++ loopsText program.loops ++ followingText rest ++
        program.ending ∧
      (rest.map Clause.kind).Sublist ClauseKind.selectRest ∧
      program.loops.length = q.joins.length + 1 ∧
      ((program.loops.map Loop.entity).Nodup ↔ q.loopNames.Nodup) := by
  obtain ⟨program, rest, hprogram, htext, hloops, hkinds, hlayout⟩ := compileWith_rows hshape h
  refine ⟨program, rest, hprogram, ?_, hkinds, ?_, ?_⟩
  · rw [htext, hlayout, hloops]
  · rw [hloops, loops, List.length_cons, List.length_map]
  · rw [hloops, entities_loops]
    unfold List.Nodup
    rw [List.pairwise_map]
    -- all variables have the same ending, so they differ as the names do
    have hdiffer (a b : String) : a ++ Collection.variableSuffix ≠ b ++ Collection.variableSuffix ↔
        a ≠ b := not_congr (String.append_left_inj Collection.variableSuffix)
    simp only [hdiffer]

theorem compileWith_variables_nodup_iff_visit :
    visitQuery.shape ≠ .insert ∧ visitQuery.loopNames.Nodup ∧
      ∃ statement program, visitQuery.compileWith .default none = .ok statement ∧
        Program.ofQuery visitQuery.normalize = .ok program ∧
        (program.loops.map Loop.entity).Nodup ∧ program.loops.length = 2 := by
  have hshape : visitQuery.shape ≠ .insert := by decide
  have hnames : visitQuery.loopNames.Nodup := by decide
  obtain ⟨statement, hstatement⟩ : ∃ statement,
      visitQuery.compileWith .default none = .ok statement := Outcome.exists_ok (by decide +kernel)
  obtain ⟨program, _, hprogram, _, _, hlength, hnodup⟩ :=
    compileWith_variables_nodup_iff hshape hstatement
  exact ⟨hshape, hnames, statement, program, hstatement, hprogram, hnodup.mpr hnames, hlength⟩

/-- A collection joined with itself, under another spelling of its name. -/
def selfJoin : Query :=
  (table "users").runLenient [.crossJoin "\x60users\x60"]

theorem selfJoin_repeats_variable :
    selfJoin.Built ∧ ∃ statement program, selfJoin.compile = .ok statement ∧
      Program.ofQuery selfJoin.normalize = .ok program ∧
      statement.text = "FOR users_entity IN \x60users\x60 FOR users_entity IN \x60users\x60 " ++
        "RETURN users_entity" ∧
      ¬(program.loops.map Loop.entity).Nodup := by
  refine ⟨⟨"users", _, by decide, rfl⟩, _, _, rfl, rfl, rfl, ?_⟩
  decide +kernel

end Query

end AqlQuery
