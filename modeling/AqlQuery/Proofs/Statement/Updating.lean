import AqlQuery.Proofs.Aql.Layout
import AqlQuery.Proofs.Column.Addressing

/-!
# What an update writes

A column is resolved for writing by a rule of its own: it belongs to the source, with a qualifier or
without. Where it can be read as well, the same attribute is meant. So an update names the
attributes of its source by the columns of its assignments, and an adjustment reads the attribute
that it writes.
-/

namespace AqlQuery

namespace Scope

/-! ## Columns for reading and for writing -/

namespace Targets

variable {s : Scope} {raw : String} {outcome : Except ResolveError ResolvedColumn}

theorem ok_iff (h : s.Targets raw outcome) :
    (∃ c, outcome = .ok c) ↔ (ColumnRef.parse raw).column ≠ wholeDocument ∧
      ∀ qualifier ∈ (ColumnRef.parse raw).qualifier, s.Addresses qualifier s.source := by
  cases h with
  | whole hcolumn => exact ⟨fun ⟨_, he⟩ => (nomatch he), fun hok => absurd hcolumn hok.1⟩
  | bare hcolumn hq =>
    refine ⟨fun _ => ⟨hcolumn, fun qualifier hm => ?_⟩, fun _ => ⟨_, rfl⟩⟩
    rw [hq] at hm
    cases hm
  | source hcolumn hq ha =>
    refine ⟨fun _ => ⟨hcolumn, fun qualifier hm => ?_⟩, fun _ => ⟨_, rfl⟩⟩
    rw [hq] at hm
    cases hm
    exact ha
  | joined hcolumn hq ha hne =>
    refine ⟨fun ⟨_, he⟩ => (nomatch he), fun hok => ?_⟩
    exact absurd (ha.unique (hok.2 _ hq)) hne
  | unknown hcolumn hq hn =>
    refine ⟨fun ⟨_, he⟩ => (nomatch he), fun hok => ?_⟩
    exact absurd (addresses_source_iff.mp (hok.2 _ hq)) (hn s.source List.mem_cons_self)

theorem eq_of_ok {c : ResolvedColumn} (h : s.Targets raw (.ok c)) :
    c = s.sourceColumn (ColumnRef.parse raw).column := by
  cases h <;> rfl

theorem unknown_iff (h : s.Targets raw outcome) (column qualifier : String) :
    outcome = .error (.unknownEntity column qualifier) ↔
      column = raw ∧ (ColumnRef.parse raw).column ≠ wholeDocument ∧
        (ColumnRef.parse raw).qualifier = some qualifier ∧
        ∀ collection ∈ s.collections, ¬ Refers qualifier collection := by
  cases h with
  | whole hcolumn => exact ⟨fun he => (nomatch he), fun hn => absurd hcolumn hn.2.1⟩
  | bare hcolumn hq =>
    refine ⟨fun he => (nomatch he), fun hn => ?_⟩
    cases hq.symm.trans hn.2.2.1
  | source hcolumn hq ha =>
    refine ⟨fun he => (nomatch he), fun hn => ?_⟩
    cases hq.symm.trans hn.2.2.1
    exact absurd (addresses_source_iff.mp ha) (hn.2.2.2 s.source List.mem_cons_self)
  | joined hcolumn hq ha hne =>
    refine ⟨fun he => (nomatch he), fun hn => ?_⟩
    cases hq.symm.trans hn.2.2.1
    obtain ⟨front, back, hcut, hrefers, _⟩ := ha
    exact absurd hrefers (hn.2.2.2 _ (by rw [hcut]; simp))
  | unknown hcolumn hq hn =>
    constructor
    · intro he
      cases he
      exact ⟨rfl, hcolumn, hq, hn⟩
    · rintro ⟨rfl, _, hsame, _⟩
      cases hq.symm.trans hsame
      rfl

theorem error_cases {e : ResolveError} (h : s.Targets raw (.error e)) :
    e = .notWritable raw s.source ∨ ∃ qualifier, e = .unknownEntity raw qualifier := by
  cases h with
  | whole => exact Or.inl rfl
  | joined => exact Or.inl rfl
  | unknown => exact Or.inr ⟨_, rfl⟩

/-- What can be read as well is the same attribute. -/
theorem agrees {c read : ResolvedColumn} (h : s.Targets raw (.ok c))
    (hread : s.resolve raw = .ok read) : c = { read with label := none } := by
  cases h with
  | bare hcolumn hq =>
    simp only [resolve, collectionOf, hq, isWhole_eq_false hcolumn] at hread
    -- without a qualifier only a scope without joins lets it be read
    split at hread
    next => cases hread
    next collection hcollection =>
      split at hcollection
      · cases hcollection
      · cases hcollection
        cases hread
        rfl
  | source hcolumn hq ha =>
    rw [resolve_of_addresses hq ha, isWhole_eq_false hcolumn] at hread
    cases hread
    rfl

end Targets

/-- How the resolution of a column string for writing comes out, and what it shares with that for
reading. -/
structure WritesSource (s : Scope) (raw : String) : Prop where
  /-- It succeeds for an attribute without a qualifier, or with one that means the source. -/
  ok_iff : (∃ c, s.resolveTarget raw = .ok c) ↔
    (ColumnRef.parse raw).column ≠ wholeDocument ∧
      ∀ qualifier ∈ (ColumnRef.parse raw).qualifier, s.Addresses qualifier s.source
  /-- The result is the attribute of the source under the name of the column. -/
  eq_of_ok : ∀ c, s.resolveTarget raw = .ok c →
    c = ⟨s.source, Collection.variableName s.source, some (ColumnRef.parse raw).column, none⟩
  /-- A qualifier of an attribute that means no collection is reported. -/
  unknown_iff : ∀ column qualifier, s.resolveTarget raw = .error (.unknownEntity column qualifier) ↔
    column = raw ∧ (ColumnRef.parse raw).column ≠ wholeDocument ∧
      (ColumnRef.parse raw).qualifier = some qualifier ∧
      ∀ collection ∈ s.collections, ¬ Refers qualifier collection
  /-- In every other case the column is one that cannot be written. -/
  error_cases : ∀ e, s.resolveTarget raw = .error e →
    e = .notWritable raw s.source ∨ ∃ qualifier, e = .unknownEntity raw qualifier
  /-- Reading means the same attribute, up to the label. -/
  agrees : ∀ c read, s.resolveTarget raw = .ok c → s.resolve raw = .ok read →
    c = { read with label := none }

theorem writesSource (s : Scope) (raw : String) : s.WritesSource raw where
  ok_iff := (targets_resolveTarget s raw).ok_iff
  eq_of_ok _ hc := (hc ▸ targets_resolveTarget s raw).eq_of_ok
  unknown_iff := (targets_resolveTarget s raw).unknown_iff
  error_cases _ he := (he ▸ targets_resolveTarget s raw).error_cases
  agrees _ _ hc hread := (hc ▸ targets_resolveTarget s raw).agrees hread

end Scope

/-! ## Assignments -/

namespace Assignment

/-- The attribute that an assignment writes. -/
def attributeName (a : Assignment) : String := (ColumnRef.parse a.column).column

/-- The value that an assignment gives to its attribute: an operand, or what the attribute has in
the document behind a loop variable, adjusted. -/
def valueText (entity : String) : Assignment → String
  | .set _ value => value.text
  | .adjust column op amount =>
    entity ++ "." ++ quoteAttribute (ColumnRef.parse column).column ++ " " ++ op.keyword ++ " " ++
      amount.text

end Assignment

namespace Aql.Program

theorem assignmentPair_ok {s : Scope} {a : Assignment} {pair : String × Expr}
    (h : assignmentPair s a = .ok pair) :
    s.resolveTarget a.column = .ok (s.sourceColumn a.attributeName) ∧
      (pair.1, pair.2.text) = (a.attributeName, a.valueText s.sourceVariable) := by
  obtain ⟨target, htarget, h⟩ := Outcome.bind_ok h
  have htargets := s.targets_resolveTarget a.column
  rw [htarget] at htargets
  have hcolumn : target = s.sourceColumn a.attributeName := htargets.eq_of_ok
  -- the key is the name of the column, since a target has no label
  have hkey : target.outputKey = a.attributeName := by
    rw [hcolumn]
    rfl
  have htext : target.expression = s.sourceVariable ++ "." ++ quoteAttribute a.attributeName := by
    rw [hcolumn]
    rfl
  refine ⟨htarget.trans (by rw [hcolumn]), ?_⟩
  cases a with
  | set column value =>
    cases h
    rw [hkey]
    rfl
  | adjust column op amount =>
    cases h
    rw [hkey, Expr.text, htext]
    rfl

/-- The pairs come in the order of the assignments, each with the text of its own. -/
theorem assignmentPairs_ok {s : Scope} {assignments : List Assignment}
    {pairs : List (String × Expr)} (h : assignments.mapM (assignmentPair s) = .ok pairs) :
    (∀ a ∈ assignments, s.resolveTarget a.column = .ok (s.sourceColumn a.attributeName)) ∧
      (pairs.map fun (key, e) => (key, e.text)) =
        assignments.map fun a => (a.attributeName, a.valueText s.sourceVariable) := by
  constructor
  · intro a ha
    obtain ⟨pair, _, hpair⟩ := Outcome.exists_of_mem_mapM h ha
    exact (assignmentPair_ok hpair).1
  · exact Outcome.map_mapM_ok (fun a _ pair hpair => (assignmentPair_ok hpair).2) h

end Aql.Program

/-! ## Statements -/

namespace Pipeline

theorem apply_of_not_insert {stage : Stage} {q p : Query}
    (hm : ∀ records, q.mutation ≠ some (.insert records)) (h : stage.apply q = .ok p) :
    p.mutation = q.mutation ∧ Scope.ofQuery p = Scope.ofQuery q := by
  cases stage with
  | validate =>
    rw [Stage.apply] at h
    split at h
    · cases h
      exact ⟨rfl, rfl⟩
    · cases h
  | normalize =>
    cases h
    rw [Query.normalize_of_not_insert hm]
    exact ⟨rfl, rfl⟩

/-- Whatever its stages are, a pipeline leaves the mutation and the collections of a statement over
rows alone. -/
theorem run_of_not_insert {pipeline : Pipeline} {q p : Query}
    (hm : ∀ records, q.mutation ≠ some (.insert records)) (h : pipeline.run q = .ok p) :
    p.mutation = q.mutation ∧ Scope.ofQuery p = Scope.ofQuery q := by
  induction pipeline generalizing q with
  | nil =>
    cases h
    exact ⟨rfl, rfl⟩
  | cons stage rest ih =>
    rw [run] at h
    split at h
    next => cases h
    next next hnext =>
      obtain ⟨hmutation, hscope⟩ := apply_of_not_insert hm hnext
      have hrest := ih (by rwa [hmutation]) h
      exact ⟨hrest.1.trans hmutation, hrest.2.trans hscope⟩

end Pipeline

namespace Query

open Aql

/-- For writing, a column is an attribute of the source, and where it can be read the two agree. An
update that compiles gives values to the attributes that its columns name, in their order, and an
adjustment starts from the attribute under the same name in the document of the source. -/
theorem update_writes_source :
    (∀ (s : Scope) (raw : String), s.WritesSource raw) ∧
      ∀ (q : Query) (assignments : List Assignment) (pipeline : Pipeline)
        (expected : Option Shape) (statement : Statement),
        q.mutation = some (.update assignments) →
        q.compileWith pipeline expected = .ok statement →
        (∀ a ∈ assignments, (Scope.ofQuery q).resolveTarget a.column =
          .ok ((Scope.ofQuery q).sourceColumn a.attributeName)) ∧
        ∃ clauses, statement.text = clausesText clauses ++ " UPDATE " ++
          (Scope.ofQuery q).sourceVariable ++ " WITH " ++
          objectText (assignments.map fun a =>
            (a.attributeName, a.valueText (Scope.ofQuery q).sourceVariable)) ++
          " IN " ++ Collection.quoted (Scope.ofQuery q).source := by
  refine ⟨Scope.writesSource, ?_⟩
  intro q assignments pipeline expected statement hm h
  have hrows : ∀ records, q.mutation ≠ some (.insert records) := by
    intro records he
    cases hm.symm.trans he
  obtain ⟨_, _, h⟩ := Outcome.bind_ok h
  obtain ⟨prepared, hrun, h⟩ := Outcome.bind_ok h
  obtain ⟨program, hprogram, h⟩ := Outcome.bind_ok h
  cases h
  obtain ⟨hmutation, hscope⟩ := Pipeline.run_of_not_insert hrows hrun
  rw [Program.ofQuery, hmutation, hm] at hprogram
  simp only [Program.ofUpdate_eq, hscope] at hprogram
  obtain ⟨rest, _, hprogram⟩ := Outcome.bind_ok hprogram
  obtain ⟨pairs, hpairs, hprogram⟩ := Outcome.bind_ok hprogram
  cases hprogram
  obtain ⟨htargets, htexts⟩ := Program.assignmentPairs_ok (Outcome.mapError_ok hpairs)
  refine ⟨htargets, loopClauses prepared ++ rest, ?_⟩
  rw [← htexts]
  rfl

/-- Visits of users with orders: the column goes by the loop variable and has a label, and another
one has no qualifier in spite of the join. -/
def visitUpdate : Query :=
  (table "users").runLenient
    [.join "orders" "orders.user" .eq "users._key",
      .adjust .subtract " users_entity.\x60visits\x60 as v" (.number (.int 2))
        [("seen", .value (.bool true))]]

/-- The assignments of this query. -/
def visitAssignments : List Assignment :=
  [.adjust " users_entity.\x60visits\x60 as v" .subtract (.int 2), .set "seen" (.bound "B1")]

theorem update_writes_source_visits :
    ∃ statement clauses, visitUpdate.mutation = some (.update visitAssignments) ∧
      visitUpdate.compileWith .default (some .update) = .ok statement ∧
      statement.text = clausesText clauses ++ " UPDATE users_entity WITH " ++
        "\x7b\"visits\": users_entity.\x60visits\x60 - 2, \"seen\": @B1\x7d IN \x60users\x60" := by
  have hm : visitUpdate.mutation = some (.update visitAssignments) := by decide +kernel
  obtain ⟨statement, hstatement⟩ : ∃ statement,
      visitUpdate.compileWith .default (some .update) = .ok statement :=
    Outcome.exists_ok (by decide +kernel)
  obtain ⟨_, clauses, htext⟩ := update_writes_source.2 _ _ _ _ statement hm hstatement
  have hentity : (Scope.ofQuery visitUpdate).sourceVariable = "users_entity" := by decide +kernel
  have hsource : Collection.quoted (Scope.ofQuery visitUpdate).source = "\x60users\x60" := by
    decide +kernel
  have hpairs : objectText (visitAssignments.map fun a =>
      (a.attributeName, a.valueText "users_entity")) =
        "\x7b\"visits\": users_entity.\x60visits\x60 - 2, \"seen\": @B1\x7d" := by
    decide +kernel
  refine ⟨statement, clauses, hm, hstatement, ?_⟩
  rw [htext, hentity, hsource, hpairs]
  simp only [String.append_assoc]
  rfl

end Query

end AqlQuery
