import AqlQuery.Proofs.Aql.Grouping
import AqlQuery.Proofs.Binding.Density
import AqlQuery.Proofs.Column.Wrapping
import AqlQuery.Proofs.Query.Aspects

/-!
# What an aggregate is applied to

Only a count may go without a column. When an aggregate is asked for, the list of its columns is
compared with the star alone; when it is written, the first column is read like any other, and a
star with a qualifier, a label or backticks is a star too. Such an aggregate is applied to the whole
documents of the source, even if another collection qualifies the star.
-/

namespace AqlQuery

/-! ## Columns that are the whole document -/

/-- Between its qualifier and its label, the column string is the star, in blanks and backticks. -/
def ColumnRef.IsStar (raw : String) : Prop := Collection.Wraps ['*'] (columnText raw)

theorem ColumnRef.isWhole_parse_iff (raw : String) : (parse raw).isWhole = true ↔ IsStar raw := by
  have hname : Collection.bareName (String.ofList (columnText raw)) = wholeDocument ↔
      Collection.Wraps ['*'] (String.ofList (columnText raw)).toList :=
    Collection.bareName_eq_iff (by decide) _
  rw [String.toList_ofList] at hname
  rw [isWhole, beq_iff_eq, parse_eq]
  exact hname

theorem Scope.column_eq_none_iff {s : Scope} {raw : String} {c : ResolvedColumn}
    (h : s.resolve raw = .ok c) : c.column = none ↔ ColumnRef.IsStar raw := by
  rw [← ColumnRef.isWhole_parse_iff]
  unfold resolve at h
  simp only at h
  split at h
  next => cases h
  next collection _ =>
    cases h
    cases (ColumnRef.parse raw).isWhole <;> simp

/-! ## Aggregates of built queries -/

/-- An aggregate has columns, and those of any other than a count are not the star alone. -/
def Query.AggregatesColumns (q : Query) : Prop :=
  ∀ a, q.aggregate = some a →
    a.columns ≠ [] ∧ (a.function ≠ .count → a.columns ≠ [wholeDocument])

theorem Query.aggregatesColumns_withAggregate {q r : Query} {function : AggregateFunction}
    {columns : List String} (h : q.withAggregate function columns = .ok r) :
    r.AggregatesColumns := by
  have hne : (if columns = [] then [wholeDocument] else columns) ≠ [] := by
    split
    · exact List.cons_ne_nil _ _
    · assumption
  simp only [withAggregate] at h
  generalize (if columns = [] then [wholeDocument] else columns) = target at h hne
  split at h
  next => cases h
  next hstar =>
    cases h
    intro a ha
    cases ha
    exact ⟨hne, fun hcount halone => hstar ⟨hcount, halone⟩⟩

theorem Step.aggregatesColumns_of_apply (s : Step) {q r : Query} (hs : s.isLoadFree = true)
    (hq : q.AggregatesColumns) (h : s.apply q = .ok r) : r.AggregatesColumns := by
  have hkept {a : Aspect} (ha : s.aspect? = some a) (hne : .arrangement ≠ a) :
      r.AggregatesColumns := by
    have haggregate := congrArg Query.aggregate (Step.restrict_of_apply ha hne h)
    rw [Query.AggregatesColumns, show r.aggregate = q.aggregate from haggregate]
    exact hq
  cases s
  case load => cases hs
  case table name =>
    cases h
    exact fun a ha => nomatch ha
  case aggregate => exact Query.aggregatesColumns_withAggregate h
  -- groups and ordering are arranged beside the aggregate
  case groupBy =>
    cases h
    exact hq
  case orderBy =>
    cases h
    exact hq
  all_goals exact hkept rfl (by decide)

theorem Query.Built.aggregatesColumns {q : Query} (h : q.Built) : q.AggregatesColumns := by
  obtain ⟨name, steps, hs, rfl⟩ := h
  exact runLenient_keeps (P := AggregatesColumns)
    (fun s hm _ _ hq h => s.aggregatesColumns_of_apply (hs s hm) hq h) fun a ha => nomatch ha

/-! ## The argument of an aggregate -/

namespace Aql

/-- What an aggregate of a column is applied to: whole documents of the source for a star, and
otherwise the attribute that the column resolves to. -/
structure IsArgument (s : Scope) (raw : String) (argument : Expr) : Prop where
  whole : ColumnRef.IsStar raw → argument = .document s.sourceVariable
  named : ¬ ColumnRef.IsStar raw → ∃ c x, s.resolve raw = .ok c ∧ c.column = some x ∧
    argument = .column c ∧ argument.text = c.entity ++ "." ++ quoteAttribute x

namespace Frame

variable {f : Frame} {a : Aggregate} {raw : String} {others : List String}

theorem isArgument_of_aggregateColumn (hcolumns : a.columns = raw :: others)
    {found : Option ResolvedColumn} (h : f.aggregateColumn a = .ok found) :
    IsArgument f.scope raw (found.elim f.sourceDocument .column) := by
  unfold aggregateColumn at h
  rw [hcolumns] at h
  obtain ⟨c, hc, h⟩ := Outcome.bind_ok h
  have hstar := Scope.column_eq_none_iff hc
  cases hx : c.column with
  | none =>
    rw [hx] at h
    cases h
    exact ⟨fun _ => rfl, fun hnot => absurd (hstar.mp hx) hnot⟩
  | some x =>
    rw [hx] at h
    cases h
    refine ⟨fun his => ?_, fun _ => ⟨c, x, hc, hx, rfl, ?_⟩⟩
    · cases hx.symm.trans (hstar.mpr his)
    · change c.expression = _
      rw [ResolvedColumn.expression, hx]

/-- Without groups, an aggregate is applied to what the rows return. -/
theorem isArgument_of_output (hg : f.isGrouped = false) (ha : f.query.aggregate = some a)
    (hcolumns : a.columns = raw :: others) {o : Output} (h : f.output = .ok o) :
    ∃ argument, o = .value argument ∧ IsArgument f.scope raw argument := by
  unfold output at h
  rw [hg, ha] at h
  obtain ⟨found, hfound, h⟩ := Outcome.bind_ok h
  have hargument := isArgument_of_aggregateColumn hcolumns hfound
  cases found with
  | none =>
    cases h
    exact ⟨_, rfl, hargument⟩
  | some c =>
    cases h
    exact ⟨_, rfl, hargument⟩

/-- With groups, it is applied when the rows are collected. -/
theorem isArgument_of_collectClause (hg : f.isGrouped = true) (ha : f.query.aggregate = some a)
    (hcount : a.function ≠ .count) (hcolumns : a.columns = raw :: others) {c : Option Clause}
    (h : f.collectClause = .ok c) :
    ∃ argument, c = some (.collect f.groups (some (a.function, argument))) ∧
      IsArgument f.scope raw argument := by
  unfold collectClause at h
  rw [if_pos hg, ha] at h
  obtain ⟨argument, hargument, h⟩ := Outcome.bind_ok h
  cases h
  refine ⟨argument, rfl, ?_⟩
  obtain ⟨found, hfound, h⟩ := Outcome.bind_ok hargument
  have his := isArgument_of_aggregateColumn hcolumns hfound
  cases found with
  | none =>
    rw [if_neg hcount] at h
    cases h
    exact his
  | some c =>
    cases h
    exact his

/-- The clauses behind the loops of a select, and the output last. -/
theorem selectRest_ok {rest : List Clause} (h : f.clauses ClauseKind.selectRest = .ok rest) :
    ∃ before collect after o, rest = before ++ collect.toList ++ (after ++ [.returning o]) ∧
      f.collectClause = .ok collect ∧ f.output = .ok o := by
  obtain ⟨filter, _, _, h₁, rfl⟩ := clauses_cons_ok h
  obtain ⟨collect, _, hcollect, h₂, rfl⟩ := clauses_cons_ok h₁
  obtain ⟨sort, _, _, h₃, rfl⟩ := clauses_cons_ok h₂
  obtain ⟨window, _, _, h₄, rfl⟩ := clauses_cons_ok h₃
  obtain ⟨returning, _, hreturning, h₅, rfl⟩ := clauses_cons_ok h₄
  cases h₅
  obtain ⟨o, ho, rfl⟩ := Outcome.map_ok hreturning
  refine ⟨filter.toList, collect, sort.toList ++ window.toList, o, ?_,
    Outcome.mapError_ok hcollect, Outcome.mapError_ok ho⟩
  simp

end Frame

end Aql

/-! ## Statements -/

namespace Query

open Aql

/-- The text of a statement applies a function to an argument. -/
structure Applies (q : Query) (function : AggregateFunction) (argument : Expr) (text : String) :
    Prop where
  /-- All rows are returned as the argument, and the function makes one value of them. -/
  scalar : q.groups = [] →
    ∃ rows, text = (Program.scalar function (rows ++ [.returning (.value argument)])).text
  grouped : q.groups ≠ [] → ∃ rows columns rest,
    text = clausesText (rows ++ .collect columns (some (function, argument)) :: rest)

theorem ofSelect_of_scalar {q : Query} {a : Aggregate} {program : Program} (hg : q.groups = [])
    (ha : q.aggregate = some a) (h : Program.ofSelect q = .ok program) :
    ∃ rest, Frame.clauses ⟨q, Scope.ofQuery q, []⟩ ClauseKind.selectRest = .ok rest ∧
      program = .scalar a.function (loopClauses q ++ rest) := by
  rw [Program.ofSelect_eq, hg] at h
  obtain ⟨columns, hcolumns, h⟩ := Outcome.bind_ok h
  cases hcolumns
  obtain ⟨rest, hrest, h⟩ := Outcome.bind_ok h
  cases h
  refine ⟨rest, hrest, ?_⟩
  unfold Program.returning
  rw [ha, hg]
  rfl

theorem ofSelect_applies {q : Query} {a : Aggregate} {raw : String} {others : List String}
    {program : Program} (ha : q.aggregate = some a) (hcount : a.function ≠ .count)
    (hcolumns : a.columns = raw :: others) (h : Program.ofSelect q = .ok program) :
    ∃ argument, q.Applies a.function argument program.text ∧
      IsArgument (Scope.ofQuery q) raw argument := by
  by_cases hg : q.groups = []
  · obtain ⟨rest, hrest, rfl⟩ := ofSelect_of_scalar hg ha h
    obtain ⟨before, collect, after, o, rfl, _, ho⟩ := Frame.selectRest_ok hrest
    obtain ⟨argument, rfl, hargument⟩ := Frame.isArgument_of_output rfl ha hcolumns ho
    refine ⟨argument, ⟨fun _ => ?_, fun hne => absurd hg hne⟩, hargument⟩
    refine ⟨loopClauses q ++ (before ++ collect.toList ++ after), ?_⟩
    simp only [List.append_assoc]
  · obtain ⟨columns, rest, _, hne, hrest, rfl⟩ := ofSelect_of_grouped h hg
    obtain ⟨before, collect, after, o, rfl, hcollect, _⟩ := Frame.selectRest_ok hrest
    have hgrouped : Frame.isGrouped ⟨q, Scope.ofQuery q, columns⟩ = true := by
      simpa [Frame.isGrouped] using hne
    obtain ⟨argument, rfl, hargument⟩ :=
      Frame.isArgument_of_collectClause hgrouped ha hcount hcolumns hcollect
    refine ⟨argument, ⟨fun hnone => absurd hnone hg, fun _ => ?_⟩, hargument⟩
    refine ⟨loopClauses q ++ before, columns, after ++ [.returning o], ?_⟩
    simp only [Program.text, Option.toList_some, List.append_assoc, List.singleton_append]

theorem mutation_eq_none_of_check {q : Query} {a : Aggregate} (ha : q.aggregate = some a)
    (h : q.check = .ok ()) : q.mutation = none := by
  apply Classical.byContradiction
  intro hm
  cases ha.symm.trans ((of_check_ok h).2 hm)

/-- An aggregate other than a count has a first column and is applied to what that stands for. Its
columns are never the star alone; where the first one is a star in another spelling, whole documents
of the source are aggregated, and an attribute in every other case. -/
theorem aggregate_applies {q : Query} {a : Aggregate} {expected : Option Shape}
    {statement : Statement} (hbuilt : q.Built) (ha : q.aggregate = some a)
    (hcount : a.function ≠ .count) (h : q.compileWith .default expected = .ok statement) :
    ∃ raw others argument, a.columns = raw :: others ∧ a.columns ≠ [wholeDocument] ∧
      q.Applies a.function argument statement.text ∧ IsArgument (Scope.ofQuery q) raw argument := by
  obtain ⟨hne, halone⟩ := hbuilt.aggregatesColumns a ha
  obtain ⟨raw, others, hcolumns⟩ := List.exists_cons_of_ne_nil hne
  have hm := mutation_eq_none_of_check ha (check_of_compileWith h)
  have hnormal := @normalize_of_not_insert q fun _ he => nomatch hm.symm.trans he
  obtain ⟨program, hprogram, rfl⟩ := compileWith_ok h
  -- normalisation changes the ordering and the projection only, and neither is read here
  have hselect : Program.ofSelect q.normalize = .ok program := by
    unfold Program.ofQuery at hprogram
    rwa [show q.normalize.mutation = none by rw [hnormal]; exact hm] at hprogram
  have haggregate : q.normalize.aggregate = some a := by rw [hnormal]; exact ha
  obtain ⟨argument, happlies, hargument⟩ := ofSelect_applies haggregate hcount hcolumns hselect
  rw [hnormal] at happlies hargument
  exact ⟨raw, others, argument, hcolumns, halone hcount, ⟨happlies.scalar, happlies.grouped⟩,
    hargument⟩

/-- The average of a joined attribute by groups, with a star behind it. -/
def averagedQuery : Query :=
  (table "users").runLenient
    [.join "orders" "orders.user" .eq "users._key", .groupBy ["users.town"],
      .aggregate .avg ["orders.\x60 total\x60 AS t", "*"]]

theorem aggregate_applies_averaged :
    averagedQuery.Built ∧
      averagedQuery.aggregate = some ⟨.avg, ["orders.\x60 total\x60 AS t", "*"]⟩ ∧
      AggregateFunction.avg ≠ .count ∧
      ∃ statement, averagedQuery.compileWith .default none = .ok statement ∧
        ∃ argument, averagedQuery.Applies .avg argument statement.text ∧
          argument.text = "orders_entity.\x60total\x60" := by
  have hbuilt : averagedQuery.Built := ⟨"users", _, by decide, rfl⟩
  have ha : averagedQuery.aggregate = some ⟨.avg, ["orders.\x60 total\x60 AS t", "*"]⟩ := rfl
  have hcount : AggregateFunction.avg ≠ .count := by decide
  obtain ⟨statement, h⟩ : ∃ statement, averagedQuery.compileWith .default none = .ok statement :=
    Outcome.exists_ok (by decide +kernel)
  obtain ⟨raw, others, argument, hcolumns, _, happlies, hargument⟩ :=
    aggregate_applies hbuilt ha hcount h
  refine ⟨hbuilt, ha, hcount, statement, h, argument, happlies, ?_⟩
  obtain ⟨rfl, _⟩ := List.cons.inj hcolumns
  have hstar : ¬ ColumnRef.IsStar "orders.\x60 total\x60 AS t" := by
    rw [← ColumnRef.isWhole_parse_iff]
    decide +kernel
  obtain ⟨c, x, hc, hx, _, htext⟩ := hargument.named hstar
  have hresolve : (Scope.ofQuery averagedQuery).resolve "orders.\x60 total\x60 AS t" =
      .ok ⟨"orders", "orders_entity", some "total", some "t"⟩ :=
    Outcome.ok_of_toOption (by decide +kernel)
  cases hc.symm.trans hresolve
  cases hx
  exact htext

/-- The star alone is refused, and a star with a qualifier is not. -/
theorem qualified_star_is_aggregated :
    (table "users").run [.aggregate .sum ["*"]] = .error (.aggregateWithoutColumn .sum) ∧
      ∃ q statement, (table "users").run [.aggregate .sum ["users.*"]] = .ok q ∧
        q.compile = .ok statement ∧
        statement.text = "RETURN \x7b\"aggregate\": SUM(" ++
          "FOR users_entity IN \x60users\x60 RETURN users_entity)\x7d" := by
  refine ⟨rfl, _, ⟨_, .empty, .select⟩, rfl, Outcome.ok_of_toOption ?_, rfl⟩
  decide +kernel

end Query

end AqlQuery
