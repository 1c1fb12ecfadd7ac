import AqlQuery.Proofs.Binding.Density
import AqlQuery.Proofs.Binding.Renumbering
import AqlQuery.Proofs.Query.Aspects

/-!
# What normalisation may not change

A query in normal form is left alone, so it does not matter how often it is normalised. The form of
the statement never changes. Unless the statement inserts, its text or its error is that of the
query as it stood, since the order that is dropped would not be written. An insert keeps its keys,
its raw expressions and the order of its records, and its placeholders are numbered anew.
-/

namespace AqlQuery

/-! ## An order that is not written -/

namespace Aql

theorem Frame.clause_unordered {q : Query} (h : q.isScalarAggregate = true) (scope : Scope)
    (groups : List ResolvedColumn) (kind : ClauseKind) :
    Frame.clause ⟨{ q with ordering := [] }, scope, groups⟩ kind =
      Frame.clause ⟨q, scope, groups⟩ kind := by
  cases kind
  case sort =>
    -- a single value is written without an order, whichever it has
    have hsort : Frame.sortClause ⟨q, scope, groups⟩ = .ok none := by
      simp [Frame.sortClause, h]
    rw [Frame.clause, Frame.clause, hsort]
    rfl
  all_goals rfl

theorem Program.ofQuery_unordered {q : Query} (h : q.isScalarAggregate = true) :
    ofQuery { q with ordering := [] } = ofQuery q :=
  ofQuery_congr rfl rfl rfl rfl rfl fun scope groups =>
    Frame.clauses_congr (Frame.clause_unordered h scope groups)

end Aql

namespace Query

theorem shownProjection_of_ne {projection : Projection} (h : projection ≠ .columns []) :
    shownProjection projection = projection := by
  cases projection with
  | all => rfl
  | columns columns =>
    cases columns with
    | nil => exact absurd rfl h
    | cons column rest => rfl

theorem shownProjection_shownProjection (projection : Projection) :
    shownProjection (shownProjection projection) = shownProjection projection := by
  cases projection with
  | all => rfl
  | columns columns => cases columns <;> rfl

theorem ofQuery_normalize_of_not_insert {q : Query}
    (hm : ∀ records, q.mutation ≠ some (.insert records)) (hp : q.projection ≠ .columns []) :
    Aql.Program.ofQuery q.normalize = Aql.Program.ofQuery q := by
  rw [normalize_of_not_insert hm, shownProjection_of_ne hp]
  split
  next hscalar => exact Aql.Program.ofQuery_unordered hscalar
  next => rfl

theorem render_normalize {q : Query} (hm : ∀ records, q.mutation ≠ some (.insert records))
    (hp : q.projection ≠ .columns []) (expected : Option Shape) :
    q.normalize.render expected = q.render expected := by
  have hshape : q.normalize.requireShape expected = q.requireShape expected := by
    unfold requireShape
    rw [shape_normalize]
  rw [render, render, hshape, ofQuery_normalize_of_not_insert hm hp]

/-! ## Normal forms -/

theorem normalize_normalize (q : Query) : q.normalize.normalize = q.normalize := by
  rcases q.insert_or_not with ⟨records, hm⟩ | hm
  · have hnormal := normalize_of_insert hm
    have hagain : q.normalize.mutation =
        some (.insert (rebindRecords q.bindings .empty records).1) := by rw [hnormal]
    rw [normalize_of_insert hagain, hnormal]
    simp only [shownProjection_shownProjection, rebindRecords_rebindRecords]
  · have hnormal := normalize_of_not_insert hm
    have hagain : ∀ records, q.normalize.mutation ≠ some (.insert records) := by
      rw [hnormal]
      exact hm
    rw [normalize_of_not_insert hagain, hnormal]
    simp only [shownProjection_shownProjection]
    -- an order that was dropped once is not there to be dropped
    split <;> rfl

/-! ## Columns of built queries -/

end Query

/-- A step that does not load never ends with an empty list of columns. -/
theorem Step.projection_ne_of_apply (s : Step) {q r : Query} (hs : s.isLoadFree = true)
    (hq : q.projection ≠ .columns []) (h : s.apply q = .ok r) : r.projection ≠ .columns [] := by
  -- what is not about columns leaves them as they are
  have hkept {a : Aspect} (ha : s.aspect? = some a) (hne : .columns ≠ a) :
      r.projection ≠ .columns [] := by
    have hcolumns := congrArg Query.projection (Step.restrict_of_apply ha hne h)
    rw [show r.projection = q.projection from hcolumns]
    exact hq
  cases s
  case load => cases hs
  case table name =>
    cases h
    exact fun he => nomatch he
  case select columns =>
    cases h
    show (if columns = [] ∨ columns = [wholeDocument] then Projection.all else .columns columns) ≠ _
    split
    next => exact fun he => nomatch he
    next hne =>
      intro he
      exact hne (Or.inl (Projection.columns.inj he))
  case addSelect column =>
    cases h
    rw [Query.addSelect]
    cases q.projection <;> simp
  all_goals exact hkept rfl (by decide)

namespace Query

theorem Built.projection_ne {q : Query} (h : q.Built) : q.projection ≠ .columns [] := by
  obtain ⟨name, steps, hs, rfl⟩ := h
  exact runLenient_keeps (P := fun q => q.projection ≠ .columns [])
    (fun s hm _ _ hq h => s.projection_ne_of_apply (hs s hm) hq h) fun he => nomatch he

/-! ## All of it -/

/-- Normalisation changes no normal form and no form of a statement. Of a statement that does not
insert it changes neither text nor error nor bindings, and of an insert the placeholders only. -/
theorem normalize_preserves (q : Query) :
    q.normalize.normalize = q.normalize ∧ q.normalize.shape = q.shape ∧
      (q.Built → q.projection ≠ .columns []) ∧
      (q.shape ≠ .insert → q.projection ≠ .columns [] →
        q.normalize.bindings = q.bindings ∧
          ∀ expected, q.normalize.render expected = q.render expected) ∧
      ∀ records, q.mutation = some (.insert records) → ∃ rows,
        q.normalize.mutation = some (.insert rows) ∧
          Renumbered q.bindings records rows q.normalize.bindings ∧
          ((recordNames records).length < UInt32.size →
            recordNames rows = BindTable.firstNames (recordNames records).length ∧
              q.normalize.bindings.entries.entries =
                (BindTable.firstNames (recordNames records).length).zip
                  (recordData q.bindings records) ∧
              q.normalize.bindings.counter.toNat = (recordNames records).length) := by
  refine ⟨q.normalize_normalize, q.shape_normalize, Built.projection_ne, ?_, ?_⟩
  · intro hshape hp
    have hm : ∀ records, q.mutation ≠ some (.insert records) := fun records hr =>
      hshape (shape_eq_insert_iff.mpr ⟨records, hr⟩)
    refine ⟨?_, render_normalize hm hp⟩
    rw [normalize_of_not_insert hm]
  · intro records hm
    have hrenumbered := renumbered_rebindRecords q.bindings records
    rw [normalize_of_insert hm]
    exact ⟨_, rfl, hrenumbered, hrenumbered.first_names⟩

/-- An insert that was not built: its placeholders are out of order, one of them is used twice and
one has no binding. -/
def tangledInsert : Query where
  source := "users"
  predicates := [(.and, .compare "users.age" .gt (.bound "B1"))]
  ordering := [⟨"users.age", .desc⟩]
  mutation := some (.insert
    [.ofList [("name", .bound "B2"), ("at", .raw "DATE_NOW()"), ("age", .bound "B1")],
      .ofList [("age", .bound "B2"), ("name", .bound "x")]])
  bindings := ⟨7, .ofList [("B1", .number (.int 30)), ("B2", .string "y")]⟩

/-- A count that is put in order after it was asked for. -/
def orderedCount : Query :=
  (table "users").runLenient [.aggregate .count [], .orderBy "users.age" .asc]

theorem normalize_preserves_tangled :
    (∃ records rows, tangledInsert.mutation = some (.insert records) ∧
      (recordNames records).length < UInt32.size ∧
      tangledInsert.normalize.normalize = tangledInsert.normalize ∧
      tangledInsert.normalize.mutation = some (.insert rows) ∧
      recordNames rows = ["B1", "B2", "B3", "B4"] ∧
      tangledInsert.normalize.bindings.entries.entries =
        [("B1", .string "y"), ("B2", .number (.int 30)), ("B3", .string "y"), ("B4", .null)]) ∧
      orderedCount.Built ∧ orderedCount.shape ≠ .insert ∧
      orderedCount.normalize ≠ orderedCount ∧
      orderedCount.normalize.render none = orderedCount.render none := by
  constructor
  · obtain ⟨hagain, _, _, _, hinsert⟩ := normalize_preserves tangledInsert
    obtain ⟨rows, hrows, _, hfirst⟩ := hinsert _ rfl
    obtain ⟨hnames, hentries, _⟩ := hfirst (by decide)
    exact ⟨_, rows, rfl, by decide, hagain, hrows, hnames, hentries⟩
  · obtain ⟨_, _, hprojection, hkept, _⟩ := normalize_preserves orderedCount
    have hbuilt : orderedCount.Built := ⟨"users", _, by decide, rfl⟩
    have hshape : orderedCount.shape ≠ .insert := by decide
    have hordering : orderedCount.normalize.ordering ≠ orderedCount.ordering := by decide
    exact ⟨hbuilt, hshape, fun he => hordering (congrArg ordering he),
      (hkept hshape (hprojection hbuilt)).2 none⟩

end Query

end AqlQuery
