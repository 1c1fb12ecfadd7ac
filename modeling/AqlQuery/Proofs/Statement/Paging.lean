import AqlQuery.Proofs.Aql.Layout

/-!
# Pages

A page is a window on the rows of a statement: the rows before it are skipped, and of the others as
many are kept as a page holds. The number of rows to skip stops at the largest word. No list of rows
is longer than that, so a page past it is empty instead of showing rows for a second time, and the
pages put together are the rows from the first one on.
-/

namespace AqlQuery

variable {α β ε : Type}

/-! ## Windows without a limit -/

namespace Outcome

theorem ok_ne (a : α) (e : ε) : Except.ok a ≠ .error e := by
  intro h
  cases h

theorem bind_ne_error {x : Except ε α} {f : α → Except ε β} {e : ε} (hx : x ≠ .error e)
    (hf : ∀ a, x = .ok a → f a ≠ .error e) : (x >>= f) ≠ .error e := by
  cases x with
  | error e' =>
    intro h
    cases h
    exact hx rfl
  | ok a => exact hf a rfl

theorem mapError_resolve_ne (x : Except ResolveError α) (e : StructuralError) :
    x.mapError CompileError.resolve ≠ .error (.structural e) := by
  intro h
  cases x <;> cases h

end Outcome

namespace Aql

section Window

variable {q : Query} (hw : (q.offset.isSome && q.limit.isNone) = false)
include hw

/-- Only the window of a clause can lack its limit, and it has one. -/
theorem Frame.clause_ne (scope : Scope) (groups : List ResolvedColumn) (kind : ClauseKind) :
    clause ⟨q, scope, groups⟩ kind ≠ .error (.structural .offsetWithoutLimit) := by
  cases kind with
  | loop => exact Outcome.ok_ne _ _
  | joins => exact Outcome.ok_ne _ _
  | filter => exact Outcome.mapError_resolve_ne _ _
  | collect => exact Outcome.mapError_resolve_ne _ _
  | sort => exact Outcome.mapError_resolve_ne _ _
  | limit =>
    obtain ⟨c, hc⟩ := exists_limitClause hw scope groups
    rw [clause, hc]
    exact Outcome.ok_ne _ _
  | returning =>
    rw [clause]
    intro h
    cases ho : output ⟨q, scope, groups⟩ <;> rw [ho] at h <;> cases h

theorem Frame.clauses_ne (scope : Scope) (groups : List ResolvedColumn) (kinds : List ClauseKind) :
    clauses ⟨q, scope, groups⟩ kinds ≠ .error (.structural .offsetWithoutLimit) := by
  induction kinds with
  | nil => exact Outcome.ok_ne _ _
  | cons kind rest ih =>
    rw [clauses_cons]
    apply Outcome.bind_ne_error (clause_ne hw scope groups kind)
    intro c _
    exact Outcome.bind_ne_error ih fun cs _ => Outcome.ok_ne _ _

theorem Program.ofQuery_ne : ofQuery q ≠ .error (.structural .offsetWithoutLimit) := by
  unfold ofQuery
  cases q.mutation with
  | none =>
    show ofSelect q ≠ _
    rw [ofSelect_eq]
    apply Outcome.bind_ne_error (Outcome.mapError_resolve_ne _ _)
    intro groups _
    exact Outcome.bind_ne_error (Frame.clauses_ne hw _ groups _) fun rest _ => Outcome.ok_ne _ _
  | some m =>
    cases m with
    | insert records => exact Outcome.ok_ne _ _
    | update assignments =>
      show ofUpdate q assignments ≠ _
      rw [ofUpdate_eq]
      apply Outcome.bind_ne_error (Frame.clauses_ne hw _ [] _)
      intro rest _
      exact Outcome.bind_ne_error (Outcome.mapError_resolve_ne _ _) fun pairs _ => Outcome.ok_ne _ _
    | delete =>
      show ofDelete q ≠ _
      rw [ofDelete_eq]
      exact Outcome.bind_ne_error (Frame.clauses_ne hw _ [] _) fun rest _ => Outcome.ok_ne _ _

end Window

end Aql

namespace Query

section Window

variable {q : Query} (hw : (q.offset.isSome && q.limit.isNone) = false)
include hw

theorem check_ne : q.check ≠ .error .offsetWithoutLimit := by
  unfold check
  rw [hw]
  intro h
  split at h
  · cases h
  · cases ha : q.aggregate <;> cases hm : q.mutation <;> rw [ha, hm] at h <;> cases h

/-- Normalisation drops both parts of a window or none. -/
theorem window_normalize : (q.normalize.offset.isSome && q.normalize.limit.isNone) = false := by
  rcases q.insert_or_not with ⟨records, hm⟩ | hm
  · rw [normalize_of_insert hm]
    rfl
  · rw [normalize_of_not_insert hm]
    exact hw

/-- A pipeline hands on a query that has a limit for its offset, and does not miss one itself. -/
theorem run_window (pipeline : Pipeline) :
    pipeline.run q ≠ .error (.structural .offsetWithoutLimit) ∧
      ∀ p, pipeline.run q = .ok p → (p.offset.isSome && p.limit.isNone) = false := by
  induction pipeline generalizing q with
  | nil =>
    refine ⟨Outcome.ok_ne _ _, fun p h => ?_⟩
    cases h
    exact hw
  | cons stage rest ih =>
    cases stage with
    | normalize => exact ih (window_normalize hw)
    | validate =>
      rw [Pipeline.run, Stage.apply]
      have hcheck := check_ne hw
      cases hc : q.check with
      | ok u => exact ih hw
      | error e =>
        rw [hc] at hcheck
        refine ⟨fun h => hcheck ?_, fun p h => absurd h.symm (Outcome.ok_ne _ _)⟩
        cases h
        rfl

theorem compileWith_ne (pipeline : Pipeline) (expected : Option Shape) :
    q.compileWith pipeline expected ≠ .error (.structural .offsetWithoutLimit) := by
  have hshape : q.requireShape expected ≠ .error (.structural .offsetWithoutLimit) := by
    unfold requireShape
    split
    · exact Outcome.ok_ne _ _
    · intro h
      split at h <;> cases h
  obtain ⟨hrun, hkept⟩ := run_window hw pipeline
  refine Outcome.bind_ne_error hshape fun _ _ => Outcome.bind_ne_error hrun fun p hp => ?_
  exact Outcome.bind_ne_error (Aql.Program.ofQuery_ne (hkept p hp)) fun program _ => Outcome.ok_ne _ _

end Window

end Query

/-! ## Windows on rows -/

/-- The rows that a clause lets through: a limit skips rows and keeps some of those behind them. -/
def Aql.Clause.window : Clause → List α → List α
  | .limit offset count, rows => (rows.drop (offset.getD 0).toNat).take count.toNat
  | _, rows => rows

namespace Query

/-- The rows that the statement of a query shows of those that it goes over. -/
def window (q : Query) (rows : List α) : Except StructuralError (List α) :=
  (Aql.Frame.forMutation q).limitClause.map fun clause =>
    clause.elim rows fun c => c.window rows

/-- The numbers of the first pages. -/
def pageNumbers (count : Nat) : List UInt64 := (List.range count).map fun i => UInt64.ofNat (i + 1)

theorem toNat_rowsBefore (page perPage : UInt64) :
    (rowsBefore page perPage).toNat =
      min ((page.toNat - 1) * perPage.toNat) (UInt64.size - 1) := by
  apply UInt64.toNat_ofNat_of_lt'
  exact Nat.lt_of_le_of_lt (Nat.min_le_right _ _) (by decide)

theorem window_forPage (page perPage : UInt64) (q : Query) (rows : List α) :
    (q.forPage page perPage).window rows =
      .ok ((rows.drop (rowsBefore page perPage).toNat).take perPage.toNat) := rfl

section Rows

variable {rows : List α} (hrows : rows.length < UInt64.size)
include hrows

/-- A window goes on where the rows before it end, also where their number is cut. -/
theorem take_append_window (before count : Nat) :
    rows.take before ++ (rows.drop (min before (UInt64.size - 1))).take count =
      rows.take (before + count) := by
  by_cases hword : before ≤ UInt64.size - 1
  · rw [Nat.min_eq_left hword, List.take_add]
  · -- all rows have been taken, and none is left behind the largest word
    have hall : rows.length ≤ min before (UInt64.size - 1) := by omega
    have hbefore : rows.length ≤ before := by omega
    rw [List.drop_eq_nil_of_le hall, List.take_nil, List.append_nil, List.take_of_length_le hbefore,
      List.take_of_length_le (Nat.le_add_right_of_le hbefore)]

theorem flatten_pages (perPage : UInt64) {count : Nat} (hcount : count < UInt64.size) :
    ((pageNumbers count).map fun page =>
        (rows.drop (rowsBefore page perPage).toNat).take perPage.toNat).flatten =
      rows.take (count * perPage.toNat) := by
  induction count with
  | zero => simp [pageNumbers]
  | succ count ih =>
    have hpage : (UInt64.ofNat (count + 1)).toNat = count + 1 := UInt64.toNat_ofNat_of_lt' hcount
    have hbefore := ih (by omega)
    rw [pageNumbers, List.map_map] at hbefore ⊢
    rw [List.range_succ, List.map_append, List.flatten_append, hbefore, Nat.succ_mul,
      ← take_append_window hrows (count * perPage.toNat)]
    -- the page after them is the only one that is left
    congr 1
    simp only [List.map_cons, List.map_nil, List.flatten_cons, List.flatten_nil, List.append_nil,
      Function.comp_apply, toNat_rowsBefore, hpage, Nat.add_sub_cancel]

end Rows

theorem window_mem_clauses {q : Query} {page perPage : UInt64} {expected : Option Shape}
    {statement : Statement} (hshape : q.shape ≠ .insert)
    (h : (q.forPage page perPage).compileWith .default expected = .ok statement) :
    ∃ program, Aql.Program.ofQuery (q.forPage page perPage).normalize = .ok program ∧
      statement.text = program.text ∧
      Aql.Clause.limit (some (rowsBefore page perPage)) perPage ∈ program.clauses := by
  obtain ⟨program, hprogram, rfl⟩ := compileWith_ok h
  have hpage : (q.forPage page perPage).shape ≠ .insert := hshape
  have hnormal : (q.forPage page perPage).normalize.shape ≠ .insert := by rwa [shape_normalize]
  obtain ⟨groups, kinds, rest, hclauses, hrest, hkinds⟩ :=
    Aql.Program.clauses_of_ofQuery (not_insert_of_shape hnormal) hprogram
  obtain ⟨c, hc, hmem⟩ := Aql.Frame.mem_clauses hrest hkinds.mem_limit
  refine ⟨program, hprogram, rfl, ?_⟩
  rw [hclauses]
  apply List.mem_append_right
  apply hmem
  rw [normalize_of_not_insert (not_insert_of_shape hpage)] at hc
  cases hc
  rfl

/-- The windows of the first pages, one after the other, are the first rows. The page before the
first one is the first one, and a page always has a limit, which stands in its statement. -/
theorem forPage_tiles (q : Query) (perPage count : UInt64) {rows : List α}
    (hrows : rows.length < UInt64.size) :
    (∃ windows, ((pageNumbers count.toNat).mapM fun page =>
        (q.forPage page perPage).window rows) = .ok windows ∧
      windows.flatten = rows.take (count.toNat * perPage.toNat)) ∧
    (q.forPage 0 perPage).window rows = (q.forPage 1 perPage).window rows ∧
    ∀ page, (q.forPage page perPage).limit = some perPage ∧
      (∀ pipeline expected, (q.forPage page perPage).compileWith pipeline expected ≠
        .error (.structural .offsetWithoutLimit)) ∧
      let clause := Aql.Clause.limit (some (rowsBefore page perPage)) perPage
      (q.forPage page perPage).window rows = .ok (clause.window rows) ∧
        ∀ expected statement, q.shape ≠ .insert →
          (q.forPage page perPage).compileWith .default expected = .ok statement →
          ∃ program, Aql.Program.ofQuery (q.forPage page perPage).normalize = .ok program ∧
            statement.text = program.text ∧ clause ∈ program.clauses := by
  refine ⟨⟨_, List.mapM_pure, flatten_pages hrows perPage count.toNat_lt_size⟩, ?_, fun page =>
    ⟨rfl, compileWith_ne rfl, rfl, fun expected statement hshape h => window_mem_clauses hshape h⟩⟩
  -- nothing comes before either of the two pages
  rw [window_forPage, window_forPage, toNat_rowsBefore, toNat_rowsBefore]
  rfl

/-- Three rows in pages of half of all words, so that the last offset is cut. -/
theorem forPage_tiles_cut :
    ["a", "b", "c"].length < UInt64.size ∧
      ∃ windows, ((pageNumbers 3).mapM fun page =>
          ((table "users").forPage page 9223372036854775808).window ["a", "b", "c"]) =
            .ok windows ∧
        windows.flatten = ["a", "b", "c"] := by
  have hrows : ["a", "b", "c"].length < UInt64.size := by decide
  obtain ⟨⟨windows, hpages, hflatten⟩, _⟩ :=
    forPage_tiles (table "users") 9223372036854775808 3 hrows
  exact ⟨hrows, windows, hpages, hflatten⟩

end Query

end AqlQuery
