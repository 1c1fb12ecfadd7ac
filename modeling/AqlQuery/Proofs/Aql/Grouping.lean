import Mathlib.Data.List.Forall2
import AqlQuery.Proofs.Aql.Layout
import AqlQuery.Proofs.Statement.Failure
import AqlQuery.Proofs.Text.References

/-!
# Behind the grouping of rows

Once rows are collected into groups, the loop variables are gone. An ordering or a returned object
reads the variables `group_1`, `group_2`, … that were assigned there, and a column stands for the
first of them that holds the same expression. A column that no group holds cannot be read at all.
-/

namespace AqlQuery

/-- Results that belong to the inputs in the same places. -/
theorem Outcome.forall₂_mapM_ok {ε α β : Type} {f : α → Except ε β} {xs : List α} {ys : List β}
    (h : xs.mapM f = .ok ys) : List.Forall₂ (fun x y => f x = .ok y) xs ys := by
  induction xs generalizing ys with
  | nil =>
    cases h
    exact .nil
  | cons x rest ih =>
    obtain ⟨y, zs, hx, hrest, rfl⟩ := mapM_cons_ok h
    exact .cons hx (ih hrest)

theorem Outcome.exists_of_mem_forall₂ {α β : Type} {R : α → β → Prop} {xs : List α} {ys : List β}
    (h : List.Forall₂ R xs ys) {y : β} (hy : y ∈ ys) : ∃ x, R x y := by
  induction h with
  | nil => cases hy
  | cons hxy _ ih =>
    rcases List.mem_cons.mp hy with rfl | hm
    · exact ⟨_, hxy⟩
    · exact ih hm

namespace Query

/-! ## Groups and the columns that read them -/

/-- How a column of the query is written, if the column resolves. -/
def written? (q : Query) (column : String) : Option String :=
  ((Scope.ofQuery q).resolve column).toOption.map ResolvedColumn.written

theorem expression?_eq (q : Query) (column : String) :
    q.expression? column = q.written? column := by
  rw [expression?, written?, funext ResolvedColumn.expression_eq]

theorem written?_of_resolve {q : Query} {column : String} {c : ResolvedColumn}
    (h : (Scope.ofQuery q).resolve column = .ok c) : q.written? column = some c.written := by
  rw [written?, h]
  rfl

/-- The expression of the group at a position, counted from zero. -/
def groupExpression? (q : Query) (k : Nat) : Option String :=
  q.groups[k]?.bind q.written?

/-- The column resolves and reads what the group at position `k` reads; no group before it does. -/
structure ReadsGroup (q : Query) (column : String) (k : Nat) : Prop where
  resolves : (q.written? column).isSome = true
  same : q.groupExpression? k = q.written? column
  first : ∀ j < k, q.groupExpression? j ≠ q.written? column

theorem ReadsGroup.lt_length {q : Query} {column : String} {k : Nat} (h : q.ReadsGroup column k) :
    k < q.groups.length := by
  have hsome := h.resolves
  rw [← h.same, groupExpression?] at hsome
  by_cases hk : k < q.groups.length
  · exact hk
  · rw [List.getElem?_eq_none (Nat.le_of_not_lt hk)] at hsome
    cases hsome

section Resolved

variable {q : Query} {columns : List ResolvedColumn}
  (hcolumns : q.groups.mapM (Scope.ofQuery q).resolve = .ok columns)
include hcolumns

theorem groupExpression?_eq (k : Nat) :
    q.groupExpression? k = columns[k]?.map ResolvedColumn.written := by
  have hmap : columns.map (fun c => some c.written) = q.groups.map q.written? :=
    Outcome.map_mapM_ok (fun raw _ c hc => (written?_of_resolve hc).symm) hcolumns
  -- both sides are the entry of one list at `k`
  have hentry := congrArg (fun entries => entries[k]?.bind id) hmap
  simp only [List.getElem?_map] at hentry
  rw [groupExpression?]
  cases hg : q.groups[k]? <;> cases hc : columns[k]? <;> simp_all

theorem readsGroup_of_findIdx? {raw : String} {c : ResolvedColumn} {k : Nat}
    (hc : (Scope.ofQuery q).resolve raw = .ok c)
    (hk : columns.findIdx? (fun g => g.expression == c.expression) = some k) :
    q.ReadsGroup raw k := by
  obtain ⟨hlt, hsame, hfirst⟩ := List.findIdx?_eq_some_iff_getElem.mp hk
  have hraw := written?_of_resolve hc
  simp only [ResolvedColumn.expression_eq] at hsame hfirst
  refine ⟨?_, ?_, fun j hj => ?_⟩
  · rw [hraw]
    rfl
  · rw [groupExpression?_eq hcolumns, hraw, List.getElem?_eq_getElem hlt, Option.map_some,
      beq_iff_eq.mp hsame]
  · have hjlt : j < columns.length := Nat.lt_trans hj hlt
    have hne := hfirst j hj
    rw [groupExpression?_eq hcolumns, hraw, List.getElem?_eq_getElem hjlt, Option.map_some]
    -- a group before with the same expression would have been found first
    intro he
    exact hne (beq_iff_eq.mpr (Option.some.inj he))

end Resolved

end Query

namespace Aql

/-! ## Texts -/

theorem Frame.groupPairs_eq (index : Nat) (columns : List ResolvedColumn) :
    groupPairs index columns =
      (columns.zipIdx index).map fun entry => (entry.1.outputKey, .group entry.2) := by
  induction columns generalizing index with
  | nil => rfl
  | cons c rest ih => rw [groupPairs, ih, List.zipIdx_cons, List.map_cons]

/-- All loop variables end in a letter that the variables of groups and of an aggregate do not
have. -/
theorem ne_loopVariable {e : String} (h : 'y' ∉ e.toList) (name : String) :
    e ≠ name ++ "_entity" := by
  rintro rfl
  apply h
  rw [String.toList_append]
  exact List.mem_append_right _ (by decide)

theorem notMem_groupVariable (index : Nat) : 'y' ∉ ("group_" ++ Text.decimal index).toList := by
  intro hmem
  rw [String.toList_append] at hmem
  rcases List.mem_append.mp hmem with hm | hm
  · exact absurd hm (by decide)
  · rw [Text.decimal, String.toList_ofList] at hm
    exact absurd (Text.isDigit_of_mem_decimal hm) (by decide)

theorem followingText_append (first rest : List Clause) :
    followingText (first ++ rest) = followingText first ++ followingText rest := by
  rw [followingText, List.map_append, String.join_append]
  rfl

theorem followingText_singleton (c : Clause) : followingText [c] = " " ++ c.written := by
  rw [followingText_cons, c.text_eq, followingText, List.map_nil, String.join_nil,
    String.append_empty]

/-! ## Clauses of a frame that groups -/

namespace Frame

variable {f : Frame} (hg : f.isGrouped = true)
include hg

theorem read_grouped {raw : String} {c : ResolvedColumn} {e : Expr}
    (h : f.read raw = .ok (c, e)) :
    f.scope.resolve raw = .ok c ∧ ∃ k,
      f.groups.findIdx? (fun g => g.expression == c.expression) = some k ∧ e = .group (k + 1) := by
  obtain ⟨found, hfound, h⟩ := Outcome.bind_ok h
  rw [if_pos hg] at h
  split at h
  next index hindex =>
    cases h
    obtain ⟨k, hk, rfl⟩ := Option.map_eq_some_iff.mp hindex
    exact ⟨hfound, k, hk, rfl⟩
  next => cases h

theorem collectClause_grouped {c : Option Clause} (h : f.collectClause = .ok c) :
    ∃ aggregate, c = some (.collect f.groups aggregate) ∧
      aggregate.map Prod.fst = f.query.aggregate.map Aggregate.function := by
  rw [collectClause, if_pos hg] at h
  split at h
  next hnone =>
    cases h
    exact ⟨none, rfl, by rw [hnone]; rfl⟩
  next a ha =>
    obtain ⟨argument, _, h⟩ := Outcome.bind_ok h
    cases h
    exact ⟨some (a.function, argument), rfl, by rw [ha]; rfl⟩

omit hg in
/-- The ordering of anything but a single value. -/
theorem sortClause_ok (hscalar : f.query.isScalarAggregate = false) {c : Option Clause}
    (h : f.sortClause = .ok c) :
    ∃ items, c.toList = (if items = [] then [] else [.sort items]) ∧
      List.Forall₂ (fun (order : OrderBy) item => item.2 = order.direction ∧
        ∃ c, f.read order.column = .ok (c, item.1)) f.query.ordering items := by
  rw [sortClause, hscalar, Bool.or_false] at h
  split at h
  next hempty =>
    cases h
    rw [List.isEmpty_iff.mp hempty]
    exact ⟨[], rfl, .nil⟩
  next hne =>
    obtain ⟨items, hitems, h⟩ := Outcome.bind_ok h
    cases h
    have hall := Outcome.forall₂_mapM_ok hitems
    have hitemsne : items ≠ [] := by
      rintro rfl
      exact hne (by rw [List.length_eq_zero_iff.mp hall.length_eq]; rfl)
    refine ⟨items, by rw [if_neg hitemsne]; rfl, hall.imp fun order item hitem => ?_⟩
    obtain ⟨⟨c, e⟩, hread, hitem⟩ := Outcome.bind_ok hitem
    cases hitem
    exact ⟨rfl, c, hread⟩

omit hg in
theorem outputPairs_ok {columns : List String} {pairs : List (String × Expr)}
    (h : f.outputPairs columns = .ok pairs) :
    List.Forall₂ (fun column pair => ∃ c, f.read column = .ok (c, pair.2) ∧ pair.1 = c.outputKey)
      columns pairs := by
  refine (Outcome.forall₂_mapM_ok h).imp fun column pair hpair => ?_
  obtain ⟨⟨c, e⟩, hread, hpair⟩ := Outcome.bind_ok hpair
  cases hpair
  exact ⟨c, hread, rfl⟩

theorem output_grouped {o : Output} (h : f.output = .ok o) :
    ∃ values, o = .object (values ++ aggregatePair f.query) ∧
      (f.query.projection = .all → values = groupPairs 1 f.groups) ∧
      ∀ columns, f.query.projection = .columns columns →
        List.Forall₂ (fun column pair =>
          ∃ c, f.read column = .ok (c, pair.2) ∧ pair.1 = c.outputKey) columns values := by
  rw [output, if_pos hg] at h
  cases hp : f.query.projection with
  | all =>
    rw [hp] at h
    cases h
    exact ⟨_, rfl, fun _ => rfl, fun columns hc => nomatch hc⟩
  | columns columns =>
    rw [hp] at h
    obtain ⟨pairs, hpairs, h⟩ := Outcome.bind_ok h
    cases h
    refine ⟨pairs, rfl, fun hall => (nomatch hall), fun columns' hc => ?_⟩
    cases hc
    exact outputPairs_ok hpairs

/-- All that is written behind the loops of a select by groups. -/
theorem selectRest_grouped (hscalar : f.query.isScalarAggregate = false) {rest : List Clause}
    (h : f.clauses ClauseKind.selectRest = .ok rest) :
    ∃ filter aggregate items window values,
      rest = filter.toList ++ .collect f.groups aggregate ::
        ((if items = [] then [] else [.sort items]) ++ window.toList ++
          [.returning (.object (values ++ aggregatePair f.query))]) ∧
      f.filterClause = .ok filter ∧ f.limitClause = .ok window ∧
      aggregate.map Prod.fst = f.query.aggregate.map Aggregate.function ∧
      List.Forall₂ (fun (order : OrderBy) item => item.2 = order.direction ∧
        ∃ c, f.read order.column = .ok (c, item.1)) f.query.ordering items ∧
      (f.query.projection = .all → values = groupPairs 1 f.groups) ∧
      ∀ columns, f.query.projection = .columns columns →
        List.Forall₂ (fun column pair =>
          ∃ c, f.read column = .ok (c, pair.2) ∧ pair.1 = c.outputKey) columns values := by
  obtain ⟨filter, _, hfilter, h₁, rfl⟩ := clauses_cons_ok h
  obtain ⟨collect, _, hcollect, h₂, rfl⟩ := clauses_cons_ok h₁
  obtain ⟨sort, _, hsort, h₃, rfl⟩ := clauses_cons_ok h₂
  obtain ⟨window, _, hwindow, h₄, rfl⟩ := clauses_cons_ok h₃
  obtain ⟨returning, _, hreturning, h₅, rfl⟩ := clauses_cons_ok h₄
  cases h₅
  obtain ⟨aggregate, rfl, haggregate⟩ := collectClause_grouped hg (Outcome.mapError_ok hcollect)
  obtain ⟨items, hitems, hsorted⟩ := sortClause_ok hscalar (Outcome.mapError_ok hsort)
  obtain ⟨o, ho, hreturning⟩ := Outcome.bind_ok hreturning
  cases hreturning
  obtain ⟨values, rfl, hall, hcolumns⟩ := output_grouped hg (Outcome.mapError_ok ho)
  refine ⟨filter, aggregate, items, window, values, ?_, Outcome.mapError_ok hfilter,
    Outcome.mapError_ok hwindow, haggregate, hsorted, hall, hcolumns⟩
  rw [← hitems, List.append_assoc]
  rfl

end Frame

end Aql

namespace Query

open Aql

/-! ## The parts of the text -/

/-- What stands between the loops and the grouping: the filter, if there are conditions. -/
def IsConditionText (q : Query) (text : String) : Prop :=
  ∃ chain, filterChain (Scope.ofQuery q) q = .ok chain ∧
    text = if chain.isEmpty then "" else " FILTER " ++ Token.spell (Formula.chainTokens chain)

/-- What stands behind the groups: the aggregate, if there is one. -/
def IsAggregateText (q : Query) (text : String) : Prop :=
  match q.aggregate with
  | none => text = ""
  | some a => ∃ argument,
      text = " AGGREGATE aggregate_value = " ++ a.function.written ++ argument ++ ")"

/-- The items of an ordering, each with its direction. -/
def orderingWritten (items : List (String × String)) : String :=
  if items = [] then ""
  else " SORT " ++ ", ".intercalate (items.map fun item => item.1 ++ item.2)

def windowWritten (q : Query) : String :=
  match q.limit, q.offset with
  | none, _ => ""
  | some count, none => " LIMIT " ++ Text.decimal count.toNat
  | some count, some offset =>
    " LIMIT " ++ Text.decimal offset.toNat ++ ", " ++ Text.decimal count.toNat

section Frame

variable {f : Frame} {c : Option Clause}

theorem following_filter (h : f.filterClause = .ok c) :
    ∃ chain, filterChain f.scope f.query = .ok chain ∧ followingText c.toList =
      if chain.isEmpty then "" else " FILTER " ++ Token.spell (Formula.chainTokens chain) := by
  obtain ⟨chain, hchain, hc⟩ := Outcome.bind_ok h
  refine ⟨chain, hchain, ?_⟩
  cases chain with
  | nil =>
    cases hc
    exact String.join_nil
  | cons link rest =>
    cases hc
    change followingText [.filter (link :: rest)] = " FILTER " ++ _
    rw [followingText_singleton, Clause.written, ← String.append_assoc]
    rfl

theorem following_limit (h : f.limitClause = .ok c) :
    followingText c.toList = f.query.windowWritten := by
  unfold Frame.limitClause at h
  unfold windowWritten
  cases hlimit : f.query.limit with
  | none =>
    cases hoffset : f.query.offset with
    | none =>
      rw [hlimit, hoffset] at h
      cases h
      exact String.join_nil
    | some offset =>
      rw [hlimit, hoffset] at h
      cases h
  | some count =>
    rw [hlimit] at h
    cases h
    rw [Option.toList_some, followingText_singleton]
    cases f.query.offset with
    | none =>
      rw [Clause.written, ← String.append_assoc]
      rfl
    | some offset =>
      rw [Clause.written, ← String.append_assoc, ← String.append_assoc, ← String.append_assoc]
      rfl

theorem following_sort (items : List (Expr × Direction)) :
    followingText (if items = [] then [] else [.sort items]) =
      orderingWritten (items.map fun item => (item.1.written, item.2.written)) := by
  cases items with
  | nil => exact String.join_nil
  | cons first rest =>
    rw [if_neg (List.cons_ne_nil first rest), followingText_singleton, Clause.written,
      orderingWritten, List.map_map, ← String.append_assoc]
    rfl

theorem following_collect (groups : List ResolvedColumn)
    (aggregate : Option (AggregateFunction × Expr)) (rest : List Clause) :
    followingText (.collect groups aggregate :: rest) = " COLLECT " ++
      ", ".intercalate (groupsWritten groups) ++ aggregateWritten aggregate ++
        followingText rest := by
  rw [followingText_cons, Clause.text_eq, Clause.written, ← String.append_assoc,
    ← String.append_assoc]
  rfl

theorem following_return (o : Output) :
    followingText [.returning o] = " RETURN " ++ o.written := by
  rw [followingText_singleton, Clause.written, ← String.append_assoc]
  rfl

theorem isAggregateText_of_map {q : Query} {aggregate : Option (AggregateFunction × Expr)}
    (h : aggregate.map Prod.fst = q.aggregate.map Aggregate.function) :
    q.IsAggregateText (aggregateWritten aggregate) := by
  unfold IsAggregateText
  cases aggregate with
  | none =>
    rw [Option.map_none, eq_comm, Option.map_eq_none_iff] at h
    rw [h]
    rfl
  | some applied =>
    obtain ⟨a, ha, hfunction⟩ := Option.map_eq_some_iff.mp h.symm
    rw [ha]
    refine ⟨applied.2.written, ?_⟩
    rw [hfunction]
    rfl

end Frame

/-! ## Statements -/

/-- What a select by groups is written with behind its conditions: the assignments of its groups,
the items of its ordering with their directions, and the values that it returns under their keys. -/
structure AfterCollect (q : Query) (assigned : List String)
    (items values : List (String × String)) : Prop where
  length : assigned.length = q.groups.length
  /-- The variable of each group is assigned the expression of that group. -/
  assigns : ∀ k < q.groups.length, ∃ e, q.groupExpression? k = some e ∧
    assigned[k]? = some ("group_" ++ Text.decimal (k + 1) ++ " = " ++ e)
  sorted : List.Forall₂ (fun (order : OrderBy) item => ∃ k, q.ReadsGroup order.column k ∧
    item = ("group_" ++ Text.decimal (k + 1), order.direction.written)) q.ordering items
  /-- Whole documents are the groups in order. -/
  whole : q.projection.texts = [] →
    ∃ columns, q.groups.mapM (Scope.ofQuery q).resolve = .ok columns ∧
      values = (columns.zipIdx 1).map fun entry =>
        (entry.1.outputKey, "group_" ++ Text.decimal entry.2)
  shown : q.projection.texts ≠ [] → List.Forall₂ (fun column value =>
    ∃ c k, (Scope.ofQuery q).resolve column = .ok c ∧ q.ReadsGroup column k ∧
      value = (c.outputKey, "group_" ++ Text.decimal (k + 1))) q.projection.texts values

namespace AfterCollect

variable {q : Query} {assigned : List String} {items values : List (String × String)}
  (h : q.AfterCollect assigned items values)
include h

theorem of_mem_items : ∀ item ∈ items,
    ∃ i, 1 ≤ i ∧ i ≤ q.groups.length ∧ item.1 = "group_" ++ Text.decimal i := by
  intro item hitem
  obtain ⟨order, k, hk, rfl⟩ := Outcome.exists_of_mem_forall₂ h.sorted hitem
  have hlt := hk.lt_length
  exact ⟨k + 1, by omega, by omega, rfl⟩

theorem of_mem_values : ∀ value ∈ values,
    ∃ i, 1 ≤ i ∧ i ≤ q.groups.length ∧ value.2 = "group_" ++ Text.decimal i := by
  by_cases htexts : q.projection.texts = []
  · obtain ⟨columns, hcolumns, rfl⟩ := h.whole htexts
    intro value hvalue
    obtain ⟨entry, hentry, rfl⟩ := List.mem_map.mp hvalue
    -- positions are counted from one up to the number of groups
    have hpos := List.le_snd_of_mem_zipIdx hentry
    have hlt := List.snd_lt_of_mem_zipIdx hentry
    rw [← (Outcome.forall₂_mapM_ok hcolumns).length_eq] at hlt
    exact ⟨entry.2, hpos, by omega, rfl⟩
  · intro value hvalue
    obtain ⟨column, c, k, _, hk, rfl⟩ := Outcome.exists_of_mem_forall₂ (h.shown htexts) hvalue
    have hlt := hk.lt_length
    exact ⟨k + 1, by omega, by omega, rfl⟩

/-- All that is read behind the grouping is the variable of a group. -/
theorem group_of_mem : ∀ e ∈ items.map Prod.fst ++ values.map Prod.snd,
    ∃ i, 1 ≤ i ∧ i ≤ q.groups.length ∧ e = "group_" ++ Text.decimal i := by
  intro e he
  rcases List.mem_append.mp he with hm | hm
  · obtain ⟨item, hitem, rfl⟩ := List.mem_map.mp hm
    exact h.of_mem_items item hitem
  · obtain ⟨value, hvalue, rfl⟩ := List.mem_map.mp hm
    exact h.of_mem_values value hvalue

end AfterCollect

theorem shownProjection_eq (projection : Projection) :
    shownProjection projection =
      if projection.texts = [] then .all else .columns projection.texts := by
  cases projection with
  | all => rfl
  | columns shown => cases shown <;> rfl

/-- What a frame by the groups of a query reads for a column. -/
theorem readsGroup_of_read {q q' : Query} {columns : List ResolvedColumn} {raw : String}
    {c : ResolvedColumn} {e : Expr}
    (hresolved : q.groups.mapM (Scope.ofQuery q).resolve = .ok columns) (hne : columns ≠ [])
    (h : Frame.read ⟨q', Scope.ofQuery q, columns⟩ raw = .ok (c, e)) :
    (Scope.ofQuery q).resolve raw = .ok c ∧ ∃ k, q.ReadsGroup raw k ∧ e = .group (k + 1) := by
  obtain ⟨hc, k, hk, he⟩ := Frame.read_grouped (by simpa [Frame.isGrouped] using hne) h
  exact ⟨hc, k, readsGroup_of_findIdx? hresolved hc hk, he⟩

/-- What a frame by the groups of a query reads for a column is written as the variable of the first
group with its expression. -/
theorem afterCollect_of_read {q q' : Query} {columns : List ResolvedColumn}
    {items : List (Expr × Direction)} {values : List (String × Expr)}
    (hresolved : q.groups.mapM (Scope.ofQuery q).resolve = .ok columns) (hne : columns ≠ [])
    (hsorted : List.Forall₂ (fun (order : OrderBy) item => item.2 = order.direction ∧
      ∃ c, Frame.read ⟨q', Scope.ofQuery q, columns⟩ order.column = .ok (c, item.1))
        q.ordering items)
    (hall : shownProjection q.projection = .all → values = Frame.groupPairs 1 columns)
    (hshown : ∀ shown, shownProjection q.projection = .columns shown →
      List.Forall₂ (fun column value => ∃ c,
        Frame.read ⟨q', Scope.ofQuery q, columns⟩ column = .ok (c, value.2) ∧
          value.1 = c.outputKey) shown values) :
    q.AfterCollect (groupsWritten columns)
      (items.map fun item => (item.1.written, item.2.written))
      (values.map fun value => (value.1, value.2.written)) := by
  rw [shownProjection_eq] at hall hshown
  have hlength := (Outcome.forall₂_mapM_ok hresolved).length_eq
  refine ⟨?_, fun k hk => ?_, ?_, fun htexts => ⟨columns, hresolved, ?_⟩, fun htexts => ?_⟩
  · rw [groupsWritten, List.length_map, List.length_zipIdx, hlength]
  · have hlt : k < columns.length := hlength ▸ hk
    refine ⟨columns[k].written, ?_, ?_⟩
    · rw [groupExpression?_eq hresolved, List.getElem?_eq_getElem hlt, Option.map_some]
    · rw [groupsWritten, List.getElem?_map, List.getElem?_zipIdx, List.getElem?_eq_getElem hlt,
        Nat.add_comm 1 k]
      rfl
  · refine List.forall₂_map_right_iff.mpr (hsorted.imp fun order item hitem => ?_)
    obtain ⟨hdirection, c, hread⟩ := hitem
    obtain ⟨_, k, hk, he⟩ := readsGroup_of_read hresolved hne hread
    refine ⟨k, hk, ?_⟩
    rw [he, hdirection]
    rfl
  · rw [hall (if_pos htexts), Frame.groupPairs_eq, List.map_map]
    rfl
  · refine List.forall₂_map_right_iff.mpr
      ((hshown _ (if_neg htexts)).imp fun column value hvalue => ?_)
    obtain ⟨c, hread, hkey⟩ := hvalue
    obtain ⟨hc, k, hk, he⟩ := readsGroup_of_read hresolved hne hread
    refine ⟨c, k, hc, hk, ?_⟩
    rw [hkey, he]
    rfl

theorem ofSelect_of_grouped {q : Query} {program : Program}
    (h : Program.ofSelect q = .ok program) (hg : q.groups ≠ []) :
    ∃ columns rest, q.groups.mapM (Scope.ofQuery q).resolve = .ok columns ∧ columns ≠ [] ∧
      Frame.clauses ⟨q, Scope.ofQuery q, columns⟩ ClauseKind.selectRest = .ok rest ∧
      program = .select (loopClauses q ++ rest) := by
  have hempty : q.groups.isEmpty = false := by simpa using hg
  rw [Program.ofSelect_eq] at h
  obtain ⟨columns, hcolumns, h⟩ := Outcome.bind_ok h
  obtain ⟨rest, hrest, h⟩ := Outcome.bind_ok h
  have hresolved := Outcome.mapError_ok hcolumns
  refine ⟨columns, rest, hresolved, ?_, hrest, ?_⟩
  · -- there is one resolved group for each group
    rintro rfl
    exact hg (List.length_eq_zero_iff.mp (Outcome.forall₂_mapM_ok hresolved).length_eq)
  · cases h
    unfold Program.returning
    rw [hempty]
    split <;> rfl

theorem failure?_resolves {q : Query} {column : String} (h : (q.written? column).isSome = true) :
    (Requirement.resolves column).failure? q = none := by
  rw [Requirement.failure?]
  unfold written? at h
  cases hr : (Scope.ofQuery q).resolve column with
  | error e =>
    rw [hr] at h
    cases h
  | ok c => rfl

theorem failure?_grouped {q : Query} {column : String}
    (hother : ∀ group ∈ q.groups, q.written? group ≠ q.written? column) :
    (Requirement.grouped column).failure? q = some (.resolve (.notGrouped column)) := by
  have hnone : q.isGroupExpression column = false := by
    rw [isGroupExpression, List.any_eq_false]
    intro group hgroup he
    rw [expression?_eq, expression?_eq] at he
    exact hother group hgroup (beq_iff_eq.mp he)
  rw [Requirement.failure?, hnone]
  rfl

section Grouped

variable {q : Query} (hg : q.groups ≠ []) (hm : q.mutation = none)
include hg hm

/-- A select by groups keeps its ordering. -/
theorem normalize_of_grouped :
    q.normalize = { q with projection := shownProjection q.projection } := by
  have hempty : q.groups.isEmpty = false := by simpa using hg
  rw [normalize_of_not_insert fun _ he => (nomatch hm.symm.trans he), hempty, Bool.and_false]
  rfl

theorem compileWith_grouped_ok {expected : Option Shape} {statement : Statement}
    (h : q.compileWith .default expected = .ok statement) :
    ∃ conditions assigned aggregated items values,
      statement.text = " ".intercalate (q.loops.map Loop.written) ++ conditions ++ " COLLECT " ++
        ", ".intercalate assigned ++ aggregated ++ orderingWritten items ++ q.windowWritten ++
        " RETURN " ++ objectWritten (values ++
          if q.aggregate.isSome then [("aggregate", "aggregate_value")] else []) ∧
      q.IsConditionText conditions ∧ q.IsAggregateText aggregated ∧
      q.AfterCollect assigned items values := by
  obtain ⟨program, hprogram, rfl⟩ := compileWith_ok h
  rw [normalize_of_grouped hg hm, Program.ofQuery] at hprogram
  simp only [hm] at hprogram
  obtain ⟨columns, rest, hcolumns, hne, hrest, rfl⟩ := ofSelect_of_grouped hprogram hg
  have hresolved : q.groups.mapM (Scope.ofQuery q).resolve = .ok columns := hcolumns
  obtain ⟨filter, aggregate, items, window, values, rfl, hfilter, hwindow, haggregate, hsorted,
    hall, hshown⟩ := Frame.selectRest_grouped (by simpa [Frame.isGrouped] using hne)
      (by simp [isScalarAggregate, hg]) hrest
  obtain ⟨chain, hchain, hconditions⟩ := following_filter hfilter
  refine ⟨followingText filter.toList, groupsWritten columns, aggregateWritten aggregate,
    items.map fun item => (item.1.written, item.2.written),
    values.map fun value => (value.1, value.2.written), ?_, ⟨chain, hchain, hconditions⟩,
    isAggregateText_of_map haggregate, ?_⟩
  · have hreturned : Output.written (.object (values ++ Frame.aggregatePair q)) =
        objectWritten ((values.map fun value => (value.1, value.2.written)) ++
          if q.aggregate.isSome then [("aggregate", "aggregate_value")] else []) := by
      rw [Output.written, List.map_append, Frame.aggregatePair]
      split <;> rfl
    change clausesText (loopClauses q ++ _) = _
    rw [clausesText_loopClauses, loopsText_eq, followingText_append, following_collect,
      followingText_append, followingText_append, following_sort, following_limit hwindow,
      following_return]
    change _ ++ (_ ++ (_ ++ (_ ++ _ ++ (" RETURN " ++
      Output.written (.object (values ++ Frame.aggregatePair q)))))) = _
    rw [hreturned]
    simp only [String.append_assoc]
    rfl
  · exact afterCollect_of_read hresolved hne hsorted hall hshown

/-- Each column that is read behind the grouping has to read what a group reads. -/
theorem grouped_mem_requirements {expected : Option Shape} {column : String}
    (hc : column ∈ q.ordering.map OrderBy.column ++ q.projection.texts) :
    .grouped column ∈ q.requirements expected := by
  have hempty : q.groups.isEmpty = false := by simpa using hg
  have hread : .grouped column ∈ readRequirements true column :=
    List.mem_cons_of_mem _ List.mem_cons_self
  rw [requirements, statementRequirements, hm]
  refine List.mem_append_right _ (List.mem_append_right _ ?_)
  simp only [selectRequirements, isScalarAggregate, hempty, Bool.and_false, Bool.not_false,
    Bool.false_eq_true, if_false]
  rcases List.mem_append.mp hc with hordering | hshown
  · obtain ⟨order, horder, rfl⟩ := List.mem_map.mp hordering
    exact List.mem_append_left _ (List.mem_append_right _
      (List.mem_flatMap.mpr ⟨order, horder, hread⟩))
  · exact List.mem_append_right _ (List.mem_flatMap.mpr ⟨column, hshown, hread⟩)

/-- A column that no group reads is what the query fails with if nothing else is wrong. -/
theorem compileWith_notGrouped {expected : Option Shape} {column : String}
    (hc : column ∈ q.ordering.map OrderBy.column ++ q.projection.texts)
    (hresolves : (q.written? column).isSome = true)
    (hother : ∀ group ∈ q.groups, q.written? group ≠ q.written? column) :
    ((∀ r ∈ q.requirements expected, r ≠ .resolves column → r ≠ .grouped column →
        r.failure? q = none) →
      q.compileWith .default expected = .error (.resolve (.notGrouped column))) ∧
    ∃ before after, q.requirements expected = before ++ .grouped column :: after ∧
      q.compileWith .default expected = .error
        ((before.findSome? (Requirement.failure? q)).getD (.resolve (.notGrouped column))) := by
  have hunmet := failure?_grouped hother
  obtain ⟨before, after, hsplit, herror⟩ := compileWith_error_of_unmet
    (@grouped_mem_requirements q hg hm expected column hc) hunmet
  refine ⟨fun hmet => ?_, before, after, hsplit, herror⟩
  rw [herror]
  cases hfirst : before.findSome? (Requirement.failure? q) with
  | none => rfl
  | some e =>
    -- an error before can only be that of the same column
    obtain ⟨r, hr, he⟩ := List.exists_of_findSome?_eq_some hfirst
    have hmem : r ∈ q.requirements expected := by
      rw [hsplit]
      exact List.mem_append_left _ hr
    by_cases hcolumn : r = .resolves column
    · rw [hcolumn, failure?_resolves hresolves] at he
      cases he
    by_cases hgrouped : r = .grouped column
    · rw [hgrouped, hunmet] at he
      cases he
      rfl
    · rw [hmet r hmem hcolumn hgrouped] at he
      cases he

/-- Behind the grouping, a statement reads the variables of its groups and that of its aggregate,
and none of its loops. A column is read through the first group with its expression. One that
resolves but has no such group makes the compilation fail: with its own error if nothing else is
wrong, and otherwise with the first error that is met. -/
theorem compileWith_grouped (expected : Option Shape) :
    (∀ statement, q.compileWith .default expected = .ok statement →
      ∃ conditions assigned aggregated items values returned,
        statement.text = " ".intercalate (q.loops.map Loop.written) ++ conditions ++ " COLLECT " ++
          ", ".intercalate assigned ++ aggregated ++ orderingWritten items ++ q.windowWritten ++
          " RETURN " ++ objectWritten returned ∧
        q.IsConditionText conditions ∧ q.IsAggregateText aggregated ∧
        returned = values ++
          (if q.aggregate.isSome then [("aggregate", "aggregate_value")] else []) ∧
        q.AfterCollect assigned items values ∧
        (∀ e ∈ items.map Prod.fst ++ values.map Prod.snd,
          ∃ i, 1 ≤ i ∧ i ≤ q.groups.length ∧ e = "group_" ++ Text.decimal i) ∧
        ∀ e ∈ items.map Prod.fst ++ returned.map Prod.snd, ∀ name, e ≠ name ++ "_entity") ∧
    ∀ column ∈ q.ordering.map OrderBy.column ++ q.projection.texts,
      (q.written? column).isSome = true →
      (∀ group ∈ q.groups, q.written? group ≠ q.written? column) →
      ((∀ r ∈ q.requirements expected, r ≠ .resolves column → r ≠ .grouped column →
          r.failure? q = none) →
        q.compileWith .default expected = .error (.resolve (.notGrouped column))) ∧
      ∃ before after, q.requirements expected = before ++ .grouped column :: after ∧
        q.compileWith .default expected = .error
          ((before.findSome? (Requirement.failure? q)).getD (.resolve (.notGrouped column))) := by
  refine ⟨fun statement h => ?_, fun column hc hresolves hother => ?_⟩
  · obtain ⟨conditions, assigned, aggregated, items, values, htext, hconditions, haggregated,
      hafter⟩ := compileWith_grouped_ok hg hm h
    have hgroups := hafter.group_of_mem
    refine ⟨conditions, assigned, aggregated, items, values, _, htext, hconditions, haggregated,
      rfl, hafter, hgroups, fun e he => ?_⟩
    -- the aggregate stands behind the values, so everything before it is a group
    rw [List.map_append, ← List.append_assoc] at he
    apply ne_loopVariable
    rcases List.mem_append.mp he with hm | hm
    · obtain ⟨i, _, _, rfl⟩ := hgroups e hm
      exact notMem_groupVariable i
    · split at hm
      · rw [List.mem_singleton.mp hm]
        decide
      · cases hm
  · exact compileWith_notGrouped hg hm hc hresolves hother

end Grouped

/-- Totals of orders by town and state, where one group is written twice and each column in its own
way. -/
def townQuery : Query :=
  (table "\x60users\x60").runLenient
    [.join "orders" "orders.user" .eq "users._key", .whereNull .and true "users.city",
      .groupBy ["users.city as town", "users_entity.city", "\x60orders\x60.state"],
      .select ["orders_entity.state", "users.city as place"], .aggregate .sum ["orders.total"],
      .orderBy "\x60users\x60.city" .desc, .take 5]

/-- An ordering by a column that a group reads and by one that none does. -/
def unreadQuery : Query :=
  (table "users").runLenient
    [.groupBy ["city"], .orderBy "users.city" .asc, .orderBy "name" .asc]

theorem compileWith_grouped_town :
    (townQuery.groups ≠ [] ∧ townQuery.mutation = none) ∧
      (∃ statement assigned items values, townQuery.compile = .ok statement ∧
        statement.text = "FOR users_entity IN \x60users\x60 FOR orders_entity IN \x60orders\x60 " ++
          "FILTER orders_entity.\x60user\x60 == users_entity._key AND " ++
          "users_entity.\x60city\x60 != null " ++
          "COLLECT group_1 = users_entity.\x60city\x60, group_2 = users_entity.\x60city\x60, " ++
          "group_3 = orders_entity.\x60state\x60 " ++
          "AGGREGATE aggregate_value = SUM(orders_entity.\x60total\x60) " ++
          "SORT group_1 DESC LIMIT 5 " ++
          "RETURN \x7b\"state\": group_3, \"place\": group_1, \"aggregate\": aggregate_value\x7d" ∧
        townQuery.AfterCollect assigned items values) ∧
      (unreadQuery.groups ≠ [] ∧ unreadQuery.mutation = none) ∧
      unreadQuery.compile = .error (.resolve (.notGrouped "name")) := by
  have hg : townQuery.groups ≠ [] := by decide
  have hm : townQuery.mutation = none := by decide
  obtain ⟨statement, hstatement⟩ : ∃ statement,
      townQuery.compileWith .default none = .ok statement := Outcome.exists_ok (by decide +kernel)
  obtain ⟨_, assigned, _, items, values, _, _, _, _, _, hafter, _⟩ :=
    (compileWith_grouped hg hm none).1 statement hstatement
  have hg' : unreadQuery.groups ≠ [] := by decide
  have hm' : unreadQuery.mutation = none := by decide
  refine ⟨⟨hg, hm⟩, ⟨statement, assigned, items, values, hstatement, ?_, hafter⟩, ⟨hg', hm'⟩, ?_⟩
  · exact Outcome.eq_of_ok (f := Statement.text) hstatement (by decide +kernel)
  · exact ((compileWith_grouped hg' hm' none).2 "name" (by decide) (by decide +kernel)
      (by decide +kernel)).1 (by decide +kernel)

end Query

end AqlQuery
