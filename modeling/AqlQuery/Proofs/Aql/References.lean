import AqlQuery.Proofs.Aql.FilterReferences
import AqlQuery.Aql.Program

/-!
# The names that a statement refers to

Apart from the filter, the clauses of a plain query refer to nothing. A statement refers to the
bindings of the operands of its query, in the order in which the operands are written.
-/

namespace AqlQuery.Aql

open Text

/-! ## Clauses -/

/-- A frame over a plain query, with a scope and groups that are plain too. -/
structure PlainFrame (f : Frame) : Prop where
  query : PlainQuery f.query
  scope : ∀ name ∈ f.scope.collections, Plain name
  groups : ∀ c ∈ f.groups, PlainColumn c

theorem plain_loop {entity collection : String} (hv : Plain entity) (hc : Plain collection) :
    Plain ("FOR " ++ entity ++ " IN " ++
      Collection.inBackticks (Collection.bareName collection)) := by
  rw [plain_append, plain_append, plain_append]
  exact ⟨⟨⟨by decide, hv⟩, by decide⟩, plain_inBackticks (plain_bareName hc)⟩

theorem plain_groupTexts {index : Nat} {columns : List ResolvedColumn}
    (hc : ∀ c ∈ columns, PlainColumn c) : ∀ t ∈ Clause.groupTexts index columns, Plain t := by
  induction columns generalizing index with
  | nil =>
    intro t ht
    cases ht
  | cons c rest ih =>
    intro t ht
    rcases List.mem_cons.mp ht with rfl | hm
    · rw [groupVariable, plain_append, plain_append, plain_append]
      exact ⟨⟨⟨by decide, plain_decimal index⟩, by decide⟩,
        (hc c List.mem_cons_self).expression⟩
    · exact ih (fun c' h' => hc c' (List.mem_cons_of_mem c h')) t hm

theorem plain_groupPairs {index : Nat} {columns : List ResolvedColumn}
    (hc : ∀ c ∈ columns, PlainColumn c) :
    ∀ p ∈ Frame.groupPairs index columns, Plain p.1 ∧ Plain p.2.text := by
  induction columns generalizing index with
  | nil =>
    intro p hp
    cases hp
  | cons c rest ih =>
    intro p hp
    rcases List.mem_cons.mp hp with rfl | hm
    · exact ⟨(hc c List.mem_cons_self).outputKey,
        plain_append.mpr ⟨by decide, plain_decimal index⟩⟩
    · exact ih (fun c' h' => hc c' (List.mem_cons_of_mem c h')) p hm

theorem plain_limitClause {f : Frame} {c : Clause} (h : f.limitClause = .ok (some c)) :
    Plain c.text := by
  unfold Frame.limitClause at h
  cases hl : f.query.limit with
  | none =>
    rw [hl] at h
    cases ho : f.query.offset <;> rw [ho] at h <;> cases h
  | some count =>
    rw [hl] at h
    cases h
    cases f.query.offset with
    | none => exact plain_append.mpr ⟨by decide, plain_decimal count.toNat⟩
    | some offset =>
      change Plain ("LIMIT " ++ decimal offset.toNat ++ ", " ++ decimal count.toNat)
      rw [plain_append, plain_append, plain_append]
      exact ⟨⟨⟨by decide, plain_decimal _⟩, by decide⟩, plain_decimal _⟩

theorem references_objectText {pairs : List (String × String)} (h : ∀ p ∈ pairs, Plain p.1) :
    references (objectText pairs) = pairs.flatMap fun p => references p.2 := by
  rw [objectText, String.append_assoc, references_plain_append _ (by decide),
    references_append_plain (by decide) (by decide),
    references_intercalate (by decide) (by decide) (by decide), List.flatMap_map]
  refine congrArg List.flatten (List.map_congr_left ?_)
  intro p hp
  exact references_plain_append _ (plain_append.mpr ⟨plain_quote (h p hp), by decide⟩)

theorem references_pairsText {pairs : List (String × Expr)} (h : ∀ p ∈ pairs, Plain p.1) :
    references (pairsText pairs) = pairs.flatMap fun p => references p.2.text := by
  rw [pairsText, references_objectText, List.flatMap_map]
  intro p hp
  obtain ⟨pair, hm, rfl⟩ := List.mem_map.mp hp
  exact h pair hm

theorem references_object {pairs : List (String × Expr)}
    (h : ∀ p ∈ pairs, Plain p.1 ∧ Plain p.2.text) :
    references (Output.object pairs).text = [] := by
  rw [Output.text, references_pairsText fun p hp => (h p hp).1, List.flatMap_eq_nil_iff]
  exact fun p hp => references_of_plain (h p hp).2

section Frame

variable {f : Frame} (hf : PlainFrame f)
include hf

theorem plain_sourceVariable : Plain f.scope.sourceVariable :=
  plain_variableName (hf.scope _ List.mem_cons_self)

theorem plain_read {raw : String} {c : ResolvedColumn} {e : Expr} (hraw : Plain raw)
    (h : f.read raw = .ok (c, e)) : PlainColumn c ∧ Plain e.text := by
  obtain ⟨found, hc, h⟩ := Outcome.bind_ok h
  have hp := plainColumn_of_resolve hf.scope hraw hc
  split at h
  · split at h
    next index _ =>
      cases h
      exact ⟨hp, plain_append.mpr ⟨by decide, plain_decimal index⟩⟩
    next => cases h
  · cases h
    exact ⟨hp, hp.expression⟩

theorem plain_aggregateColumn {a : Aggregate} (ha : ∀ x ∈ a.columns, Plain x)
    {found : Option ResolvedColumn} (h : f.aggregateColumn a = .ok found) :
    ∀ c ∈ found, PlainColumn c := by
  unfold Frame.aggregateColumn at h
  intro c hc
  split at h
  next =>
    cases h
    cases hc
  next raw rest hraw =>
    obtain ⟨resolved, hr, h⟩ := Outcome.bind_ok h
    have hp := plainColumn_of_resolve hf.scope (ha raw (hraw ▸ List.mem_cons_self)) hr
    cases h
    split at hc
    · cases hc
      exact hp
    · cases hc

theorem plain_aggregateArgument {a : Aggregate} (ha : ∀ x ∈ a.columns, Plain x) {e : Expr}
    (h : f.aggregateArgument a = .ok e) : Plain e.text := by
  obtain ⟨found, hc, h⟩ := Outcome.bind_ok h
  cases found with
  | some c =>
    cases h
    exact (plain_aggregateColumn hf ha hc c rfl).expression
  | none =>
    cases h
    split
    · decide
    · exact plain_sourceVariable hf

theorem plain_loopClause : Plain f.loopClause.text :=
  plain_loop (plain_sourceVariable hf) (hf.scope _ List.mem_cons_self)

theorem plain_joinsClause {c : Clause} (h : f.joinsClause = some c) : Plain c.text := by
  unfold Frame.joinsClause at h
  split at h
  · cases h
  · cases h
    refine plain_intercalate (by decide) ?_
    intro part hpart
    rw [List.map_map] at hpart
    obtain ⟨j, hj, rfl⟩ := List.mem_map.mp hpart
    have hname : Plain j.collection := by
      apply hf.query.collections
      exact List.mem_cons_of_mem _ (List.mem_map_of_mem hj)
    exact plain_loop (plain_variableName hname) hname

theorem plain_collectClause {c : Clause} (h : f.collectClause = .ok (some c)) :
    Plain c.text := by
  have hgroups : Plain ("COLLECT " ++ ", ".intercalate (Clause.groupTexts 1 f.groups)) :=
    plain_append.mpr ⟨by decide, plain_intercalate (by decide) (plain_groupTexts hf.groups)⟩
  unfold Frame.collectClause at h
  split at h
  · split at h
    next =>
      cases h
      exact plain_append.mpr ⟨hgroups, by decide⟩
    next a ha =>
      obtain ⟨e, he, h⟩ := Outcome.bind_ok h
      have hargument := plain_aggregateArgument hf (a := a)
        (fun x hx => hf.query.columns x (by simp [Query.columns, ha, hx])) he
      have hkeyword : Plain a.function.keyword := by cases a.function <;> decide
      cases h
      refine plain_append.mpr ⟨hgroups, ?_⟩
      rw [plain_append, plain_append, plain_append, plain_append]
      exact ⟨⟨⟨⟨by decide, hkeyword⟩, by decide⟩, hargument⟩, by decide⟩
  · cases h

theorem plain_sortClause {c : Clause} (h : f.sortClause = .ok (some c)) : Plain c.text := by
  unfold Frame.sortClause at h
  split at h
  · cases h
  · obtain ⟨items, hi, h⟩ := Outcome.bind_ok h
    cases h
    refine plain_append.mpr ⟨by decide, plain_intercalate (by decide) ?_⟩
    intro t ht
    obtain ⟨⟨e, direction⟩, hm, rfl⟩ := List.mem_map.mp ht
    obtain ⟨order, ho, hr⟩ := Outcome.mem_mapM_ok hi hm
    obtain ⟨⟨column, read⟩, hread, hr⟩ := Outcome.bind_ok hr
    cases hr
    have hcolumn : Plain order.column := by
      apply hf.query.columns
      simp only [Query.columns, List.mem_append, List.mem_map]
      exact Or.inl (Or.inl (Or.inl (Or.inr ⟨order, ho, rfl⟩)))
    have hkeyword : Plain order.direction.keyword := by cases order.direction <;> decide
    exact plain_append.mpr ⟨plain_append.mpr ⟨(plain_read hf hcolumn hread).2, by decide⟩, hkeyword⟩

theorem plain_outputPairs {columns : List String} (hc : ∀ x ∈ columns, Plain x)
    {pairs : List (String × Expr)} (h : f.outputPairs columns = .ok pairs) :
    ∀ p ∈ pairs, Plain p.1 ∧ Plain p.2.text := by
  intro p hp
  obtain ⟨raw, hraw, hr⟩ := Outcome.mem_mapM_ok h hp
  obtain ⟨⟨c, e⟩, hread, hr⟩ := Outcome.bind_ok hr
  cases hr
  have hboth := plain_read hf (hc raw hraw) hread
  exact ⟨hboth.1.outputKey, hboth.2⟩

theorem references_output {output : Output} (h : f.output = .ok output) :
    references output.text = [] := by
  have haggregate : ∀ p ∈ Frame.aggregatePair f.query, Plain p.1 ∧ Plain p.2.text := by
    intro p hp
    unfold Frame.aggregatePair at hp
    split at hp
    · cases List.mem_singleton.mp hp
      exact ⟨by decide, by decide⟩
    · cases hp
  have hgrouped {pairs : List (String × Expr)} (hp : ∀ p ∈ pairs, Plain p.1 ∧ Plain p.2.text) :
      references (Output.object (pairs ++ Frame.aggregatePair f.query)).text = [] :=
    references_object fun p hm =>
      (List.mem_append.mp hm).elim (hp p) (haggregate p)
  unfold Frame.output at h
  split at h
  · simp only at h
    split at h
    next =>
      cases h
      exact hgrouped (plain_groupPairs hf.groups)
    next columns hc =>
      obtain ⟨pairs, hp, h⟩ := Outcome.bind_ok h
      cases h
      exact hgrouped (plain_outputPairs hf
        (fun x hx => hf.query.columns x (by simp [Query.columns, hc, Projection.texts, hx])) hp)
  · split at h
    next _ _ a ha =>
      obtain ⟨found, hc, h⟩ := Outcome.bind_ok h
      have hcolumn := plain_aggregateColumn hf (a := a)
        (fun x hx => hf.query.columns x (by simp [Query.columns, ha, hx])) hc
      cases found with
      | none =>
        cases h
        exact references_of_plain (plain_sourceVariable hf)
      | some c =>
        cases h
        exact references_of_plain (hcolumn c rfl).expression
    next =>
      cases h
      exact references_of_plain (plain_sourceVariable hf)
    next columns hc =>
      obtain ⟨pairs, hp, h⟩ := Outcome.bind_ok h
      cases h
      exact references_object (plain_outputPairs hf
        (fun x hx => hf.query.columns x (by simp [Query.columns, hc, Projection.texts, hx])) hp)

/-- Of all clauses, only the filter refers to bindings. -/
theorem references_clause {kind : ClauseKind} {c : Option Clause} (h : f.clause kind = .ok c) :
    (c.elim [] fun c => references c.text) =
      if kind = .filter then conditionNames f.query else [] := by
  -- for the kinds other than the filter
  have hplain (h : ∀ found, c = some found → Plain found.text) :
      (c.elim [] fun c => references c.text) = [] := by
    cases c with
    | none => rfl
    | some found => exact references_of_plain (h found rfl)
  cases kind with
  | loop =>
    have h := Except.ok.inj h
    rw [if_neg (by decide)]
    exact hplain fun found he => Option.some.inj (h.trans he) ▸ plain_loopClause hf
  | joins =>
    have h := Except.ok.inj h
    rw [if_neg (by decide)]
    exact hplain fun found he => plain_joinsClause hf (h.trans he)
  | filter =>
    obtain ⟨chain, hc, h⟩ := Outcome.bind_ok (Outcome.mapError_ok h)
    rw [if_pos rfl, ← references_filterChain hf.scope hf.query hc]
    cases h
    cases chain with
    | nil => rfl
    | cons p rest =>
      change references ("FILTER " ++ Formula.chainText (p :: rest)) = _
      rw [references_plain_append _ (by decide), references_chainText]
  | collect =>
    have h := Outcome.mapError_ok h
    rw [if_neg (by decide)]
    exact hplain fun found he => plain_collectClause hf (he ▸ h)
  | sort =>
    have h := Outcome.mapError_ok h
    rw [if_neg (by decide)]
    exact hplain fun found he => plain_sortClause hf (he ▸ h)
  | limit =>
    have h := Outcome.mapError_ok h
    rw [if_neg (by decide)]
    exact hplain fun found he => plain_limitClause (he ▸ h)
  | returning =>
    unfold Frame.clause at h
    cases ho : f.output with
    | error e =>
      rw [ho] at h
      cases h
    | ok output =>
      rw [ho] at h
      cases h
      change references ("RETURN " ++ output.text) = _
      rw [references_plain_append _ (by decide), references_output hf ho, if_neg (by decide)]

theorem references_clauses {kinds : List ClauseKind} {clauses : List Clause}
    (h : f.clauses kinds = .ok clauses) :
    references (clausesText clauses) =
      kinds.flatMap fun kind => if kind = .filter then conditionNames f.query else [] := by
  rw [clausesText, references_intercalate (by decide) (by decide) (by decide), List.flatMap_map]
  induction kinds generalizing clauses with
  | nil =>
    cases h
    rfl
  | cons kind rest ih =>
    rw [Frame.clauses] at h
    rw [List.flatMap_cons]
    split at h
    next => cases h
    next hc =>
      rw [← references_clause hf hc]
      exact ih h
    next c hc =>
      split at h
      next => cases h
      next cs hcs =>
        cases h
        rw [← references_clause hf hc, List.flatMap_cons, ih hcs]
        rfl

end Frame

/-! ## Statements -/

section Query

variable {q : Query} (hq : PlainQuery q)
include hq

theorem plain_scope : ∀ name ∈ (Scope.ofQuery q).collections, Plain name := by
  intro name hm
  have hall : ∀ name ∈ q.collections.map Collection.bareName, Plain name := by
    intro bare hb
    obtain ⟨raw, hraw, rfl⟩ := List.mem_map.mp hb
    exact plain_bareName (hq.collections raw hraw)
  exact hall name hm

theorem plainFrame_forSelect {f : Frame} (h : Frame.forSelect q = .ok f) :
    PlainFrame f ∧ f.query = q := by
  obtain ⟨groups, hg, h⟩ := Outcome.bind_ok h
  cases h
  refine ⟨⟨hq, plain_scope hq, ?_⟩, rfl⟩
  intro c hc
  obtain ⟨raw, hraw, hr⟩ := Outcome.mem_mapM_ok hg hc
  exact plainColumn_of_resolve (plain_scope hq)
    (hq.columns raw (by simp [Query.columns, hraw])) hr

theorem plainFrame_forMutation : PlainFrame (Frame.forMutation q) :=
  ⟨hq, plain_scope hq, fun _ hc => nomatch hc⟩

theorem references_ofSelect {program : Program} (h : Program.ofSelect q = .ok program) :
    references program.text = conditionNames q := by
  obtain ⟨f, hf, h⟩ := Outcome.bind_ok h
  obtain ⟨clauses, hc, h⟩ := Outcome.bind_ok h
  obtain ⟨hplain, hquery⟩ := plainFrame_forSelect hq (Outcome.mapError_ok hf)
  have hclauses : references (clausesText clauses) = conditionNames q := by
    rw [references_clauses hplain hc, hquery]
    exact List.append_nil _
  -- an aggregate without groups wraps the clauses in a call, as the only value of an object
  have hscalar (function : AggregateFunction) :
      references (Program.scalar function clauses).text = conditionNames q := by
    have hopen : Plain (function.keyword ++ "(") := by cases function <;> decide
    rw [Program.text, references_plain_append _ (by decide), references_objectText,
      List.flatMap_singleton, references_append_plain (by decide) (by decide),
      references_plain_append _ hopen, hclauses]
    intro p hp
    cases List.mem_singleton.mp hp
    exact (by decide : Plain aggregateKey)
  split at h
  next a _ =>
    split at h
    · cases h
      exact hscalar a.function
    · cases h
      exact hclauses
  next =>
    cases h
    exact hclauses

theorem references_mutation {clauses : List Clause}
    (h : (Frame.forMutation q).clauses ClauseKind.mutationOrder = .ok clauses) {rest : String}
    (hrest : Breaks rest) :
    references (clausesText clauses ++ rest) = conditionNames q ++ references rest := by
  rw [references_append hrest, references_clauses (plainFrame_forMutation hq) h]
  congr 1
  exact List.append_nil _

theorem references_assignmentPair {a : Assignment} (hcolumn : Plain a.column)
    (ho : ∀ o ∈ a.operands, Written o) {pair : String × Expr}
    (h : Program.assignmentPair (Scope.ofQuery q) a = .ok pair) :
    Plain pair.1 ∧ references pair.2.text = a.operands.filterMap Operand.name? := by
  obtain ⟨target, ht, h⟩ := Outcome.bind_ok h
  have hp := plainColumn_of_resolveTarget (plain_scope hq) hcolumn ht
  cases a with
  | set column value =>
    cases h
    have hv := flatMap_references ho
    rw [Assignment.operands, List.flatMap_singleton] at hv
    exact ⟨hp.outputKey, hv⟩
  | adjust column op amount =>
    cases h
    have hop : Plain op.keyword := by cases op <;> decide
    refine ⟨hp.outputKey, references_of_plain ?_⟩
    change Plain (target.expression ++ " " ++ op.keyword ++ " " ++ amount.text)
    rw [plain_append, plain_append, plain_append, plain_append]
    exact ⟨⟨⟨⟨hp.expression, by decide⟩, hop⟩, by decide⟩, plain_number amount⟩

theorem references_assignments {assignments : List Assignment}
    (hm : q.mutation = some (.update assignments)) {pairs : List (String × Expr)}
    (h : assignments.mapM (Program.assignmentPair (Scope.ofQuery q)) = .ok pairs) :
    references (pairsText pairs) =
      (assignments.flatMap Assignment.operands).filterMap Operand.name? := by
  have hpair : ∀ a ∈ assignments, ∀ pair,
      Program.assignmentPair (Scope.ofQuery q) a = .ok pair →
        Plain pair.1 ∧ references pair.2.text = a.operands.filterMap Operand.name? := by
    intro a ha pair hpair
    refine references_assignmentPair hq (hq.columns _ ?_) ?_ hpair
    · simp only [Query.columns, hm, List.mem_append]
      exact Or.inr (List.mem_map_of_mem ha)
    · intro o ho
      apply hq.operands
      rw [Query.operands, Query.mutationOperands, hm]
      exact List.mem_append_right _ (List.mem_flatMap_of_mem ha ho)
  have hkeys : ∀ pair ∈ pairs, Plain pair.1 := by
    intro pair hmem
    obtain ⟨a, ha, he⟩ := Outcome.mem_mapM_ok h hmem
    exact (hpair a ha pair he).1
  have hvalues := Outcome.flatMap_mapM_ok (fun a ha pair he => (hpair a ha pair he).2) h
  rw [references_pairsText hkeys, hvalues, List.filterMap_flatMap]

theorem references_ofUpdate {assignments : List Assignment}
    (hm : q.mutation = some (.update assignments)) {program : Program}
    (h : Program.ofUpdate q assignments = .ok program) :
    references program.text =
      conditionNames q ++ (assignments.flatMap Assignment.operands).filterMap Operand.name? := by
  obtain ⟨clauses, hc, h⟩ := Outcome.bind_ok h
  obtain ⟨pairs, hp, h⟩ := Outcome.bind_ok h
  cases h
  have hsource := plain_scope hq _ List.mem_cons_self
  have hopen : Plain (" UPDATE " ++ (Scope.ofQuery q).sourceVariable ++ " WITH ") := by
    rw [plain_append, plain_append]
    exact ⟨⟨by decide, plain_variableName hsource⟩, by decide⟩
  have hclose : Plain (" IN " ++ Collection.inBackticks
      (Collection.bareName (Scope.ofQuery q).source)) :=
    plain_append.mpr ⟨by decide, plain_inBackticks (plain_bareName hsource)⟩
  calc references (Program.update clauses _ pairs _).text
      = references (clausesText clauses ++ (" UPDATE " ++ (Scope.ofQuery q).sourceVariable ++
          " WITH " ++ (pairsText pairs ++ (" IN " ++ Collection.inBackticks
            (Collection.bareName (Scope.ofQuery q).source))))) := by
        simp only [Program.text, String.append_assoc]
        rfl
    _ = conditionNames q ++ references (pairsText pairs) := by
        rw [references_mutation hq hc (by
            rw [String.append_assoc, String.append_assoc]
            exact breaks_append (by decide) (by decide)),
          references_plain_append _ hopen,
          references_append_plain (breaks_append (by decide) (by decide)) hclose]
    _ = _ := by rw [references_assignments hq hm (Outcome.mapError_ok hp)]

theorem references_ofDelete {program : Program} (h : Program.ofDelete q = .ok program) :
    references program.text = conditionNames q := by
  obtain ⟨clauses, hc, h⟩ := Outcome.bind_ok h
  cases h
  have hsource := plain_scope hq _ List.mem_cons_self
  have hrest : Plain (" REMOVE " ++ (Scope.ofQuery q).sourceVariable ++ " IN " ++
      Collection.inBackticks (Collection.bareName (Scope.ofQuery q).source)) := by
    rw [plain_append, plain_append, plain_append]
    exact ⟨⟨⟨by decide, plain_variableName hsource⟩, by decide⟩,
      plain_inBackticks (plain_bareName hsource)⟩
  have hbreaks : Breaks (" REMOVE " ++ (Scope.ofQuery q).sourceVariable ++ " IN " ++
      Collection.inBackticks (Collection.bareName (Scope.ofQuery q).source)) := by
    rw [String.append_assoc, String.append_assoc]
    exact breaks_append (by decide) (by decide)
  calc references (Program.remove clauses _ _).text
      = references (clausesText clauses ++ (" REMOVE " ++ (Scope.ofQuery q).sourceVariable ++
          " IN " ++ Collection.inBackticks (Collection.bareName (Scope.ofQuery q).source))) := by
        simp only [Program.text, String.append_assoc]
        rfl
    _ = conditionNames q := by
        rw [references_mutation hq hc hbreaks, references_of_plain hrest, List.append_nil]

theorem references_documentText {records : List (OrderedMap Operand)}
    (hm : q.mutation = some (.insert records)) {record : OrderedMap Operand}
    (hr : record ∈ records) :
    references (Program.documentText record.entries) =
      (record.entries.map Prod.snd).filterMap Operand.name? := by
  rw [Program.documentText, references_objectText, List.flatMap_map, ← flatMap_references,
    List.flatMap_map]
  · intro o ho
    apply hq.operands
    rw [Query.operands, Query.mutationOperands, hm]
    exact List.mem_append_right _ (List.mem_flatMap_of_mem hr ho)
  · intro p hp
    obtain ⟨pair, hpair, rfl⟩ := List.mem_map.mp hp
    apply hq.texts
    simp only [Query.texts, hm, List.mem_append]
    exact Or.inl (Or.inr (List.mem_flatMap_of_mem hr (List.mem_map_of_mem hpair)))

theorem references_ofInsert {records : List (OrderedMap Operand)}
    (hm : q.mutation = some (.insert records)) :
    references (Program.ofInsert q records).text =
      (Mutation.insert records).operands.filterMap Operand.name? := by
  have hsource := hq.collections _ List.mem_cons_self
  have hvariable := plain_variableName hsource
  have hopen : Plain ("FOR " ++ Collection.variableName q.source ++ " IN [") := by
    rw [plain_append, plain_append]
    exact ⟨⟨by decide, hvariable⟩, by decide⟩
  have hclose : Plain ("] INSERT " ++ (Collection.variableName q.source ++ (" INTO " ++
      Collection.inBackticks (Collection.bareName q.source)))) := by
    rw [plain_append, plain_append, plain_append]
    exact ⟨by decide, hvariable, by decide, plain_inBackticks (plain_bareName hsource)⟩
  rw [Program.ofInsert, Program.text, String.append_assoc, String.append_assoc,
    String.append_assoc, String.append_assoc, references_plain_append _ hopen,
    references_append_plain (breaks_append (by decide) (by decide)) hclose,
    references_intercalate (by decide) (by decide) (by decide), List.flatMap_map, List.flatMap_map,
    Mutation.operands, List.filterMap_flatMap]
  exact congrArg List.flatten (List.map_congr_left fun _ => references_documentText hq hm)

/-- The statement of a plain query refers to the bindings of its operands, in their order. An
insert has no filter. -/
theorem references_ofQuery {program : Program} (h : Program.ofQuery q = .ok program) :
    references program.text =
      (if q.shape = .insert then [] else conditionNames q) ++
        q.mutationOperands.filterMap Operand.name? := by
  unfold Program.ofQuery at h
  rw [Query.mutationOperands, Query.shape]
  split at h
  next hm =>
    rw [hm, if_neg (by decide), references_ofSelect hq h]
    exact (List.append_nil _).symm
  next records hm =>
    rw [hm, if_pos (by rfl), ← Except.ok.inj h, references_ofInsert hq hm]
    rfl
  next assignments hm =>
    rw [hm, if_neg (by simp [Mutation.shape]), references_ofUpdate hq hm h]
    rfl
  next hm =>
    rw [hm, if_neg (by decide), references_ofDelete hq h]
    exact (List.append_nil _).symm

end Query

end AqlQuery.Aql
