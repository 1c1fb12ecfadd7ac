import AqlQuery.Proofs.Column.Parts
import AqlQuery.Proofs.Filter.Grammar
import AqlQuery.Proofs.Outcome
import AqlQuery.Proofs.Query.Texts
import AqlQuery.Proofs.Text.References

/-!
# The names that a filter refers to

A query is plain if no text of it has an at sign. The columns of a plain query resolve to texts
without an at sign, so that its filter refers to the bindings of the operands of its conditions, in
the order in which the conditions are written, and to nothing else.
-/

namespace AqlQuery.Aql

open Text

/-! ## Collections and columns -/

theorem plain_bareName {raw : String} (h : Plain raw) : Plain (Collection.bareName raw) :=
  plain_of_subset (Collection.bareName_subset raw) h

theorem plain_variableName {raw : String} (h : Plain raw) : Plain (Collection.variableName raw) :=
  plain_append.mpr ⟨plain_bareName h, by decide⟩

theorem plain_inBackticks {name : String} (h : Plain name) :
    Plain (Collection.inBackticks name) := by
  rw [Collection.inBackticks, plain_append, plain_append]
  exact ⟨⟨by decide, h⟩, by decide⟩

/-- A column that is read and returned without an at sign. -/
structure PlainColumn (c : ResolvedColumn) : Prop where
  expression : Plain c.expression
  outputKey : Plain c.outputKey

theorem plainColumn_of_parts {c : ResolvedColumn} (hcollection : Plain c.collection)
    (hentity : Plain c.entity) (hcolumn : ∀ x ∈ c.column, Plain x)
    (hlabel : ∀ x ∈ c.label, Plain x) : PlainColumn c := by
  obtain ⟨collection, entity, column, label⟩ := c
  refine ⟨?_, ?_⟩
  · cases column with
    | none => exact hentity
    | some column =>
      have hquoted : Plain (quoteAttribute column) := by
        unfold quoteAttribute
        split
        · exact hcolumn column rfl
        · exact plain_inBackticks (hcolumn column rfl)
      change Plain (entity ++ "." ++ quoteAttribute column)
      rw [plain_append, plain_append]
      exact ⟨⟨hentity, by decide⟩, hquoted⟩
  · cases label with
    | some label => exact hlabel label rfl
    | none =>
      cases column with
      | some column => exact hcolumn column rfl
      | none => exact hcollection

section Scope

variable {s : Scope} (hs : ∀ name ∈ s.collections, Plain name)
include hs

theorem plainColumn_of_resolve {raw : String} {c : ResolvedColumn} (hraw : Plain raw)
    (h : s.resolve raw = .ok c) : PlainColumn c := by
  obtain ⟨hm, hentity, hcolumn, hlabel⟩ := Scope.resolve_ok h
  have hparse := ColumnRef.parse_subset raw
  refine plainColumn_of_parts (hs _ hm) ?_ ?_ ?_
  · rw [hentity]
    exact plain_variableName (hs _ hm)
  · intro x hx
    rw [hcolumn x hx]
    exact plain_of_subset hparse.1 hraw
  · intro x hx
    rw [hlabel] at hx
    exact plain_of_subset (hparse.2 x hx) hraw

theorem plainColumn_of_resolveTarget {raw : String} {c : ResolvedColumn} (hraw : Plain raw)
    (h : s.resolveTarget raw = .ok c) : PlainColumn c := by
  obtain ⟨hcollection, hentity, hcolumn, hlabel⟩ := Scope.resolveTarget_ok h
  have hsource := hs s.source List.mem_cons_self
  refine plainColumn_of_parts ?_ ?_ ?_ ?_
  · rw [hcollection]
    exact hsource
  · rw [hentity]
    exact plain_variableName hsource
  · intro x hx
    rw [hcolumn x hx]
    exact plain_of_subset (ColumnRef.parse_subset raw).1 hraw
  · intro x hx
    rw [hlabel] at hx
    cases hx

end Scope

/-! ## Filters -/

/-- An operand that refers to its own name, or to nothing if it has none. -/
def Written (o : Operand) : Prop := references o.text = o.name?.toList

theorem flatMap_references {operands : List Operand} (h : ∀ o ∈ operands, Written o) :
    operands.flatMap (fun o => references o.text) = operands.filterMap Operand.name? := by
  induction operands with
  | nil => rfl
  | cons o rest ih =>
    rw [List.flatMap_cons, ih fun o' hm => h o' (List.mem_cons_of_mem o hm),
      h o List.mem_cons_self, List.filterMap_cons]
    cases o.name? <;> rfl

theorem references_binary {left : ResolvedColumn} (hleft : PlainColumn left) (operator : Operator)
    (right : Expr) :
    references (Comparison.binary left operator right).text = references right.text := by
  have hkeyword : Plain operator.keyword := by cases operator <;> decide
  rw [Comparison.text, references_plain_append]
  rw [plain_append, plain_append, plain_append]
  exact ⟨⟨⟨hleft.expression, by decide⟩, hkeyword⟩, by decide⟩

theorem references_among {values : List Operand} (hv : ∀ o ∈ values, Written o) (negated : Bool)
    {column : ResolvedColumn} (hc : PlainColumn column) :
    references (Comparison.among values negated column).text = values.filterMap Operand.name? := by
  have htail : Plain ("] " ++ ((if negated then "NONE" else "ANY") ++ (" == " ++
      column.expression))) := by
    rw [plain_append, plain_append, plain_append]
    exact ⟨by decide, by cases negated <;> decide, by decide, hc.expression⟩
  rw [Comparison.text, String.append_assoc, String.append_assoc, String.append_assoc,
    String.append_assoc, references_plain_append _ (by decide),
    references_append_plain (breaks_append (by decide) (by decide)) htail,
    references_intercalate (by decide) (by decide) (by decide), List.flatMap_map,
    flatMap_references hv]

/-- The references of linked formulas, from left to right. -/
def chainReferences (chain : Chain) : List String :=
  chain.flatMap fun p => references p.2.text

/-- Connectives and blanks refer to nothing and continue no name. -/
theorem references_linkedText (chain : Chain) :
    references (Formula.linkedText chain) = chainReferences chain := by
  induction chain with
  | nil => rfl
  | cons p rest ih =>
    obtain ⟨link, f⟩ := p
    have hlink : Plain (" " ++ link.keyword ++ " ") := by cases link <;> decide
    have hrest : Breaks (Formula.linkedText rest) := by
      cases rest with
      | nil => decide
      | cons p' rest' =>
        rw [Formula.linkedText, String.append_assoc, String.append_assoc, String.append_assoc]
        exact breaks_append (by decide) (by decide)
    rw [Formula.linkedText, String.append_assoc, references_plain_append _ hlink,
      references_append hrest, ih]
    rfl

theorem references_chainText (chain : Chain) :
    references (Formula.chainText chain) = chainReferences chain := by
  cases chain with
  | nil => rfl
  | cons p rest =>
    obtain ⟨link, f⟩ := p
    -- the same text after a connective, which refers to nothing
    have h := references_linkedText ((link, f) :: rest)
    have hlink : Plain (" " ++ link.keyword ++ " ") := by cases link <;> decide
    rw [Formula.linkedText, String.append_assoc, references_plain_append _ hlink] at h
    exact h

theorem references_paren (chain : Chain) :
    references (Formula.paren chain).text = chainReferences chain := by
  rw [Formula.text, String.append_assoc, references_plain_append _ (by decide),
    references_append_plain (by decide) (by decide), references_chainText]

/-- The references of a formula that may be missing. -/
def formulaReferences (formula : Option Formula) : List String :=
  formula.elim [] fun f => references f.text

theorem references_membership {s : Scope} (hs : ∀ name ∈ s.collections, Plain name)
    {column : String} {values : List Operand} (negated : Bool) {formula : Option Formula}
    (hcolumn : Plain column) (hv : ∀ o ∈ values, Written o)
    (h : (do
      let c ← s.resolve column
      .ok (some (Formula.leaf (if values.isEmpty then .never else .among values negated c)))) =
        Except.ok formula) :
    formulaReferences formula = values.filterMap Operand.name? := by
  obtain ⟨c, hc, h⟩ := Outcome.bind_ok h
  cases h
  cases values with
  | nil =>
    -- membership in nothing is written without its column
    exact references_of_plain (show Plain "false" by decide)
  | cons o rest => exact references_among hv negated (plainColumn_of_resolve hs hcolumn hc)

mutual
/-- A formula refers to the names of the operands of its condition. -/
theorem references_formulaOf {s : Scope} (hs : ∀ name ∈ s.collections, Plain name)
    {condition : Condition} {formula : Option Formula}
    (hcolumns : ∀ x ∈ condition.columns, Plain x) (ho : ∀ o ∈ condition.operands, Written o)
    (h : formulaOf s condition = .ok formula) :
    formulaReferences formula = condition.operands.filterMap Operand.name? := by
  cases condition with
  | compare column operator value =>
    obtain ⟨c, hc, h⟩ := Outcome.bind_ok h
    cases h
    have hp := plainColumn_of_resolve hs (hcolumns column List.mem_cons_self) hc
    have hv := flatMap_references ho
    rw [Condition.operands, List.flatMap_singleton] at hv
    rw [Condition.operands, ← hv]
    exact references_binary hp operator (.operand value)
  | member column values =>
    exact references_membership hs false (hcolumns column List.mem_cons_self) ho h
  | notMember column values =>
    exact references_membership hs true (hcolumns column List.mem_cons_self) ho h
  | isNull column =>
    obtain ⟨c, hc, h⟩ := Outcome.bind_ok h
    cases h
    exact references_binary (plainColumn_of_resolve hs (hcolumns column List.mem_cons_self) hc)
      .eq .null
  | notNull column =>
    obtain ⟨c, hc, h⟩ := Outcome.bind_ok h
    cases h
    exact references_binary (plainColumn_of_resolve hs (hcolumns column List.mem_cons_self) hc)
      .ne .null
  | compareColumns first operator second =>
    obtain ⟨a, ha, h⟩ := Outcome.bind_ok h
    obtain ⟨b, hb, h⟩ := Outcome.bind_ok h
    cases h
    have hpa := plainColumn_of_resolve hs (hcolumns first List.mem_cons_self) ha
    have hpb := plainColumn_of_resolve hs
      (hcolumns second (List.mem_cons_of_mem first List.mem_cons_self)) hb
    exact (references_binary hpa operator (.column b)).trans (references_of_plain hpb.expression)
  | group members =>
    obtain ⟨chain, hc, h⟩ := Outcome.bind_ok h
    have hrefs := references_chainOf hs hcolumns ho hc
    rw [Condition.operands, ← hrefs]
    cases h
    cases chain with
    | nil => rfl
    | cons p rest => exact references_paren (p :: rest)
theorem references_chainOf {s : Scope} (hs : ∀ name ∈ s.collections, Plain name)
    {members : List Predicate} {chain : Chain}
    (hcolumns : ∀ x ∈ Condition.memberColumns members, Plain x)
    (ho : ∀ o ∈ Condition.memberOperands members, Written o)
    (h : chainOf s members = .ok chain) :
    chainReferences chain =
      (Condition.memberOperands members).filterMap Operand.name? := by
  cases members with
  | nil =>
    cases h
    rfl
  | cons p rest =>
    obtain ⟨link, condition⟩ := p
    rw [Condition.memberColumns] at hcolumns
    rw [Condition.memberOperands] at ho
    obtain ⟨formula, hf, h⟩ := Outcome.bind_ok h
    obtain ⟨tail, ht, h⟩ := Outcome.bind_ok h
    have hhead := references_formulaOf hs (fun x hm => hcolumns x (List.mem_append_left _ hm))
      (fun o hm => ho o (List.mem_append_left _ hm)) hf
    have htail := references_chainOf hs (fun x hm => hcolumns x (List.mem_append_right _ hm))
      (fun o hm => ho o (List.mem_append_right _ hm)) ht
    rw [Condition.memberOperands, List.filterMap_append, ← hhead, ← htail]
    cases formula with
    | none =>
      cases h
      rfl
    | some f =>
      cases h
      rfl
end

/-- The names that the conditions of a query refer to, those of the joins first. -/
def conditionNames (q : Query) : List String :=
  (q.joinOperands ++ Condition.memberOperands q.predicates).filterMap Operand.name?

/-- A query without an at sign in its texts, whose operands are written as placeholders. -/
structure PlainQuery (q : Query) : Prop where
  texts : ∀ t ∈ q.texts, Plain t
  operands : ∀ o ∈ q.operands, Written o

theorem PlainQuery.columns {q : Query} (hq : PlainQuery q) : ∀ x ∈ q.columns, Plain x :=
  fun x hm => hq.texts x (q.columns_subset_texts hm)

theorem PlainQuery.collections {q : Query} (hq : PlainQuery q) : ∀ x ∈ q.collections, Plain x :=
  fun x hm => hq.texts x (q.collections_subset_texts hm)

theorem references_filterChain {s : Scope} (hs : ∀ name ∈ s.collections, Plain name) {q : Query}
    (hq : PlainQuery q) {chain : Chain} (h : filterChain s q = .ok chain) :
    chainReferences chain = conditionNames q := by
  obtain ⟨parts, hp, h⟩ := Outcome.bind_ok h
  cases h
  have hparts : (parts.flatMap fun part => chainReferences part.1) =
      (predicateLists q).flatMap fun predicates =>
        (Condition.memberOperands predicates).filterMap Operand.name? := by
    refine Outcome.flatMap_mapM_ok ?_ hp
    intro predicates hm part h
    obtain ⟨found, hc, h⟩ := Outcome.bind_ok h
    cases h
    refine references_chainOf hs ?_ ?_ hc
    · intro x hx
      have hcolumn : x ∈ q.conditionColumns := List.mem_flatMap_of_mem hm hx
      exact hq.columns x (by simp [Query.columns, hcolumn])
    · intro o ho
      have hoperand := List.mem_flatMap_of_mem hm ho
      rw [Query.flatMap_memberOperands] at hoperand
      exact hq.operands o (List.mem_append_left _ hoperand)
  refine (@conjoin_flatMap _ (fun f => references f.text) references_paren parts).trans ?_
  refine hparts.trans ?_
  rw [conditionNames, ← Query.flatMap_memberOperands, List.filterMap_flatMap]

end AqlQuery.Aql
