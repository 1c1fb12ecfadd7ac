import Mathlib.Data.Int.Order.Basic
import Mathlib.Order.Lattice
import AqlQuery.Proofs.Filter.Meaning

/-!
# Ranges

A range is a group of two comparisons, one with each bound. It is the group that these comparisons
make when they are given one after the other: both ways bind the bounds under the same names and
end in the same query. A range and its complement are written with the same operands, and wherever
a total order decides the comparisons, one of the two holds and the other does not.
-/

namespace AqlQuery

/-- A column strictly between two operands, or outside of that range. -/
def Condition.range (negated : Bool) (column : String) (low high : Operand) : Condition :=
  .group (if negated then [(.and, .compare column .le low), (.or, .compare column .ge high)]
    else [(.and, .compare column .gt low), (.and, .compare column .lt high)])

/-! ## Two comparisons in a group -/

namespace Query

variable {low high : Literal}

theorem filter_of_not_null (hlow : low.isNull = false) (link : Connective) (column : String)
    (operator : Operator) (q : Query) :
    q.filter link column operator low =
      .ok ((q.bind low).2.push link (.compare column operator (q.bind low).1)) := by
  unfold filter
  rw [if_neg (Bool.eq_false_iff.mp hlow)]

theorem whereNested_comparisons (hlow : low.isNull = false) (hhigh : high.isNull = false)
    (link inner : Connective) (column : String) (first second : Operator) (q : Query) :
    q.whereNested link
        (fun g => g.filter .and column first low >>= filter inner column second high) =
      .ok (((q.bind low).2.bind high).2.push link (.group
        [(.and, .compare column first (q.bind low).1),
          (inner, .compare column second ((q.bind low).2.bind high).1)])) := by
  -- the scratch query has the table of `q`, so the comparisons bind what `q` itself would bind
  have hbuild : (q.scratch.filter .and column first low >>= filter inner column second high) =
      .ok (((q.scratch.bind low).2.push .and (.compare column first (q.bind low).1)).bind
        high |>.2.push inner (.compare column second ((q.bind low).2.bind high).1)) := by
    rw [filter_of_not_null hlow]
    exact filter_of_not_null hhigh inner column second _
  unfold whereNested
  dsimp only
  rw [hbuild]
  rfl

end Query

/-! ## The text of a range and its value -/

namespace Aql

/-- What a range is written as. -/
def rangeFormula (negated : Bool) (c : ResolvedColumn) (low high : Operand) : Formula :=
  .paren (if negated then
      [(.and, .leaf (.binary c .le (.operand low))), (.or, .leaf (.binary c .ge (.operand high)))]
    else
      [(.and, .leaf (.binary c .gt (.operand low))), (.and, .leaf (.binary c .lt (.operand high)))])

variable {s : Scope} {column : String} {c : ResolvedColumn}

theorem formulaOf_range (hc : s.resolve column = .ok c) (negated : Bool) (low high : Operand) :
    formulaOf s (.range negated column low high) =
      .ok (some (rangeFormula negated c low high)) := by
  cases negated
  all_goals
    change formulaOf s (.group [_, _]) = _
    simp only [formulaOf, chainOf, hc]
    rfl

theorem text_binary_operand (c : ResolvedColumn) (operator : Operator) (o : Operand) :
    (Comparison.binary c operator (.operand o)).text =
      c.expression ++ (" " ++ operator.keyword ++ " ") ++ o.text := by
  simp only [Comparison.text, Expr.text, String.append_assoc]

theorem text_paren_pair (link first : Connective) (a b : Comparison) :
    (Formula.paren [(first, .leaf a), (link, .leaf b)]).text =
      "(" ++ a.text ++ (" " ++ link.keyword ++ " ") ++ b.text ++ ")" := by
  simp only [Formula.text, Formula.chainText, Formula.linkedText, String.append_empty,
    String.append_assoc]

theorem rangeFormula_proper (negated : Bool) (c : ResolvedColumn) (low high : Operand) :
    (rangeFormula negated c low high).Proper := by
  cases negated
  all_goals exact ⟨List.cons_ne_nil _ _, trivial, trivial, trivial⟩

theorem Formula.exists_reads {f : Formula} (hf : f.Proper) :
    ∃ t, Reads .disjunction f.tokens t ∧ ∀ v, t.eval v = f.value v := by
  obtain ⟨t, ht, hvalue⟩ := Formula.exists_reading hf
  exact ⟨t, .ofConjunction (.ofAtom ht), hvalue⟩

/-- Whatever a text is read as, its value is that of the formula it was written for. -/
theorem Formula.eval_of_reads {f : Formula} (hf : f.Proper) {t : Tree}
    (ht : Reads .disjunction f.tokens t) (v : Comparison → Bool) : t.eval v = f.value v := by
  obtain ⟨t', ht', hvalue⟩ := Formula.exists_reads hf
  rw [ht.eval_eq ht' v, hvalue]

/-- An order decides how a column compares with operands: the column has the value `x`, and each
operand the value that `y` gives it. -/
structure Decides {α : Type} [LinearOrder α] (c : ResolvedColumn) (x : α) (y : Operand → α)
    (v : Comparison → Bool) : Prop where
  lt (o : Operand) : v (.binary c .lt (.operand o)) = decide (x < y o)
  le (o : Operand) : v (.binary c .le (.operand o)) = decide (x ≤ y o)
  gt (o : Operand) : v (.binary c .gt (.operand o)) = decide (x > y o)
  ge (o : Operand) : v (.binary c .ge (.operand o)) = decide (x ≥ y o)

/-- Every order decides the comparisons in some way. -/
theorem exists_decides {α : Type} [LinearOrder α] (c : ResolvedColumn) (x : α) (y : Operand → α) :
    ∃ v, Decides c x y v :=
  ⟨fun
    | .binary _ .lt (.operand o) => decide (x < y o)
    | .binary _ .le (.operand o) => decide (x ≤ y o)
    | .binary _ .gt (.operand o) => decide (x > y o)
    | .binary _ .ge (.operand o) => decide (x ≥ y o)
    | _ => false, fun _ => rfl, fun _ => rfl, fun _ => rfl, fun _ => rfl⟩

section Order

variable {α : Type} [LinearOrder α] {x : α} {y : Operand → α} {v : Comparison → Bool}

theorem value_rangeFormula (hv : Decides c x y v) (low high : Operand) :
    (rangeFormula false c low high).value v = decide (y low < x ∧ x < y high) := by
  change (v (.binary c .gt (.operand low)) && v (.binary c .lt (.operand high))) = _
  rw [hv.gt, hv.lt, ← Bool.decide_and]

theorem value_rangeFormula_negated (hv : Decides c x y v) (low high : Operand) :
    (rangeFormula true c low high).value v = !(rangeFormula false c low high).value v := by
  -- totality: a value is at most a bound exactly if it is not above it
  have hle : decide (x ≤ y low) = !decide (y low < x) := by
    rw [← decide_not, decide_eq_decide, not_lt]
  have hge : decide (y high ≤ x) = !decide (x < y high) := by
    rw [← decide_not, decide_eq_decide, not_lt]
  change (v (.binary c .le (.operand low)) || v (.binary c .ge (.operand high))) = _
  rw [value_rangeFormula hv, hv.le, hv.ge, hle, hge, Bool.decide_and, Bool.not_and]

end Order

end Aql

open Aql

/-- A range with bounds that are not null is the group of its two comparisons, as a query with its
table. It and its complement are written with the same operands, and any order on the values makes
each of them hold exactly where the other does not. -/
theorem Query.whereBetween_eq_whereNested (q : Query) (link : Connective) (column : String)
    {low high : Literal} (hlow : low.isNull = false) (hhigh : high.isNull = false) :
    q.whereNested link (fun g => g.filter .and column .gt low >>= filter .and column .lt high) =
      .ok (q.whereBetween link false column low high) ∧
    q.whereNested link (fun g => g.filter .and column .le low >>= filter .or column .ge high) =
      .ok (q.whereBetween link true column low high) ∧
    ∃ l h : Operand,
      (∀ negated, (q.whereBetween link negated column low high).predicates =
        q.predicates ++ [(link, .range negated column l h)]) ∧
      ∀ (s : Scope) (c : ResolvedColumn), s.resolve column = .ok c → ∃ inside outside : Formula,
        formulaOf s (.range false column l h) = .ok (some inside) ∧
        formulaOf s (.range true column l h) = .ok (some outside) ∧
        inside.text = "(" ++ (c.expression ++ " > " ++ l.text) ++ " AND " ++
          (c.expression ++ " < " ++ h.text) ++ ")" ∧
        outside.text = "(" ++ (c.expression ++ " <= " ++ l.text) ++ " OR " ++
          (c.expression ++ " >= " ++ h.text) ++ ")" ∧
        (∃ t, Reads .disjunction inside.tokens t) ∧ (∃ t, Reads .disjunction outside.tokens t) ∧
        ∀ (α : Type) [LinearOrder α] (x : α) (y : Operand → α) (v : Comparison → Bool),
          Decides c x y v → ∀ t t', Reads .disjunction inside.tokens t →
            Reads .disjunction outside.tokens t' →
              (t.eval v = true ↔ y l < x ∧ x < y h) ∧ (t'.eval v = true ↔ t.eval v = false) := by
  refine ⟨whereNested_comparisons hlow hhigh .., whereNested_comparisons hlow hhigh ..,
    (q.bind low).1, ((q.bind low).2.bind high).1, fun negated => rfl, ?_⟩
  intro s c hc
  have hreads (negated : Bool) : ∃ t, Reads .disjunction
      (rangeFormula negated c (q.bind low).1 ((q.bind low).2.bind high).1).tokens t := by
    obtain ⟨t, ht, _⟩ := Formula.exists_reads (rangeFormula_proper negated c _ _)
    exact ⟨t, ht⟩
  refine ⟨_, _, formulaOf_range hc false _ _, formulaOf_range hc true _ _, ?_, ?_, hreads false,
    hreads true, ?_⟩
  · exact (text_paren_pair ..).trans (by rw [text_binary_operand, text_binary_operand]; rfl)
  · exact (text_paren_pair ..).trans (by rw [text_binary_operand, text_binary_operand]; rfl)
  · intro α _ x y v hv t t' ht ht'
    rw [Formula.eval_of_reads (rangeFormula_proper ..) ht v,
      Formula.eval_of_reads (rangeFormula_proper ..) ht' v, value_rangeFormula_negated hv]
    refine ⟨?_, ?_⟩
    · rw [value_rangeFormula hv, decide_eq_true_iff]
    · rw [Bool.not_eq_true']

/-- A query that has bound a value before the bounds of a range. -/
def rolesQuery : Query := (Query.table "users").filterEq .and "role" (.value (.string "admin"))

theorem Query.whereBetween_eq_whereNested_roles :
    (Literal.value (.string "A")).isNull = false ∧
      (Literal.raw "users_entity.best").isNull = false ∧
      rolesQuery.whereNested .or (fun g => g.filter .and "grade" .le (.value (.string "A")) >>=
          filter .or "grade" .ge (.raw "users_entity.best")) =
        .ok (rolesQuery.whereBetween .or true "grade" (.value (.string "A"))
          (.raw "users_entity.best")) ∧
      ∃ (l h : Operand) (c : ResolvedColumn) (outside : Formula),
        (Scope.ofQuery rolesQuery).resolve "grade" = .ok c ∧
        formulaOf (Scope.ofQuery rolesQuery) (.range true "grade" l h) = .ok (some outside) ∧
        outside.text = "(" ++ (c.expression ++ " <= " ++ l.text) ++ " OR " ++
          (c.expression ++ " >= " ++ h.text) ++ ")" ∧
        ∃ v t, Decides c (5 : Int) (fun _ => 3) v ∧
          Reads .disjunction outside.tokens t ∧ t.eval v = true := by
  have hlow : (Literal.value (.string "A")).isNull = false := rfl
  have hhigh : (Literal.raw "users_entity.best").isNull = false := rfl
  obtain ⟨c, hc⟩ : ∃ c, (Scope.ofQuery rolesQuery).resolve "grade" = .ok c :=
    Outcome.exists_ok (by decide +kernel)
  obtain ⟨_, hout, l, h, _, hscope⟩ :=
    whereBetween_eq_whereNested rolesQuery .or "grade" hlow hhigh
  obtain ⟨inside, outside, _, hf, _, htext, ⟨t, ht⟩, ⟨t', ht'⟩, hvalue⟩ :=
    hscope (Scope.ofQuery rolesQuery) c hc
  obtain ⟨v, hv⟩ := exists_decides c (5 : Int) fun _ => 3
  obtain ⟨hin, hneg⟩ := hvalue Int 5 _ v hv t t' ht ht'
  refine ⟨hlow, hhigh, hout, l, h, c, outside, hc, hf, htext, v, t', hv, ht', hneg.mpr ?_⟩
  -- five is not below three, so it is not inside
  rw [Bool.eq_false_iff, ne_eq, hin]
  decide

end AqlQuery
