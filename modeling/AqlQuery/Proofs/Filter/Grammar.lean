import AqlQuery.Proofs.Aql.Written

/-!
# Reading a filter

The grammar by which the text of a filter is read: comparisons, conjunctions of them, and
disjunctions of conjunctions, with parentheses around a disjunction in place of a comparison. It
leaves open how a run of one connective associates, so a text may have several readings;
`Reads.eval_eq` shows that they all have one value, which a machine computes token by token.
-/

namespace AqlQuery.Aql

/-- A filter as it is read: comparisons, connectives and parentheses. -/
inductive Token where
  | leaf (c : Comparison)
  | link (connective : Connective)
  | opening
  | closing
  deriving DecidableEq

namespace Token

def text : Token → String
  | .leaf c => c.written
  | .link .and => " AND "
  | .link .or => " OR "
  | .opening => "("
  | .closing => ")"

/-- The text that tokens are written as. -/
def spell (tokens : List Token) : String := String.join (tokens.map text)

def leaf? : Token → Option Comparison
  | .leaf c => some c
  | _ => none

/-- The comparisons among tokens, from left to right. -/
def leaves (tokens : List Token) : List Comparison := tokens.filterMap leaf?

theorem text_link (link : Connective) : (Token.link link).text = " " ++ link.keyword ++ " " := by
  cases link <;> rfl

theorem spell_nil : spell [] = "" := rfl

theorem spell_append (xs ys : List Token) : spell (xs ++ ys) = spell xs ++ spell ys := by
  rw [spell, List.map_append, String.join_append]
  rfl

theorem spell_cons (t : Token) (rest : List Token) : spell (t :: rest) = t.text ++ spell rest := by
  rw [spell, List.map_cons, String.join_cons]
  rfl

end Token

/-- What a filter says. -/
inductive Tree where
  | leaf (c : Comparison)
  | and (left right : Tree)
  | or (left right : Tree)

/-- The value under a truth assignment to the comparisons. -/
def Tree.eval (v : Comparison → Bool) : Tree → Bool
  | .leaf c => v c
  | .and left right => left.eval v && right.eval v
  | .or left right => left.eval v || right.eval v

inductive Rank where
  | atom
  | conjunction
  | disjunction

/-- The readings of tokens. A disjunction is no part of a conjunction unless it stands in
parentheses: `AND` binds tighter than `OR`. -/
inductive Reads : Rank → List Token → Tree → Prop where
  | leaf (c : Comparison) : Reads .atom [.leaf c] (.leaf c)
  | paren {ts : List Token} {t : Tree} (h : Reads .disjunction ts t) :
      Reads .atom (.opening :: (ts ++ [.closing])) t
  | ofAtom {ts : List Token} {t : Tree} (h : Reads .atom ts t) : Reads .conjunction ts t
  | and {ls rs : List Token} {a b : Tree} (hl : Reads .conjunction ls a)
      (hr : Reads .conjunction rs b) : Reads .conjunction (ls ++ .link .and :: rs) (.and a b)
  | ofConjunction {ts : List Token} {t : Tree} (h : Reads .conjunction ts t) :
      Reads .disjunction ts t
  | or {ls rs : List Token} {a b : Tree} (hl : Reads .disjunction ls a)
      (hr : Reads .disjunction rs b) : Reads .disjunction (ls ++ .link .or :: rs) (.or a b)

/-! ## One value for all readings -/

/-- An open disjunction: whether a conjunction before the current one held, and whether the current
one holds so far. -/
structure Pending where
  before : Bool
  current : Bool

def Pending.value (p : Pending) : Bool := p.before || p.current

def Pending.start : Pending := ⟨false, true⟩

/-- Reads one token; each parenthesis that is open has a disjunction on the stack. -/
def Token.step (v : Comparison → Bool) : Token → Pending × List Pending → Pending × List Pending
  | .leaf c, (p, stack) => (⟨p.before, p.current && v c⟩, stack)
  | .link .and, (p, stack) => (p, stack)
  | .link .or, (p, stack) => (⟨p.value, true⟩, stack)
  | .opening, (p, stack) => (.start, p :: stack)
  | .closing, (p, outer :: stack) => (⟨outer.before, outer.current && p.value⟩, stack)
  | .closing, (p, []) => (p, [])

def Token.run (v : Comparison → Bool) (tokens : List Token) (state : Pending × List Pending) :
    Pending × List Pending :=
  tokens.foldl (fun state t => t.step v state) state

theorem Token.run_append (v : Comparison → Bool) (xs ys : List Token)
    (state : Pending × List Pending) :
    Token.run v (xs ++ ys) state = Token.run v ys (Token.run v xs state) :=
  List.foldl_append

/-- What the machine makes of a reading. Within a conjunction it goes on with the current one; a
disjunction starts a new one. -/
def Reads.Computes (v : Comparison → Bool) (tokens : List Token) (t : Tree) : Rank → Prop
  | .disjunction => ∀ before stack, ∃ after,
      Token.run v tokens (⟨before, true⟩, stack) = (after, stack) ∧
        after.value = (before || t.eval v)
  | _ => ∀ p stack, Token.run v tokens (p, stack) = (⟨p.before, p.current && t.eval v⟩, stack)

theorem Reads.computes (v : Comparison → Bool) {rank : Rank} {tokens : List Token} {t : Tree}
    (h : Reads rank tokens t) : Reads.Computes v tokens t rank := by
  induction h with
  | leaf c => exact fun p stack => rfl
  | @paren ts t h ih =>
    -- the disjunction inside starts anew, with the outer one on the stack
    intro p stack
    obtain ⟨after, hrun, hvalue⟩ := ih false (p :: stack)
    change Token.run v (ts ++ [.closing]) (.start, p :: stack) = _
    rw [Token.run_append, Pending.start, hrun]
    change (Pending.mk p.before (p.current && after.value), stack) = _
    rw [hvalue, Bool.false_or]
  | ofAtom h ih => exact ih
  | @and ls rs a b hl hr ihl ihr =>
    intro p stack
    rw [Token.run_append, ihl p stack]
    change Token.run v rs (_, stack) = _
    rw [ihr, Tree.eval, Bool.and_assoc]
  | @ofConjunction ts t h ih =>
    intro before stack
    exact ⟨_, ih ⟨before, true⟩ stack, rfl⟩
  | or hl hr ihl ihr =>
    intro before stack
    -- what the left side came to is before the first conjunction of the right side
    obtain ⟨first, hfirst, hleft⟩ := ihl before stack
    obtain ⟨last, hlast, hright⟩ := ihr first.value stack
    refine ⟨last, ?_, ?_⟩
    · rw [Token.run_append, hfirst]
      exact hlast
    · rw [hright, hleft, Tree.eval, Bool.or_assoc]

/-- All readings of a filter have the same value. -/
theorem Reads.eval_eq {tokens : List Token} {s t : Tree} (hs : Reads .disjunction tokens s)
    (ht : Reads .disjunction tokens t) (v : Comparison → Bool) : s.eval v = t.eval v := by
  obtain ⟨_, hrun, hvalue⟩ := hs.computes v false []
  obtain ⟨_, hrun', hvalue'⟩ := ht.computes v false []
  rw [hrun] at hrun'
  cases hrun'
  rw [hvalue] at hvalue'
  exact hvalue'

/-! ## Formulas -/

mutual
/-- The tokens of a formula. -/
def Formula.tokens : Formula → List Token
  | .leaf c => [.leaf c]
  | .paren chain => .opening :: (Formula.chainTokens chain ++ [.closing])
/-- The tokens of a chain. -/
def Formula.chainTokens : List (Connective × Formula) → List Token
  | [] => []
  | (_, f) :: rest => f.tokens ++ Formula.linkedTokens rest
/-- The tokens of the formulas after the first, each after its connective. -/
def Formula.linkedTokens : List (Connective × Formula) → List Token
  | [] => []
  | (link, f) :: rest => .link link :: (f.tokens ++ Formula.linkedTokens rest)
end

mutual
theorem Formula.text_eq_spell (f : Formula) : f.text = Token.spell f.tokens := by
  cases f with
  | leaf c =>
    rw [Formula.text, Formula.tokens, Token.spell_cons, Token.spell_nil, String.append_empty]
    exact c.text_eq
  | paren chain =>
    rw [Formula.text, Formula.tokens, Token.spell_cons, Token.spell_append, Token.spell_cons,
      Token.spell_nil, String.append_empty, String.append_assoc, Formula.chainText_eq_spell chain]
    rfl
theorem Formula.chainText_eq_spell (chain : Chain) :
    Formula.chainText chain = Token.spell (Formula.chainTokens chain) := by
  cases chain with
  | nil => rfl
  | cons p rest =>
    obtain ⟨link, f⟩ := p
    rw [Formula.chainText, Formula.chainTokens, Token.spell_append, Formula.text_eq_spell f,
      Formula.linkedText_eq_spell rest]
theorem Formula.linkedText_eq_spell (chain : Chain) :
    Formula.linkedText chain = Token.spell (Formula.linkedTokens chain) := by
  cases chain with
  | nil => rfl
  | cons p rest =>
    obtain ⟨link, f⟩ := p
    rw [Formula.linkedText, Formula.linkedTokens, Token.spell_cons, Token.spell_append,
      Token.text_link, String.append_assoc, Formula.text_eq_spell f,
      Formula.linkedText_eq_spell rest]
end

/-- The value of linked values after a conjunction: `AND` goes on with it and `OR` ends it. -/
def joinedValue (conjunction : Bool) : List (Connective × Bool) → Bool
  | [] => conjunction
  | (.and, b) :: rest => joinedValue (conjunction && b) rest
  | (.or, b) :: rest => conjunction || joinedValue b rest

/-- The value of linked values, the connective of the first one dropped. No value at all holds. -/
def linkedValue : List (Connective × Bool) → Bool
  | [] => true
  | (_, b) :: rest => joinedValue b rest

mutual
/-- The value of a formula under a truth assignment to the comparisons. -/
def Formula.value (v : Comparison → Bool) : Formula → Bool
  | .leaf c => v c
  | .paren chain => linkedValue (Formula.chainValues v chain)
/-- The values of linked formulas. -/
def Formula.chainValues (v : Comparison → Bool) :
    List (Connective × Formula) → List (Connective × Bool)
  | [] => []
  | (link, f) :: rest => (link, f.value v) :: Formula.chainValues v rest
end

mutual
/-- The comparisons of a formula, from left to right. -/
def Formula.leaves : Formula → List Comparison
  | .leaf c => [c]
  | .paren chain => Formula.chainLeaves chain
/-- The comparisons of linked formulas. -/
def Formula.chainLeaves : List (Connective × Formula) → List Comparison
  | [] => []
  | (_, f) :: rest => f.leaves ++ Formula.chainLeaves rest
end

mutual
theorem Formula.leaves_tokens (f : Formula) : Token.leaves f.tokens = f.leaves := by
  cases f with
  | leaf c => rfl
  | paren chain =>
    change (Formula.chainTokens chain ++ [Token.closing]).filterMap Token.leaf? = _
    rw [List.filterMap_append]
    exact (List.append_nil _).trans (Formula.leaves_chainTokens chain)
theorem Formula.leaves_chainTokens (chain : Chain) :
    Token.leaves (Formula.chainTokens chain) = Formula.chainLeaves chain := by
  cases chain with
  | nil => rfl
  | cons p rest =>
    obtain ⟨link, f⟩ := p
    have hf := Formula.leaves_tokens f
    have hrest := Formula.leaves_linkedTokens rest
    rw [Token.leaves] at hf hrest ⊢
    rw [Formula.chainTokens, List.filterMap_append, hf, hrest, Formula.chainLeaves]
theorem Formula.leaves_linkedTokens (chain : Chain) :
    Token.leaves (Formula.linkedTokens chain) = Formula.chainLeaves chain := by
  cases chain with
  | nil => rfl
  | cons p rest =>
    obtain ⟨link, f⟩ := p
    have hf := Formula.leaves_tokens f
    have hrest := Formula.leaves_linkedTokens rest
    rw [Token.leaves] at hf hrest
    change (f.tokens ++ Formula.linkedTokens rest).filterMap Token.leaf? = _
    rw [List.filterMap_append, hf, hrest, Formula.chainLeaves]
end

mutual
/-- No parentheses of the formula are empty. -/
def Formula.Proper : Formula → Prop
  | .leaf _ => True
  | .paren chain => chain ≠ [] ∧ Formula.ChainProper chain
/-- No parentheses of linked formulas are empty. -/
def Formula.ChainProper : List (Connective × Formula) → Prop
  | [] => True
  | (_, f) :: rest => f.Proper ∧ Formula.ChainProper rest
end

theorem Formula.Proper.leaves_ne_nil {f : Formula} (h : f.Proper) : f.leaves ≠ [] := by
  cases f with
  | leaf c => exact List.cons_ne_nil c []
  | paren chain =>
    cases chain with
    | nil => exact absurd rfl h.1
    | cons p rest =>
      intro hnil
      exact Formula.Proper.leaves_ne_nil h.2.1 (List.append_eq_nil_iff.mp hnil).1

theorem Formula.chainLeaves_eq_nil_iff {chain : Chain} (h : Formula.ChainProper chain) :
    Formula.chainLeaves chain = [] ↔ chain = [] := by
  cases chain with
  | nil => exact ⟨fun _ => rfl, fun _ => rfl⟩
  | cons p rest =>
    refine ⟨fun hnil => ?_, fun hnil => nomatch hnil⟩
    exact absurd (List.append_eq_nil_iff.mp hnil).1 h.1.leaves_ne_nil

mutual
theorem Formula.exists_reading {f : Formula} (h : f.Proper) :
    ∃ t, Reads .atom f.tokens t ∧ ∀ v, t.eval v = f.value v := by
  cases f with
  | leaf c => exact ⟨.leaf c, .leaf c, fun v => rfl⟩
  | paren chain =>
    obtain ⟨t, hr, hv⟩ := Formula.exists_chain_reading h.1 h.2
    exact ⟨t, .paren hr, hv⟩
/-- A chain that says something has a reading, and its value is that of the chain. -/
theorem Formula.exists_chain_reading {chain : Chain} (hne : chain ≠ [])
    (h : Formula.ChainProper chain) :
    ∃ t, Reads .disjunction (Formula.chainTokens chain) t ∧
      ∀ v, t.eval v = linkedValue (Formula.chainValues v chain) := by
  cases chain with
  | nil => exact absurd rfl hne
  | cons p rest =>
    obtain ⟨link, f⟩ := p
    obtain ⟨a, ha, hv⟩ := Formula.exists_reading h.1
    obtain ⟨t, ht, hvalue⟩ := Formula.exists_linked_reading h.2 (.ofAtom ha)
    refine ⟨t, ht, fun v => ?_⟩
    rw [hvalue, hv]
    rfl
theorem Formula.exists_linked_reading {rest : Chain} (h : Formula.ChainProper rest)
    {ts : List Token} {a : Tree} (ha : Reads .conjunction ts a) :
    ∃ t, Reads .disjunction (ts ++ Formula.linkedTokens rest) t ∧
      ∀ v, t.eval v = joinedValue (a.eval v) (Formula.chainValues v rest) := by
  cases rest with
  | nil =>
    rw [Formula.linkedTokens, List.append_nil]
    exact ⟨a, .ofConjunction ha, fun v => rfl⟩
  | cons p rest =>
    obtain ⟨link, f⟩ := p
    obtain ⟨b, hb, hv⟩ := Formula.exists_reading h.1
    cases link with
    | and =>
      -- the next formula joins the conjunction that was read so far
      obtain ⟨t, ht, hvalue⟩ := Formula.exists_linked_reading h.2 (ha.and (.ofAtom hb))
      rw [List.append_assoc] at ht
      refine ⟨t, ht, fun v => ?_⟩
      rw [hvalue, Tree.eval, hv]
      rfl
    | or =>
      -- the next formula starts a conjunction of its own
      obtain ⟨t, ht, hvalue⟩ := Formula.exists_linked_reading h.2 (.ofAtom hb)
      refine ⟨.or a t, .or (.ofConjunction ha) ht, fun v => ?_⟩
      rw [Tree.eval, hvalue, hv]
      rfl
end

/-! ## Conjunctions of parts -/

theorem chainLeaves_eq_flatMap (chain : Chain) :
    Formula.chainLeaves chain = chain.flatMap fun p => p.2.leaves := by
  induction chain with
  | nil => rfl
  | cons p rest ih => rw [Formula.chainLeaves, ih, List.flatMap_cons]

section Conjoin

variable {α : Type} {h : Formula → List α}
  (hparen : ∀ chain, h (.paren chain) = chain.flatMap fun p => h p.2)
include hparen

theorem asConjunct_flatMap (part : Chain × Bool) :
    ((asConjunct part).flatMap fun p => h p.2) = part.1.flatMap fun p => h p.2 := by
  obtain ⟨chain, disjunctive⟩ := part
  cases disjunctive with
  | true => exact (List.append_nil _).trans (hparen chain)
  | false => cases chain <;> rfl

/-- What is read off formulas from left to right does not depend on the parentheses around a part,
nor on the parts that are left out. -/
theorem conjoin_flatMap (parts : List (Chain × Bool)) :
    ((conjoin (parts.filter fun part => !part.1.isEmpty)).flatMap fun p => h p.2) =
      parts.flatMap fun part => part.1.flatMap fun p => h p.2 := by
  have hkept : (parts.filter fun part => !part.1.isEmpty).flatMap
      (fun part => part.1.flatMap fun p => h p.2) =
        parts.flatMap fun part => part.1.flatMap fun p => h p.2 := by
    induction parts with
    | nil => rfl
    | cons part rest ih =>
      obtain ⟨chain, disjunctive⟩ := part
      rw [List.filter_cons, List.flatMap_cons, ← ih]
      cases chain <;> rfl
  rw [← hkept]
  generalize (parts.filter fun part => !part.1.isEmpty) = kept
  unfold conjoin
  split
  next => rfl
  next chain disjunctive => rw [List.flatMap_singleton]
  next =>
    rw [List.flatMap_assoc]
    congr 1
    funext part
    exact asConjunct_flatMap hparen part

end Conjoin

end AqlQuery.Aql
