import AqlQuery.Proofs.Aql.Clauses
import AqlQuery.Proofs.Binding.Normal
import AqlQuery.Proofs.Filter.Grammar

/-!
# The layout of a statement

A statement over rows starts with its loops, one over the source and one for each join. Its other
clauses follow, in the same order for every statement, and an aggregate over all rows, an update or
a removal puts its own text around them. The loops depend on the names of the collections only. A
filter stands between the loops and the next clause, or the write.
-/

namespace AqlQuery

/-! ## Loops -/

/-- The loops of the statements of a query, that over the source first. -/
def Query.loops (q : Query) : List Aql.Loop :=
  ⟨(Scope.ofQuery q).sourceVariable, Collection.bareName (Scope.ofQuery q).source⟩ ::
    q.joins.map Aql.Frame.joinLoop

namespace Aql

/-- Loops as they stand in a statement. -/
def loopsText (loops : List Loop) : String := " ".intercalate (loops.map Loop.text)

/-- Clauses as they follow on others, a blank before each. -/
def followingText (clauses : List Clause) : String :=
  String.join (clauses.map fun c => " " ++ c.text)

/-- The loops that a clause holds. -/
def Clause.loops : Clause → List Loop
  | .loop l => [l]
  | .joins ls => ls
  | _ => []

namespace ClauseKind

/-- The kinds of clauses after the loops of a select. -/
def selectRest : List ClauseKind := [.filter, .collect, .sort, .limit, .returning]

/-- The kinds of clauses between the loops and an update or a removal. -/
def mutationRest : List ClauseKind := [.filter, .sort, .limit]

end ClauseKind

/-- The clauses that hold the loops of a query. -/
def loopClauses (q : Query) : List Clause :=
  .loop ⟨(Scope.ofQuery q).sourceVariable, Collection.bareName (Scope.ofQuery q).source⟩ ::
    if q.joins.isEmpty then [] else [.joins (q.joins.map Frame.joinLoop)]

theorem loops_loopClauses (q : Query) : (loopClauses q).flatMap Clause.loops = q.loops := by
  unfold loopClauses Query.loops
  cases q.joins with
  | nil => rfl
  | cons j rest => simp [Clause.loops]

theorem intercalate_blank (first : String) (rest : List String) :
    " ".intercalate (first :: rest) = first ++ String.join (rest.map (" " ++ ·)) := by
  induction rest generalizing first with
  | nil => simp [String.join_nil]
  | cons next rest ih =>
    rw [String.intercalate_cons_cons, ih, List.map_cons, String.join_cons]
    simp only [String.append_assoc]

theorem followingText_cons (c : Clause) (rest : List Clause) :
    followingText (c :: rest) = " " ++ c.text ++ followingText rest := by
  rw [followingText, List.map_cons, String.join_cons]
  rfl

theorem clausesText_cons (c : Clause) (rest : List Clause) :
    clausesText (c :: rest) = c.text ++ followingText rest := by
  rw [clausesText, List.map_cons, intercalate_blank, List.map_map]
  rfl

theorem loopsText_concat (first : Loop) (rest : List Loop) (last : Loop) :
    loopsText (first :: (rest ++ [last])) = loopsText (first :: rest) ++ " " ++ last.text := by
  simp only [loopsText, List.map_cons, intercalate_blank, List.map_append, String.join_append,
    List.map_nil, String.join_cons, String.join_nil, String.append_empty, String.append_assoc]

theorem loopsText_eq (loops : List Loop) :
    loopsText loops = " ".intercalate (loops.map Loop.written) := by
  rw [loopsText, funext Loop.text_eq]

/-- The clauses of the loops are written as the loops one after the other. -/
theorem clausesText_loopClauses (q : Query) (rest : List Clause) :
    clausesText (loopClauses q ++ rest) = loopsText q.loops ++ followingText rest := by
  unfold loopClauses Query.loops loopsText
  rw [List.cons_append, clausesText_cons, List.map_cons, intercalate_blank]
  cases q.joins with
  | nil =>
    rw [List.map_nil, List.map_nil, List.map_nil, String.join_nil, String.append_empty]
    rfl
  | cons j joins =>
    -- the loops of the joins make one clause, with the same blanks between them
    have hjoins : " " ++ Clause.text (.joins ((j :: joins).map Frame.joinLoop)) =
        String.join ((((j :: joins).map Frame.joinLoop).map Loop.text).map (" " ++ ·)) := by
      simp only [List.map_cons, String.join_cons, String.append_assoc]
      rw [← intercalate_blank]
      rfl
    change _ ++ followingText (.joins ((j :: joins).map Frame.joinLoop) :: rest) = _
    rw [followingText_cons, hjoins, ← String.append_assoc]
    rfl

/-! ## Clauses -/

namespace Frame

variable (q : Query) (groups : List ResolvedColumn)

theorem clauses_afterLoops (kinds : List ClauseKind) :
    clauses ⟨q, Scope.ofQuery q, groups⟩ (.loop :: .joins :: kinds) = (do
      let rest ← clauses ⟨q, Scope.ofQuery q, groups⟩ kinds
      .ok (loopClauses q ++ rest)) := by
  rw [clauses_cons, clauses_cons]
  unfold loopClauses
  cases clauses ⟨q, Scope.ofQuery q, groups⟩ kinds with
  | error e => rfl
  | ok rest =>
    cases hj : q.joins.isEmpty with
    | true => simp [clause, joinsClause, hj, loopClause, bind, Except.bind]
    | false => simp [clause, joinsClause, hj, loopClause, bind, Except.bind]

end Frame

theorem Clause.loops_of_kind {c : Clause} (h : c.kind ∈ ClauseKind.selectRest) : c.loops = [] := by
  cases c with
  | loop l =>
    change ClauseKind.loop ∈ ClauseKind.selectRest at h
    exact absurd h (by decide)
  | joins ls =>
    change ClauseKind.joins ∈ ClauseKind.selectRest at h
    exact absurd h (by decide)
  | _ => rfl

/-! ## What stands behind a filter -/

/-- A text goes on with a clause behind the filter, or with an update or a removal. -/
def GoesOn (text : String) : Prop :=
  ∃ keyword ∈ [" COLLECT ", " SORT ", " LIMIT ", " RETURN ", " UPDATE ", " REMOVE "],
    ∃ rest, text = keyword ++ rest

theorem goesOn_append {text : String} (h : GoesOn text) (more : String) :
    GoesOn (text ++ more) := by
  obtain ⟨keyword, hk, rest, rfl⟩ := h
  exact ⟨keyword, hk, rest ++ more, String.append_assoc⟩

theorem goesOn_clause {c : Clause}
    (h : c.kind ∈ [ClauseKind.collect, .sort, .limit, .returning]) : GoesOn (" " ++ c.text) := by
  cases c with
  | collect groups aggregate =>
    change GoesOn (" " ++ ("COLLECT " ++ _ ++ _))
    rw [String.append_assoc, ← String.append_assoc]
    exact ⟨" COLLECT ", by decide, _, rfl⟩
  | sort items =>
    rw [Clause.text, ← String.append_assoc]
    exact ⟨" SORT ", by decide, _, rfl⟩
  | limit offset count =>
    cases offset with
    | none =>
      rw [Clause.text, ← String.append_assoc]
      exact ⟨" LIMIT ", by decide, _, rfl⟩
    | some offset =>
      rw [Clause.text, String.append_assoc, String.append_assoc, ← String.append_assoc]
      exact ⟨" LIMIT ", by decide, _, rfl⟩
  | returning output =>
    rw [Clause.text, ← String.append_assoc]
    exact ⟨" RETURN ", by decide, _, rfl⟩
  | _ => simp [Clause.kind] at h

theorem goesOn_following {cs : List Clause} {ending : String}
    (hkinds : (cs.map Clause.kind).Sublist [.collect, .sort, .limit, .returning])
    (h : cs ≠ [] ∨ GoesOn ending) : GoesOn (followingText cs ++ ending) := by
  cases cs with
  | nil =>
    rw [followingText, List.map_nil, String.join_nil, String.empty_append]
    exact h.resolve_left fun hne => hne rfl
  | cons c rest =>
    rw [followingText_cons, String.append_assoc]
    exact goesOn_append (goesOn_clause (hkinds.subset List.mem_cons_self)) _

/-- What a statement over rows starts with: nothing, or the aggregate of all rows. -/
def openings : List String :=
  "" :: ["COUNT(", "SUM(", "MIN(", "MAX(", "AVERAGE("].map
    fun function => "RETURN \x7b\"aggregate\": " ++ function

/-- The tokens stand in the text of a statement as its filter: behind the loops of the query, and
before the next clause or the write. -/
def Filters (q : Query) (text : String) (tokens : List Token) : Prop :=
  ∃ opening ∈ openings, ∃ after, GoesOn after ∧
    text = opening ++ " ".intercalate (q.loops.map Loop.written) ++ " FILTER " ++
      Token.spell tokens ++ after

/-! ## Programs -/

namespace Program

/-- The clauses of a statement; an insert has none. -/
def clauses : Program → List Clause
  | .select clauses => clauses
  | .scalar _ clauses => clauses
  | .insert _ _ _ => []
  | .update clauses _ _ _ => clauses
  | .remove clauses _ _ => clauses

/-- The text before the clauses; of an insert, all of it. -/
def opening : Program → String
  | .scalar function _ =>
    "RETURN \x7b" ++ Json.quote aggregateKey ++ ": " ++ function.keyword ++ "("
  | .insert entity documents collection => text (.insert entity documents collection)
  | _ => ""

/-- The text behind the clauses. -/
def ending : Program → String
  | .scalar _ _ => ")\x7d"
  | .update _ entity pairs collection =>
    " UPDATE " ++ entity ++ " WITH " ++ pairsText pairs ++ " IN " ++
      Collection.inBackticks collection
  | .remove _ entity collection =>
    " REMOVE " ++ entity ++ " IN " ++ Collection.inBackticks collection
  | _ => ""

/-- The loops of a statement. -/
def loops (p : Program) : List Loop := p.clauses.flatMap Clause.loops

theorem text_eq (p : Program) : p.text = p.opening ++ clausesText p.clauses ++ p.ending := by
  cases p with
  | select cs =>
    change clausesText cs = "" ++ clausesText cs ++ ""
    rw [String.empty_append, String.append_empty]
  | scalar function cs =>
    simp only [text, objectText, List.map_cons, List.map_nil, String.intercalate_singleton,
      opening, clauses, ending, String.append_assoc]
    rfl
  | insert entity documents collection =>
    change _ = text _ ++ "" ++ ""
    rw [String.append_empty, String.append_empty]
  | update cs entity pairs collection =>
    simp only [text, opening, clauses, ending, String.empty_append, String.append_assoc]
  | remove cs entity collection =>
    simp only [text, opening, clauses, ending, String.empty_append, String.append_assoc]

theorem opening_mem {p : Program} (h : p.clauses ≠ []) : p.opening ∈ openings := by
  cases p with
  | scalar function cs =>
    change "RETURN \x7b" ++ Json.quote aggregateKey ++ ": " ++ function.keyword ++ "(" ∈ openings
    cases function <;> decide
  | insert entity documents collection => exact absurd rfl h
  | _ => exact List.mem_cons_self

/-- The statement that returns rows: an aggregate over all of them makes one value. -/
def returning (q : Query) (clauses : List Clause) : Program :=
  match q.aggregate with
  | some a => if q.groups.isEmpty then .scalar a.function clauses else .select clauses
  | none => .select clauses

theorem clauses_returning (q : Query) (cs : List Clause) : (returning q cs).clauses = cs := by
  unfold returning
  split
  · split <;> rfl
  · rfl

theorem ofSelect_eq (q : Query) :
    ofSelect q = (do
      let groups ← (q.groups.mapM (Scope.ofQuery q).resolve).mapError .resolve
      let rest ← Frame.clauses ⟨q, Scope.ofQuery q, groups⟩ ClauseKind.selectRest
      .ok (returning q (loopClauses q ++ rest))) := by
  have hframe : Frame.forSelect q = (do
      let groups ← q.groups.mapM (Scope.ofQuery q).resolve
      .ok ⟨q, Scope.ofQuery q, groups⟩) := rfl
  rw [ofSelect, hframe]
  cases q.groups.mapM (Scope.ofQuery q).resolve with
  | error e => rfl
  | ok groups =>
    change (Frame.clauses ⟨q, Scope.ofQuery q, groups⟩
      (.loop :: .joins :: ClauseKind.selectRest) >>= _) =
        (Frame.clauses ⟨q, Scope.ofQuery q, groups⟩ ClauseKind.selectRest >>= _)
    rw [Frame.clauses_afterLoops]
    cases Frame.clauses ⟨q, Scope.ofQuery q, groups⟩ ClauseKind.selectRest with
    | error e => rfl
    | ok rest =>
      unfold returning
      change _ = Except.ok _
      cases q.aggregate with
      | none => rfl
      | some a => cases q.groups.isEmpty <;> rfl

theorem ofUpdate_eq (q : Query) (assignments : List Assignment) :
    ofUpdate q assignments = (do
      let rest ← (Frame.forMutation q).clauses ClauseKind.mutationRest
      let pairs ← (assignments.mapM (assignmentPair (Scope.ofQuery q))).mapError .resolve
      .ok (.update (loopClauses q ++ rest) (Scope.ofQuery q).sourceVariable pairs
        (Collection.bareName (Scope.ofQuery q).source))) := by
  unfold ofUpdate
  change ((Frame.forMutation q).clauses (.loop :: .joins :: ClauseKind.mutationRest) >>= _) = _
  unfold Frame.forMutation
  rw [Frame.clauses_afterLoops]
  cases Frame.clauses ⟨q, Scope.ofQuery q, []⟩ ClauseKind.mutationRest <;> rfl

theorem ofDelete_eq (q : Query) :
    ofDelete q = (do
      let rest ← (Frame.forMutation q).clauses ClauseKind.mutationRest
      .ok (.remove (loopClauses q ++ rest) (Scope.ofQuery q).sourceVariable
        (Collection.bareName (Scope.ofQuery q).source))) := by
  unfold ofDelete
  change ((Frame.forMutation q).clauses (.loop :: .joins :: ClauseKind.mutationRest) >>= _) = _
  unfold Frame.forMutation
  rw [Frame.clauses_afterLoops]
  cases Frame.clauses ⟨q, Scope.ofQuery q, []⟩ ClauseKind.mutationRest <;> rfl

/-- The kinds of clauses behind the loops of a statement: those of a select, or fewer of them where
the statement goes on with a write. -/
def RowKinds (p : Program) (kinds : List ClauseKind) : Prop :=
  kinds = ClauseKind.selectRest ∨ kinds = ClauseKind.mutationRest ∧ GoesOn p.ending

theorem RowKinds.sublist {p : Program} {kinds : List ClauseKind} (h : p.RowKinds kinds) :
    kinds.Sublist ClauseKind.selectRest := by
  rcases h with rfl | ⟨rfl, _⟩ <;> decide

theorem RowKinds.mem_limit {p : Program} {kinds : List ClauseKind} (h : p.RowKinds kinds) :
    .limit ∈ kinds := by
  rcases h with rfl | ⟨rfl, _⟩ <;> decide

/-- A statement over rows goes through the loops of its query, and its other clauses follow. -/
theorem clauses_of_ofQuery {q : Query} {p : Program}
    (hm : ∀ records, q.mutation ≠ some (.insert records)) (h : ofQuery q = .ok p) :
    ∃ groups kinds rest, p.clauses = loopClauses q ++ rest ∧
      Frame.clauses ⟨q, Scope.ofQuery q, groups⟩ kinds = .ok rest ∧ p.RowKinds kinds := by
  unfold ofQuery at h
  split at h
  next =>
    rw [ofSelect_eq] at h
    obtain ⟨groups, _, h⟩ := Outcome.bind_ok h
    obtain ⟨rest, hrest, h⟩ := Outcome.bind_ok h
    cases h
    exact ⟨groups, _, rest, clauses_returning q _, hrest, Or.inl rfl⟩
  next records hq => exact absurd hq (hm records)
  next assignments =>
    rw [ofUpdate_eq] at h
    obtain ⟨rest, hrest, h⟩ := Outcome.bind_ok h
    obtain ⟨pairs, _, h⟩ := Outcome.bind_ok h
    cases h
    refine ⟨[], _, rest, rfl, hrest, Or.inr ⟨rfl, ?_⟩⟩
    simp only [ending, String.append_assoc]
    exact ⟨" UPDATE ", by decide, _, rfl⟩
  next =>
    rw [ofDelete_eq] at h
    obtain ⟨rest, hrest, h⟩ := Outcome.bind_ok h
    cases h
    refine ⟨[], _, rest, rfl, hrest, Or.inr ⟨rfl, ?_⟩⟩
    simp only [ending, String.append_assoc]
    exact ⟨" REMOVE ", by decide, _, rfl⟩

theorem loops_of_clauses {q : Query} {p : Program} {rest : List Clause}
    (hp : p.clauses = loopClauses q ++ rest)
    (hkinds : (rest.map Clause.kind).Sublist ClauseKind.selectRest) : p.loops = q.loops := by
  have hnone : rest.flatMap Clause.loops = [] := by
    rw [List.flatMap_eq_nil_iff]
    intro c hc
    exact Clause.loops_of_kind (hkinds.subset (List.mem_map_of_mem hc))
  rw [loops, hp, List.flatMap_append, hnone, List.append_nil, loops_loopClauses]

theorem loops_ofQuery {q : Query} {p : Program}
    (hm : ∀ records, q.mutation ≠ some (.insert records)) (h : ofQuery q = .ok p) :
    p.loops = q.loops := by
  obtain ⟨_, _, rest, hclauses, hrest, hkinds⟩ := clauses_of_ofQuery hm h
  exact loops_of_clauses hclauses ((Frame.kinds_clauses hrest).trans hkinds.sublist)

theorem text_of_loops {q : Query} {p : Program} {rest : List Clause}
    (hp : p.clauses = loopClauses q ++ rest) :
    p.text = p.opening ++ loopsText q.loops ++ followingText rest ++ p.ending := by
  rw [text_eq, hp, clausesText_loopClauses]
  simp only [String.append_assoc]

/-- The clauses behind a filter, or the write, are there to end it. -/
theorem ends_filter {f : Frame} {p : Program} {others : List ClauseKind} {rest : List Clause}
    (h : p.RowKinds (.filter :: others)) (hrest : f.clauses others = .ok rest) :
    GoesOn (followingText rest ++ p.ending) := by
  have hkinds := Frame.kinds_clauses hrest
  rcases h with hselect | ⟨hmutation, hending⟩
  · -- a select always returns something
    obtain ⟨_, rfl⟩ := List.cons.inj hselect
    have hreturning : ClauseKind.returning ∈ [.collect, .sort, .limit, .returning] := by decide
    obtain ⟨c, hc, hmem⟩ := Frame.mem_clauses hrest hreturning
    obtain ⟨o, _, rfl⟩ := Outcome.map_ok hc
    exact goesOn_following hkinds (Or.inl (List.ne_nil_of_mem (hmem _ rfl)))
  · obtain ⟨_, rfl⟩ := List.cons.inj hmutation
    have hsub : [ClauseKind.sort, .limit].Sublist [.collect, .sort, .limit, .returning] := by decide
    exact goesOn_following (hkinds.trans hsub) (Or.inr hending)

theorem text_of_filter {q : Query} {p : Program}
    (hm : ∀ records, q.mutation ≠ some (.insert records)) (h : ofQuery q = .ok p) :
    ∃ chain, filterChain (Scope.ofQuery q) q = .ok chain ∧
      (chain ≠ [] → Filters q p.text (Formula.chainTokens chain)) := by
  obtain ⟨groups, kinds, rest, hp, hrest, hrows⟩ := clauses_of_ofQuery hm h
  obtain ⟨others, rfl⟩ : ∃ others, kinds = .filter :: others := by
    rcases hrows with rfl | ⟨rfl, _⟩ <;> exact ⟨_, rfl⟩
  obtain ⟨c, following, hc, hfollowing, rfl⟩ := Frame.clauses_cons_ok hrest
  obtain ⟨chain, hchain, hc⟩ := Outcome.bind_ok (Outcome.mapError_ok hc)
  refine ⟨chain, hchain, fun hne => ?_⟩
  have hfilter : c = some (.filter chain) := by
    cases chain with
    | nil => exact absurd rfl hne
    | cons link chain => exact (Except.ok.inj hc).symm
  have hopening : p.opening ∈ openings := opening_mem (by rw [hp]; exact List.cons_ne_nil _ _)
  refine ⟨p.opening, hopening, _, ends_filter hrows hfollowing, ?_⟩
  rw [text_of_loops hp, hfilter, Option.toList_some, List.singleton_append, followingText_cons,
    Clause.text, Formula.chainText_eq_spell, loopsText_eq]
  simp only [String.append_assoc]
  rfl

end Program

/-! ## Statements spelled out -/

/-- The groups of rows, each under its variable. -/
def groupsWritten (groups : List ResolvedColumn) : List String :=
  (groups.zipIdx 1).map fun entry =>
    "group_" ++ Text.decimal entry.2 ++ " = " ++ entry.1.written

def aggregateWritten : Option (AggregateFunction × Expr) → String
  | none => ""
  | some (function, argument) =>
    " AGGREGATE aggregate_value = " ++ function.written ++ argument.written ++ ")"

def Clause.written : Clause → String
  | .loop l => l.written
  | .joins ls => " ".intercalate (ls.map Loop.written)
  | .filter chain => "FILTER " ++ Token.spell (Formula.chainTokens chain)
  | .collect groups aggregate =>
    "COLLECT " ++ ", ".intercalate (groupsWritten groups) ++ aggregateWritten aggregate
  | .sort items =>
    "SORT " ++ ", ".intercalate (items.map fun item => item.1.written ++ item.2.written)
  | .limit none count => "LIMIT " ++ Text.decimal count.toNat
  | .limit (some offset) count =>
    "LIMIT " ++ Text.decimal offset.toNat ++ ", " ++ Text.decimal count.toNat
  | .returning output => "RETURN " ++ output.written

/-- A statement over rows: its clauses with a blank between them, and the write behind. -/
def Program.written : Program → String
  | .select clauses => " ".intercalate (clauses.map Clause.written)
  | .scalar function clauses =>
    "RETURN \x7b\"aggregate\": " ++ function.written ++
      " ".intercalate (clauses.map Clause.written) ++ ")\x7d"
  | .insert entity documents collection =>
    "FOR " ++ entity ++ " IN [" ++ ", ".intercalate (documents.map fun document =>
      objectWritten (document.map fun member => (member.1, member.2.written))) ++
      "] INSERT " ++ entity ++ " INTO \x60" ++ collection ++ "\x60"
  | .update clauses entity pairs collection =>
    " ".intercalate (clauses.map Clause.written) ++ " UPDATE " ++ entity ++ " WITH " ++
      objectWritten (pairs.map fun pair => (pair.1, pair.2.written)) ++
      " IN \x60" ++ collection ++ "\x60"
  | .remove clauses entity collection =>
    " ".intercalate (clauses.map Clause.written) ++ " REMOVE " ++ entity ++
      " IN \x60" ++ collection ++ "\x60"

theorem groupTexts_eq (index : Nat) (groups : List ResolvedColumn) :
    Clause.groupTexts index groups = (groups.zipIdx index).map fun entry =>
      "group_" ++ Text.decimal entry.2 ++ " = " ++ entry.1.written := by
  induction groups generalizing index with
  | nil => rfl
  | cons c rest ih =>
    rw [Clause.groupTexts, ih, List.zipIdx_cons, List.map_cons, c.expression_eq]
    rfl

theorem Clause.text_eq (c : Clause) : c.text = c.written := by
  cases c with
  | loop l => exact l.text_eq
  | joins ls => exact loopsText_eq ls
  | filter chain => rw [text, written, Formula.chainText_eq_spell]
  | collect groups aggregate =>
    have hgroups : groupTexts 1 groups = groupsWritten groups := groupTexts_eq 1 groups
    cases aggregate with
    | none =>
      rw [text, written, hgroups]
      rfl
    | some applied =>
      obtain ⟨function, argument⟩ := applied
      have hname : " AGGREGATE " ++ aggregateVariable ++ " = " = " AGGREGATE aggregate_value = " :=
        rfl
      change _ ++ (" AGGREGATE " ++ aggregateVariable ++ " = " ++ function.keyword ++ "(" ++
        argument.text ++ ")") = _
      rw [hgroups, hname, @String.append_assoc " AGGREGATE aggregate_value = ",
        function.keyword_before, argument.text_eq]
      rfl
  | sort items =>
    simp only [text, written, Expr.text_eq, String.append_assoc, Direction.keyword_behind]
  | limit offset count => cases offset <;> rfl
  | returning output => rw [text, written, output.text_eq]

theorem backticks_behind (word collection : String) :
    word ++ Collection.inBackticks collection = word ++ "\x60" ++ collection ++ "\x60" := by
  rw [Collection.inBackticks, ← String.append_assoc, ← String.append_assoc]

theorem Program.text_eq_written (p : Program) : p.text = p.written := by
  have hclauses (cs : List Clause) :
      clausesText cs = " ".intercalate (cs.map Clause.written) := by
    rw [clausesText, funext Clause.text_eq]
  cases p with
  | select cs => exact hclauses cs
  | scalar function cs =>
    have hopening : opening (.scalar function cs) =
        "RETURN \x7b\"aggregate\": " ++ function.written := by
      cases function <;> rfl
    rw [text_eq, hopening, clauses, hclauses]
    rfl
  | insert entity documents collection =>
    have hinto := backticks_behind " INTO " collection
    change _ ++ " INTO " ++ Collection.inBackticks collection = _ ++ " INTO \x60" ++ _ ++ _
    rw [funext documentText_eq, String.append_assoc, hinto, ← String.append_assoc,
      ← String.append_assoc]
    rfl
  | update cs entity pairs collection =>
    have hin := backticks_behind " IN " collection
    change _ ++ " IN " ++ Collection.inBackticks collection = _ ++ " IN \x60" ++ _ ++ _
    rw [hclauses, pairsText_eq, String.append_assoc, hin, ← String.append_assoc,
      ← String.append_assoc]
    rfl
  | remove cs entity collection =>
    have hin := backticks_behind " IN " collection
    change _ ++ " IN " ++ Collection.inBackticks collection = _ ++ " IN \x60" ++ _ ++ _
    rw [hclauses, String.append_assoc, hin, ← String.append_assoc, ← String.append_assoc]
    rfl

end Aql

namespace Query

variable {q : Query}

theorem not_insert_of_shape (hshape : q.shape ≠ .insert) :
    ∀ records, q.mutation ≠ some (.insert records) :=
  fun records he => hshape (shape_eq_insert_iff.mpr ⟨records, he⟩)

/-- Normalisation leaves the collections of a statement over rows alone. -/
theorem scope_normalize_of_rows (hshape : q.shape ≠ .insert) :
    Scope.ofQuery q.normalize = Scope.ofQuery q := by
  rw [normalize_of_not_insert (not_insert_of_shape hshape)]
  rfl

theorem loops_normalize (hshape : q.shape ≠ .insert) : q.normalize.loops = q.loops := by
  rw [normalize_of_not_insert (not_insert_of_shape hshape)]
  rfl

/-- A compiled statement over rows starts with the loops of its query. -/
theorem compileWith_rows {expected : Option Shape} {statement : Statement}
    (hshape : q.shape ≠ .insert) (h : q.compileWith .default expected = .ok statement) :
    ∃ program rest, Aql.Program.ofQuery q.normalize = .ok program ∧
      statement.text = program.text ∧ program.loops = q.loops ∧
      (rest.map Aql.Clause.kind).Sublist Aql.ClauseKind.selectRest ∧
      program.text = program.opening ++ Aql.loopsText q.loops ++ Aql.followingText rest ++
        program.ending := by
  obtain ⟨program, hprogram, rfl⟩ := compileWith_ok h
  have hnormal : q.normalize.shape ≠ .insert := by rwa [shape_normalize]
  obtain ⟨_, _, rest, hclauses, hrest, hrows⟩ :=
    Aql.Program.clauses_of_ofQuery (not_insert_of_shape hnormal) hprogram
  have hkinds := (Aql.Frame.kinds_clauses hrest).trans hrows.sublist
  rw [← loops_normalize hshape]
  exact ⟨program, rest, hprogram, rfl, Aql.Program.loops_of_clauses hclauses hkinds, hkinds,
    Aql.Program.text_of_loops hclauses⟩

end Query

end AqlQuery
