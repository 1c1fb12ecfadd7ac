import AqlQuery.Aql.Program
import AqlQuery.Proofs.Outcome

/-!
# Clauses one after the other

Clauses are written in order and joined by blanks, so a list of kinds can be cut at any place and
each clause stands as a whole in the text of the statement. Apart from the output, a clause looks at
neither the mutation of the query nor its bindings.
-/

namespace AqlQuery.Aql

namespace Frame

theorem clauses_cons (f : Frame) (kind : ClauseKind) (rest : List ClauseKind) :
    f.clauses (kind :: rest) = (do
      let c ← f.clause kind
      let cs ← f.clauses rest
      .ok (c.toList ++ cs)) := by
  rw [clauses]
  cases f.clause kind with
  | error e => rfl
  | ok c => cases c <;> cases f.clauses rest <;> rfl

theorem clauses_cons_ok {f : Frame} {kind : ClauseKind} {rest : List ClauseKind} {cs : List Clause}
    (h : f.clauses (kind :: rest) = .ok cs) :
    ∃ c ds, f.clause kind = .ok c ∧ f.clauses rest = .ok ds ∧ cs = c.toList ++ ds := by
  rw [clauses_cons] at h
  obtain ⟨c, hc, h⟩ := Outcome.bind_ok h
  obtain ⟨ds, hds, h⟩ := Outcome.bind_ok h
  cases h
  exact ⟨c, ds, hc, hds, rfl⟩

theorem clauses_append (f : Frame) (first rest : List ClauseKind) :
    f.clauses (first ++ rest) = (do
      let cs ← f.clauses first
      let ds ← f.clauses rest
      .ok (cs ++ ds)) := by
  induction first with
  | nil =>
    change f.clauses rest = (f.clauses rest >>= fun ds => .ok ds)
    cases f.clauses rest <;> rfl
  | cons kind kinds ih =>
    rw [List.cons_append, clauses_cons, clauses_cons, ih]
    cases f.clause kind with
    | error e => rfl
    | ok c =>
      cases f.clauses kinds with
      | error e => rfl
      | ok cs =>
        cases f.clauses rest with
        | error e => rfl
        | ok ds => exact congrArg Except.ok (List.append_assoc c.toList cs ds).symm

/-- A kind with nothing to say leaves no trace. -/
theorem clauses_skip {f : Frame} {kind : ClauseKind} (h : f.clause kind = .ok none)
    (rest : List ClauseKind) : f.clauses (kind :: rest) = f.clauses rest := by
  rw [clauses, h]

theorem kind_of_clause {f : Frame} {kind : ClauseKind} {c : Clause}
    (h : f.clause kind = .ok (some c)) : c.kind = kind := by
  cases kind with
  | loop =>
    cases h
    rfl
  | joins =>
    have hj : f.joinsClause = some c := Except.ok.inj h
    unfold joinsClause at hj
    split at hj
    · cases hj
    · cases hj
      rfl
  | filter =>
    obtain ⟨chain, _, hc⟩ := Outcome.bind_ok (Outcome.mapError_ok h)
    cases chain with
    | nil => cases hc
    | cons p rest =>
      cases hc
      rfl
  | collect =>
    have hc := Outcome.mapError_ok h
    unfold collectClause at hc
    split at hc
    · split at hc
      · cases hc
        rfl
      · obtain ⟨argument, _, hc⟩ := Outcome.bind_ok hc
        cases hc
        rfl
    · cases hc
  | sort =>
    have hc := Outcome.mapError_ok h
    unfold sortClause at hc
    split at hc
    · cases hc
    · obtain ⟨items, _, hc⟩ := Outcome.bind_ok hc
      cases hc
      rfl
  | limit =>
    have hc := Outcome.mapError_ok h
    unfold limitClause at hc
    split at hc
    · cases hc
      rfl
    · cases hc
    · cases hc
  | returning =>
    cases ho : f.output with
    | error e =>
      rw [clause, ho] at h
      cases h
    | ok output =>
      rw [clause, ho] at h
      cases h
      rfl

/-- Clauses come in the order of their kinds, each kind once at most. -/
theorem kinds_clauses {f : Frame} {kinds : List ClauseKind} {cs : List Clause}
    (h : f.clauses kinds = .ok cs) : (cs.map Clause.kind).Sublist kinds := by
  induction kinds generalizing cs with
  | nil =>
    cases h
    exact List.Sublist.slnil
  | cons kind rest ih =>
    obtain ⟨c, ds, hc, hds, rfl⟩ := clauses_cons_ok h
    cases c with
    | none => exact (ih hds).cons kind
    | some c =>
      have hk := kind_of_clause hc
      change (c.kind :: ds.map Clause.kind).Sublist (kind :: rest)
      rw [hk]
      exact (ih hds).cons_cons kind

theorem mem_clauses {f : Frame} {kinds : List ClauseKind} {cs : List Clause}
    (h : f.clauses kinds = .ok cs) {kind : ClauseKind} (hk : kind ∈ kinds) :
    ∃ c, f.clause kind = .ok c ∧ ∀ d ∈ c, d ∈ cs := by
  induction kinds generalizing cs with
  | nil => cases hk
  | cons first rest ih =>
    obtain ⟨c, ds, hc, hds, rfl⟩ := clauses_cons_ok h
    rcases List.mem_cons.mp hk with rfl | hm
    · refine ⟨c, hc, fun d hd => List.mem_append_left ds ?_⟩
      rw [Option.mem_def.mp hd]
      exact List.mem_cons_self
    · obtain ⟨c', hc', hsub⟩ := ih hds hm
      exact ⟨c', hc', fun d hd => List.mem_append_right _ (hsub d hd)⟩

/-- Each clause that is written is one of its kind. -/
theorem clause_of_mem {f : Frame} {kinds : List ClauseKind} {cs : List Clause}
    (h : f.clauses kinds = .ok cs) {c : Clause} (hc : c ∈ cs) :
    ∃ kind ∈ kinds, f.clause kind = .ok (some c) := by
  induction kinds generalizing cs with
  | nil =>
    cases h
    cases hc
  | cons first rest ih =>
    obtain ⟨written, ds, hwritten, hds, rfl⟩ := clauses_cons_ok h
    rcases List.mem_append.mp hc with hm | hm
    · rw [Option.mem_toList.mp hm] at hwritten
      exact ⟨first, List.mem_cons_self, hwritten⟩
    · obtain ⟨kind, hkind, hclause⟩ := ih hds hm
      exact ⟨kind, List.mem_cons_of_mem first hkind, hclause⟩

/-- A window whose offset has a limit can be written. -/
theorem exists_limitClause {q : Query} (hw : (q.offset.isSome && q.limit.isNone) = false)
    (scope : Scope) (groups : List ResolvedColumn) :
    ∃ c, limitClause ⟨q, scope, groups⟩ = .ok c := by
  unfold limitClause
  cases hl : q.limit with
  | some count => exact ⟨_, rfl⟩
  | none =>
    cases ho : q.offset with
    | none => exact ⟨_, rfl⟩
    | some offset =>
      rw [hl, ho] at hw
      cases hw

theorem clauses_congr {f g : Frame} (h : ∀ kind, f.clause kind = g.clause kind)
    (kinds : List ClauseKind) : f.clauses kinds = g.clauses kinds := by
  induction kinds with
  | nil => rfl
  | cons kind rest ih => rw [clauses, clauses, h, ih]

theorem clause_mutated (q : Query) (m : Option Mutation) (table : BindTable) (scope : Scope)
    (groups : List ResolvedColumn) (kind : ClauseKind) :
    clause ⟨{ q with mutation := m, bindings := table }, scope, groups⟩ kind =
      clause ⟨q, scope, groups⟩ kind := by
  cases kind <;> rfl

theorem clauses_mutated (q : Query) (m : Option Mutation) (table : BindTable) (scope : Scope)
    (groups : List ResolvedColumn) (kinds : List ClauseKind) :
    clauses ⟨{ q with mutation := m, bindings := table }, scope, groups⟩ kinds =
      clauses ⟨q, scope, groups⟩ kinds :=
  clauses_congr (clause_mutated q m table scope groups) kinds

end Frame

/-- Queries with the same mutation, groups and aggregate are written alike if they resolve columns
alike and their clauses are the same. -/
theorem Program.ofQuery_congr {p q : Query} (hsource : p.source = q.source)
    (hscope : Scope.ofQuery p = Scope.ofQuery q) (hgroups : p.groups = q.groups)
    (haggregate : p.aggregate = q.aggregate) (hmutation : p.mutation = q.mutation)
    (hclauses : ∀ scope groups kinds,
      Frame.clauses ⟨p, scope, groups⟩ kinds = Frame.clauses ⟨q, scope, groups⟩ kinds) :
    ofQuery p = ofQuery q := by
  have hselect : ofSelect p = ofSelect q := by
    simp only [ofSelect, Frame.forSelect, hscope, hgroups, haggregate]
    cases q.groups.mapM (Scope.ofQuery q).resolve with
    | error e => rfl
    | ok groups =>
      show (Frame.clauses ⟨p, Scope.ofQuery q, groups⟩ _ >>= _) = _
      rw [hclauses]
      rfl
  have hrows (kinds : List ClauseKind) :
      (Frame.forMutation p).clauses kinds = (Frame.forMutation q).clauses kinds := by
    show Frame.clauses ⟨p, Scope.ofQuery p, []⟩ kinds = _
    rw [hscope, hclauses]
    rfl
  unfold ofQuery
  rw [hmutation]
  cases q.mutation with
  | none => exact hselect
  | some m =>
    cases m with
    | insert records =>
      simp only [ofInsert, hsource]
    | update assignments =>
      simp only [ofUpdate, hrows]
      simp only [Frame.forMutation, hscope]
    | delete =>
      simp only [ofDelete, hrows]
      simp only [Frame.forMutation, hscope]

/-! ## Texts -/

theorem clausesText_concat {cs : List Clause} (hne : cs ≠ []) (c : Clause) :
    clausesText (cs ++ [c]) = clausesText cs ++ " " ++ c.text := by
  unfold clausesText
  induction cs with
  | nil => exact absurd rfl hne
  | cons first rest ih =>
    cases rest with
    | nil => rfl
    | cons next rest =>
      have hrest := ih (List.cons_ne_nil next rest)
      simp only [List.map_append, List.map_cons, List.map_nil, List.cons_append,
        String.intercalate_cons_cons] at hrest ⊢
      rw [hrest]
      simp only [String.append_assoc]

end AqlQuery.Aql
