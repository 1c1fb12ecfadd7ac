import AqlQuery.Connection
import AqlQuery.Proofs.Binding.Normal
import AqlQuery.Proofs.Outcome

/-!
# What reaches the executor

An operation that runs a query derives it, compiles it and hands over the statement, or fails to
compile and hands over nothing. `HandsOver` says this of a computation and any executor; it is kept
by what operations do with an answer, so that each operation is a short chain of its lemmas. A
recording executor then shows what reached it during any sequence of operations: reading operations
hand over selects only, whatever their queries carry, and a query that does not compile leaves no
trace.
-/

namespace AqlQuery

/-! ## Plans -/

/-- How an operation comes to its statement: by the form it asks for and the query it derives. -/
inductive Plan where
  | run (shape : Shape) (query : Except BuildError Query)
  | insertReturning (query : Except BuildError Query)

namespace Plan

def shape : Plan → Shape
  | run shape _ => shape
  | insertReturning _ => .insert

/-- The statement that a plan comes to. -/
def statement : Plan → Except CompileError Statement
  | run shape query => query.mapError .build >>= Query.compileAs shape
  | insertReturning query => query.mapError .build >>= Query.compileInsertGetId

end Plan

/-- The plan of an operation that runs a query. -/
def Operation.plan? : Operation → Option Plan
  | .toAql _ => none
  | .get q => some (.run .select (.ok q))
  | .first q => some (.run .select (.ok (q.take 1)))
  | .find q key => some (.run .select (.ok ((q.whereKey key).take 1)))
  | .pluck q column => some (.run .select (.ok (q.select [column])))
  | .value q column => some (.run .select (.ok ((q.take 1).select [column])))
  | .exists q => some (.run .select (q.withAggregate .count [wholeDocument]))
  | .count q => some (.run .select (q.withAggregate .count [wholeDocument]))
  | .aggregate function q column => some (.run .select (q.withAggregate function [column]))
  | .insert collection records => some (.run .insert ((Query.table collection).insertJson records))
  | .insertGetId collection record =>
    some (.insertReturning ((Query.table collection).insertJson [record]))
  | .update q values => some (.run .update (q.update values))
  | .adjust op q column amount => some (.run .update (q.adjust op column amount []))
  | .delete q => some (.run .delete q.delete)
  | .deleteByKey collection key =>
    some (.run .delete ((Query.table collection).whereKey key).delete)
  | .truncate _ => none

theorem Query.shape_of_compileAs {shape : Shape} {q : Query} {statement : Statement}
    (h : q.compileAs shape = .ok statement) : statement.shape = shape := by
  rw [compileAs, compileWith_default] at h
  obtain ⟨_, hshape, h⟩ := Outcome.bind_ok h
  obtain ⟨_, _, h⟩ := Outcome.bind_ok h
  obtain ⟨_, _, h⟩ := Outcome.bind_ok h
  cases h
  -- the form is asked for before the pipeline runs, which keeps it
  rw [requireShape] at hshape
  by_cases hq : q.shape = shape
  · exact hq
  · rw [if_neg hq] at hshape
    cases hshape

/-- A plan comes to a statement of its form, whatever the query carries. -/
theorem Plan.shape_of_statement {plan : Plan} {statement : Statement}
    (h : plan.statement = .ok statement) : statement.shape = plan.shape := by
  cases plan with
  | run shape query =>
    obtain ⟨q, _, h⟩ := Outcome.bind_ok h
    exact Query.shape_of_compileAs h
  | insertReturning query =>
    obtain ⟨q, _, h⟩ := Outcome.bind_ok h
    obtain ⟨plain, hplain, h⟩ := Outcome.bind_ok h
    cases h
    show plain.shape = .insert
    exact Query.shape_of_compileAs hplain

/-- A pending removal is not run by a reading operation. -/
example : (Plan.run .select (Query.table "users").delete).statement =
    .error (.structural (.shapeMismatch .select .delete)) := rfl

/-! ## Handing over -/

section

variable {σ α β : Type} {x : Executor σ}

/-- Hands over what was compiled and reads the answer; hands over nothing if that failed. -/
def handOver (x : Executor σ) (read : CursorResult → Except ExecError α) :
    Except CompileError Statement → Exec σ α
  | .error e => Exec.fail (.compile e)
  | .ok statement => fun s => ((x.execute statement s).1 >>= read, (x.execute statement s).2)

/-- The computation hands over what was compiled, and reading the answer never fails as a
compilation does. -/
def HandsOver (x : Executor σ) (y : Exec σ α) (compiled : Except CompileError Statement) : Prop :=
  ∃ read : CursorResult → Except ExecError α,
    (∀ result e, read result ≠ .error (.compile e)) ∧ y = handOver x read compiled

/-- A computation followed by one that leaves the state alone. -/
theorem Exec.bind_stateless (y : Exec σ α) {g : α → Exec σ β} {f : α → Except ExecError β}
    (hg : ∀ a s, g a s = (f a, s)) (s : σ) : (y >>= g) s = ((y s).1 >>= f, (y s).2) := by
  show Exec.bind y g s = _
  unfold Exec.bind
  cases y s with
  | mk outcome s' =>
    cases outcome with
    | error e => rfl
    | ok a => exact hg a s'

theorem Exec.map_state (y : Exec σ α) (f : α → β) (s : σ) :
    ((y >>= fun a => pure (f a)) s).2 = (y s).2 :=
  congrArg Prod.snd (Exec.bind_stateless y (f := fun a => .ok (f a)) (fun _ _ => rfl) s)

theorem Exec.ofCompile_bind_assoc (compiled : Except CompileError Statement)
    (f : Statement → Exec σ α) (g : α → Exec σ β) :
    ((Exec.ofCompile compiled >>= f) >>= g) =
      Exec.ofCompile compiled >>= fun statement => f statement >>= g := by
  cases compiled <;> rfl

namespace HandsOver

theorem execute (x : Executor σ) (compiled : Except CompileError Statement) :
    HandsOver x (Exec.ofCompile compiled >>= x.execute) compiled := by
  refine ⟨.ok, fun _ _ => nofun, ?_⟩
  cases compiled with
  | error e => rfl
  | ok statement =>
    funext s
    show x.execute statement s =
      ((x.execute statement s).1 >>= .ok, (x.execute statement s).2)
    cases x.execute statement s with
    | mk answer s' => cases answer <;> rfl

/-- What is done with the answer may fail, but not as a compilation does. -/
theorem bind {y : Exec σ α} {compiled : Except CompileError Statement} {g : α → Exec σ β}
    (h : HandsOver x y compiled) (f : α → Except ExecError β)
    (hf : ∀ a e, f a ≠ .error (.compile e)) (hg : ∀ a s, g a s = (f a, s)) :
    HandsOver x (y >>= g) compiled := by
  obtain ⟨read, hread, rfl⟩ := h
  refine ⟨fun result => read result >>= f, ?_, ?_⟩
  · intro result e he
    exact hread result e (Outcome.error_of_bind he fun a => hf a e)
  · funext s
    rw [Exec.bind_stateless _ hg]
    cases compiled with
    | error e => rfl
    | ok statement =>
      show (((x.execute statement s).1 >>= read) >>= f, _) = _
      rw [bind_assoc]
      rfl

/-- What is done with the answer cannot fail. -/
theorem map {y : Exec σ α} {compiled : Except CompileError Statement}
    (h : HandsOver x y compiled) (f : α → β) :
    HandsOver x (y >>= fun a => pure (f a)) compiled :=
  h.bind (fun a => .ok (f a)) (fun _ _ => nofun) fun _ _ => rfl

/-- What is done with the answer may find a fault in it. -/
theorem check {y : Exec σ α} {compiled : Except CompileError Statement}
    (h : HandsOver x y compiled) (f : α → Except ResponseFault β) {g : α → Exec σ β}
    (hok : ∀ a b, f a = .ok b → g a = pure b)
    (herror : ∀ a fault, f a = .error fault → g a = Exec.fail (.invalidResponse fault)) :
    HandsOver x (y >>= g) compiled := by
  refine h.bind (fun a => (f a).mapError .invalidResponse) ?_ ?_
  · intro a e
    cases f a <;> nofun
  · intro a s
    cases hf : f a with
    | error fault => rw [herror a fault hf]; rfl
    | ok b => rw [hok a b hf]; rfl

/-- The query may fail to be built. -/
theorem build {built : Except BuildError Query} {g : Query → Exec σ α}
    {compile : Query → Except CompileError Statement}
    (h : ∀ q, HandsOver x (g q) (compile q)) :
    HandsOver x (Exec.ofBuild built >>= g) (built.mapError .build >>= compile) := by
  cases built with
  -- there will be no answer, so that any reading of it will do
  | error e => exact ⟨fun _ => .error (.http .broken), fun _ _ => nofun, rfl⟩
  | ok q => exact h q

end HandsOver

/-! ## Each operation -/

theorem handsOver_get (x : Executor σ) (q : Query) :
    HandsOver x (Connection.get x q) (q.compileAs .select) :=
  (HandsOver.execute x _).map _

theorem handsOver_aggregate (x : Executor σ) (function : AggregateFunction) (q : Query)
    (column : String) :
    HandsOver x (Connection.aggregate x function q column)
      (Plan.run .select (q.withAggregate function [column])).statement :=
  HandsOver.build fun q => (handsOver_get x q).map _

theorem handsOver_count (x : Executor σ) (q : Query) :
    HandsOver x (Connection.count x q)
      (Plan.run .select (q.withAggregate .count [wholeDocument])).statement := by
  refine (handsOver_aggregate x .count q wholeDocument).check Connection.countOf ?_ ?_
  · intro v n h
    rw [h]
  · intro v fault h
    rw [h]

/-- A write reports how many documents it wrote. -/
theorem handsOver_write (x : Executor σ) (shape : Shape) (built : Except BuildError Query) :
    HandsOver x (do
        let q ← Exec.ofBuild built
        let result ← Connection.runAs x shape q
        pure result.writes)
      (Plan.run shape built).statement :=
  HandsOver.build fun _ => (HandsOver.execute x _).map _

theorem handsOver_insertGetId (x : Executor σ) (collection : String) (record : Json) :
    HandsOver x (Connection.insertGetId x collection record)
      (Plan.insertReturning ((Query.table collection).insertJson [record])).statement := by
  refine HandsOver.build fun q => ?_
  rw [← Exec.ofCompile_bind_assoc]
  refine (HandsOver.execute x _).check Connection.keyOf ?_ ?_
  · intro result key h
    rw [h]
  · intro result fault h
    rw [h]

/-- An operation with a plan hands over the statement of its plan. -/
theorem Operation.handsOver_run (x : Executor σ) {op : Operation} {plan : Plan}
    (h : op.plan? = some plan) : HandsOver x (op.run x) plan.statement := by
  cases op with
  | toAql q => cases h
  | get q =>
    cases h
    exact (handsOver_get x q).map _
  | first q =>
    cases h
    exact ((handsOver_get x _).map _).map _
  | find q key =>
    cases h
    exact ((handsOver_get x _).map _).map _
  | pluck q column =>
    cases h
    exact ((handsOver_get x _).map _).map _
  | value q column =>
    cases h
    exact (((handsOver_get x _).map _).map _).map _
  | «exists» q =>
    cases h
    exact ((handsOver_count x q).map _).map _
  | count q =>
    cases h
    exact (handsOver_count x q).map _
  | aggregate function q column =>
    cases h
    exact (handsOver_aggregate x function q column).map _
  | insert collection records =>
    cases h
    exact (handsOver_write x .insert _).map _
  | insertGetId collection record =>
    cases h
    exact (handsOver_insertGetId x collection record).map _
  | update q values =>
    cases h
    exact (handsOver_write x .update _).map _
  | adjust op q column amount =>
    cases h
    exact (handsOver_write x .update _).map _
  | delete q =>
    cases h
    exact (handsOver_write x .delete _).map _
  | deleteByKey collection key =>
    cases h
    exact (handsOver_write x .delete _).map _
  | truncate collection => cases h

end

/-! ## Recording -/

/-- What passed between an operation and the executor: what was handed over, and the answer. -/
inductive Exchange where
  | statement (handed : Statement) (answer : Except ExecError CursorResult)
  | truncation (collection : String) (answer : Except ExecError Unit)

/-- The executor answered with this error. -/
def Exchange.Failed (e : ExecError) : Exchange → Prop
  | .statement _ answer => answer = .error e
  | .truncation _ answer => answer = .error e

/-- The state of an executor, and what has passed so far. -/
structure Recorded (σ : Type) where
  state : σ
  log : List Exchange := []

/-- Answers as the given executor does and records every exchange. -/
def Executor.recording {σ : Type} (x : Executor σ) : Executor (Recorded σ) where
  execute handed := fun r =>
    ((x.execute handed r.state).1,
      ⟨(x.execute handed r.state).2,
        r.log ++ [.statement handed (x.execute handed r.state).1]⟩)
  truncate collection := fun r =>
    ((x.truncate collection r.state).1,
      ⟨(x.truncate collection r.state).2,
        r.log ++ [.truncation collection (x.truncate collection r.state).1]⟩)

/-- What may pass during one operation that ends with `outcome`. -/
structure Operation.Handover (op : Operation) (outcome : Except ExecError Outcome)
    (passed : List Exchange) : Prop where
  /-- There is one exchange at most. -/
  single : passed.length ≤ 1
  /-- A statement that is handed over is that of the operation's plan, and of its form. -/
  planned : ∀ handed answer, .statement handed answer ∈ passed →
    ∃ plan, op.plan? = some plan ∧ plan.statement = .ok handed ∧ handed.shape = plan.shape
  /-- A plan that comes to a statement has it handed over. -/
  handed : ∀ plan statement, op.plan? = some plan → plan.statement = .ok statement →
    ∃ answer, passed = [.statement statement answer]
  /-- A plan that comes to no statement ends the operation. -/
  rejected : ∀ plan e, op.plan? = some plan → plan.statement = .error e →
    outcome = .error (.compile e) ∧ passed = []
  /-- Nothing has passed if the operation fails as a compilation does and the executor did not. -/
  unsent : ∀ e, outcome = .error (.compile e) →
    (∀ exchange ∈ passed, ¬ exchange.Failed (.compile e)) → passed = []

section

variable {σ : Type} (x : Executor σ)

/-- An operation whose plan comes to no statement. -/
theorem Operation.handover_rejected {op : Operation} {plan : Plan} (hplan : op.plan? = some plan)
    {e : CompileError} (he : plan.statement = .error e) :
    op.Handover (.error (.compile e)) [] := by
  refine ⟨Nat.zero_le 1, nofun, ?_, ?_, fun _ _ _ => rfl⟩
  · intro plan' statement hplan' hstatement
    cases hplan.symm.trans hplan'
    cases he.symm.trans hstatement
  · intro plan' e' hplan' he'
    cases hplan.symm.trans hplan'
    cases he.symm.trans he'
    exact ⟨rfl, rfl⟩

/-- An operation whose plan comes to a statement. -/
theorem Operation.handover_handed {op : Operation} {plan : Plan} (hplan : op.plan? = some plan)
    {statement : Statement} (hstatement : plan.statement = .ok statement)
    {answer : Except ExecError CursorResult} {outcome : Except ExecError Outcome}
    (houtcome : ∀ e, outcome = .error (.compile e) → answer = .error (.compile e)) :
    op.Handover outcome [.statement statement answer] := by
  refine ⟨Nat.le_refl 1, ?_, ?_, ?_, ?_⟩
  · intro handed answer' hmem
    cases List.mem_singleton.mp hmem
    exact ⟨plan, hplan, hstatement, Plan.shape_of_statement hstatement⟩
  · intro plan' statement' hplan' hstatement'
    cases hplan.symm.trans hplan'
    cases hstatement.symm.trans hstatement'
    exact ⟨answer, rfl⟩
  · intro plan' e hplan' he
    cases hplan.symm.trans hplan'
    cases hstatement.symm.trans he
  · intro e he hunfailed
    exact absurd (houtcome e he) (hunfailed _ List.mem_cons_self)

/-- An operation without a plan that hands over no statement. -/
theorem Operation.handover_planless {op : Operation} (hplan : op.plan? = none)
    {passed : List Exchange} {outcome : Except ExecError Outcome} (hsingle : passed.length ≤ 1)
    (hnone : ∀ handed answer, .statement handed answer ∉ passed)
    (hunsent : ∀ e, outcome = .error (.compile e) →
      (∀ exchange ∈ passed, ¬ exchange.Failed (.compile e)) → passed = []) :
    op.Handover outcome passed := by
  refine ⟨hsingle, fun handed answer h => absurd h (hnone handed answer), ?_, ?_, hunsent⟩
  · intro plan _ h
    rw [hplan] at h
    cases h
  · intro plan _ h
    rw [hplan] at h
    cases h

/-- Asking for the text of a query asks the executor for nothing. -/
theorem Operation.run_toAql_state (q : Query) (s : σ) : ((toAql q).run x s).2 = s := by
  calc ((toAql q).run x s).2
      = (Connection.toAql q s).2 := Exec.map_state (Connection.toAql q) Outcome.text s
    _ = (Exec.ofCompile q.compile s).2 :=
      Exec.map_state (Exec.ofCompile q.compile) Statement.text s
    _ = s := by cases q.compile <;> rfl

/-- Removing all documents asks the executor once. -/
theorem Operation.run_truncate (collection : String) (s : σ) :
    (truncate collection).run x s =
      ((x.truncate collection s).1 >>= fun _ => .ok .done, (x.truncate collection s).2) :=
  Exec.bind_stateless (x.truncate collection) (fun _ _ => rfl) s

/-- One operation. -/
theorem Operation.handover_run (op : Operation) (r : Recorded σ) :
    ∃ passed, (op.run x.recording r).2.log = r.log ++ passed ∧
      op.Handover (op.run x.recording r).1 passed := by
  cases hplan : op.plan? with
  | some plan =>
    obtain ⟨read, hread, hrun⟩ := op.handsOver_run x.recording hplan
    rw [hrun]
    cases hstatement : plan.statement with
    | error e => exact ⟨[], (List.append_nil _).symm, handover_rejected hplan hstatement⟩
    | ok statement =>
      refine ⟨[.statement statement (x.execute statement r.state).1], rfl,
        handover_handed hplan hstatement ?_⟩
      intro e he
      exact Outcome.error_of_bind he fun result => hread result e
  | none =>
    cases op with
    | toAql q =>
      refine ⟨[], ?_, handover_planless hplan (Nat.zero_le 1) (fun _ _ => nofun)
        fun _ _ _ => rfl⟩
      rw [run_toAql_state, List.append_nil]
    | truncate collection =>
      refine ⟨[.truncation collection (x.truncate collection r.state).1], ?_,
        handover_planless hplan (Nat.le_refl 1) (fun _ _ => nofun) ?_⟩
      · rw [run_truncate]
        rfl
      · intro e he hunfailed
        rw [run_truncate] at he
        change ((x.truncate collection r.state).1 >>= fun _ => Except.ok Outcome.done) = _ at he
        have hanswer : (x.truncate collection r.state).1 = .error (.compile e) :=
          Outcome.error_of_bind he fun _ => nofun
        exact absurd hanswer (hunfailed _ List.mem_cons_self)
    | _ => cases hplan

/-! ## Sequences of operations -/

/-- Runs operations one after another; one that fails does not stop the others. -/
def Operation.runAll : List Operation → σ → List (Except ExecError Outcome) × σ
  | [], s => ([], s)
  | op :: rest, s =>
    ((op.run x s).1 :: (runAll rest (op.run x s).2).1, (runAll rest (op.run x s).2).2)

/-- What may pass during operations that end with `outcomes`, one after another. -/
inductive Operation.Handovers :
    List Operation → List (Except ExecError Outcome) → List Exchange → Prop
  | nil : Handovers [] [] []
  | cons {op : Operation} {outcome : Except ExecError Outcome} {passed further : List Exchange}
      {rest : List Operation} {outcomes : List (Except ExecError Outcome)}
      (hfirst : op.Handover outcome passed) (hrest : Handovers rest outcomes further) :
      Handovers (op :: rest) (outcome :: outcomes) (passed ++ further)

/-- During any operations on any executor, what reaches it is what each of them may hand over: at
most one statement, compiled from the query that the operation derives, of the form that it stands
for, and none if it does not compile. -/
theorem Operation.handovers_runAll (operations : List Operation) (r : Recorded σ) :
    ∃ passed, (runAll x.recording operations r).2.log = r.log ++ passed ∧
      Handovers operations (runAll x.recording operations r).1 passed := by
  induction operations generalizing r with
  | nil => exact ⟨[], (List.append_nil _).symm, .nil⟩
  | cons op rest ih =>
    obtain ⟨passed, hlog, hfirst⟩ := op.handover_run x r
    obtain ⟨further, hlog', hrest⟩ := ih (op.run x.recording r).2
    refine ⟨passed ++ further, ?_, .cons hfirst hrest⟩
    show (runAll x.recording rest (op.run x.recording r).2).2.log = _
    rw [hlog', hlog, List.append_assoc]

end

end AqlQuery
