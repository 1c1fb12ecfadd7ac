import AqlQuery.Exec.Executor

/-!
# Playback

An executor that answers from a list prepared beforehand and records what it was asked, in order.
With no answer left, a statement has no rows and writes nothing.
-/

namespace AqlQuery

/-- What reached an executor. -/
inductive Call where
  | statement (s : Statement)
  | truncation (collection : String)

structure Playback where
  answers : List (Except ExecError CursorResult)
  calls : List Call := []

namespace Playback

/-- Records a call and takes the next answer. -/
def take (call : Call) : Exec Playback CursorResult := fun p =>
  match p.answers with
  | [] => (.ok {}, ⟨[], p.calls ++ [call]⟩)
  | answer :: rest => (answer, ⟨rest, p.calls ++ [call]⟩)

def executor : Executor Playback where
  execute statement := take (.statement statement)
  truncate collection := do
    let _ ← take (.truncation collection)

end Playback

end AqlQuery
