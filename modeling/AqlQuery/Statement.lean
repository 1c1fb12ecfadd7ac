import AqlQuery.Aql.Program
import AqlQuery.Query.Normal

/-!
# Compiled statements

Compiling passes a query through a pipeline, writes its text and pairs it with the bindings that the
text mentions. The query itself is not changed, and the same query always gives the same statement.
-/

namespace AqlQuery

/-- A text and the bindings that it mentions. -/
structure Statement where
  text : String
  bindings : BindTable
  shape : Shape
  deriving DecidableEq, Inhabited

/-- Name of the language that statements are written in. -/
def languageName : String := "aql"

namespace Query

/-- Fails unless the query has the form that is asked for. -/
def requireShape (expected : Option Shape) (q : Query) : Except CompileError Unit :=
  match expected with
  | none => .ok ()
  | some shape =>
    if q.shape = shape then .ok () else .error (.structural (.shapeMismatch shape q.shape))

/-- The text of a query as it stands, without checks. -/
def render (expected : Option Shape) (q : Query) : Except CompileError String := do
  q.requireShape expected
  let program ← Aql.Program.ofQuery q
  .ok program.text

/-- Compiles a query through a pipeline, if it has the form that is asked for. -/
def compileWith (pipeline : Pipeline) (expected : Option Shape) (q : Query) :
    Except CompileError Statement := do
  q.requireShape expected
  let prepared ← pipeline.run q
  let program ← Aql.Program.ofQuery prepared
  .ok ⟨program.text, prepared.bindings, prepared.shape⟩

/-- What makes an insert hand back the document it created. -/
def returnNew : String := " RETURN NEW"

/-- Compiles an insert that hands back the created document. -/
def compileInsertGetIdWith (pipeline : Pipeline) (q : Query) : Except CompileError Statement := do
  let statement ← q.compileWith pipeline (some .insert)
  .ok { statement with text := statement.text ++ returnNew }

def compile (q : Query) : Except CompileError Statement :=
  q.compileWith .default none

def compileAs (shape : Shape) (q : Query) : Except CompileError Statement :=
  q.compileWith .default (some shape)

def compileInsertGetId (q : Query) : Except CompileError Statement :=
  q.compileInsertGetIdWith .default

/-- What happens while a query is compiled: the stages that were started, the clauses that were
written, and the outcome. -/
structure Trace where
  stages : List Stage
  clauses : List Aql.Clause
  outcome : Except CompileError Statement

def trace (q : Query) : Trace where
  stages := Pipeline.default.started q
  clauses := match Pipeline.default.run q with
    | .error _ => []
    | .ok prepared => Aql.Program.clausesWritten prepared
  outcome := q.compile

end Query

end AqlQuery
