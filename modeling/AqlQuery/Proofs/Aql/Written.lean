import AqlQuery.Aql.Program

/-!
# The pieces of a statement spelled out

How columns, operands, comparisons, loops and returned values are written, with every keyword,
backtick and bracket in place. What is proved of the text of a statement is stated in these terms,
and each of them is shown to be what the piece is printed as.
-/

namespace AqlQuery

/-- A column behind its loop variable; the key stands without backticks, and the whole document is
the variable alone. -/
def ResolvedColumn.written (c : ResolvedColumn) : String :=
  match c.column with
  | none => c.entity
  | some column =>
    if column = "_key" then c.entity ++ "._key" else c.entity ++ ".\x60" ++ column ++ "\x60"

/-- An operator between what it compares. -/
def Operator.written : Operator → String
  | .eq => " == "
  | .ne => " != "
  | .lt => " < "
  | .le => " <= "
  | .gt => " > "
  | .ge => " >= "
  | .like => " LIKE "
  | .regexMatch => " =~ "
  | .regexNotMatch => " !~ "

/-- A direction behind what is ordered. -/
def Direction.written : Direction → String
  | .asc => " ASC"
  | .desc => " DESC"

/-- An adjustment between the attribute and the amount. -/
def AdjustOp.written : AdjustOp → String
  | .add => " + "
  | .subtract => " - "

/-- An aggregate function before its argument. -/
def AggregateFunction.written : AggregateFunction → String
  | .count => "COUNT("
  | .sum => "SUM("
  | .min => "MIN("
  | .max => "MAX("
  | .avg => "AVERAGE("

def Operand.written : Operand → String
  | .bound name => "@" ++ name
  | .raw text => text

theorem ResolvedColumn.expression_eq (c : ResolvedColumn) : c.expression = c.written := by
  unfold expression written
  cases c.column with
  | none => rfl
  | some column =>
    by_cases hkey : column = "_key"
    · subst hkey
      change c.entity ++ "." ++ "_key" = c.entity ++ "._key"
      rw [String.append_assoc]
      rfl
    · have hquoted : quoteAttribute column = "\x60" ++ column ++ "\x60" := if_neg hkey
      simp only [hquoted, if_neg hkey, String.append_assoc]
      rfl

theorem Operator.keyword_between (o : Operator) : " " ++ o.keyword ++ " " = o.written := by
  cases o <;> rfl

theorem Direction.keyword_behind (d : Direction) : " " ++ d.keyword = d.written := by
  cases d <;> rfl

theorem AdjustOp.keyword_between (op : AdjustOp) : " " ++ op.keyword ++ " " = op.written := by
  cases op <;> rfl

theorem AggregateFunction.keyword_before (function : AggregateFunction) :
    function.keyword ++ "(" = function.written := by
  cases function <;> rfl

theorem Operand.text_eq (o : Operand) : o.text = o.written := by
  cases o <;> rfl

namespace Aql

def Expr.written : Expr → String
  | .column c => c.written
  | .document entity => entity
  | .group index => "group_" ++ Text.decimal index
  | .aggregateValue => "aggregate_value"
  | .operand o => o.written
  | .adjusted c op amount => c.written ++ op.written ++ amount.text
  | .null => "null"
  | .one => "1"

def Comparison.written : Comparison → String
  | .binary left operator right => left.written ++ operator.written ++ right.written
  | .among values false column =>
    "[" ++ ", ".intercalate (values.map Operand.written) ++ "] ANY == " ++ column.written
  | .among values true column =>
    "[" ++ ", ".intercalate (values.map Operand.written) ++ "] NONE == " ++ column.written
  | .never => "false"

def Loop.written (l : Loop) : String :=
  "FOR " ++ l.entity ++ " IN \x60" ++ l.collection ++ "\x60"

/-- Members of an object, the keys in quotes and the values as they are. -/
def objectWritten (members : List (String × String)) : String :=
  "\x7b" ++ ", ".intercalate (members.map fun m => Json.quote m.1 ++ ": " ++ m.2) ++ "\x7d"

def Output.written : Output → String
  | .value e => e.written
  | .object pairs => objectWritten (pairs.map fun pair => (pair.1, pair.2.written))

theorem Expr.text_eq (e : Expr) : e.text = e.written := by
  cases e with
  | column c => exact c.expression_eq
  | operand o => exact o.text_eq
  | adjusted c op amount =>
    have hop := op.keyword_between
    simp only [text, written, c.expression_eq, ← hop, String.append_assoc]
  | _ => rfl

theorem Comparison.text_eq (c : Comparison) : c.text = c.written := by
  have hoperands : Operand.text = Operand.written := funext Operand.text_eq
  cases c with
  | binary left operator right =>
    have hoperator := operator.keyword_between
    simp only [text, written, left.expression_eq, right.text_eq, ← hoperator, String.append_assoc]
  | among values negated column =>
    cases negated with
    | true =>
      simp only [text, written, column.expression_eq, hoperands, String.append_assoc]
      rfl
    | false =>
      simp only [text, written, column.expression_eq, hoperands, String.append_assoc]
      rfl
  | never => rfl

theorem Loop.text_eq (l : Loop) : l.text = l.written := by
  simp only [text, written, Collection.inBackticks, String.append_assoc]
  rfl

theorem pairsText_eq (pairs : List (String × Expr)) :
    pairsText pairs = objectWritten (pairs.map fun pair => (pair.1, pair.2.written)) := by
  rw [← funext Expr.text_eq]
  rfl

theorem documentText_eq (members : List (String × Operand)) :
    Program.documentText members =
      objectWritten (members.map fun member => (member.1, member.2.written)) := by
  rw [← funext Operand.text_eq]
  rfl

theorem Output.text_eq (o : Output) : o.text = o.written := by
  cases o with
  | value e => exact e.text_eq
  | object pairs => exact pairsText_eq pairs

end Aql

end AqlQuery
