import AqlQuery.Aql.Expr
import AqlQuery.Proofs.Binding.Normal

/-!
# The texts in a query

Everything of a query that is written into a statement as text: the collections, the columns of all
its parts, the keys of its records and its raw expressions. Data are not among them.
-/

namespace AqlQuery

mutual
/-- The columns of a condition, from left to right. -/
def Condition.columns : Condition → List String
  | .compare column _ _ => [column]
  | .member column _ => [column]
  | .notMember column _ => [column]
  | .isNull column => [column]
  | .notNull column => [column]
  | .compareColumns first _ second => [first, second]
  | .group members => Condition.memberColumns members
/-- The columns of linked conditions. -/
def Condition.memberColumns : List (Connective × Condition) → List String
  | [] => []
  | (_, condition) :: rest => condition.columns ++ Condition.memberColumns rest
end

theorem Condition.mem_memberColumns {members : List Predicate} {p : Predicate} {column : String}
    (hp : p ∈ members) (hc : column ∈ p.2.columns) :
    column ∈ Condition.memberColumns members := by
  induction members with
  | nil => cases hp
  | cons first rest ih =>
    rcases List.mem_cons.mp hp with rfl | hm
    · exact List.mem_append_left _ hc
    · exact List.mem_append_right _ (ih hm)

def Projection.texts : Projection → List String
  | .all => []
  | .columns shown => shown

/-- The columns that a mutation writes. -/
def Mutation.columns : Mutation → List String
  | .update assignments => assignments.map Assignment.column
  | _ => []

/-- The keys of the records to insert. -/
def Mutation.recordKeys : Mutation → List String
  | .insert records => records.flatMap OrderedMap.keys
  | _ => []

def Operand.raw? : Operand → Option String
  | .bound _ => none
  | .raw text => some text

namespace Query

theorem texts_shownProjection (projection : Projection) :
    (shownProjection projection).texts = projection.texts := by
  cases projection with
  | all => rfl
  | columns shown => cases shown <;> rfl

/-- The columns that conditions compare, those of the joins first. -/
def conditionColumns (q : Query) : List String :=
  (Aql.predicateLists q).flatMap Condition.memberColumns

theorem flatMap_memberOperands (q : Query) :
    (Aql.predicateLists q).flatMap Condition.memberOperands =
      q.joinOperands ++ Condition.memberOperands q.predicates := by
  rw [Aql.predicateLists, List.flatMap_append, List.flatMap_map, List.flatMap_singleton]
  rfl

/-- All column strings of a query. -/
def columns (q : Query) : List String :=
  q.conditionColumns ++ q.groups ++ q.ordering.map OrderBy.column ++ q.projection.texts ++
    q.aggregate.elim [] Aggregate.columns ++ q.mutation.elim [] Mutation.columns

/-- The source and the joined collections. -/
def collections (q : Query) : List String :=
  q.source :: q.joins.map Join.collection

/-- Every text that a statement of the query may show. -/
def texts (q : Query) : List String :=
  q.collections ++ q.columns ++ q.mutation.elim [] Mutation.recordKeys ++
    q.operands.filterMap Operand.raw?

theorem collections_subset_texts (q : Query) : q.collections ⊆ q.texts :=
  fun _ hm => List.mem_append_left _ (List.mem_append_left _ (List.mem_append_left _ hm))

theorem columns_subset_texts (q : Query) : q.columns ⊆ q.texts :=
  fun _ hm => List.mem_append_left _ (List.mem_append_left _ (List.mem_append_right _ hm))

end Query

end AqlQuery
