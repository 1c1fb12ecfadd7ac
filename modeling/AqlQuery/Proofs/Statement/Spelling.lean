import Mathlib.Data.List.Forall2
import AqlQuery.Proofs.Aql.Variables
import AqlQuery.Proofs.Column.Wrapping

/-!
# How statements spell a collection

A name is made bare once or twice on its way into a statement. The loop of a join and an insert take
it as it was given; a scope holds the bare name, and the variable of a column, the loop over the
source and the target of an update or a removal are spelled from there. All of them agree on the
names with one layer of backticks. A layer inside another is taken off the second time only, and
then the columns of a join go through a variable that its loop does not introduce, and an insert
writes to another collection than the one that is read.
-/

namespace AqlQuery

open Collection

/-! ## The loop of a join -/

namespace Aql

theorem Frame.joinsClause_eq {f : Frame} (h : f.query.joins ≠ []) :
    f.joinsClause = some (.joins (f.query.joins.map joinLoop)) := by
  rw [joinsClause, if_neg]
  rwa [List.isEmpty_iff]

/-- A column of a joined collection goes through the variable of its loop if the name has one layer
of backticks, and otherwise through another one. -/
theorem Frame.entity_joinLoop_eq_iff {s : Scope} {raw : String} {c : ResolvedColumn} {j : Join}
    (h : s.resolve raw = .ok c) (hc : c.collection = bareName j.collection) :
    (joinLoop j).entity = c.entity ↔ IsOnceWrapped j.collection := by
  obtain ⟨_, hentity, _⟩ := Scope.resolve_ok h
  rw [hentity, hc, eq_comm, ← bareName_bareName_iff]
  exact variableName_bareName_iff j.collection

/-! ## The names of the source -/

namespace Program

/-- The variables and collections that a statement goes through its source by, or writes to it. -/
def sourceNames : Program → List Loop
  | .insert entity _ collection => [⟨entity, collection⟩]
  | p => p.loops.head?.toList ++ p.writes?.toList

theorem sourceNames_ofInsert (q : Query) (records : List (OrderedMap Operand)) :
    (ofInsert q records).sourceNames = [⟨variableName q.source, bareName q.source⟩] := rfl

/-- A select, an update and a removal name their source in one way, wherever they do. -/
theorem sourceNames_of_rows {q : Query} {p : Program}
    (hm : ∀ records, q.mutation ≠ some (.insert records)) (h : ofQuery q = .ok p) :
    p.sourceNames ≠ [] ∧ ∀ l ∈ p.sourceNames,
      l = ⟨variableName (bareName q.source), bareName (bareName q.source)⟩ := by
  have hloops : p.loops = q.loops := loops_ofQuery hm h
  have hnames : p.sourceNames = p.loops.head?.toList ++ p.writes?.toList := by
    cases p with
    | insert entity documents collection => exact absurd hloops (List.cons_ne_nil _ _).symm
    | _ => rfl
  rw [hnames, hloops, Query.loops, List.head?_cons]
  refine ⟨List.cons_ne_nil _ _, fun l hl => ?_⟩
  rcases List.mem_cons.mp hl with rfl | hwritten
  · rfl
  · exact writes?_ofQuery h l (Option.mem_toList.mp hwritten)

end Program

end Aql

/-! ## Agreement -/

namespace Query

open Aql

/-- Making a name bare once more changes nothing exactly if it has no more than one layer of
backticks. So the loops of a query are those that its scope reads columns through if all its names
are of this kind, and only then. The loop of a join is over the collection that the columns of the
join belong to, and has their variable in this case only. An insert names its source as a select, an
update or a removal does in this case only. -/
theorem spellings_agree_iff (name : String) (q : Query) :
    (bareName (bareName name) = bareName name ↔ IsOnceWrapped name) ∧
    (scopeLoops (Scope.ofQuery q) = q.loops ↔ ∀ raw ∈ q.collections, IsOnceWrapped raw) ∧
    (∀ groups, q.joins ≠ [] →
      ∃ loops, Frame.joinsClause ⟨q, Scope.ofQuery q, groups⟩ = some (.joins loops) ∧
        List.Forall₂ (fun (j : Join) (l : Loop) => ∀ raw c, (Scope.ofQuery q).resolve raw = .ok c →
          c.collection = bareName j.collection →
            l.collection = c.collection ∧ (l.entity = c.entity ↔ IsOnceWrapped j.collection))
          q.joins loops) ∧
    (∀ (q' : Query) (p p' : Program), q.source = q'.source → q.shape = .insert →
      q'.shape ≠ .insert → Program.ofQuery q = .ok p → Program.ofQuery q' = .ok p' →
        (p.sourceNames ≠ [] ∧ p'.sourceNames ≠ []) ∧
          ∀ l ∈ p.sourceNames, ∀ l' ∈ p'.sourceNames,
            l'.entity = (Scope.ofQuery q').sourceVariable ∧
            (l.entity = l'.entity ↔ IsOnceWrapped q.source) ∧
            (l.collection = l'.collection ↔ IsOnceWrapped q.source)) := by
  refine ⟨bareName_bareName_iff name, ?_, ?_, ?_⟩
  · rw [scopeLoops_eq_loops_iff]
    simp only [bareName_bareName_iff]
  · intro groups hjoins
    refine ⟨q.joins.map Frame.joinLoop, Frame.joinsClause_eq hjoins, ?_⟩
    rw [List.forall₂_map_right_iff, List.forall₂_same]
    intro j _ raw c hresolve hc
    exact ⟨hc.symm, Frame.entity_joinLoop_eq_iff hresolve hc⟩
  · intro q' p p' hsource hshape hshape' hp hp'
    obtain ⟨records, hm⟩ := shape_eq_insert_iff.mp hshape
    have hinsert : p = Program.ofInsert q records := by
      rw [Program.ofQuery, hm] at hp
      exact (Except.ok.inj hp).symm
    obtain ⟨hrows, hnames⟩ := Program.sourceNames_of_rows (not_insert_of_shape hshape') hp'
    rw [hinsert, Program.sourceNames_ofInsert]
    refine ⟨⟨List.cons_ne_nil _ _, hrows⟩, fun l hl l' hl' => ?_⟩
    -- both are spelled from the one source, by the name as it was given and by its bare name
    rw [List.mem_singleton.mp hl, hnames l' hl', ← hsource, ← bareName_bareName_iff]
    refine ⟨by rw [Scope.sourceVariable, Scope.ofQuery, Scope.ofNames, hsource], ?_, eq_comm⟩
    rw [← variableName_bareName_iff]
    exact eq_comm

/-- A name with blanks and backticks around it, in one layer. -/
def paddedName : String := " \x60\x60 roles\x60 "

/-- A collection joined under the padded name. -/
def paddedJoin : Query := (table "users").crossJoin paddedName

/-- A record written to the collection with the padded name. -/
def paddedInsert : Query :=
  (table paddedName).runLenient [.insert [[("title", .value (.string "editor"))]]]

/-- All documents removed from the collection with the padded name. -/
def paddedRemoval : Query := (table paddedName).runLenient [.delete]

theorem spellings_agree_iff_padded :
    (IsOnceWrapped paddedName ∧ bareName (bareName paddedName) = bareName paddedName) ∧
      scopeLoops (Scope.ofQuery paddedJoin) = paddedJoin.loops ∧
      (∃ loops c, Frame.joinsClause (Frame.forMutation paddedJoin) = some (.joins loops) ∧
        (Scope.ofQuery paddedJoin).resolve "roles.title" = .ok c ∧ loops = [columnLoop c]) ∧
      ∃ p p', Program.ofQuery paddedInsert = .ok p ∧ Program.ofQuery paddedRemoval = .ok p' ∧
        ∃ l ∈ p.sourceNames, ∃ l' ∈ p'.sourceNames,
          l.entity = l'.entity ∧ l.collection = l'.collection := by
  obtain ⟨hstays, hloops, hjoins, _⟩ := spellings_agree_iff paddedName paddedJoin
  obtain ⟨_, _, _, hsources⟩ := spellings_agree_iff paddedName paddedInsert
  have honce : IsOnceWrapped paddedName := by decide +kernel
  have hall : ∀ raw ∈ paddedJoin.collections, IsOnceWrapped raw := by decide +kernel
  refine ⟨⟨honce, hstays.mpr honce⟩, hloops.mpr hall, ?_, ?_⟩
  · obtain ⟨loops, hclause, hpairs⟩ := hjoins [] (List.cons_ne_nil _ _)
    have hresolve : (Scope.ofQuery paddedJoin).resolve "roles.title" =
        .ok ⟨"roles", "roles_entity", some "title", none⟩ :=
      Outcome.ok_of_toOption (by decide +kernel)
    refine ⟨loops, _, hclause, hresolve, ?_⟩
    cases hpairs with
    | cons hfirst hrest =>
      cases hrest
      obtain ⟨hcollection, hentity⟩ := hfirst _ _ hresolve (by decide)
      rw [columnLoop, ← hcollection, ← hentity.mpr honce]
  · obtain ⟨p, hp⟩ : ∃ p, Program.ofQuery paddedInsert = .ok p :=
      Outcome.exists_ok (by decide +kernel)
    obtain ⟨p', hp'⟩ : ∃ p', Program.ofQuery paddedRemoval = .ok p' :=
      Outcome.exists_ok (by decide +kernel)
    obtain ⟨⟨hne, hne'⟩, hagree⟩ := hsources paddedRemoval p p' rfl rfl (by decide) hp hp'
    obtain ⟨l, hl⟩ := List.exists_mem_of_ne_nil _ hne
    obtain ⟨l', hl'⟩ := List.exists_mem_of_ne_nil _ hne'
    obtain ⟨_, hentity, hcollection⟩ := hagree l hl l' hl'
    exact ⟨p, p', hp, hp', l, hl, l', hl', hentity.mpr honce, hcollection.mpr honce⟩

/-- A name with a layer of backticks inside another. -/
def layeredName : String := "\x60 \x60roles\x60 \x60"

theorem layered_name_splits :
    bareName (bareName layeredName) ≠ bareName layeredName ∧
      ((((table "users").crossJoin layeredName).filterEq .and "roles_entity.title"
          (.value (.string "editor"))).compile.toOption.map Statement.text =
        some ("FOR users_entity IN \x60users\x60 " ++
          "FOR \x60roles\x60_entity IN \x60\x60roles\x60\x60 " ++
          "FILTER roles_entity.\x60title\x60 == @B1 RETURN users_entity")) ∧
      ((table layeredName).runLenient
          [.insert [[("title", .value (.string "editor"))]]]).compile.toOption.map Statement.text =
        some ("FOR \x60roles\x60_entity IN [\x7b\"title\": @B1\x7d] " ++
          "INSERT \x60roles\x60_entity INTO \x60\x60roles\x60\x60") ∧
      ((table layeredName).runLenient [.delete]).compile.toOption.map Statement.text =
        some "FOR roles_entity IN \x60roles\x60 REMOVE roles_entity IN \x60roles\x60" := by
  refine ⟨by decide, ?_, ?_, ?_⟩
  · decide +kernel
  · decide +kernel
  · decide +kernel

end Query

end AqlQuery
