import AqlQuery.Proofs.Aql.Variables
import AqlQuery.Proofs.Column.Wrapping

/-!
# The collections of a statement

A source that is blank, or made of backticks, is refused before anything is written. What is
refused is what the blanks and backticks at the ends leave empty; the blanks that are then left
inside the backticks are dropped when the name is written. So a source of blanks in backticks gets
past the check and is written as a collection without a name.
-/

namespace AqlQuery

open Text

/-! ## The check -/

namespace Query

open Collection

theorem lacksSource_eq_false_iff (q : Query) :
    q.lacksSource = false ↔ stripChars isBacktick (stripChars isBlank q.source.toList) ≠ [] := by
  change (strip isBacktick (trim q.source) == "") = false ↔ _
  rw [beq_eq_false_iff_ne, ne_eq, ← String.toList_inj]
  simp only [strip, trim, String.toList_ofList]
  exact Iff.rfl

/-- The check and the name disagree about blanks in backticks, and about no other source. -/
theorem lacksSource_and_bareName_iff (q : Query) :
    q.lacksSource = false ∧ bareName q.source = "" ↔ HidesBlanks q.source.toList := by
  rw [lacksSource_eq_false_iff, ← String.toList_inj, toList_bareName]
  exact stripped_eq_nil_iff q.source.toList

theorem lacksSource_of_check {q : Query} (h : q.check = .ok ()) : q.lacksSource = false := by
  unfold check at h
  split at h
  next => cases h
  next hsource => exact Bool.eq_false_iff.mpr hsource

end Query

/-! ## The collections that a statement names -/

namespace Aql.Program

/-- The collections that a statement iterates or writes. -/
def collections : Program → List String
  | .insert _ _ collection => [collection]
  | p => p.loops.map Loop.collection ++ p.target?.toList

/-- A statement over rows names the collections of its loops, of which the first is also the one
that it writes. -/
theorem mem_collections_of_rows {q : Query} {p : Program} (hloops : p.loops = q.loops)
    (h : ofQuery q = .ok p) (name : String) :
    name ∈ p.collections ↔ name = Collection.bareName (Collection.bareName q.source) ∨
      ∃ j ∈ q.joins, name = Collection.bareName j.collection := by
  have hloop : name ∈ p.loops.map Loop.collection ↔
      name = Collection.bareName (Collection.bareName q.source) ∨
        ∃ j ∈ q.joins, name = Collection.bareName j.collection := by
    rw [hloops, Query.loops, List.map_cons, List.mem_cons, List.map_map, List.mem_map]
    simp only [Function.comp_apply, eq_comm]
    exact Iff.rfl
  have htarget : name ∈ p.target?.toList → name ∈ p.loops.map Loop.collection := by
    intro hname
    rw [target?_ofQuery h name (Option.mem_toList.mp hname), hloops]
    exact List.mem_cons_self
  have hmem : name ∈ p.collections ↔ name ∈ p.loops.map Loop.collection := by
    cases p with
    | insert entity documents collection => exact absurd hloops (List.cons_ne_nil _ _).symm
    | _ => exact List.mem_append.trans ⟨fun hor => hor.elim id htarget, Or.inl⟩
  exact hmem.trans hloop

end Aql.Program

namespace Query

open Collection

/-- The source of a statement has a name exactly if it is not some blanks in backticks. Of the
collections that a statement names, that of an insert is without a name in this case only; over
rows, where the name of the source is read once more, also if nothing is left of it then, or if a
join is with a collection that has none. -/
theorem compileWith_source_iff {q : Query} {expected : Option Shape} {statement : Statement}
    (h : q.compileWith .default expected = .ok statement) :
    (bareName q.source = "" ↔ HidesBlanks q.source.toList) ∧
      ∃ program, Aql.Program.ofQuery q.normalize = .ok program ∧ statement.text = program.text ∧
        (q.shape = .insert → ("" ∈ program.collections ↔ HidesBlanks q.source.toList)) ∧
        (q.shape ≠ .insert → ("" ∈ program.collections ↔
          Wraps [] (bareName q.source).toList ∨ ∃ j ∈ q.joins, Wraps [] j.collection.toList)) := by
  have hsource : bareName q.source = "" ↔ HidesBlanks q.source.toList := by
    have hchecked : q.lacksSource = false := lacksSource_of_check (check_of_compileWith h)
    rw [← lacksSource_and_bareName_iff]
    exact ⟨fun hempty => ⟨hchecked, hempty⟩, And.right⟩
  obtain ⟨program, hprogram, rfl⟩ := compileWith_ok h
  refine ⟨hsource, program, hprogram, rfl, ?_, ?_⟩
  · intro hshape
    obtain ⟨records, hm⟩ := shape_eq_insert_iff.mp hshape
    rw [normalize_of_insert hm] at hprogram
    cases hprogram
    rw [← hsource]
    exact List.mem_singleton.trans eq_comm
  · intro hshape
    obtain ⟨program', _, hprogram', _, hloops, _⟩ := compileWith_rows hshape h
    cases hprogram.symm.trans hprogram'
    rw [Aql.Program.mem_collections_of_rows (hloops.trans (loops_normalize hshape).symm) hprogram,
      normalize_of_not_insert (not_insert_of_shape hshape)]
    simp only [← bareName_eq_empty_iff, eq_comm]

/-- A removal over a source with blanks in its backticks, and a join. -/
def spacedQuery : Query where
  source := " \x60 users\x60\x60"
  joins := [⟨"\x60orders\x60 ", []⟩]
  mutation := some .delete

theorem compileWith_source_iff_spaced :
    ∃ statement, spacedQuery.compileWith .default none = .ok statement ∧
      bareName spacedQuery.source ≠ "" ∧ ¬ HidesBlanks spacedQuery.source.toList ∧
      ∃ program : Aql.Program, statement.text = program.text ∧ "" ∉ program.collections := by
  obtain ⟨statement, h⟩ : ∃ statement, spacedQuery.compileWith .default none = .ok statement :=
    Outcome.exists_ok (by decide +kernel)
  obtain ⟨hsource, program, _, htext, _, hrows⟩ := compileWith_source_iff h
  have hname : bareName spacedQuery.source ≠ "" := by decide
  refine ⟨statement, h, hname, fun hhides => hname (hsource.mpr hhides), program, htext, ?_⟩
  rw [hrows (by decide)]
  simp only [← bareName_eq_empty_iff]
  decide

theorem blanks_in_backticks_name_nothing :
    ∃ statement, (table "\x60 \x60").compile = .ok statement ∧ bareName "\x60 \x60" = "" ∧
      statement.text = "FOR _entity IN \x60\x60 RETURN _entity" := by
  refine ⟨⟨"FOR _entity IN \x60\x60 RETURN _entity", .empty, .select⟩, ?_, by decide, rfl⟩
  exact Outcome.ok_of_toOption (by decide +kernel)

end Query

end AqlQuery
