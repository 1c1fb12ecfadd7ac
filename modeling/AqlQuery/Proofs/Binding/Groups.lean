import AqlQuery.Proofs.Binding.Coverage

/-!
# What a group leaves in the table

A group is built on a scratch query that takes the whole table along, and of which the conditions
alone come back. Steps that build on this query keep every binding that was there. Those of their
own bindings that no condition of the group refers to stay behind in the table, without a
placeholder: a group covers its bindings exactly if its conditions have as many placeholders as it
bound data. A group that starts over loses the bindings of the query instead, unless it binds the
same data anew.
-/

namespace AqlQuery

/-- The steps of the group that a step adds. -/
def Step.group? : Step → Option (List Step)
  | .whereNested _ steps => some steps
  | .joinWhere _ steps => some steps
  | _ => none

namespace Query

/-- The names that linked conditions refer to. -/
def placeholders (conditions : List Predicate) : List String :=
  (Condition.memberOperands conditions).filterMap Operand.name?

/-- Every binding of the query stands behind one of its placeholders. -/
def Covered (q : Query) : Prop :=
  q.bindings.names ⊆ q.boundNames

instance (q : Query) : Decidable q.Covered :=
  inferInstanceAs (Decidable (∀ name ∈ q.bindings.names, name ∈ q.boundNames))

/-- A group brings back the table and the conditions of what its steps built. -/
theorem group_ok {s : Step} {steps : List Step} {q q' : Query}
    (hgroup : s.group? = some steps) (h : s.apply q = .ok q') :
    ∃ built, Step.applyAll steps q.scratch = .ok built ∧ q'.bindings = built.bindings ∧
      q'.boundNames.Perm (q.boundNames ++ placeholders built.predicates) := by
  cases s <;> simp only [Step.group?, reduceCtorEq, Option.some.injEq] at hgroup
  case whereNested link inner =>
    subst hgroup
    obtain ⟨built, hb, rfl⟩ := whereNested_ok h
    exact ⟨built, hb, rfl, boundNames_push { q with bindings := built.bindings } link _⟩
  case joinWhere collection inner =>
    subst hgroup
    obtain ⟨built, hb, rfl⟩ := joinWhere_ok h
    exact ⟨built, hb, rfl, boundNames_pushJoin { q with bindings := built.bindings } collection _⟩

/-- The data of a group are bound under fresh names. The names that its conditions refer to are
some of these; steps that add conditions only leave no other. -/
theorem group_names {steps : List Step} {q built : Query} (hs : Step.areBuilders steps = true)
    (hb : Step.applyAll steps q.scratch = .ok built) :
    built.bindings = q.bindings.bindAll (Step.boundAll steps) ∧
      ∃ stray, (placeholders built.predicates ++ stray).Perm
          (BindTable.freshNames q.bindings.counter (Step.boundAll steps).length) ∧
        (Step.arePredicates steps = true → stray = []) := by
  obtain ⟨dropped, hg, hd⟩ := Step.applyAll_grows steps hs hb
  refine ⟨hg.bindings, built.besides ++ dropped, ?_, fun hp => ?_⟩
  · -- a scratch query refers to nothing yet
    have hnames := (built.boundNames_perm_besides.symm.append_right dropped).trans hg.names
    rw [List.append_assoc] at hnames
    exact hnames
  · rw [hd hp, Step.besides_of_arePredicates hp hb]
    rfl

theorem names_nodup (q : Query) : q.bindings.names.Nodup :=
  q.bindings.entries.nodup

/-- A closed query with a covered table covers what a group adds exactly if none of the new names
is a stray one. -/
theorem covered_iff_of_names {q q' : Query} {fresh conditionNames stray : List String}
    (hclosed : q.Closed) (hnames : q'.bindings.names = q.bindings.names ++ fresh)
    (hbound : q'.boundNames.Perm (q.boundNames ++ conditionNames))
    (hfresh : (conditionNames ++ stray).Perm fresh) : q'.Covered ↔ q.Covered ∧ stray = [] := by
  have hnodup := q'.names_nodup
  rw [hnames, List.nodup_append] at hnodup
  obtain ⟨-, hnew, hapart⟩ := hnodup
  have hsplit := (List.nodup_append.mp (hfresh.nodup_iff.mpr hnew)).2.2
  constructor
  · intro hcov
    -- a name that is referred to is one of `q` or one of the group
    have hsources (name : String) (hm : name ∈ q'.bindings.names) :
        name ∈ q.boundNames ∨ name ∈ conditionNames :=
      List.mem_append.mp (hbound.subset (hcov hm))
    refine ⟨fun name hm => ?_, List.eq_nil_iff_forall_not_mem.mpr fun name hm => ?_⟩
    · rcases hsources name (hnames ▸ List.mem_append_left fresh hm) with hq | hc
      · exact hq
      · have hf := hfresh.subset (List.mem_append_left stray hc)
        exact absurd rfl (hapart name hm name hf)
    · have hf := hfresh.subset (List.mem_append_right conditionNames hm)
      rcases hsources name (hnames ▸ List.mem_append_right q.bindings.names hf) with hq | hc
      · exact absurd rfl (hapart name (hclosed name hq) name hf)
      · exact absurd rfl (hsplit name hc name hm)
  · rintro ⟨hcov, rfl⟩ name hm
    rw [List.append_nil] at hfresh
    rw [hnames] at hm
    apply hbound.symm.subset
    rcases List.mem_append.mp hm with hold | hf
    · exact List.mem_append_left _ (hcov hold)
    · exact List.mem_append_right _ (hfresh.symm.subset hf)

/-! ## Statements -/

theorem Closed.exists_decimal {q : Query} (hc : q.Closed) (hd : q.bindings.Dense) {name : String}
    (h : name ∈ q.boundNames) : ∃ k, name = "B" ++ Text.decimal k := by
  have hm := hc name h
  rw [hd] at hm
  obtain ⟨i, _, rfl⟩ := List.mem_map.mp hm
  exact ⟨i + 1, rfl⟩

/-- A statement that is no insert comes with the table of its query, and its text refers to the
names that the query refers to. -/
theorem references_compile {q : Query} {statement : Statement}
    (hn : ∀ name ∈ q.boundNames, ∃ k, name = "B" ++ Text.decimal k)
    (hplain : ∀ t ∈ q.texts, Text.Plain t) (h : q.compile = .ok statement)
    (hshape : statement.shape ≠ .insert) :
    statement.bindings = q.bindings ∧ Text.references statement.text = q.boundNames := by
  obtain ⟨program, hprogram, rfl⟩ := compileWith_ok h
  have hm : ∀ records, q.mutation ≠ some (.insert records) := fun records hm =>
    hshape (shape_eq_insert_iff.mpr ⟨records, hm⟩)
  have hnormal := normalize_of_not_insert hm
  have hbound : q.normalize.boundNames = q.boundNames := by rw [hnormal]; rfl
  have hrefs := references_normalize hplain (fun name hname => hn name (hbound ▸ hname)) hprogram
  refine ⟨?_, hrefs.trans hbound⟩
  change q.normalize.bindings = q.bindings
  rw [hnormal]

/-- A statement that is no insert refers to all of its bindings exactly if its query does. -/
theorem names_subset_references_iff {q : Query} {statement : Statement} (hclosed : q.Closed)
    (hdense : q.bindings.Dense) (hplain : ∀ t ∈ q.texts, Text.Plain t)
    (h : q.compile = .ok statement) (hshape : statement.shape ≠ .insert) :
    statement.bindings.names ⊆ Text.references statement.text ↔ q.Covered := by
  obtain ⟨hcarried, hrefs⟩ := references_compile
    (fun name hm => hclosed.exists_decimal hdense hm) hplain h hshape
  rw [hcarried, hrefs]
  exact Iff.rfl

/-! ## Groups of built queries -/

/-- A run of building steps ends in a closed query, whose table takes as many data more as there are
names left. -/
theorem closed_and_takes {name : String} {before : List Step} {data : List Json}
    (hbefore : ∀ s ∈ before, s.isBuilder = true)
    (hfit : (Step.boundAll before).length + data.length < UInt32.size) :
    ((table name).runLenient before).Closed ∧
      ((table name).runLenient before).bindings.Takes data := by
  obtain ⟨_, hg, _⟩ := @runLenient_grows before (table name) hbefore
  have hlen := length_boundBy_le before (table name)
  have htakes : (table name).bindings.Takes ((table name).boundBy before ++ data) := by
    refine ⟨BindTable.dense_empty, ?_⟩
    change 0 + _ < UInt32.size
    rw [List.length_append]
    omega
  refine ⟨(closed_table name).of_grows hg, ?_⟩
  rw [hg.bindings]
  exact htakes.right

/-- A group of building steps keeps the table of a closed query, and covers what it adds exactly if
its conditions have a placeholder for each new datum. -/
theorem group_of_builders {q q' built : Query} {s : Step} {steps : List Step} (hclosed : q.Closed)
    (htakes : q.bindings.Takes (Step.boundAll steps)) (hgroup : s.group? = some steps)
    (hsteps : Step.areBuilders steps = true) (hb : Step.applyAll steps q.scratch = .ok built)
    (h : s.apply q = .ok q') :
    q.bindings.PrefixOf q'.bindings ∧ q'.Closed ∧ q'.bindings.Dense ∧
      (q'.Covered ↔ q.Covered ∧
        (placeholders built.predicates).length = (Step.boundAll steps).length) ∧
      (Step.arePredicates steps = true →
        (placeholders built.predicates).length = (Step.boundAll steps).length) := by
  obtain ⟨_, hbuilt, htable, hbound⟩ := group_ok hgroup h
  cases Except.ok.inj (hbuilt.symm.trans hb)
  obtain ⟨hbindings, stray, hfresh, hstray⟩ := group_names hsteps hb
  rw [hbindings] at htable
  have hnames : q'.bindings.names = q.bindings.names ++
      BindTable.freshNames q.bindings.counter (Step.boundAll steps).length := by
    rw [htable, htakes.dense.names_bindAll htakes.fit]
  -- a stray name is a datum without a placeholder
  have hlength : stray = [] ↔
      (placeholders built.predicates).length = (Step.boundAll steps).length := by
    have hcount := hfresh.length_eq
    rw [List.length_append, BindTable.length_freshNames] at hcount
    rw [← List.length_eq_zero_iff]
    omega
  refine ⟨?_, ?_, ?_, ?_, fun hp => hlength.mp (hstray hp)⟩
  · rw [htable]
    exact htakes.prefixOf
  · intro name hm
    rw [hnames]
    rcases List.mem_append.mp (hbound.subset hm) with hq | hc
    · exact List.mem_append_left _ (hclosed name hq)
    · exact List.mem_append_right _ (hfresh.subset (List.mem_append_left stray hc))
  · rw [htable]
    exact htakes.dense.bindAll htakes.fit
  · rw [covered_iff_of_names hclosed hnames hbound hfresh, hlength]

/-! ## Groups that start over -/

/-- Steps that start over on the way forget what was built before. -/
theorem applyAll_restart {first rest : List Step} {other : String} {q built : Query}
    (h : Step.applyAll (first ++ .table other :: rest) q = .ok built) :
    Step.applyAll rest (table other) = .ok built := by
  induction first generalizing q with
  | nil => exact h
  | cons s first ih =>
    rw [List.cons_append, Step.applyAll] at h
    split at h
    · cases h
    · exact ih h

/-- A table that is filled from nothing has the data in their order. -/
theorem values_bindAll_empty {data : List Json} (hfit : data.length < UInt32.size) :
    (BindTable.empty.bindAll data).entries.entries.map Prod.snd = data := by
  have hroom : BindTable.empty.counter.toNat + data.length < UInt32.size := by
    change 0 + _ < UInt32.size
    omega
  rw [BindTable.dense_empty.sound.entries_bindAll hroom]
  change (List.zip _ data).map Prod.snd = data
  exact List.map_snd_zip (Nat.le_of_eq (BindTable.length_freshNames _ _).symm)

/-- Tables that are filled from nothing extend one another as their data do. -/
theorem prefixOf_bindAll_empty_iff {xs ys : List Json} (hx : xs.length < UInt32.size)
    (hy : ys.length < UInt32.size) :
    (BindTable.empty.bindAll xs).PrefixOf (BindTable.empty.bindAll ys) ↔ xs <+: ys := by
  constructor
  · intro h
    have hvalues := List.IsPrefix.map Prod.snd h
    rwa [values_bindAll_empty hx, values_bindAll_empty hy] at hvalues
  · rintro ⟨more, rfl⟩
    have htakes : BindTable.empty.Takes (xs ++ more) := by
      refine ⟨BindTable.dense_empty, ?_⟩
      change 0 + _ < UInt32.size
      omega
    rw [BindTable.bindAll_append]
    exact htakes.right.prefixOf

/-- A group that starts over keeps the bindings of the query exactly if it binds the same data anew
before all others. -/
theorem restart_prefixOf_iff {name : String} {before : List Step}
    (hbefore : ∀ s ∈ before, s.isBuilder = true)
    (hfit : (Step.boundAll before).length < UInt32.size) {s : Step} {first rest : List Step}
    {other : String} (hgroup : s.group? = some (first ++ .table other :: rest))
    (hrest : Step.areBuilders rest = true) (hroom : (Step.boundAll rest).length < UInt32.size)
    {q' : Query} (h : s.apply ((table name).runLenient before) = .ok q') :
    ((table name).runLenient before).bindings.PrefixOf q'.bindings ↔
      (table name).boundBy before <+: Step.boundAll rest := by
  obtain ⟨built, hb, hbindings, _⟩ := group_ok hgroup h
  obtain ⟨_, hbuilt, _⟩ := Step.applyAll_grows rest hrest (applyAll_restart hb)
  obtain ⟨_, hg, _⟩ := @runLenient_grows before (table name) hbefore
  rw [hbindings, hbuilt.bindings, hg.bindings]
  exact prefixOf_bindAll_empty_iff
    (Nat.lt_of_le_of_lt (length_boundBy_le before (table name)) hfit) hroom

/-! ## Groups of any kind -/

/-- A group of steps that build on their query keeps every binding in its place and with its value.
The table is covered afterwards exactly if it was covered before and the conditions of the group
have a placeholder for each datum that its steps bound, which is so if they add conditions only;
and exactly then does a statement of the query refer to every binding that it carries. A group that
starts over keeps the bindings only if it binds the same data anew. -/
theorem group_covers_iff (name : String) (before : List Step)
    (hbefore : ∀ s ∈ before, s.isBuilder = true) {s : Step} {steps : List Step}
    (hgroup : s.group? = some steps) (hsteps : Step.areBuilders steps = true)
    (hfit : (Step.boundAll before).length + (Step.boundAll steps).length < UInt32.size)
    {built q' : Query}
    (hb : Step.applyAll steps ((table name).runLenient before).scratch = .ok built)
    (h : s.apply ((table name).runLenient before) = .ok q') :
    ((table name).runLenient before).bindings.PrefixOf q'.bindings ∧
      (q'.Covered ↔ ((table name).runLenient before).Covered ∧
        (placeholders built.predicates).length = (Step.boundAll steps).length) ∧
      (Step.arePredicates steps = true →
        (placeholders built.predicates).length = (Step.boundAll steps).length) ∧
      (∀ statement, q'.compile = .ok statement → statement.shape ≠ .insert →
        (∀ t ∈ q'.texts, Text.Plain t) →
        (statement.bindings.names ⊆ Text.references statement.text ↔ q'.Covered)) ∧
      ∀ (again : Step) (first : List Step) (other : String) (rest : List Step) (fresh : Query),
        again.group? = some (first ++ .table other :: rest) → Step.areBuilders rest = true →
        (Step.boundAll rest).length < UInt32.size →
        again.apply ((table name).runLenient before) = .ok fresh →
        (((table name).runLenient before).bindings.PrefixOf fresh.bindings ↔
          (table name).boundBy before <+: Step.boundAll rest) := by
  obtain ⟨hclosed, htakes⟩ := @closed_and_takes name before (Step.boundAll steps) hbefore hfit
  obtain ⟨hkeeps, hclosed', hdense', hcovers, hconditions⟩ :=
    group_of_builders hclosed htakes hgroup hsteps hb h
  refine ⟨hkeeps, hcovers, hconditions, ?_, ?_⟩
  · intro statement hstatement hshape hplain
    exact names_subset_references_iff hclosed' hdense' hplain hstatement hshape
  · intro again first other rest fresh hagain hrest hroom hfresh
    exact restart_prefixOf_iff hbefore (by omega) hagain hrest hroom hfresh

/-- The steps of a join, with a group inside. -/
def orderSteps : List Step :=
  [.whereColumn .and "orders.user" .eq "users._key",
    .whereNested .and
      [.filterEq .and "orders.state" (.value (.string "open")),
        .whereIn .or false "orders.kind" [.value .null, .raw "1"]]]

theorem group_covers_iff_orders :
    ∃ q' statement,
      (Step.joinWhere "orders" orderSteps).apply
        ((table "users").runLenient [.filterEq .and "users.age" (.value (.number (.int 18)))]) =
          .ok q' ∧
      q'.compile = .ok statement ∧ q'.Covered ∧
      statement.bindings.names ⊆ Text.references statement.text := by
  obtain ⟨_, hcovered, _, hstatement, _⟩ := group_covers_iff "users"
    [.filterEq .and "users.age" (.value (.number (.int 18)))] (by decide)
    (s := .joinWhere "orders" orderSteps) rfl (by decide) (by decide) rfl rfl
  have hcov := hcovered.mpr ⟨by decide, rfl⟩
  exact ⟨_, _, rfl, rfl, hcov, (hstatement _ rfl (by decide) (by decide)).mpr hcov⟩

/-- A query with one condition. -/
def singleQuery : Query :=
  (table "users").filterEq .and "a" (.value (.number (.int 1)))

/-- An update inside a group leaves a binding to which no text refers, and a group that starts over
puts its own datum in the place of one that a condition of the query refers to. -/
theorem group_strays_and_overwrites :
    (∃ q statement,
      (Step.whereNested .and
        [.filterEq .and "b" (.value (.number (.int 2))),
          .update [("c", .value (.number (.int 3)))]]).apply singleQuery = .ok q ∧
      q.compile = .ok statement ∧
      statement.text = "FOR users_entity IN \x60users\x60 FILTER users_entity.\x60a\x60 == @B1 " ++
        "AND (users_entity.\x60b\x60 == @B2) RETURN users_entity" ∧
      statement.bindings.names = ["B1", "B2", "B3"] ∧
      "B3" ∉ Text.references statement.text) ∧
    ∃ q, (Step.whereNested .and
        [.table "users", .filterEq .and "b" (.value (.number (.int 2)))]).apply singleQuery =
          .ok q ∧
      "B1" ∈ singleQuery.boundNames ∧
      singleQuery.bindings.get? "B1" = some (.number (.int 1)) ∧
      q.bindings.get? "B1" = some (.number (.int 2)) :=
  ⟨⟨_, _, rfl, rfl, rfl, rfl, by decide⟩, _, rfl, by decide, rfl, rfl⟩

end Query

end AqlQuery
