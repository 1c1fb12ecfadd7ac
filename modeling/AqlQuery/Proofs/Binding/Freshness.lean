import AqlQuery.Proofs.Binding.Table
import AqlQuery.Query.Serial

/-!
# Allocation overwrites nothing

A table that was read back may have entries under any names. As long as none of them is a name that
is still to be given out, each datum goes to the end of the table under a new name, and no entry
moves or changes. `Adds` says what one allocation does to a table and `AddsAll` what a run of them
does; that all data are found again, under different names, follows from the run alone.
-/

namespace AqlQuery.BindTable

/-! ## One allocation and a run of them -/

/-- A datum goes to the end under a name that was not there, and a raw expression changes nothing. -/
inductive Adds (table : BindTable) : Literal → Operand → BindTable → Prop
  | datum {v : Json} {name : String} {later : BindTable} (hnew : name ∉ table.names)
    (hentries : later.entries.entries = table.entries.entries ++ [(name, v)]) :
    Adds table (.value v) (.bound name) later
  | raw (text : String) : Adds table (.raw text) (.raw text) table

/-- One literal after the other is added, with an operand for each. -/
inductive AddsAll : BindTable → List Literal → List Operand → BindTable → Prop
  | nil (table : BindTable) : AddsAll table [] [] table
  | cons {table middle later : BindTable} {literal : Literal} {operand : Operand}
    {literals : List Literal} {operands : List Operand} (hfirst : table.Adds literal operand middle)
    (hrest : middle.AddsAll literals operands later) :
    AddsAll table (literal :: literals) (operand :: operands) later

/-- The literal that an operand stands for, if its name is in the table. -/
def literal? (table : BindTable) : Operand → Option Literal
  | .bound name => (table.get? name).map .value
  | .raw text => some (.raw text)

theorem PrefixOf.literal? {table later : BindTable} (h : table.PrefixOf later) {operand : Operand}
    {literal : Literal} (hl : table.literal? operand = some literal) :
    later.literal? operand = some literal := by
  cases operand with
  | raw text => exact hl
  | bound name =>
    obtain ⟨v, hv, rfl⟩ := Option.map_eq_some_iff.mp hl
    exact Option.map_eq_some_iff.mpr ⟨v, h.get? hv, rfl⟩

section Run

variable {table later : BindTable}

theorem Adds.entries {literal : Literal} {operand : Operand} (h : table.Adds literal operand later) :
    later.entries.entries = table.entries.entries ++ operand.name?.toList.zip literal.data := by
  cases h with
  | datum _ hentries => exact hentries
  | raw text => exact (List.append_nil _).symm

theorem Adds.length_name? {literal : Literal} {operand : Operand}
    (h : table.Adds literal operand later) :
    operand.name?.toList.length = literal.data.length := by
  cases h <;> rfl

theorem Adds.prefixOf {literal : Literal} {operand : Operand} (h : table.Adds literal operand later) :
    table.PrefixOf later := by
  rw [PrefixOf, h.entries]
  exact List.prefix_append _ _

theorem Adds.literal? {literal : Literal} {operand : Operand} (h : table.Adds literal operand later) :
    later.literal? operand = some literal := by
  cases h with
  | raw text => rfl
  | @datum v name _ hnew hentries =>
    -- the name is not among the entries before the last one, which is looked at then
    have hbefore : table.get? name = none := by
      rw [← Option.not_isSome_iff_eq_none, get?_isSome_iff]
      exact hnew
    have hfound : later.get? name = some v := by
      unfold get? OrderedMap.get? at hbefore ⊢
      rw [hentries, List.lookup_append, hbefore]
      simp
    exact Option.map_eq_some_iff.mpr ⟨v, hfound, rfl⟩

variable {literals : List Literal} {operands : List Operand}

theorem AddsAll.prefixOf (h : table.AddsAll literals operands later) : table.PrefixOf later := by
  induction h with
  | nil table => exact List.prefix_rfl
  | cons hfirst _ ih => exact hfirst.prefixOf.trans ih

/-- Each operand stands for its literal, also after those behind it have been added. -/
theorem AddsAll.map_literal? (h : table.AddsAll literals operands later) :
    operands.map later.literal? = literals.map some := by
  induction h with
  | nil table => rfl
  | cons hfirst hrest ih =>
    rw [List.map_cons, List.map_cons, hrest.prefixOf.literal? hfirst.literal?, ih]

theorem filterMap_name?_cons (operand : Operand) (operands : List Operand) :
    (operand :: operands).filterMap Operand.name? =
      operand.name?.toList ++ operands.filterMap Operand.name? := by
  cases operand <;> rfl

theorem AddsAll.length_names (h : table.AddsAll literals operands later) :
    (operands.filterMap Operand.name?).length = (literals.flatMap Literal.data).length := by
  induction h with
  | nil table => rfl
  | cons hfirst _ ih =>
    rw [filterMap_name?_cons, List.flatMap_cons, List.length_append, List.length_append, ih,
      hfirst.length_name?]

/-- The data stand behind the entries of the table, in their order, under the names of the
operands. -/
theorem AddsAll.entries (h : table.AddsAll literals operands later) :
    later.entries.entries = table.entries.entries ++
      (operands.filterMap Operand.name?).zip (literals.flatMap Literal.data) := by
  induction h with
  | nil table => exact (List.append_nil _).symm
  | cons hfirst _ ih =>
    rw [ih, hfirst.entries, filterMap_name?_cons, List.flatMap_cons,
      List.zip_append hfirst.length_name?, List.append_assoc]

theorem AddsAll.names (h : table.AddsAll literals operands later) :
    later.names = table.names ++ operands.filterMap Operand.name? := by
  have hzip : ((operands.filterMap Operand.name?).zip (literals.flatMap Literal.data)).map
      Prod.fst = operands.filterMap Operand.name? :=
    List.map_fst_zip (Nat.le_of_eq h.length_names)
  unfold BindTable.names OrderedMap.keys Entries.keys
  rw [h.entries, List.map_append, hzip]

/-- The names that a run gives out are different from each other and from those before it, as no
name is twice in a table. -/
theorem AddsAll.nodup (h : table.AddsAll literals operands later) :
    (operands.filterMap Operand.name?).Nodup ∧
      ∀ name ∈ operands.filterMap Operand.name?, name ∉ table.names := by
  have hnodup : later.names.Nodup := later.entries.nodup
  rw [h.names, List.nodup_append] at hnodup
  exact ⟨hnodup.2.1, fun name hm hold => hnodup.2.2 name hold name hm rfl⟩

end Run

/-! ## Sound tables -/

section Sound

variable {table : BindTable} (hs : table.Sound)
include hs

theorem Sound.adds_allocate {literal : Literal}
    (hfit : table.counter.toNat + literal.data.length < UInt32.size) :
    table.Adds literal (table.allocate literal).1 (table.allocate literal).2 := by
  cases literal with
  | value v => exact .datum (hs.nameOf_not_mem hfit) (hs.entries_allocate v hfit)
  | raw text => exact .raw text

theorem Sound.allocate_literal {literal : Literal}
    (hfit : table.counter.toNat + literal.data.length < UInt32.size) :
    (table.allocate literal).2.Sound := by
  cases literal with
  | value v => exact hs.allocate v hfit
  | raw text => exact hs

end Sound

/-- Every allocation of a run meets a sound table and leaves one. -/
theorem Sound.addsAll_allocateAll {table : BindTable} (hs : table.Sound) {literals : List Literal}
    (hfit : table.counter.toNat + (literals.flatMap Literal.data).length < UInt32.size) :
    table.AddsAll literals (table.allocateAll literals).1 (table.allocateAll literals).2 ∧
      (table.allocateAll literals).2.Sound := by
  induction literals generalizing table with
  | nil => exact ⟨.nil table, hs⟩
  | cons literal rest ih =>
    rw [List.flatMap_cons, List.length_append] at hfit
    have hfirst : table.counter.toNat + literal.data.length < UInt32.size := by omega
    have hcounter : (table.allocate literal).2.counter.toNat =
        table.counter.toNat + literal.data.length := by
      rw [allocate_table]
      exact toNat_counter_bindAll hfirst
    obtain ⟨hrest, hsound⟩ := ih (hs.allocate_literal hfirst) (by omega)
    exact ⟨.cons (hs.adds_allocate hfirst) hrest, hsound⟩

/-- In a sound table, allocating as many data as there are numbers left appends each of them under a
new name and touches nothing else, and the table is sound again. -/
theorem allocateAll_overwrites_nothing {table : BindTable} {literals : List Literal}
    (hs : table.Sound)
    (hfit : (literals.flatMap Literal.data).length ≤ UInt32.size - 1 - table.counter.toNat) :
    ∃ operands later, table.allocateAll literals = (operands, later) ∧
      table.AddsAll literals operands later ∧
      (∃ data, later.entries.entries = table.entries.entries ++ data ∧
        Entries.keys data = operands.filterMap Operand.name? ∧
        data.map Prod.snd = literals.flatMap Literal.data) ∧
      (operands.filterMap Operand.name?).Nodup ∧
      (∀ name ∈ operands.filterMap Operand.name?, name ∉ table.names) ∧
      operands.map later.literal? = literals.map some ∧ later.Sound := by
  have hcounter := table.counter.toNat_lt_size
  obtain ⟨hrun, hsound⟩ := @Sound.addsAll_allocateAll table hs literals (by omega)
  refine ⟨_, _, rfl, hrun, ⟨_, hrun.entries, ?_, ?_⟩, hrun.nodup.1, hrun.nodup.2, hrun.map_literal?,
    hsound⟩
  · exact List.map_fst_zip (Nat.le_of_eq hrun.length_names)
  · exact List.map_snd_zip (Nat.le_of_eq hrun.length_names.symm)

/-! ## Deciding whether a table is sound -/

/-- The number that the digits behind the first letter of a name make. -/
def numberIn (name : String) : Nat := Nat.ofDigitChars 10 (name.toList.drop 1) 0

theorem numberIn_decimal (n : Nat) : numberIn ("B" ++ Text.decimal n) = n := by
  have hdigits : ("B" ++ Text.decimal n).toList.drop 1 = Nat.toDigits 10 n := by
    rw [Text.decimal, String.toList_append]
    exact String.toList_ofList
  rw [numberIn, hdigits]
  exact Nat.ofDigitChars_ten_toDigits

theorem sound_iff (table : BindTable) :
    table.Sound ↔ ∀ name ∈ table.names, name = "B" ++ Text.decimal (numberIn name) →
      numberIn name ≤ table.counter.toNat := by
  constructor
  · intro hs name hm hname
    rw [hname] at hm
    exact Nat.le_of_not_lt fun hlt => hs _ hlt hm
  · intro hall n hn hm
    have hle := hall _ hm (by rw [numberIn_decimal])
    rw [numberIn_decimal] at hle
    omega

instance (table : BindTable) : Decidable table.Sound := decidable_of_iff _ (sound_iff table).symm

/-- Bindings as they are stored, with names that look like later ones. -/
def storedBindings : Json :=
  .object
    [("counter", .number (.int 7)),
      ("entries", .object
        [("B7", .null), ("B008", .bool true), ("B8x", .string "a"), ("b9", .string "b"),
          ("B", .null), ("x", .null)])]

/-- The table that they are read as. -/
def storedTable : BindTable :=
  ⟨7, .ofList [("B7", .null), ("B008", .bool true), ("B8x", .string "a"), ("b9", .string "b"),
    ("B", .null), ("x", .null)]⟩

theorem allocateAll_overwrites_nothing_stored :
    Serial.bindings? storedBindings = some storedTable ∧ storedTable.Sound ∧
      ∃ operands later data,
        storedTable.allocateAll [.value .null, .raw "1", .value (.string "c")] =
          (operands, later) ∧
        operands = [.bound "B8", .raw "1", .bound "B9"] ∧
        later.entries.entries = storedTable.entries.entries ++ data ∧
        Entries.keys data = ["B8", "B9"] ∧ data.map Prod.snd = [.null, .string "c"] ∧
        later.Sound := by
  have hsound : storedTable.Sound := by decide +kernel
  obtain ⟨operands, later, hall, _, ⟨data, hentries, hkeys, hvalues⟩, _, _, _, hlater⟩ :=
    @allocateAll_overwrites_nothing storedTable [.value .null, .raw "1", .value (.string "c")]
      hsound (by decide)
  have hoperands : operands = [.bound "B8", .raw "1", .bound "B9"] := by
    rw [show operands = (operands, later).1 from rfl, ← hall]
    decide +kernel
  rw [hoperands] at hkeys
  exact ⟨by decide +kernel, hsound, operands, later, data, hall, hoperands, hentries, hkeys,
    hvalues, hlater⟩

end AqlQuery.BindTable
