import GraphSelect.Proofs.Lists
import GraphSelect.Registry

/-!
# What the operations of a registry do

An operation answers and leaves a registry. If it succeeds, it has found the registry in a certain
state and has written to some of its fields or to none; if it fails, it has written to none. These
lemmas take the two cases apart; whoever reasons about a registry starts from them and not from the
definitions.
-/

set_option autoImplicit false

namespace GraphSelect

/-! ## Maps -/

theorem lookup_setEntry (name value other : String) (entries : List (String × String)) :
    (setEntry name value entries).lookup other =
      if other = name then some value else entries.lookup other := by
  induction entries with
  | nil => rw [setEntry, lookup_entry]
  | cons entry rest ih =>
    rw [setEntry, lookup_entry]
    by_cases hkey : entry.1 = name
    · rw [if_pos (beq_iff_eq.2 hkey), lookup_entry, hkey]
      by_cases h : other = name <;> simp [h]
    · rw [if_neg (by simpa using hkey), lookup_entry, ih]
      by_cases h : other = entry.1
      · rw [if_pos h, if_pos h, if_neg (h ▸ hkey)]
      · rw [if_neg h, if_neg h]

/-- An entry is written in the place of the one that has its name, or else after all others. -/
theorem keys_setEntry (name value : String) (entries : List (String × String)) :
    (setEntry name value entries).map Prod.fst =
      if name ∈ entries.map Prod.fst then entries.map Prod.fst
      else entries.map Prod.fst ++ [name] := by
  induction entries with
  | nil => rfl
  | cons entry rest ih =>
    rw [setEntry]
    by_cases hkey : entry.1 = name
    · simp [hkey]
    · rw [if_neg (by simpa using hkey), List.map_cons, ih]
      by_cases hmem : name ∈ rest.map Prod.fst
      · simp [hmem]
      · simp [hmem, Ne.symm hkey]

theorem nodup_setEntry {entries : List (String × String)} (h : (entries.map Prod.fst).Nodup)
    (name value : String) : ((setEntry name value entries).map Prod.fst).Nodup := by
  rw [keys_setEntry]
  split
  · exact h
  · rename_i hnew
    rw [List.nodup_append]
    refine ⟨h, by simp, ?_⟩
    intro key hkey other hother
    cases List.mem_singleton.1 hother
    exact fun heq => hnew (heq ▸ hkey)

/-! ## Tables -/

/-- The name that a query calls a table by. An empty name stands for the label. -/
def Table.nameAs (t : Table) (name : String) : String :=
  if name.isEmpty then t.label else name

/-- A table of the schema as a query registers it. -/
def Table.registeredAs (t : Table) (id : TableId) (name : String) : RegisteredTable :=
  ⟨id, t.label, t.nameAs name, t.kind⟩

namespace Registry

variable {r r' : Registry}

/-- The registry with one more table. -/
def withTable (r : Registry) (t : Table) (name : String) : Registry :=
  { r with
    tables := r.tables ++ [t.registeredAs r.tables.length name]
    renames := setEntry (t.nameAs name) t.label r.renames }

theorem table_ok_iff {id : TableId} {t : RegisteredTable} :
    r.table id = .ok t ↔ r.tables[id]? = some t := by
  unfold table
  cases r.tables[id]? <;> simp

/-- A pair that is registered already is found, and any other becomes the last table. -/
theorem registerTable_ok {label name : String} {id : TableId}
    (h : r.registerTable label name = (.ok id, r')) :
    ∃ t, r.schema.table? label = some t ∧
      ((r' = r ∧ ∃ found ∈ r.tables, found.id = id ∧ found.label = t.label ∧
          found.workingLabel = t.nameAs name) ∨
        ((∀ found ∈ r.tables, found.label = t.label → found.workingLabel ≠ t.nameAs name) ∧
          id = r.tables.length ∧ r' = r.withTable t name)) := by
  unfold registerTable at h
  split at h
  · cases h
  · rename_i t ht
    dsimp only at h
    refine ⟨t, ht, ?_⟩
    split at h
    · rename_i found hfind
      cases h
      have hfound := List.find?_some hfind
      rw [Bool.and_eq_true, beq_iff_eq, beq_iff_eq] at hfound
      exact .inl ⟨rfl, found, List.mem_of_find?_eq_some hfind, rfl, hfound⟩
    · rename_i hnone
      cases h
      refine .inr ⟨fun found hmem hlabel hworking => ?_, rfl, rfl⟩
      have hfound := List.find?_eq_none.1 hnone found hmem
      rw [Bool.and_eq_true, beq_iff_eq, beq_iff_eq] at hfound
      exact hfound ⟨hlabel, hworking⟩

theorem registerTable_unknown {label : String} (name : String)
    (h : r.schema.table? label = none) :
    r.registerTable label name = (.error (.unknownTable label), r) := by
  rw [registerTable, h]

theorem registerTable_isOk {label : String} {t : Table} (name : String)
    (h : r.schema.table? label = some t) : ∃ id r', r.registerTable label name = (.ok id, r') := by
  simp only [registerTable, h]
  split
  · exact ⟨_, _, rfl⟩
  · exact ⟨_, _, rfl⟩

theorem registerTable_error {label name : String} {err : RegistryError}
    (h : r.registerTable label name = (.error err, r')) :
    r' = r ∧ r.schema.table? label = none ∧ err = .unknownTable label := by
  cases ht : r.schema.table? label with
  | none =>
    rw [registerTable_unknown name ht] at h
    cases h
    exact ⟨rfl, rfl, rfl⟩
  | some t =>
    obtain ⟨id, after, hok⟩ := registerTable_isOk name ht
    rw [hok] at h
    cases h

theorem registerTable_new {label name : String} {t : Table} (h : r.schema.table? label = some t)
    (hnew : ∀ found ∈ r.tables, found.label = t.label → found.workingLabel ≠ t.nameAs name) :
    r.registerTable label name = (.ok r.tables.length, r.withTable t name) := by
  obtain ⟨id, r', hr⟩ := registerTable_isOk name h
  obtain ⟨t', ht', ⟨-, found, hfound, -, hlabel, hname⟩ | ⟨-, rfl, rfl⟩⟩ := registerTable_ok hr
  all_goals cases h.symm.trans ht'
  · exact absurd hname (hnew found hfound hlabel)
  · exact hr

/-! ## Aliases -/

theorem binding?_bind (r : Registry) (name other : String) (expr : Sql.Node) :
    binding? { r with aliases := (name, expr) :: r.aliases } other =
      if other = name then some expr else r.binding? other := by
  rw [binding?, lookup_entry, binding?]

/-- An alias that is bound stays bound to what it is, and a new one is added. -/
theorem bindAlias_ok {name : String} {expr : Sql.Node}
    (h : r.bindAlias name expr = (.ok (), r')) :
    (r' = r ∧ ∃ bound, r.binding? name = some bound ∧ bound.same expr = true) ∨
      (r.binding? name = none ∧ r' = { r with aliases := (name, expr) :: r.aliases }) := by
  unfold bindAlias at h
  split at h
  · rename_i bound hbound
    split at h
    · rename_i hsame
      cases h
      exact .inl ⟨rfl, bound, hbound, hsame⟩
    · cases h
  · rename_i hnone
    cases h
    exact .inr ⟨hnone, rfl⟩

/-- Nothing but the aliases is written to. -/
theorem bindAlias_writes {name : String} {expr : Sql.Node} {answer : Except RegistryError Unit}
    (h : r.bindAlias name expr = (answer, r')) : r' = { r with aliases := r'.aliases } := by
  unfold bindAlias at h
  split at h
  · cases h
    rfl
  · cases h
    rfl

/-- Binding an alias fails only if it is bound to something else. -/
theorem bindAlias_error {name : String} {expr : Sql.Node} {err : RegistryError}
    (h : r.bindAlias name expr = (.error err, r')) :
    r' = r ∧ err = .duplicateAlias name ∧
      ∃ bound, r.binding? name = some bound ∧ bound.same expr = false := by
  unfold bindAlias at h
  split at h
  · rename_i bound hbound
    split at h
    · cases h
    · rename_i hsame
      cases h
      exact ⟨rfl, rfl, bound, hbound, Bool.eq_false_iff.2 hsame⟩
  · cases h

/-! ## Returned columns -/

/-- The registry with one more table's columns, and with their names. -/
def withOutputs (r : Registry) (id : TableId) (columns : List OutputColumn) : Registry :=
  { r with
    outputs := r.outputs ++ [(id, columns)]
    renamedColumns := columns.map OutputColumn.name }

theorem recordOutputs_ok_iff {id : TableId} {columns : List OutputColumn} :
    r.recordOutputs id columns = (.ok (), r') ↔
      (∃ t, r.table id = .ok t) ∧ r.outputs = [] ∧ columns ≠ [] ∧
        r' = r.withOutputs id columns := by
  unfold recordOutputs
  cases r.table id with
  | error err => simp
  | ok t =>
    cases houtputs : r.outputs with
    | cons recorded rest => simp
    | nil =>
      cases columns with
      | nil => simp
      | cons c rest => simp [withOutputs, houtputs, eq_comm]

/-- Columns that cannot be recorded are not recorded in part. -/
theorem recordOutputs_error {id : TableId} {columns : List OutputColumn} {err : RegistryError}
    (h : r.recordOutputs id columns = (.error err, r')) : r' = r := by
  unfold recordOutputs at h
  split at h
  · cases h
    rfl
  · split at h
    · cases h
      rfl
    · split at h
      · cases h
        rfl
      · cases h

end Registry

end GraphSelect
