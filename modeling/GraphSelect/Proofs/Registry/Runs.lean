import GraphSelect.Proofs.Registry.Operations
import GraphSelect.Proofs.Schema.Lookup

/-!
# A registry after any calls

A registry is filled by calls, in any order, and some of them fail. `Change` says what a single call
answers and what it does to the registry. From this follows what any sequence of calls does, over
every schema: the tables that are registered stay what they are, in their places and apart from each
other, a name keeps the first expression that it was bound to, the columns are recorded once, and
calls that fail might as well not have been made.

What a registry keeps twice has to agree: the id of a table with its place, the label that a name
leads to with the last table of that name, and the names of the returned columns with the columns.
Each of these is written by one operation and read by others, so that they agree is an invariant of
all calls together. It is part of what a registry has to be `Sound` for, beside that a registered
table is found again in the schema. The latter holds although labels may be repeated there, because
a table is registered under the label of the one that was found.
-/

set_option autoImplicit false

namespace GraphSelect.Registry

/-! ## Calls -/

/-- A call that is meant to change a registry. -/
inductive Call where
  | register (label name : String)
  | bind (name : String) (expr : Sql.Node)
  | record (id : TableId) (columns : List OutputColumn)
  | mark

/-- The expression that a call binds a name to. -/
def Call.binding? (name : String) : Call → Option Sql.Node
  | .bind other expr => if name = other then some expr else none
  | _ => none

/-- The columns that a call records, with their table. -/
def Call.columns? : Call → Option (TableId × List OutputColumn)
  | .record id columns => some (id, columns)
  | _ => none

/-- Whether a call succeeds, and the registry that it leaves. -/
def perform (r : Registry) : Call → Except RegistryError Unit × Registry
  | .register label name =>
    ((r.registerTable label name).1.map fun _ => (), (r.registerTable label name).2)
  | .bind name expr => r.bindAlias name expr
  | .record id columns => r.recordOutputs id columns
  | .mark => (.ok (), r.markAggregate)

/-- The registry after a call. -/
def step (r : Registry) (c : Call) : Registry :=
  (r.perform c).2

/-- The registry after several calls. -/
def run (r : Registry) (calls : List Call) : Registry :=
  calls.foldl step r

/-- The calls that do not fail, each made where the calls before have led to. -/
def accepted (r : Registry) : List Call → List Call
  | [] => []
  | c :: rest =>
    if (r.perform c).1.isOk then c :: (r.step c).accepted rest else (r.step c).accepted rest

variable {r r' : Registry}

theorem run_cons (r : Registry) (c : Call) (rest : List Call) :
    r.run (c :: rest) = (r.step c).run rest :=
  rfl

/-! ## What a call can do -/

/-- What a call answers, and what it does to a registry. -/
inductive Change (r : Registry) : Call → Except RegistryError Unit → Registry → Prop where
  | unknown {label : String} (name : String) : r.schema.table? label = none →
      Change r (.register label name) (.error (.unknownTable label)) r
  | known (label name : String) : Change r (.register label name) (.ok ()) r
  | adds {label name : String} {t : Table} : r.schema.table? label = some t →
      (∀ found ∈ r.tables, found.label = t.label → found.workingLabel ≠ t.nameAs name) →
      Change r (.register label name) (.ok ()) (r.withTable t name)
  | bound {name : String} {bound : Sql.Node} (expr : Sql.Node) : r.binding? name = some bound →
      bound.same expr = true → Change r (.bind name expr) (.ok ()) r
  | taken {name : String} {bound : Sql.Node} (expr : Sql.Node) : r.binding? name = some bound →
      bound.same expr = false → Change r (.bind name expr) (.error (.duplicateAlias name)) r
  | binds {name : String} (expr : Sql.Node) : r.binding? name = none →
      Change r (.bind name expr) (.ok ()) { r with aliases := (name, expr) :: r.aliases }
  | unrecorded (id : TableId) (columns : List OutputColumn) (err : RegistryError) :
      Change r (.record id columns) (.error err) r
  | records {id : TableId} {t : RegisteredTable} {columns : List OutputColumn} :
      r.table id = .ok t → r.outputs = [] → columns ≠ [] →
      Change r (.record id columns) (.ok ()) (r.withOutputs id columns)
  | marks : Change r .mark (.ok ()) r.markAggregate

theorem perform_change (r : Registry) (c : Call) :
    Change r c (r.perform c).1 (r.perform c).2 := by
  cases c with
  | register label name =>
    rw [perform]
    rcases h : r.registerTable label name with ⟨err | id, after⟩
    · obtain ⟨rfl, hnone, rfl⟩ := registerTable_error h
      exact .unknown name hnone
    · obtain ⟨t, ht, ⟨rfl, -⟩ | ⟨hnew, -, rfl⟩⟩ := registerTable_ok h
      · exact .known label name
      · exact .adds ht hnew
  | bind name expr =>
    rw [perform]
    rcases h : r.bindAlias name expr with ⟨err | ⟨⟩, after⟩
    · obtain ⟨rfl, rfl, bound, hbound, hsame⟩ := bindAlias_error h
      exact .taken expr hbound hsame
    · obtain ⟨rfl, bound, hbound, hsame⟩ | ⟨hnone, rfl⟩ := bindAlias_ok h
      · exact .bound expr hbound hsame
      · exact .binds expr hnone
  | record id columns =>
    rw [perform]
    rcases h : r.recordOutputs id columns with ⟨err | ⟨⟩, after⟩
    · cases recordOutputs_error h
      exact .unrecorded id columns err
    · obtain ⟨⟨t, ht⟩, hnone, hne, rfl⟩ := recordOutputs_ok_iff.1 h
      exact .records ht hnone hne
  | mark => exact .marks

namespace Change

variable {c : Call} {answer : Except RegistryError Unit}

/-- No operation has written anything where it fails. -/
theorem failure {err : RegistryError} (h : Change r c (.error err) r') : r' = r := by
  cases h with
  | unknown => rfl
  | taken => rfl
  | unrecorded => rfl

theorem schema (h : Change r c answer r') : r'.schema = r.schema := by
  cases h <;> rfl

theorem tables (h : Change r c answer r') : r.tables <+: r'.tables := by
  cases h with
  | adds ht hnew => exact List.prefix_append _ _
  | _ => exact List.prefix_refl _

/-- A name that is bound stays so, and a free one takes what a call binds it to. -/
theorem binding? (h : Change r c answer r') (name : String) :
    r'.binding? name = (r.binding? name).or (c.binding? name) := by
  cases h with
  | bound expr hbound | taken expr hbound =>
    rename_i other bound _
    by_cases heq : name = other
    · subst heq
      rw [hbound, Option.some_or]
    · rw [Call.binding?, if_neg heq, Option.or_none]
  | binds expr hnone =>
    rename_i other
    rw [binding?_bind, Call.binding?]
    by_cases heq : name = other
    · subst heq
      rw [if_pos rfl, if_pos rfl, hnone, Option.none_or]
    · rw [if_neg heq, if_neg heq, Option.or_none]
  | _ => exact Option.or_none.symm

/-- Only a call that records columns and does not fail adds to the columns. -/
theorem outputs (h : Change r c answer r') :
    r'.outputs = r.outputs ++ if answer.isOk then c.columns?.toList else [] := by
  cases h with
  | records ht hnone hne => rfl
  | _ => exact (List.append_nil _).symm

theorem hasAggregate (h : Change r c answer r') :
    r'.hasAggregate = true ↔ r.hasAggregate = true ∨ c = .mark := by
  cases h with
  | marks => simp [markAggregate]
  | adds => simp [withTable]
  | records => simp [withOutputs]
  | _ => simp

end Change

theorem step_change (r : Registry) (c : Call) : ∃ answer, Change r c answer (r.step c) :=
  ⟨_, perform_change r c⟩

theorem step_of_error {c : Call} {err : RegistryError} (h : (r.perform c).1 = .error err) :
    r.step c = r := by
  have hchange := perform_change r c
  rw [h] at hchange
  exact hchange.failure

/-! ## Sound registries -/

/-- The last table that was registered under a name. -/
def lastNamed? (r : Registry) (name : String) : Option RegisteredTable :=
  r.tables.reverse.find? fun t => t.workingLabel == name

/-- What a registry has to be: each table has its place for an id and is found in the schema by its
label, with what it holds, and no two have the same label and the same name. Each name has one entry
in the map, which leads to the label of the last table of that name. The columns of one table at
most are recorded, they are not none, and their names are what is listed. -/
structure Sound (r : Registry) : Prop where
  numbered : ∀ {id : TableId} {t : RegisteredTable}, r.tables[id]? = some t → t.id = id
  found : ∀ t ∈ r.tables, ∃ table, r.schema.table? t.label = some table ∧
    table.label = t.label ∧ table.kind = t.kind
  distinct : (r.tables.map fun t => (t.label, t.workingLabel)).Nodup
  entries : (r.renames.map Prod.fst).Nodup
  renames : ∀ name : String,
    r.renames.lookup name = (r.lastNamed? name).map RegisteredTable.label
  single : r.outputs.length ≤ 1
  returns : ∀ recorded ∈ r.outputs, recorded.2 ≠ []
  renamed : r.renamedColumns = r.outputs.flatMap fun recorded => recorded.2.map OutputColumn.name

theorem Sound.empty (schema : Schema) : (Registry.empty schema).Sound where
  numbered h := by cases h
  found _ h := absurd h List.not_mem_nil
  distinct := List.nodup_nil
  entries := List.nodup_nil
  renames _ := rfl
  single := Nat.zero_le 1
  returns _ h := absurd h List.not_mem_nil
  renamed := rfl

/-- The last table of a name is the new one, if it has that name. -/
theorem lastNamed?_withTable (r : Registry) (t : Table) (name other : String) :
    (r.withTable t name).lastNamed? other =
      if other = t.nameAs name then some (t.registeredAs r.tables.length name)
      else r.lastNamed? other := by
  rw [lastNamed?, withTable, List.reverse_append, List.reverse_singleton, List.singleton_append]
  by_cases h : other = t.nameAs name
  · rw [if_pos h]
    exact List.find?_cons_of_pos (beq_iff_eq.2 h.symm)
  · rw [if_neg h]
    exact List.find?_cons_of_neg (by simpa [Table.registeredAs] using Ne.symm h)

theorem Sound.withTable {label name : String} {t : Table} (h : r.Sound)
    (ht : r.schema.table? label = some t)
    (hnew : ∀ found ∈ r.tables, found.label = t.label → found.workingLabel ≠ t.nameAs name) :
    (r.withTable t name).Sound where
  numbered := by
    intro id found hfound
    rw [Registry.withTable, List.getElem?_append] at hfound
    split at hfound
    · exact h.numbered hfound
    · rw [List.getElem?_singleton] at hfound
      split at hfound
      · cases hfound
        show r.tables.length = id
        omega
      · cases hfound
  found := by
    intro found hfound
    rcases List.mem_append.1 hfound with hold | hlast
    · exact h.found found hold
    · cases List.mem_singleton.1 hlast
      exact ⟨t, Schema.table?_label ht, rfl, rfl⟩
  distinct := by
    rw [Registry.withTable, List.map_append, List.nodup_append]
    refine ⟨h.distinct, by simp, ?_⟩
    intro a ha b hb hab
    obtain ⟨found, hfound, rfl⟩ := List.mem_map.1 ha
    cases List.mem_singleton.1 hb
    exact hnew found hfound (congrArg Prod.fst hab) (congrArg Prod.snd hab)
  entries := nodup_setEntry h.entries _ _
  renames := by
    intro other
    rw [lastNamed?_withTable, Registry.withTable, lookup_setEntry, h.renames other]
    by_cases hname : other = t.nameAs name
    · rw [if_pos hname, if_pos hname]
      rfl
    · rw [if_neg hname, if_neg hname]
  single := h.single
  returns := h.returns
  renamed := h.renamed

theorem Sound.withOutputs {id : TableId} {columns : List OutputColumn} (h : r.Sound)
    (hnone : r.outputs = []) (hne : columns ≠ []) : (r.withOutputs id columns).Sound where
  numbered := h.numbered
  found := h.found
  distinct := h.distinct
  entries := h.entries
  renames := h.renames
  single := by simp [Registry.withOutputs, hnone]
  returns := by
    intro recorded hrecorded
    rw [Registry.withOutputs, hnone] at hrecorded
    cases List.mem_singleton.1 hrecorded
    exact hne
  renamed := by simp [Registry.withOutputs, hnone]

theorem Sound.change {c : Call} {answer : Except RegistryError Unit} (h : r.Sound)
    (hc : Change r c answer r') : r'.Sound := by
  cases hc with
  | adds ht hnew => exact h.withTable ht hnew
  | records ht hnone hne => exact h.withOutputs hnone hne
  | unknown | known | bound | taken | unrecorded => exact h
  -- Aliases and the mark are not tied to any other field.
  | binds | marks =>
    exact ⟨h.numbered, h.found, h.distinct, h.entries, h.renames, h.single, h.returns, h.renamed⟩

theorem Sound.schemaTable {id : TableId} {t : RegisteredTable} (h : r.Sound)
    (ht : r.tables[id]? = some t) :
    ∃ table, r.schemaTable id = .ok table ∧ table.label = t.label ∧ table.kind = t.kind := by
  obtain ⟨table, hfound, hsame⟩ := h.found t (List.mem_of_getElem? ht)
  refine ⟨table, ?_, hsame⟩
  simp only [Registry.schemaTable, table_ok_iff.2 ht, bind, Except.bind, hfound]
  rfl

theorem Sound.outputs_eq_nil (h : r.Sound) (hrenamed : r.renamedColumns = []) :
    r.outputs = [] := by
  rw [h.renamed, List.flatMap_eq_nil_iff] at hrenamed
  rw [List.eq_nil_iff_forall_not_mem]
  intro recorded hrecorded
  exact h.returns recorded hrecorded (List.map_eq_nil_iff.1 (hrenamed recorded hrecorded))

/-! ## Runs -/

/-- **Calls that fail might as well not have been made.** -/
theorem run_accepted (r : Registry) (calls : List Call) :
    r.run (r.accepted calls) = r.run calls := by
  induction calls generalizing r with
  | nil => rfl
  | cons c rest ih =>
    rw [accepted, run_cons]
    cases h : (r.perform c).1 with
    | ok _ =>
      rw [if_pos (by rfl), run_cons]
      exact ih (r.step c)
    | error err =>
      rw [if_neg (by simp [Except.isOk, Except.toBool]), step_of_error h]
      exact ih r

theorem run_keeps {P : Registry → Prop}
    (hP : ∀ {c : Call} {answer : Except RegistryError Unit} {r r' : Registry}, P r →
      Change r c answer r' → P r') (h : P r) (calls : List Call) : P (r.run calls) := by
  induction calls generalizing r with
  | nil => exact h
  | cons c rest ih =>
    obtain ⟨answer, hc⟩ := step_change r c
    exact ih (hP h hc)

theorem Sound.run (h : r.Sound) (calls : List Call) : (r.run calls).Sound :=
  run_keeps (fun h hc => h.change hc) h calls

theorem schema_run (r : Registry) (calls : List Call) : (r.run calls).schema = r.schema :=
  run_keeps (P := fun r' => r'.schema = r.schema) (fun h hc => hc.schema.trans h) rfl calls

theorem tables_run (r : Registry) (calls : List Call) : r.tables <+: (r.run calls).tables :=
  run_keeps (P := fun r' => r.tables <+: r'.tables) (fun h hc => h.trans hc.tables)
    (List.prefix_refl _) calls

/-- A name is bound to what it was first bound to. -/
theorem binding?_run (r : Registry) (calls : List Call) (name : String) :
    (r.run calls).binding? name = (r.binding? name).or (calls.findSome? (Call.binding? name)) := by
  induction calls generalizing r with
  | nil => exact Option.or_none.symm
  | cons c rest ih =>
    obtain ⟨answer, hc⟩ := step_change r c
    rw [run_cons, ih, hc.binding?, Option.or_assoc, List.findSome?_cons]
    cases c.binding? name <;> rfl

theorem hasAggregate_run (r : Registry) (calls : List Call) :
    (r.run calls).hasAggregate = true ↔ r.hasAggregate = true ∨ .mark ∈ calls := by
  induction calls generalizing r with
  | nil => simp [run]
  | cons c rest ih =>
    obtain ⟨answer, hc⟩ := step_change r c
    rw [run_cons, ih, hc.hasAggregate, List.mem_cons, or_assoc, @eq_comm _ c]

theorem outputs_run (r : Registry) (calls : List Call) :
    (r.run calls).outputs = r.outputs ++ (r.accepted calls).filterMap Call.columns? := by
  induction calls generalizing r with
  | nil => simp [run, accepted]
  | cons c rest ih =>
    have houtputs : (r.step c).outputs = _ := (perform_change r c).outputs
    rw [run_cons, ih, houtputs, List.append_assoc, accepted]
    split
    · cases hc : c.columns? <;> simp [hc]
    · simp

/-! ## Registering again -/

/-- A pair of label and name stands in one place only. -/
theorem Sound.id_eq {id id' : TableId} {t t' : RegisteredTable} (hr : r.Sound)
    (h : r.tables[id]? = some t) (h' : r.tables[id']? = some t') (hlabel : t'.label = t.label)
    (hname : t'.workingLabel = t.workingLabel) : id' = id := by
  have hlt : id' < (r.tables.map fun t => (t.label, t.workingLabel)).length := by
    rw [List.length_map]
    exact (List.getElem?_eq_some_iff.1 h').1
  exact (List.getElem?_inj hlt hr.distinct).1 (by simp [h, h', hlabel, hname])

/-- A pair is found where it stands, because it stands nowhere else, and the id that it is found
with is its place. -/
theorem Sound.registerTable_again {label name : String} {t : Table} {id : TableId}
    {found : RegisteredTable} (hr : r.Sound) (h : r.schema.table? label = some t)
    (hfound : r.tables[id]? = some found) (hlabel : found.label = t.label)
    (hname : found.workingLabel = t.nameAs name) :
    r.registerTable label name = (.ok id, r) := by
  obtain ⟨id', r', hregister⟩ := registerTable_isOk name h
  obtain ⟨t', ht', ⟨rfl, found', hmem, hid', hlabel', hname'⟩ | ⟨hnew, -, -⟩⟩ :=
    registerTable_ok hregister
  all_goals cases h.symm.trans ht'
  · obtain ⟨place, hplace⟩ := List.mem_iff_getElem?.1 hmem
    have hid : id = place :=
      hr.id_eq hplace hfound (hlabel.trans hlabel'.symm) (hname.trans hname'.symm)
    rw [hregister, hid, ← hr.numbered hplace, hid']
  · exact absurd hname (hnew found (List.mem_of_getElem? hfound) hlabel)

/-! ## What a registry remembers -/

/-- What a registry remembers of the calls that were made on an empty one. -/
structure Remembers (schema : Schema) (calls : List Call) (r : Registry) : Prop where
  -- The id of a table is its place in the order of registration, and the schema has the table.
  table : ∀ {id : TableId} {t : RegisteredTable}, r.tables[id]? = some t →
    t.id = id ∧ r.table id = .ok t ∧ ∃ table, r.schemaTable id = .ok table ∧
      table.label = t.label ∧ table.kind = t.kind
  distinct : (r.tables.map fun t => (t.label, t.workingLabel)).Nodup
  -- A table is added at the end, under the next id.
  newTable : ∀ {label name : String} {t : Table}, schema.table? label = some t →
    (∀ found ∈ r.tables, found.label = t.label → found.workingLabel ≠ t.nameAs name) →
    r.registerTable label name = (.ok r.tables.length, r.withTable t name)
  -- It is not added again, whatever spelling of its label the schema finds it by.
  sameTable : ∀ {label name : String} {t : Table} {id : TableId} {found : RegisteredTable},
    schema.table? label = some t → r.tables[id]? = some found → found.label = t.label →
    found.workingLabel = t.nameAs name → r.registerTable label name = (.ok id, r)
  -- A name stands for the first expression that it was bound to.
  binding : ∀ name : String, r.binding? name = calls.findSome? (Call.binding? name)
  -- Columns are recorded as long as there are none, and by one call at most.
  recordable : ∀ {id : TableId} {t : RegisteredTable} {columns : List OutputColumn},
    r.tables[id]? = some t → columns ≠ [] → r.renamedColumns = [] →
    r.recordOutputs id columns = (.ok (), r.withOutputs id columns)
  recorded : r.outputs = ((empty schema).accepted calls).filterMap Call.columns?
  recordedOnce : (((empty schema).accepted calls).filterMap Call.columns?).length ≤ 1
  renamed : r.renamedColumns =
    (((empty schema).accepted calls).filterMap Call.columns?).flatMap fun recorded =>
      recorded.2.map OutputColumn.name
  aggregate : r.hasAggregate = true ↔ .mark ∈ calls
  -- Whatever calls follow, nothing is taken back.
  lasting : ∀ more : List Call, r.tables <+: (r.run more).tables ∧
    (∀ {name : String} {expr : Sql.Node}, r.binding? name = some expr →
      (r.run more).binding? name = some expr) ∧
    r.outputs <+: (r.run more).outputs ∧
    (r.hasAggregate = true → (r.run more).hasAggregate = true)
  -- A call that fails changes nothing, and so it changes nothing later.
  failure : ∀ {c : Call} {err : RegistryError}, (r.perform c).1 = .error err →
    (r.perform c).2 = r
  unaffected : (empty schema).run ((empty schema).accepted calls) = r

/-- **A registry remembers its calls.** This holds of every schema, whether its labels are distinct
or not, and of every sequence of calls, whether they fail or not. -/
theorem registry_remembers_calls (schema : Schema) (calls : List Call) :
    Remembers schema calls ((empty schema).run calls) := by
  have hsound : ((empty schema).run calls).Sound := (Sound.empty schema).run calls
  have hschema : ((empty schema).run calls).schema = schema := schema_run _ calls
  have houtputs : ((empty schema).run calls).outputs =
      ((empty schema).accepted calls).filterMap Call.columns? := outputs_run _ calls
  exact {
    table := fun ht => ⟨hsound.numbered ht, table_ok_iff.2 ht, hsound.schemaTable ht⟩
    distinct := hsound.distinct
    newTable := fun ht hnew => registerTable_new (by rwa [hschema]) hnew
    sameTable := fun ht hfound hlabel hname =>
      hsound.registerTable_again (by rwa [hschema]) hfound hlabel hname
    binding := binding?_run _ calls
    recordable := fun ht hne hrenamed => recordOutputs_ok_iff.2
      ⟨⟨_, table_ok_iff.2 ht⟩, hsound.outputs_eq_nil hrenamed, hne, rfl⟩
    recorded := houtputs
    recordedOnce := houtputs ▸ hsound.single
    renamed := houtputs ▸ hsound.renamed
    aggregate := by simpa [empty] using hasAggregate_run (empty schema) calls
    lasting := fun more => ⟨tables_run _ more, fun hb => by rw [binding?_run, hb]; rfl,
      outputs_run _ more ▸ List.prefix_append _ _,
      fun hagg => (hasAggregate_run _ more).2 (.inl hagg)⟩
    failure := step_of_error
    unaffected := run_accepted _ calls }

end GraphSelect.Registry
