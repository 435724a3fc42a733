import GraphSelect.Proofs.Query.Qualifiers
import GraphSelect.Proofs.Query.RowFormat
import GraphSelect.Proofs.Schema.Built
import Mathlib

/-!
# What a star stands for

`SELECT *` lists the columns of the table by their names, and each name is then read like one that
stands in the query: it is split at its dots, and what comes before the last one is a qualifier. So
a star lists the columns of the table if every column is found through its own name. That fails for
a name with a dot, for a property that is itself called `*`, and where the id column of an edge has
the name of an endpoint column. In all other cases a star lists all columns, each with its type and
its value.
-/

set_option autoImplicit false

namespace GraphSelect

open Sql

/-! ## Names with dots -/

namespace Sql.Node

theorem splitDots_ne_nil (cs : List Char) : splitDots cs ≠ [] := by
  cases cs with
  | nil => simp [splitDots]
  | cons c rest =>
    rw [splitDots]
    split
    · split <;> simp
    · simp

theorem splitDots_of_not_mem {cs : List Char} (h : '.' ∉ cs) : splitDots cs = [cs] := by
  induction cs with
  | nil => rfl
  | cons c rest ih =>
    rw [List.mem_cons, not_or] at h
    have hc : (c == '.') = false := beq_eq_false_iff_ne.2 fun heq => h.1 heq.symm
    rw [splitDots, ih h.2]
    simp only [hc, Bool.false_eq_true, ↓reduceIte]

theorem not_mem_of_mem_splitDots {cs part : List Char} (h : part ∈ splitDots cs) : '.' ∉ part := by
  induction cs generalizing part with
  | nil =>
    cases List.mem_singleton.1 h
    simp
  | cons c rest ih =>
    rw [splitDots] at h
    split at h
    · rename_i first others hsplit
      rw [hsplit] at ih
      split at h
      · rcases List.mem_cons.1 h with rfl | h
        · simp
        · exact ih h
      · rename_i hc
        rcases List.mem_cons.1 h with rfl | h
        · rw [List.mem_cons, not_or]
          refine ⟨fun heq => hc ?_, ih List.mem_cons_self⟩
          rw [← heq]
          rfl
        · exact ih (List.mem_cons_of_mem _ h)
    · rename_i hnil
      exact absurd hnil (splitDots_ne_nil rest)

theorem ident_of_not_mem {name : String} (h : '.' ∉ name.toList) :
    ident name = .identifier ⟨[name]⟩ := by
  rw [ident, splitDots_of_not_mem h]
  simp

/-- The last component of a dotted name has no dot. -/
theorem not_mem_simpleName (name : String) :
    '.' ∉ (Identifier.simpleName ⟨(splitDots name.toList).map String.ofList⟩).toList := by
  rw [Identifier.simpleName, List.getLast?_map,
    List.getLast?_eq_some_getLast (splitDots_ne_nil name.toList)]
  simpa using not_mem_of_mem_splitDots (List.getLast_mem (splitDots_ne_nil name.toList))

end Sql.Node

/-! ## Columns by their names -/

/-- The item that a star adds for a column. -/
def TableColumn.item (c : TableColumn) : ProjectionItem :=
  ⟨c.name, Node.ident c.name⟩

/-- The modifier that reads a column off the elements of a bucket. -/
def TableColumn.modifier (c : TableColumn) : Step :=
  .by (orMarker (.anonymous (.unfold :: c.source.steps))) none

def TableColumn.output (c : TableColumn) : OutputColumn :=
  ⟨c.name, c.type⟩

/-- A column is found through its own name: it is neither split nor taken for a star, and no other
column comes before it. -/
structure Table.Finds (t : Table) (c : TableColumn) : Prop where
  noDot : '.' ∉ c.name.toList
  noStar : c.name ≠ "*"
  found : t.column? c.name = some c

section

variable {table : TableId} {t : Table} {c : TableColumn}

theorem Table.Finds.isStar (h : t.Finds c) : Identifier.isStar ⟨[c.name]⟩ = false :=
  beq_eq_false_iff_ne.2 h.noStar

theorem Table.Finds.resolve (h : t.Finds c) {r : Registry} (ht : r.schemaTable table = .ok t) :
    resolveIdentifier r table ⟨[c.name]⟩ = .ok (.physical c) := by
  have hcolumn : r.resolveColumn table c.name = .ok (.physical c) := by
    simp only [Registry.resolveColumn, ht, bind, Except.bind, h.found]
    rfl
  change liftRegistry (r.resolveColumn table c.name) = .ok (.physical c)
  rw [hcolumn]
  rfl

theorem Table.Finds.emitValue (h : t.Finds c) {d : Draft}
    (ht : d.registry.schemaTable table = .ok t) :
    emitValue table .bucket (Node.ident c.name) d =
      (.ok (), ⟨d.registry, d.steps ++ .unfold :: c.source.steps⟩) := by
  have hask : Emit.ask (fun r => resolveIdentifier r table ⟨[c.name]⟩) d =
      (.ok (.physical c), d) := Prod.ext (h.resolve ht) rfl
  rw [Node.ident_of_not_mem h.noDot, GraphSelect.emitValue, emitNode]
  simp only [List.isEmpty_cons, Bool.false_eq_true, ↓reduceIte, emitIdentifier, h.isStar]
  rw [Emit.bind_of_ok hask]
  change (Except.ok (), Draft.mk d.registry ((d.steps ++ [.unfold]) ++ c.source.steps)) = _
  rw [List.append_assoc]
  rfl

theorem Table.Finds.columnType (h : t.Finds c) {r : Registry} (ht : r.schemaTable table = .ok t) :
    columnType r table (Node.ident c.name) = .ok c.type := by
  rw [Node.ident_of_not_mem h.noDot]
  change identifierType r table _ ⟨[c.name]⟩ = .ok c.type
  rw [identifierType, h.resolve ht]
  rfl

theorem emitItems_columns {columns : List TableColumn} (h : ∀ c ∈ columns, t.Finds c) {d : Draft}
    (ht : d.registry.schemaTable table = .ok t) :
    emitItems table (columns.map TableColumn.item) d =
      (.ok (), ⟨d.registry, d.steps ++ columns.map TableColumn.modifier⟩) := by
  induction columns generalizing d with
  | nil => simp [emitItems, Emit.pure]
  | cons c rest ih =>
    rw [List.forall_mem_cons] at h
    have hbranch : Emit.branch (emitValue table .bucket c.item.expr) d =
        (.ok (.anonymous (.unfold :: c.source.steps)), d) := by
      have hvalue := h.1.emitValue (d := ⟨d.registry, []⟩) ht
      rw [Emit.branch, TableColumn.item, hvalue]
      rfl
    rw [List.map_cons, emitItems, Emit.bind_of_ok hbranch]
    have happend : Emit.append (.by (orMarker (.anonymous (.unfold :: c.source.steps))) none) d =
        (.ok (), ⟨d.registry, d.steps ++ [c.modifier]⟩) := rfl
    rw [Emit.bind_of_ok happend]
    have hrest := ih h.2 (d := ⟨d.registry, d.steps ++ [c.modifier]⟩) ht
    rwa [List.append_assoc] at hrest

theorem outputsOf_columns {columns : List TableColumn} (h : ∀ c ∈ columns, t.Finds c)
    {r : Registry} (ht : r.schemaTable table = .ok t) :
    outputsOf r table (columns.map TableColumn.item) =
      .ok (columns.map TableColumn.output) := by
  induction columns with
  | nil => rfl
  | cons c rest ih =>
    rw [List.forall_mem_cons] at h
    rw [List.map_cons, outputsOf]
    simp only [TableColumn.item, h.1.columnType ht, bind, Except.bind]
    rw [show outputsOf r table (rest.map TableColumn.item) = _ from ih h.2]
    rfl

end

theorem checkNames_of_nodup {items : List ProjectionItem} {seen : List String}
    (hnodup : (items.map ProjectionItem.name).Nodup) (hseen : ∀ item ∈ items, item.name ∉ seen) :
    checkNames seen items = .ok () := by
  induction items generalizing seen with
  | nil => rfl
  | cons item rest ih =>
    rw [List.map_cons, List.nodup_cons] at hnodup
    rw [List.forall_mem_cons] at hseen
    have hfresh : seen.contains item.name = false := by simpa using hseen.1
    rw [checkNames, hfresh]
    refine ih hnodup.2 fun other hother hmem => ?_
    rcases List.mem_cons.1 hmem with heq | hmem
    · exact hnodup.1 (heq ▸ List.mem_map_of_mem hother)
    · exact hseen.2 other hother hmem

/-! ## Compiling a star -/

/-- `SELECT * FROM label AS name`. -/
def starSelect (op : Operator) (label name : String) : Select where
  selectList := [.identifier ⟨["*"]⟩]
  source := some (.call op [.identifier ⟨[label]⟩, .identifier ⟨[name]⟩])
  filter := none
  groupBy := none
  having := none
  orderBy := none

/-- The projection onto columns, each read off the elements of a bucket. -/
def listing (columns : List TableColumn) : List Step :=
  .project (columns.map TableColumn.name) :: columns.map TableColumn.modifier

/-- A query lists the columns of a table: all of them in order, with their types, and with their
values. -/
def ListsColumns (t : Table) (q : CompiledQuery) : Prop :=
  q.columns = t.allColumns.map TableColumn.output ∧
    ∃ before, q.traversal = .root (before ++ listing t.allColumns)

/-- One bucket for each element, sorted by the ids. -/
def singleBuckets : List Step :=
  [.group, .unfold, .selectValues, .order, .by (.anonymous [.unfold, .id]) none]

/-- The registry of a query that reads a table and returns all its columns. -/
def Registry.returning (schema : Schema) (t : Table) (name : String) : Registry :=
  (Registry.reading schema t name).withOutputs 0 (t.allColumns.map TableColumn.output)

section

variable {schema : Schema} {placement : FilterPlacement} {op : Operator} {t : Table} {name : String}

theorem ofClause_starSelect (hop : op.role? = some .naming) (hlabel : t.label ≠ "*")
    (hname : name ≠ "*") :
    SourceTable.ofClause (starSelect op t.label name).source = .ok ⟨t.label, name⟩ := by
  have hnotStar {s : String} (hs : s ≠ "*") : Identifier.isStar ⟨[s]⟩ = false :=
    beq_eq_false_iff_ne.2 hs
  simp only [starSelect, SourceTable.ofClause, hop, hnotStar hlabel, hnotStar hname]
  rfl

theorem itemsFrom_starList {r : Registry} (ht : r.schemaTable 0 = .ok t) :
    itemsFrom r 0 0 [.identifier ⟨["*"]⟩] = .ok (t.allColumns.map TableColumn.item) := by
  have hentry : entryItems r 0 0 (.identifier ⟨["*"]⟩) =
      .ok (t.allColumns.map TableColumn.item) := by
    change (do
      let t ← liftRegistry (r.schemaTable 0)
      return t.allColumns.map fun c => ⟨c.name, Node.ident c.name⟩ :
        Except CompileError (List ProjectionItem)) = _
    rw [ht]
    rfl
  rw [itemsFrom, hentry]
  change Except.ok (t.allColumns.map TableColumn.item ++ []) = _
  rw [List.append_nil]

theorem emitProjection_columns {table : TableId} {columns : List TableColumn}
    (h : ∀ c ∈ columns, t.Finds c) {d : Draft} (ht : d.registry.schemaTable table = .ok t) :
    emitProjection table (columns.map TableColumn.item) d =
      (.ok (), ⟨d.registry, d.steps ++ listing columns⟩) := by
  have hnames : (columns.map TableColumn.item).map ProjectionItem.name =
      columns.map TableColumn.name := by
    simp [TableColumn.item]
  have happend : Emit.append (.project (columns.map TableColumn.name)) d =
      (.ok (), ⟨d.registry, d.steps ++ [.project (columns.map TableColumn.name)]⟩) := rfl
  have hitems := emitItems_columns h
    (d := ⟨d.registry, d.steps ++ [.project (columns.map TableColumn.name)]⟩) ht
  rw [emitProjection, hnames, Emit.bind_of_ok happend]
  rwa [List.append_assoc] at hitems

theorem discover_star (hfinds : ∀ c ∈ t.allColumns, t.Finds c) {r : Registry}
    (ht : r.schemaTable 0 = .ok t) :
    discover (emitDiscovery 0 (t.allColumns.map TableColumn.item) (starSelect op t.label name)) r =
      .ok r := by
  have hproject := emitProjection_columns hfinds (d := ⟨r, []⟩) ht
  rw [discover, emitDiscovery, Emit.bind_of_ok hproject]
  rfl

theorem recordProjection_star (hfinds : ∀ c ∈ t.allColumns, t.Finds c)
    (ht : schema.table? t.label = some t) (steps : List Step) :
    recordProjection 0 (t.allColumns.map TableColumn.item) ⟨.reading schema t name, steps⟩ =
      (.ok (), ⟨.returning schema t name, steps⟩) := by
  have hrecord : (Registry.reading schema t name).recordOutputs 0
      (t.allColumns.map TableColumn.output) = (.ok (), .returning schema t name) := rfl
  have hcolumns := outputsOf_columns hfinds (schemaTable_reading name ht)
  rw [recordProjection, Emit.bind_of_ok (Emit.ask_of_eq hcolumns), Emit.onRegistry, hrecord]
  rfl

/-- Without keys and aggregates there is a bucket for each element. -/
theorem emitGroupBy_single {d : Draft} (h : d.registry.hasAggregate = false) :
    emitGroupBy 0 [] d = (.ok (), ⟨d.registry, (d.steps ++ [Step.group]) ++ [Step.unfold]⟩) := by
  have happend : Emit.append .group d = (.ok (), ⟨d.registry, d.steps ++ [Step.group]⟩) := rfl
  have hregistry : Emit.registry ⟨d.registry, d.steps ++ [Step.group]⟩ =
      (.ok d.registry, ⟨d.registry, d.steps ++ [Step.group]⟩) := rfl
  rw [emitGroupBy, Emit.bind_of_ok happend]
  simp only [List.isEmpty_nil, ↓reduceIte]
  rw [Emit.bind_of_ok hregistry, h]
  rfl

theorem emitStages_star (hfinds : ∀ c ∈ t.allColumns, t.Finds c)
    (ht : schema.table? t.label = some t) (steps : List Step) :
    emitStages 0 (t.allColumns.map TableColumn.item) (starSelect op t.label name) placement
        ⟨.reading schema t name, steps⟩ =
      (.ok (), ⟨.returning schema t name, (steps ++ singleBuckets) ++ listing t.allColumns⟩) := by
  have hplaced (here : FilterPlacement) (d : Draft) :
      emitPlaced 0 (starSelect op t.label name) placement here d = (.ok (), d) := rfl
  have hhaving (d : Draft) :
      emitHavingClause 0 (starSelect op t.label name) d = (.ok (), d) := rfl
  have hgroup : emitGroupBy 0 (keysOf (starSelect op t.label name).groupBy)
      ⟨.reading schema t name, steps⟩ = _ := emitGroupBy_single rfl
  have hvalues (d : Draft) : Emit.append .selectValues d =
      (.ok (), ⟨d.registry, d.steps ++ [Step.selectValues]⟩) := rfl
  have horder (d : Draft) : emitOrderBy 0 (t.allColumns.map TableColumn.item)
      (keysOf (starSelect op t.label name).orderBy) d =
      (.ok (), ⟨d.registry, (d.steps ++ [Step.order]) ++
        [Step.by (.anonymous [.unfold, .id]) none]⟩) := rfl
  have hproject := emitProjection_columns hfinds
    (d := ⟨.reading schema t name, steps ++ singleBuckets⟩) (schemaTable_reading name ht)
  have hsteps : ((((steps ++ [Step.group]) ++ [Step.unfold]) ++ [Step.selectValues]) ++
      [Step.order]) ++ [Step.by (.anonymous [.unfold, .id]) none] = steps ++ singleBuckets := by
    simp [singleBuckets]
  rw [emitStages, Emit.bind_of_ok (hplaced _ _), Emit.bind_of_ok hgroup,
    Emit.bind_of_ok (hvalues _), Emit.bind_of_ok (horder _), Emit.bind_of_ok (hhaving _),
    Emit.bind_of_ok (hplaced _ _), hsteps, Emit.bind_of_ok hproject,
    recordProjection_star hfinds ht]

/-- A star lists the columns, if they are all found through their names and none is repeated. -/
theorem compile_starSelect (hop : op.role? = some .naming) (hlabel : t.label ≠ "*")
    (hname : name ≠ "*") (ht : schema.table? t.label = some t)
    (hnodup : (t.allColumns.map TableColumn.name).Nodup) (hfinds : ∀ c ∈ t.allColumns, t.Finds c) :
    ∃ q, compile schema placement (starSelect op t.label name) = .ok q ∧ ListsColumns t q := by
  have hreading := schemaTable_reading name ht
  have hregister := registerTable_reading name ht
  have hitems : projectionItems (.reading schema t name) 0 (starSelect op t.label name).selectList =
      .ok (t.allColumns.map TableColumn.item) := by
    have hchecked : checkNames [] (t.allColumns.map TableColumn.item) = .ok () := by
      refine checkNames_of_nodup ?_ fun _ _ => List.not_mem_nil
      simpa [TableColumn.item, Function.comp_def] using hnodup
    rw [projectionItems, starSelect, itemsFrom_starList hreading]
    simp only [bind, Except.bind, hchecked]
    rfl
  have hcompile : compile schema placement (starSelect op t.label name) =
      .ok ⟨.root (sourceSteps (t.registeredAs 0 name) ++ singleBuckets ++ listing t.allColumns),
        t.allColumns.map TableColumn.output, .returning schema t name⟩ := by
    have hlist : (starSelect op t.label name).selectList.isEmpty = false := rfl
    have htable : (Registry.reading schema t name).table 0 = .ok (t.registeredAs 0 name) := rfl
    simp only [compile, ofClause_starSelect hop hlabel hname, hlist, hregister, hitems, bind,
      Except.bind, liftRegistry, discover_star hfinds hreading, htable, emitStages_star hfinds ht]
    rfl
  exact ⟨_, hcompile, rfl, _, rfl⟩

/-! ## Reading the columns back -/

theorem ColumnSource.steps_injective {source source' : ColumnSource}
    (h : source.steps = source'.steps) : source = source' := by
  cases source <;> cases source' <;> simp_all [ColumnSource.steps]

/-- A name that is read as a column of the table has no dots. -/
theorem Means.noDot {r : Registry} {table : TableId} {c : TableColumn} {m : Meaning}
    (ht : r.schemaTable table = .ok t) (hr : r.Binds fun _ _ => False) (hc : c ∈ t.allColumns)
    (h : Means r table (Node.ident c.name) m)
    (hfragment : m.fragment .bucket = .unfold :: c.source.steps) : '.' ∉ c.name.toList := by
  cases h with
  | named ha _ => exact (hr ha.2).elim
  | @column _ found hfound =>
    obtain ⟨t', ht', hcolumn⟩ := hfound
    cases ht.symm.trans ht'
    have hsource : found.source = c.source :=
      ColumnSource.steps_injective (List.cons.inj hfragment).2
    -- The column that is found lies where `c` does, so it has the name of `c`.
    have hsame : found.name = c.name := by
      have hname := Table.nameOf_source (Table.mem_allColumns hcolumn)
      rw [hsource, Table.nameOf_source hc] at hname
      exact (Option.some.inj hname).symm
    have hsimple := List.find?_some hcolumn
    rw [← hsame, beq_iff_eq.1 hsimple]
    exact Node.not_mem_simpleName c.name

/-- Each item of a listing means a value that is read off where its column says. -/
theorem exists_means_of_listing {r : Registry} {columns : List TableColumn}
    {named : List (String × Meaning)}
    (hms : List.Forall₂ (fun c n => Means r 0 (Node.ident c.name) n.2) columns named)
    (h : columns.map TableColumn.modifier = itemModifiers (named.map Prod.snd)) :
    ∀ c ∈ columns, ∃ m, Means r 0 (Node.ident c.name) m ∧
      m.fragment .bucket = .unfold :: c.source.steps := by
  induction hms with
  | nil => nofun
  | cons hm _ ih =>
    obtain ⟨hfirst, hrest⟩ := List.cons.inj h
    rw [List.forall_mem_cons]
    refine ⟨⟨_, hm, ?_⟩, ih hrest⟩
    simp only [TableColumn.modifier, orMarker, Traversal.anonymous, Step.by.injEq,
      Traversal.mk.injEq, List.cons.injEq, Step.coalesce.injEq, true_and, and_true] at hfirst
    exact hfirst.symm

/-- The items of a star give nothing a name. -/
theorem not_namedIn_items {columns : List TableColumn} {given : String} {expr : Node} :
    ¬ NamedIn ((columns.map TableColumn.item).map ProjectionItem.expr) given expr := by
  rintro ⟨n, hn, op, -, hwithin⟩
  obtain ⟨item, hitem, rfl⟩ := List.mem_map.1 hn
  obtain ⟨c, -, rfl⟩ := List.mem_map.1 hitem
  cases Node.within_identifier.1 hwithin

/-- What has happened when a star compiles: the items are the columns of the table. -/
theorem CompileRun.star {q : CompiledQuery} (hop : op.role? = some .naming)
    (hlabel : t.label ≠ "*") (hname : name ≠ "*") (ht : schema.table? t.label = some t)
    (run : CompileRun schema placement (starSelect op t.label name) q) :
    run.items = t.allColumns.map TableColumn.item ∧ q.registry.schemaTable 0 = .ok t ∧
      q.registry.Binds fun _ _ => False := by
  have hsource := run.reads
  rw [ofClause_starSelect hop hlabel hname] at hsource
  have hfound := run.found
  rw [← Except.ok.inj hsource] at hfound
  have htable : run.table = t := Option.some.inj (hfound.symm.trans ht)
  have hreading : (Registry.reading schema run.table run.source.name).schemaTable 0 = .ok t := by
    rw [schemaTable_reading run.source.name run.found, htable]
  have hitems : run.items = t.allColumns.map TableColumn.item := by
    have hlisted := (projectionItems_ok run.lists).1
    change itemsFrom _ 0 0 [.identifier ⟨["*"]⟩] = .ok run.items at hlisted
    rw [itemsFrom_starList hreading] at hlisted
    exact (Except.ok.inj hlisted).symm
  have hlearns := run.learns
  have htrees : (starSelect op t.label name).trees run.items =
      (t.allColumns.map TableColumn.item).map ProjectionItem.expr := by
    simp [Select.trees, starSelect, keysOf, hitems]
  rw [htrees] at hlearns
  refine ⟨hitems, hlearns.toGrows.schemaTable.trans hreading, ?_⟩
  exact hlearns.binds (P := fun _ _ => False) (fun h _ => h)
    (fun hgiven => not_namedIn_items hgiven) (binds_reading (P := fun _ _ => False))

/-- A query that lists the columns of its table finds each of them through its name. -/
theorem names_of_listsColumns {q : CompiledQuery} (hop : op.role? = some .naming)
    (hlabel : t.label ≠ "*") (hname : name ≠ "*") (ht : schema.table? t.label = some t)
    (h : compile schema placement (starSelect op t.label name) = .ok q)
    (hlists : ListsColumns t q) :
    (t.allColumns.map TableColumn.name).Nodup ∧
      ∀ c ∈ t.allColumns, '.' ∉ c.name.toList ∧ c.name ≠ "*" := by
  obtain ⟨run⟩ := compile_run h
  obtain ⟨hitems, htable, hbinds⟩ := run.star hop hlabel hname ht
  have hnodup : (t.allColumns.map TableColumn.name).Nodup := by
    obtain ⟨-, -, hnames, hnodup⟩ := run.columns
    rw [hnames, hitems] at hnodup
    simpa [TableColumn.item, Function.comp_def] using hnodup
  refine ⟨hnodup, fun c hc => ⟨?_, ?_⟩⟩
  · obtain ⟨o, htraversal, ho⟩ := run.outline
    obtain ⟨-, before, hbefore⟩ := hlists
    have hmeans : List.Forall₂ (fun c n => Means q.registry 0 (Node.ident c.name) n.2)
        t.allColumns o.columns := by
      have hcolumns := ho.columns
      rw [hitems, List.forall₂_map_left_iff] at hcolumns
      exact hcolumns.imp fun _ _ hn => hn.2
    -- Both projections have a modifier for each column, so they are the same end of the steps.
    have hsteps : before ++ listing t.allColumns = o.beforeProjection ++ o.projection := by
      rw [← o.steps_eq]
      rw [hbefore] at htraversal
      exact (Traversal.mk.inj htraversal).2
    have hlast := List.append_inj_right' hsteps
      (by simp [listing, Outline.projection, itemModifiers, hmeans.length_eq])
    obtain ⟨m, hm, hfragment⟩ := exists_means_of_listing hmeans (List.cons.inj hlast).2 c hc
    exact hm.noDot htable hbinds hc hfragment
  · intro hstar
    have hmem : Node.ident c.name ∈ (starSelect op t.label name).trees run.items := by
      simp only [Select.trees, List.mem_append, hitems]
      exact .inl (.inl (.inl (.inl (List.mem_map_of_mem (List.mem_map_of_mem hc)))))
    have hchecked := run.checked _ hmem
    rw [hstar] at hchecked
    cases hchecked with
    | identifier hnotStar _ => cases hnotStar

/-- **A star lists the columns whose names can be read.** For a table of a built schema,
`SELECT *` compiles to a query that lists all columns of the table, in order, with their types and
their values, exactly if no name of a column has a dot or is a star itself, and the id column is not
named like an endpoint column. -/
theorem star_lists_columns_iff {builder : SchemaBuilder}
    (hbuild : builder.build = .ok schema) (hmem : t ∈ schema.tables)
    (hlabel : t.label ≠ "*") (hname : name ≠ "*") (hop : op.role? = some .naming) :
    (∃ q, compile schema placement (starSelect op t.label name) = .ok q ∧ ListsColumns t q) ↔
      (∀ c ∈ t.allColumns, '.' ∉ c.name.toList ∧ c.name ≠ "*") ∧
        ∀ c ∈ t.endpointColumns, c.name ≠ t.idColumnName := by
  have hschema := builder.build_wellFormed hbuild
  have ht := hschema.table?_label hmem
  rw [← (hschema.tables t hmem).allColumns_nodup_iff]
  constructor
  · rintro ⟨q, hq, hlists⟩
    exact (names_of_listsColumns hop hlabel hname ht hq hlists).symm
  · rintro ⟨hnames, hnodup⟩
    refine compile_starSelect hop hlabel hname ht hnodup fun c hc => ?_
    obtain ⟨hdot, hstar⟩ := hnames c hc
    exact ⟨hdot, hstar, Table.column?_name hnodup hc⟩

end

/-- Cities, and roads between them. -/
def mapBuilder : SchemaBuilder :=
  (SchemaBuilder.empty.vertex "city" .integer []).edge "road" .string "city" "city" [⟨"km", .float⟩]

def roadTable : Table :=
  ⟨"road", .edge "city" "city", .string, [⟨"km", .float⟩], some (.integer, .integer)⟩

def mapSchema : Schema :=
  ⟨[⟨"city", .vertex, .integer, [], none⟩, roadTable]⟩

theorem star_lists_columns_iff_roads :
    mapBuilder.build = .ok mapSchema ∧ roadTable ∈ mapSchema.tables ∧
      roadTable.label ≠ "*" ∧ "r" ≠ "*" ∧ (⟨.as, .special⟩ : Operator).role? = some .naming ∧
      ∃ q, compile mapSchema .beforeGrouping (starSelect ⟨.as, .special⟩ roadTable.label "r") =
        .ok q ∧ ListsColumns roadTable q := by
  have hbuild : mapBuilder.build = .ok mapSchema := rfl
  have hmem : roadTable ∈ mapSchema.tables := by simp [mapSchema]
  have hlabel : roadTable.label ≠ "*" := by decide
  have hname : "r" ≠ "*" := by decide
  refine ⟨hbuild, hmem, hlabel, hname, rfl,
    (star_lists_columns_iff hbuild hmem hlabel hname rfl).2 ⟨?_, ?_⟩⟩
  · decide
  · decide

/-- People with a property whose name has a dot. -/
def dottedBuilder : SchemaBuilder :=
  SchemaBuilder.empty.vertex "person" .string [⟨"first.name", .string⟩]

/-- A star does not list a property whose name has a dot: the part before it is not a table. -/
theorem star_fails_on_dotted_name :
    ∃ schema, dottedBuilder.build = .ok schema ∧
      compile schema .beforeGrouping (starSelect ⟨.as, .special⟩ "person" "p") =
        .error (.registry (.unresolvedColumn "first" "name")) :=
  ⟨⟨[⟨"person", .vertex, .string, [⟨"first.name", .string⟩], none⟩]⟩, rfl, rfl⟩

end GraphSelect
