import GraphSelect.Proofs.Expr.Causes
import GraphSelect.Proofs.Query.Stages

/-!
# What a select can be refused for

Each clause passes on the errors of its expressions. Besides these there is one error of ORDER BY, a
position that counts no item, and there are the errors of the select as a whole: a FROM clause that
names no table, an empty select list, a column that is returned twice. So whoever is told that a
position is out of range has written one that is.

The registry has no errors of its own to report. While a query is underway it has the one table and
no columns, which is what the clauses and the record of the columns ask of it, and from then on it
has both.
-/

set_option autoImplicit false

namespace GraphSelect

open Sql

/-! ## Positions -/

/-- A position counts one of the items, from one on. -/
def Counts (items : List ProjectionItem) (position : Int64) : Prop :=
  1 ≤ position.toInt ∧ position.toInt ≤ items.length

instance (items : List ProjectionItem) (position : Int64) : Decidable (Counts items position) :=
  inferInstanceAs (Decidable (_ ∧ _))

section

variable {items : List ProjectionItem} {position : Int64}

theorem itemAt_of_counts (h : Counts items position) :
    ∃ item ∈ items, itemAt items position = .ok item.expr := by
  obtain ⟨hlow, hhigh⟩ := h
  have hlt : position.toInt.toNat - 1 < items.length := by omega
  have hnot : ¬ position.toInt < 1 := by omega
  refine ⟨items[position.toInt.toNat - 1], List.getElem_mem hlt, ?_⟩
  rw [itemAt, if_neg hnot, List.getElem?_eq_getElem hlt]

theorem itemAt_of_not_counts (h : ¬ Counts items position) :
    itemAt items position = .error (.ordinal position items.length) := by
  unfold itemAt
  split
  · rfl
  · rename_i hlow
    have hnone : items[position.toInt.toNat - 1]? = none := by
      refine List.getElem?_eq_none ?_
      unfold Counts at h
      omega
    rw [hnone]

end

/-! ## Clauses -/

/-- An error for which the clauses of a select are refused: that of an expression, or a position in
ORDER BY that counts no item. -/
inductive OfClauses (items : List ProjectionItem) : CompileError → Prop where
  | expression {e : CompileError} : OfExpression e → OfClauses items e
  | ordinal {position : Int64} : ¬ Counts items position →
      OfClauses items (.ordinal position items.length)

section

variable {table : TableId} {items : List ProjectionItem} {s : Select} {placement : FilterPlacement}

theorem splitDirection_blames (key : Node) : Blames OfExpression (splitDirection key) := by
  refine .bind (view_blames key) fun view _ => ?_
  cases view with
  | mark m operand =>
    cases m with
    | desc => exact .ok _
    | nullsFirst => exact .error (.shape _)
    | nullsLast => exact .error (.shape _)
  | _ => exact .ok _

theorem itemAt_blames (position : Int64) : Blames (OfClauses items) (itemAt items position) := by
  by_cases h : Counts items position
  · obtain ⟨item, -, hitem⟩ := itemAt_of_counts h
    rw [hitem]
    exact .ok _
  · rw [itemAt_of_not_counts h]
    exact .error (.ordinal h)

theorem sortKey_blames (key : Node) : Blames (OfClauses items) (sortKey items key) := by
  have hlast (direction : Direction) (expr : Node) : Blames (OfClauses items)
      (do return (← expr.unaliased, direction)) :=
    .bind ((unaliased_blames expr).mono .expression) fun _ _ => .ok _
  refine .bind ((splitDirection_blames key).mono .expression) fun k _ => ?_
  obtain ⟨operand, direction⟩ := k
  dsimp only
  split
  · exact .bind (itemAt_blames _) fun expr _ => hlast direction expr
  · exact hlast direction _

theorem checkSortable_blames {r : Registry} (h : HasTable table r) (n : Node) :
    Blames OfExpression (checkSortable r table n) := by
  cases n with
  | identifier id =>
    refine .bind (isEndpointName_blames h id) fun endpoint _ => ?_
    split
    · exact .error (.shape _)
    · exact .ok _
  | literal l => exact .ok _
  | call op operands => exact .ok _

theorem emitSortKeys_upholds (keys : List Node) :
    (emitSortKeys table items keys).Upholds (Underway table) (OfClauses items) := by
  induction keys with
  | nil => exact .pure ()
  | cons key rest ih =>
    refine .bind (.lift (sortKey_blames key)) fun k => ?_
    have hsortable (r : Registry) (hr : Underway table r) :
        Blames (OfClauses items) (checkSortable r table k.1) :=
      (checkSortable_blames hr.hasTable k.1).mono .expression
    refine .bind (.ask hsortable) fun _ => ?_
    refine .bind (.branch ((emitValue_upholds k.1).mono .expression)) fun _ => ?_
    exact .bind (.append _) fun _ => ih

theorem emitOrderBy_upholds (keys : List Node) :
    (emitOrderBy table items keys).Upholds (Underway table) (OfClauses items) := by
  refine .bind (.append _) fun _ => ?_
  split
  · exact .append _
  · exact emitSortKeys_upholds keys

theorem emitFilterStep_upholds (scope : Scope) (n : Node) :
    (emitFilterStep table scope n).Upholds (Underway table) OfExpression :=
  .bind (.branch (emitFilter_upholds n)) fun _ => .append _

theorem emitHavingClause_upholds (s : Select) :
    (emitHavingClause table s).Upholds (Underway table) OfExpression := by
  unfold emitHavingClause
  split
  · unfold emitHaving
    split
    · exact emitFilterStep_upholds _ _
    · exact .fail (.shape _)
  · exact .pure ()

theorem filterKind_blames (n : Node) : Blames OfExpression (filterKind n) := by
  unfold filterKind
  split
  · exact .ok _
  · exact .error (.filter _)
  · split
    · split
      · split
        · exact .ok _
        · exact .error (.filter _)
      · exact .error (.filter _)
    · split
      · exact .ok _
      · exact .error (.filter _)
      · exact .error (.filter _)
      · rename_i e _ he
        exact .error (view_blames _ he)

theorem emitPlaced_upholds (s : Select) (placement here : FilterPlacement) :
    (emitPlaced table s placement here).Upholds (Underway table) OfExpression := by
  unfold emitPlaced
  split
  · split
    · exact .bind (.lift (filterKind_blames _)) fun _ => emitFilterStep_upholds _ _
    · exact .pure ()
  · exact .pure ()

theorem emitGroupKeys_upholds (keys : List Node) :
    (emitGroupKeys table keys).Upholds (Underway table) OfExpression := by
  induction keys with
  | nil => exact .pure []
  | cons key rest ih =>
    refine .bind (.bind (.lift (view_blames key)) fun view => ?_) fun _ => .bind ih fun _ => .pure _
    cases view with
    | identifier id =>
      refine .bind (.ask fun r hr => isEndpointName_blames hr.hasTable id) fun _ => ?_
      split
      · exact .fail (.shape _)
      · exact .branch (emitValue_upholds _)
    | _ => exact .fail (.shape _)

theorem emitGroupBy_upholds (keys : List Node) :
    (emitGroupBy table keys).Upholds (Underway table) OfExpression := by
  refine .bind (.append _) fun _ => ?_
  split
  · refine .bind (.registry) fun _ => ?_
    split
    · exact .bind (.append _) fun _ => .append _
    · exact .append _
  · refine .bind (emitGroupKeys_upholds keys) fun _ => ?_
    exact .bind (.append _) fun _ => .append _

theorem emitItems_upholds (items : List ProjectionItem) :
    (emitItems table items).Upholds (Underway table) OfExpression := by
  induction items with
  | nil => exact .pure ()
  | cons item rest ih =>
    exact .bind (.branch (emitValue_upholds _)) fun _ => .bind (.append _) fun _ => ih

theorem emitProjection_upholds (items : List ProjectionItem) :
    (emitProjection table items).Upholds (Underway table) OfExpression :=
  .bind (.append _) fun _ => emitItems_upholds items

theorem emitDiscovery_upholds (s : Select) :
    (emitDiscovery table items s).Upholds (Underway table) (OfClauses items) :=
  .bind ((emitProjection_upholds items).mono .expression) fun _ =>
    .bind ((emitHavingClause_upholds s).mono .expression) fun _ => emitOrderBy_upholds _

theorem discover_blames {r : Registry} (h : Underway table r) :
    Blames (OfClauses items) (discover (emitDiscovery table items s) r) := by
  intro e he
  unfold discover at he
  split at he
  · cases he
  · rename_i hdiscovery
    cases he
    exact (emitDiscovery_upholds s).blames h hdiscovery

/-! ## Returned columns -/

theorem outputsOf_blames {r : Registry} (h : HasTable table r) (items : List ProjectionItem) :
    Blames OfExpression (outputsOf r table items) := by
  induction items with
  | nil => exact .ok _
  | cons item rest ih =>
    exact .bind (typeWithin_blames h _ item.expr) fun _ _ => .bind ih fun _ _ => .ok _

/-- The query is recorded: it reads one table, and it returns columns. -/
structure Recorded (r : Registry) : Prop where
  single : r.tables.length = 1
  returns : ∃ table columns, columns ≠ [] ∧ r.outputs = [(table, columns)] ∧
    r.renamedColumns = columns.map OutputColumn.name

/-- The columns are recorded last. Where there are items and a query is underway, the registry has
nothing against it. -/
theorem recordProjection_leads (hitems : items ≠ []) :
    (recordProjection table items).Leads (Underway table) Recorded OfExpression := by
  refine ⟨fun hd h => ?_, fun {e d d'} hd h => ?_⟩
  · obtain ⟨columns, -, hne, hnone, rfl⟩ := recordProjection_ok h
    refine ⟨hd.single, table, columns, hne, ?_, rfl⟩
    rw [Registry.withOutputs, hnone, List.nil_append]
  · cases hcolumns : outputsOf d.registry table items with
    | error err =>
      rw [recordProjection, Emit.bind_of_error (Emit.ask_of_eq hcolumns)] at h
      cases h
      exact outputsOf_blames hd.hasTable items hcolumns
    | ok columns =>
      have hne : columns ≠ [] := by
        rintro rfl
        exact hitems (List.forall₂_nil_right_iff.1 (outputsOf_ok hcolumns))
      have hrecord := Registry.recordOutputs_ok_iff.2
        ⟨hd.hasTable.registered, hd.unrecorded, hne, rfl⟩
      rw [recordProjection, Emit.bind_of_ok (Emit.ask_of_eq hcolumns),
        Emit.onRegistry_of_eq hrecord] at h
      cases h

theorem emitStages_leads (hitems : items ≠ []) (s : Select) (placement : FilterPlacement) :
    (emitStages table items s placement).Leads (Underway table) Recorded (OfClauses items) := by
  refine .bind ((emitPlaced_upholds s placement _).mono .expression) fun _ => ?_
  refine .bind ((emitGroupBy_upholds _).mono .expression) fun _ => ?_
  refine .bind (.append _) fun _ => ?_
  refine .bind (emitOrderBy_upholds _) fun _ => ?_
  refine .bind ((emitHavingClause_upholds s).mono .expression) fun _ => ?_
  refine .bind ((emitPlaced_upholds s placement _).mono .expression) fun _ => ?_
  refine .bind ((emitProjection_upholds items).mono .expression) fun _ => ?_
  exact (recordProjection_leads hitems).mono .expression

end

theorem Recorded.outputColumns {r : Registry} (h : Recorded r) :
    ∃ columns, r.outputColumns = .ok columns := by
  obtain ⟨_, columns, -, houtputs, -⟩ := h.returns
  exact ⟨columns, by rw [Registry.outputColumns, houtputs]⟩

theorem Recorded.checkSingleTable {r : Registry} (h : Recorded r) :
    r.checkSingleTable = .ok () := by
  obtain ⟨_, _, hne, -, hnames⟩ := h.returns
  obtain ⟨columns, hcolumns⟩ := h.outputColumns
  have hrenamed : r.renamedColumns.isEmpty = false := by
    rw [hnames]
    simpa using hne
  simp only [Registry.checkSingleTable, hrenamed, h.single, hcolumns]
  rfl

/-! ## The select list -/

theorem entryItems_blames {r : Registry} {table : TableId} (h : HasTable table r) (position : Nat)
    (n : Node) : Blames OfExpression (entryItems r table position n) := by
  cases n with
  | identifier id =>
    rw [entryItems]
    split
    · obtain ⟨t, ht⟩ := h
      rw [ht]
      exact .ok _
    · exact .ok _
  | literal l => exact .ok _
  | call op operands => exact .bind (view_blames _) fun _ _ => .ok _

theorem itemsFrom_blames {r : Registry} {table : TableId} (h : HasTable table r)
    (selectList : List Node) :
    ∀ position, Blames OfExpression (itemsFrom r table position selectList) := by
  induction selectList with
  | nil => exact fun _ => .ok _
  | cons n rest ih =>
    intro position
    exact .bind (entryItems_blames h position n) fun _ _ => .bind (ih _) fun _ _ => .ok _

/-- An entry stands for an item at least: every table has an id. -/
theorem entryItems_ne_nil {r : Registry} {table : TableId} {position : Nat} {n : Node}
    {items : List ProjectionItem} (h : entryItems r table position n = .ok items) : items ≠ [] := by
  obtain ⟨-, t, -, rfl⟩ | ⟨-, name, rfl⟩ := entryItems_cases h
  · simp [Table.allColumns]
  · simp

theorem projectionItems_ne_nil {r : Registry} {table : TableId} {selectList : List Node}
    {items : List ProjectionItem} (h : projectionItems r table selectList = .ok items)
    (hlist : selectList ≠ []) : items ≠ [] := by
  obtain ⟨hitems, -⟩ := projectionItems_ok h
  cases selectList with
  | nil => exact absurd rfl hlist
  | cons n rest =>
    obtain ⟨first, hfirst, hrest⟩ := ok_of_bind hitems
    obtain ⟨more, -, hlast⟩ := ok_of_bind hrest
    cases hlast
    exact List.append_ne_nil_of_left_ne_nil (entryItems_ne_nil hfirst) more

/-! ## The select -/

/-- What a select can be refused for. -/
inductive Refused (schema : Schema) (s : Select) : CompileError → Prop where
  | source : Refused schema s .malformedFrom
  | emptyList : Refused schema s .missingSelectList
  | unknownTable {source : SourceTable} : SourceTable.ofClause s.source = .ok source →
      s.selectList ≠ [] → schema.table? source.label = none →
      Refused schema s (.registry (.unknownTable source.label))
  | twice (name : String) : Refused schema s (.duplicateColumn name)
  -- An entry of the select list cannot be read.
  | entry {e : CompileError} : OfExpression e → Refused schema s e
  | clauses {source : SourceTable} {t : Table} {items : List ProjectionItem} {e : CompileError} :
      SourceTable.ofClause s.source = .ok source → schema.table? source.label = some t →
      projectionItems (.reading schema t source.name) 0 s.selectList = .ok items →
      OfClauses items e → Refused schema s e

section

variable {schema : Schema} {s : Select}

theorem ofClause_blames (clause : Option Node) :
    Blames (Refused schema s) (SourceTable.ofClause clause) := by
  unfold SourceTable.ofClause
  split
  · split
    · exact .ok _
    · exact .error .source
  · exact .error .source

theorem checkNames_blames (items : List ProjectionItem) :
    ∀ seen, Blames (Refused schema s) (checkNames seen items) := by
  induction items with
  | nil => exact fun _ => .ok _
  | cons item rest ih =>
    intro seen
    rw [checkNames]
    split
    · exact .error (.twice _)
    · exact ih _

theorem projectionItems_blames {r : Registry} {table : TableId} (h : HasTable table r)
    (selectList : List Node) : Blames (Refused schema s) (projectionItems r table selectList) :=
  .bind ((itemsFrom_blames h selectList 0).mono .entry) fun items _ =>
    .bind (checkNames_blames items []) fun _ _ => .ok _

theorem underway_reading {label : String} {t : Table} (name : String)
    (h : schema.table? label = some t) : Underway 0 (.reading schema t name) :=
  ⟨⟨t, schemaTable_reading name h⟩, rfl, rfl⟩

/-- **A select is refused for something in it.** -/
theorem compile_blames (placement : FilterPlacement) :
    Blames (Refused schema s) (compile schema placement s) := by
  refine .bind (ofClause_blames _) fun source hsource => ?_
  split
  · exact .error .emptyList
  · rename_i hempty
    have hlist : s.selectList ≠ [] := by simpa using hempty
    cases ht : schema.table? source.label with
    | none =>
      rw [Registry.registerTable_unknown (r := .empty schema) source.name ht]
      exact .error (.unknownTable hsource hlist ht)
    | some t =>
      rw [registerTable_reading source.name ht]
      have hreads : Underway 0 (.reading schema t source.name) := underway_reading source.name ht
      refine .bind (.ok _) fun registered hregistered => ?_
      cases hregistered
      refine .bind (projectionItems_blames hreads.hasTable _) fun items hitems => ?_
      have hclauses {e : CompileError} (he : OfClauses items e) : Refused schema s e :=
        .clauses hsource ht hitems he
      refine .bind ((discover_blames hreads).mono hclauses) fun discovered hdiscover => ?_
      obtain ⟨d, hd, rfl⟩ := discover_ok hdiscover
      have hdiscovered : Underway 0 d.registry := (emitDiscovery_upholds s).reaches hreads hd
      obtain ⟨registered, hregistered⟩ := hdiscovered.hasTable.registered
      rw [hregistered]
      refine .bind (.ok _) fun _ _ => ?_
      have hstages : (emitStages 0 items s placement).Leads _ Recorded (OfClauses items) :=
        emitStages_leads (projectionItems_ne_nil hitems hlist) s placement
      split
      · rename_i hfail
        exact .error (hclauses (hstages.blames (by exact hdiscovered) hfail))
      · rename_i draft hdone
        have hrecorded : Recorded draft.registry := hstages.reaches (by exact hdiscovered) hdone
        obtain ⟨columns, hcolumns⟩ := hrecorded.outputColumns
        rw [hrecorded.checkSingleTable, hcolumns]
        exact .ok _

/-- A position that is refused counts no item. -/
theorem not_counts_of_ordinal {placement : FilterPlacement} {position : Int64} {n : Nat}
    (h : compile schema placement s = .error (.ordinal position n)) :
    ∃ (source : SourceTable) (t : Table) (items : List ProjectionItem),
      SourceTable.ofClause s.source = .ok source ∧ schema.table? source.label = some t ∧
      projectionItems (.reading schema t source.name) 0 s.selectList = .ok items ∧
      n = items.length ∧ ¬ Counts items position := by
  cases compile_blames placement h with
  | entry he => cases he
  | clauses hsource ht hitems he =>
    cases he with
    | expression he => cases he
    | ordinal hcounts => exact ⟨_, _, _, hsource, ht, hitems, rfl, hcounts⟩

end

/-! ## Errors of the registry -/

/-- The FROM clause is `<label> AS <name>`, and neither of them is a star. -/
def Sql.Select.ReadsFrom (s : Select) (label name : String) : Prop :=
  ∃ (op : Operator) (table called : Identifier),
    s.source = some (.call op [.identifier table, .identifier called]) ∧
    op.role? = some .naming ∧ table.isStar = false ∧ called.isStar = false ∧
    table.simpleName = label ∧ called.simpleName = name

theorem ofClause_ok_iff {s : Select} {label name : String} :
    SourceTable.ofClause s.source = .ok ⟨label, name⟩ ↔ s.ReadsFrom label name := by
  constructor
  · intro h
    unfold SourceTable.ofClause at h
    split at h
    · rename_i op table called hsource
      split at h
      · rename_i hform
        cases h
        simp only [Bool.and_eq_true, decide_eq_true_eq, Bool.not_eq_true'] at hform
        exact ⟨op, table, called, hsource, hform.1.1, hform.1.2, hform.2, rfl, rfl⟩
      · cases h
    · cases h
  · rintro ⟨op, table, called, hsource, hop, htable, hcalled, rfl, rfl⟩
    simp [hsource, SourceTable.ofClause, hop, htable, hcalled]

/-- A table that is not found is the first thing that is said about a select with a FROM clause and
a select list. -/
theorem compile_unknownTable {schema : Schema} {s : Select} {source : SourceTable}
    (placement : FilterPlacement) (hsource : SourceTable.ofClause s.source = .ok source)
    (hlist : s.selectList ≠ []) (hnone : schema.table? source.label = none) :
    compile schema placement s = .error (.registry (.unknownTable source.label)) := by
  have hlisted : s.selectList.isEmpty = false := by simpa using hlist
  have hunknown := Registry.registerTable_unknown (r := .empty schema) source.name hnone
  simp only [compile, hsource, hlisted, hunknown, bind, Except.bind]
  rfl

/-- What the registry may have against a select: the table, or a name in it. -/
theorem registry_error_cases {schema : Schema} {s : Select} {placement : FilterPlacement}
    {err : RegistryError} (h : compile schema placement s = .error (.registry err)) :
    (∃ source, SourceTable.ofClause s.source = .ok source ∧ s.selectList ≠ [] ∧
      schema.table? source.label = none ∧ err = .unknownTable source.label) ∨
    (∃ table column, err = .unresolvedColumn table column) ∨
    ∃ name, err = .duplicateAlias name := by
  have hexpression (he : OfExpression (.registry err)) :
      (∃ table column, err = .unresolvedColumn table column) ∨
        ∃ name, err = .duplicateAlias name := by
    cases he with
    | unresolved table column => exact .inl ⟨table, column, rfl⟩
    | duplicate name => exact .inr ⟨name, rfl⟩
  cases compile_blames placement h with
  | unknownTable hsource hlist hnone => exact .inl ⟨_, hsource, hlist, hnone, rfl⟩
  | entry he => exact .inr (hexpression he)
  | clauses _ _ _ he =>
    cases he with
    | expression he => exact .inr (hexpression he)

/-- **A select is never told of what it cannot have caused.** Whatever tables the schema has, an
unknown id, a missing record of the columns and a second one never come out. A table is unknown
exactly if there is a FROM clause and a select list, and no label is the one in FROM up to the case
of ASCII letters. -/
theorem internal_errors_unreachable (schema : Schema) (placement : FilterPlacement) (s : Select) :
    (∀ id, compile schema placement s ≠ .error (.registry (.unknownTableId id))) ∧
    compile schema placement s ≠ .error (.registry .emptyRename) ∧
    compile schema placement s ≠ .error (.registry .multiTableReturn) ∧
    ∀ label, compile schema placement s = .error (.registry (.unknownTable label)) ↔
      (∃ name, s.ReadsFrom label name) ∧ s.selectList ≠ [] ∧
        ∀ t ∈ schema.tables, t.label.toList.map Char.toLower ≠ label.toList.map Char.toLower := by
  refine ⟨fun id h => ?_, fun h => ?_, fun h => ?_, fun label => ⟨fun h => ?_, ?_⟩⟩
  · simpa using registry_error_cases h
  · simpa using registry_error_cases h
  · simpa using registry_error_cases h
  · obtain ⟨source, hsource, hlist, hnone, herr⟩ | ⟨_, _, herr⟩ | ⟨_, herr⟩ :=
      registry_error_cases h
    · cases herr
      exact ⟨⟨source.name, ofClause_ok_iff.1 hsource⟩, hlist, Schema.table?_eq_none_iff.1 hnone⟩
    · cases herr
    · cases herr
  · rintro ⟨⟨name, hreads⟩, hlist, hlabels⟩
    exact compile_unknownTable placement (ofClause_ok_iff.2 hreads) hlist
      (Schema.table?_eq_none_iff.2 hlabels)

end GraphSelect
