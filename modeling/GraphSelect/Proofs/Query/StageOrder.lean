import GraphSelect.Proofs.Query.Placement
import GraphSelect.Proofs.Query.RowFormat
import Mathlib

/-!
# The order of the stages

Every compiled select has the same stages in the same order, and each of them is there for a clause:
a filter for a condition, a branch for a grouping key, a modifier for a sort key or for a column. A
clause that is left out leaves its stage out, apart from the ordering, which then goes by ids, and
the grouping, which needs at most one modifier.

The clauses are emitted by different functions that all append to the same steps. So that there is
nothing else among these is a statement about all of them, also about the first phase, whose steps
are of the same kinds and are thrown away.
-/

set_option autoImplicit false

namespace GraphSelect

open Sql

/-! ## Stages and their clauses -/

/-- The step that finds the elements of a table of some kind. -/
inductive Finds : TableKind → Step → Prop where
  | vertices : Finds .vertex .vertices
  | edges (inVertex outVertex : String) : Finds (.edge inVertex outVertex) .edges

/-- A filter for a condition. -/
def FiltersFor (r : Registry) (scope : Scope) (n : Node) (step : Step) : Prop :=
  ∃ p, States r 0 n p ∧ step = .filter (.anonymous (p.steps scope))

/-- The branch of a grouping for one of its keys. -/
def BranchFor (r : Registry) (key : Node) (branch : Traversal) : Prop :=
  ∃ a, Means r 0 key (.atom a) ∧ branch = .anonymous (a.fragment .element)

/-- The modifiers of a grouping. Without keys there is one bucket or one for each element. -/
inductive GroupsFor (r : Registry) : List Node → List Step → Prop where
  | keys {keys : List Node} {branches : List Traversal} : keys ≠ [] →
      List.Forall₂ (BranchFor r) keys branches →
      GroupsFor r keys [.by (.anonymous [.union branches, .fold]) none]
  | single : GroupsFor r [] [.by (.anonymous [.constant (.boolean true)]) none]
  | perElement : GroupsFor r [] []

/-- A modifier for a sort key, which goes down if the key is marked so and up otherwise. -/
def SortsFor (r : Registry) (items : List ProjectionItem) (key : Node) (step : Step) : Prop :=
  ∃ m direction, SortsBy r 0 items key (m, direction) ∧
    (direction = .desc ↔ ∃ operand, key = .desc operand) ∧
    step = .by (.anonymous (m.fragment .bucket)) (some direction)

/-- The modifiers of an ordering. -/
inductive OrdersFor (r : Registry) (items : List ProjectionItem) :
    List Node → List Step → Prop where
  | keys {keys : List Node} {steps : List Step} : keys ≠ [] →
      List.Forall₂ (SortsFor r items) keys steps → OrdersFor r items keys steps
  | ids : OrdersFor r items [] [.by (.anonymous [.unfold, .id]) none]

/-- A modifier of the projection for an item. -/
def ProjectsFor (r : Registry) (item : ProjectionItem) (step : Step) : Prop :=
  ∃ m, Means r 0 item.expr m ∧ step = .by (orMarker (.anonymous (m.fragment .bucket))) none

/-! ## Directions -/

theorem Sql.Operator.role?_eq_desc {op : Operator} (h : op.role? = some (.mark .desc)) :
    op = ⟨.descending, .postfixed⟩ := by
  obtain ⟨kind, form⟩ := op
  unfold Operator.role? at h
  split at h <;> simp_all

theorem splitDirection_desc (operand : Node) :
    splitDirection (.desc operand) = .ok (operand, .desc) :=
  rfl

/-- A sort key goes down if it is marked so. -/
theorem splitDirection_direction {key operand : Node} {direction : Direction}
    (h : splitDirection key = .ok (operand, direction)) :
    direction = .desc ↔ ∃ operand, key = .desc operand := by
  constructor
  · rintro rfl
    obtain ⟨view, hview, hrest⟩ := ok_of_bind h
    split at hrest
    · cases hrest
      cases view_cases hview with
      | mark _ hop =>
        cases Operator.role?_eq_desc hop
        exact ⟨operand, rfl⟩
    · cases hrest
    · cases hrest
  · rintro ⟨operand', rfl⟩
    rw [splitDirection_desc] at h
    cases h
    rfl

theorem sortKey_direction {items : List ProjectionItem} {key expr : Node} {direction : Direction}
    (h : sortKey items key = .ok (expr, direction)) :
    direction = .desc ↔ ∃ operand, key = .desc operand := by
  obtain ⟨operand, chosen, hsplit, -⟩ := sortKey_ok h
  exact splitDirection_direction hsplit

/-! ## The stages of an outline -/

section

variable {r : Registry} {items : List ProjectionItem}

theorem finds_sourceSteps (t : RegisteredTable) :
    ∃ step, Finds t.kind step ∧ sourceSteps t = [step, .hasLabel t.label] := by
  obtain ⟨id, label, name, kind⟩ := t
  cases kind with
  | vertex => exact ⟨_, .vertices, rfl⟩
  | edge inVertex outVertex => exact ⟨_, .edges inVertex outVertex, rfl⟩

theorem filtersFor_filterSteps {clause : List Node} {conditions : List Condition} (scope : Scope)
    (h : List.Forall₂ (States r 0) clause conditions) :
    List.Forall₂ (FiltersFor r scope) clause (filterSteps scope conditions) := by
  rw [filterSteps, List.forall₂_map_right_iff]
  refine h.imp ?_
  intro n p hp
  exact ⟨p, hp, rfl⟩

theorem ordersFor_sortSteps {keys : List Node} {sorting : List (Meaning × Direction)}
    (h : List.Forall₂ (SortsBy r 0 items) keys sorting) :
    ∃ steps, sortSteps sorting = .order :: steps ∧ OrdersFor r items keys steps := by
  cases h with
  | nil => exact ⟨_, rfl, .ids⟩
  | @cons key k keys sorting hkey hkeys =>
    refine ⟨sortModifiers (k :: sorting), rfl, .keys (List.cons_ne_nil key keys) ?_⟩
    rw [sortModifiers, List.forall₂_map_right_iff]
    refine List.Forall₂.imp ?_ (List.Forall₂.cons hkey hkeys)
    rintro key ⟨m, direction⟩ ⟨expr, hexpr, hm⟩
    exact ⟨m, direction, ⟨expr, hexpr, hm⟩, sortKey_direction hexpr, rfl⟩

variable {placement : FilterPlacement} {s : Select} {found : Bool} {o : Outline}

theorem Outlines.groupsFor (h : Outlines placement s items found r o) :
    GroupsFor r (keysOf s.groupBy) o.bucketing.modifiers := by
  by_cases hkeys : keysOf s.groupBy = []
  · rw [h.noKeys hkeys, hkeys]
    cases found with
    | true => exact .single
    | false => exact .perElement
  · obtain ⟨atoms, hb, hatoms⟩ := h.keys hkeys
    rw [hb]
    refine .keys hkeys ?_
    rw [List.forall₂_map_right_iff]
    refine hatoms.imp ?_
    intro key a ha
    exact ⟨a, ha, rfl⟩

theorem Outlines.projectsFor (h : Outlines placement s items found r o) :
    List.Forall₂ (ProjectsFor r) items (itemModifiers (o.columns.map Prod.snd)) := by
  rw [itemModifiers, List.map_map, List.forall₂_map_right_iff]
  refine h.columns.imp ?_
  intro item c hc
  exact ⟨c.2, hc.2, rfl⟩

end

/-! ## The stages of a query -/

section

variable {schema : Schema} {placement : FilterPlacement} {s : Select} {q : CompiledQuery}

theorem Schema.mem_of_table? {label : String} {t : Table} (h : schema.table? label = some t) :
    t ∈ schema.tables := by
  rcases Option.or_eq_some_iff.1 h with h | ⟨-, h⟩
  · exact List.mem_of_find?_eq_some h
  · exact List.mem_of_find?_eq_some h

/-- **The order of the stages.** The steps of a compiled select are those of its stages, in this
order and with nothing between them. The label is the one that the table has in the schema, and the
filter of WHERE stands in one of two places, as the settings say. -/
theorem compiled_stage_order (h : compile schema placement s = .ok q) :
    ∃ (source : SourceTable) (t : Table) (items : List ProjectionItem) (elements : Step)
      (early grouping sorting having late columns : List Step),
      SourceTable.ofClause s.source = .ok source ∧ schema.table? source.label = some t ∧
      t ∈ schema.tables ∧
      projectionItems (.reading schema t source.name) 0 s.selectList = .ok items ∧
      q.traversal = .root (elements :: .hasLabel t.label :: (early ++ .group :: (grouping ++
        .unfold :: .selectValues :: .order :: (sorting ++ (having ++ (late ++
          .project q.columnNames :: columns)))))) ∧
      Finds t.kind elements ∧
      List.Forall₂ (FiltersFor q.registry .element)
        (if placement = .beforeGrouping then s.filter.toList else []) early ∧
      GroupsFor q.registry (keysOf s.groupBy) grouping ∧
      OrdersFor q.registry items (keysOf s.orderBy) sorting ∧
      List.Forall₂ (FiltersFor q.registry .bucket) s.having.toList having ∧
      List.Forall₂ (FiltersFor q.registry .bucket)
        (if placement = .afterHaving then s.filter.toList else []) late ∧
      q.columnNames = items.map ProjectionItem.name ∧
      List.Forall₂ (ProjectsFor q.registry) items columns := by
  obtain ⟨run⟩ := compile_run h
  obtain ⟨o, htraversal, ho⟩ := run.outline
  obtain ⟨-, -, hnames, -⟩ := run.columns
  obtain ⟨elements, hfinds, hsource⟩ := finds_sourceSteps run.registered
  obtain ⟨sorting, hsorting, horders⟩ := ordersFor_sortSteps ho.sorting
  have hkeys : o.columns.map Prod.fst = q.columnNames := ho.columnNames.symm.trans hnames.symm
  refine ⟨run.source, run.table, run.items, elements, filterSteps .element o.early,
    o.bucketing.modifiers, sorting, filterSteps .bucket o.having, filterSteps .bucket o.late,
    itemModifiers (o.columns.map Prod.snd), run.reads, run.found, Schema.mem_of_table? run.found,
    run.lists, ?_, hfinds, filtersFor_filterSteps .element ho.early, ho.groupsFor, horders,
    filtersFor_filterSteps .bucket ho.having, filtersFor_filterSteps .bucket ho.late, hnames,
    ho.projectsFor⟩
  have hlabel : run.registered.label = run.table.label := rfl
  rw [htraversal, Outline.steps, Outline.elementSteps, Outline.bucketSteps, Outline.projection,
    run.source_eq htraversal, hsource, hsorting, hkeys, hlabel]
  simp

end

def employmentSchema : Schema :=
  ⟨[⟨"worksAt", .edge "company" "person", .string,
    [⟨"role", .string⟩, ⟨"site", .string⟩, ⟨"hours", .integer⟩], none⟩]⟩

/-- `SELECT role AS r, site, COUNT(*) AS c FROM WORKSAT AS w WHERE hours > 10 GROUP BY r, site
HAVING c > 1 ORDER BY 3 DESC, site`. -/
def commonRoles : Select where
  selectList := [.as (.identifier ⟨["role"]⟩) "r", .identifier ⟨["site"]⟩, .as .countStar "c"]
  source := some (.as (.identifier ⟨["WORKSAT"]⟩) "w")
  filter := some (.infixed .greaterThan (.identifier ⟨["hours"]⟩) (.int 10))
  groupBy := some [.identifier ⟨["r"]⟩, .identifier ⟨["site"]⟩]
  having := some (.infixed .greaterThan (.identifier ⟨["c"]⟩) (.int 1))
  orderBy := some [.desc (.int 3), .identifier ⟨["site"]⟩]

/-- A select with all clauses, WHERE being placed last, and the label in capitals. -/
theorem compiled_stage_order_commonRoles :
    ∃ (q : CompiledQuery) (role site count place having filter first middle last : Traversal),
      compile employmentSchema .afterHaving commonRoles = .ok q ∧
      q.traversal = .root [.edges, .hasLabel "worksAt", .group,
        .by (.anonymous [.union [role, site], .fold]) none, .unfold, .selectValues, .order,
        .by count (some .desc), .by place (some .asc), .filter having, .filter filter,
        .project ["r", "site", "c"], .by first none, .by middle none, .by last none] := by
  have hcompiles : (compile employmentSchema .afterHaving commonRoles).map
      CompiledQuery.columnNames = .ok ["r", "site", "c"] := by cbv
  obtain ⟨q, hq, hnames⟩ := ok_of_map hcompiles
  obtain ⟨source, t, items, elements, early, grouping, sorting, having, late, columns, hsource,
    htable, -, -, htraversal, hfinds, hearly, hgrouping, hsorting, hhaving, hlate, hitems,
    hcolumns⟩ := compiled_stage_order hq
  have hread : SourceTable.ofClause commonRoles.source = .ok ⟨"WORKSAT", "w"⟩ := by cbv
  cases hsource.symm.trans hread
  have hfound : (employmentSchema.table? "WORKSAT").map (fun t => (t.label, t.kind)) =
      some ("worksAt", .edge "company" "person") := by cbv
  rw [htable] at hfound
  obtain ⟨hlabel, hkind⟩ := Prod.mk.inj (Option.some.inj hfound)
  rw [hkind] at hfinds
  cases hfinds
  cases hearly
  -- Two keys, two sort keys and one condition in each of the other clauses.
  have hkeys : keysOf commonRoles.groupBy = [.identifier ⟨["r"]⟩, .identifier ⟨["site"]⟩] := rfl
  have hsorts : keysOf commonRoles.orderBy = [.desc (.int 3), .identifier ⟨["site"]⟩] := rfl
  rw [hkeys] at hgrouping
  rw [hsorts] at hsorting
  rcases hgrouping with ⟨-, _ | ⟨hrole, _ | ⟨hsite, _ | _⟩⟩⟩
  rcases hsorting with ⟨-, _ | ⟨hthird, _ | ⟨hsecond, _ | _⟩⟩⟩
  rcases hhaving with _ | ⟨⟨_, -, rfl⟩, _ | _⟩
  rcases hlate with _ | ⟨⟨_, -, rfl⟩, _ | _⟩
  obtain ⟨_, third, -, hdown, rfl⟩ := hthird
  obtain ⟨_, second, -, hup, rfl⟩ := hsecond
  have hdesc : third = .desc := hdown.2 ⟨_, rfl⟩
  have hasc : second = .asc := by
    cases hsecond : second with
    | asc => rfl
    | desc =>
      obtain ⟨operand, hoperand⟩ := hup.1 hsecond
      cases hoperand
  -- The names of the columns say how many items there are.
  rw [hnames] at hitems htraversal
  have hlength : columns.length = 3 := by
    rw [← hcolumns.length_eq, ← List.length_map ProjectionItem.name, ← hitems]
    rfl
  obtain ⟨first, middle, last, rfl⟩ := List.length_eq_three.1 hlength
  rcases hcolumns with _ | ⟨⟨_, -, rfl⟩, _ | ⟨⟨_, -, rfl⟩, _ | ⟨⟨_, -, rfl⟩, _ | _⟩⟩⟩
  rw [hlabel, hdesc, hasc] at htraversal
  exact ⟨q, _, _, _, _, _, _, _, _, _, hq, htraversal⟩

end GraphSelect
