import GraphSelect.Proofs.Query.Stages

/-!
# The outline of a compiled select

Between a select and its steps stands an `Outline`: for each clause what it means, with names
followed and sort keys counted out. The steps are a function of the outline, and `Outlines` says how
the outline follows from the select. A statement about the shape of compiled queries is a statement
about the steps of outlines, and needs to know nothing of drafts.

The select list, HAVING and ORDER BY are emitted twice. That they are outlined only once is a
result: both times they mean the same, because a meaning is kept as the registry grows and there is
only one. So what the first time has found out about aggregates can be read off the outline as well.
-/

set_option autoImplicit false

namespace GraphSelect

open Sql

/-- How elements are put into buckets. -/
inductive Bucketing where
  -- One bucket for all elements that have the same values.
  | byValues (atoms : List Atom)
  -- One bucket for all elements.
  | single
  -- One bucket for each element.
  | perElement

/-- The modifier of a grouping, if it needs one. -/
def Bucketing.modifiers : Bucketing → List Step
  | .byValues atoms => [.by (groupKey atoms) none]
  | .single => [.by (.anonymous [.constant (.boolean true)]) none]
  | .perElement => []

/-- What the clauses of a select mean. -/
structure Outline where
  source : RegisteredTable
  -- WHERE, where it filters single elements.
  early : List Condition
  bucketing : Bucketing
  sorting : List (Meaning × Direction)
  having : List Condition
  -- WHERE, where it filters buckets.
  late : List Condition
  columns : List (String × Meaning)

namespace Outline

/-- The steps up to the grouping. -/
def elementSteps (o : Outline) : List Step :=
  sourceSteps o.source ++ filterSteps .element o.early

/-- The ordering and the filter of HAVING. -/
def bucketSteps (o : Outline) : List Step :=
  sortSteps o.sorting ++ filterSteps .bucket o.having

def projection (o : Outline) : List Step :=
  .project (o.columns.map Prod.fst) :: itemModifiers (o.columns.map Prod.snd)

/-- The steps that an outline stands for. -/
def steps (o : Outline) : List Step :=
  o.elementSteps ++ .group :: (o.bucketing.modifiers ++ .unfold :: .selectValues ::
    (o.bucketSteps ++ (filterSteps .bucket o.late ++ o.projection)))

/-- Whether the select list, HAVING or ORDER BY aggregates. -/
def discovers (o : Outline) : Bool :=
  o.columns.any (fun c => c.2.isAggregate) ||
    (o.having.any Condition.hasAggregate || o.sorting.any fun k => k.1.isAggregate)

end Outline

/-- A select has an outline. Its names stand for what they stand for in the registry, and `found`
says whether aggregates were known of when it was grouped. -/
structure Outlines (placement : FilterPlacement) (s : Select) (items : List ProjectionItem)
    (found : Bool) (r : Registry) (o : Outline) : Prop where
  early : List.Forall₂ (States r 0) (s.filterAt placement .beforeGrouping) o.early
  earlyPlain : o.early.any Condition.hasAggregate = false
  keys : keysOf s.groupBy ≠ [] → ∃ atoms, o.bucketing = .byValues atoms ∧
    List.Forall₂ (fun key a => Means r 0 key (.atom a)) (keysOf s.groupBy) atoms
  noKeys : keysOf s.groupBy = [] → o.bucketing = if found then .single else .perElement
  sorting : List.Forall₂ (SortsBy r 0 items) (keysOf s.orderBy) o.sorting
  having : List.Forall₂ (States r 0) s.having.toList o.having
  late : List.Forall₂ (States r 0) (s.filterAt placement .afterHaving) o.late
  columns : List.Forall₂ (fun item c => item.name = c.1 ∧ Means r 0 item.expr c.2) items o.columns
  aggregate : r.hasAggregate = (found || (o.discovers || o.late.any Condition.hasAggregate))

/-! ## The clauses -/

section

variable {table : TableId} {d d' : Draft} {s : Select} {items : List ProjectionItem}

theorem emitGroupBy_bucketing {keys : List Node} (h : emitGroupBy table keys d = (.ok (), d')) :
    ∃ b : Bucketing,
      (keys ≠ [] → ∃ atoms, b = .byValues atoms ∧
        List.Forall₂ (fun key a => Means d'.registry table key (.atom a)) keys atoms) ∧
      (keys = [] → b = if d.registry.hasAggregate then .single else .perElement) ∧
      Stage (NamedIn keys) (.group :: b.modifiers ++ [.unfold]) false d d' := by
  cases keys with
  | nil =>
    refine ⟨if d.registry.hasAggregate then .single else .perElement, fun hne => absurd rfl hne,
      fun _ => rfl, ?_⟩
    have hstage : Stage (NamedIn []) _ _ _ _ := emitGroupBy_nil h
    cases hagg : d.registry.hasAggregate with
    | true => simpa [hagg, Bucketing.modifiers] using hstage
    | false => simpa [hagg, Bucketing.modifiers] using hstage
  | cons key rest =>
    obtain ⟨atoms, hms, hstage⟩ := emitGroupBy_keys (List.cons_ne_nil key rest) h
    exact ⟨.byValues atoms, fun _ => ⟨atoms, rfl, hms⟩, nofun, hstage⟩

/-- What the clauses that are emitted twice mean, and whether they aggregate. -/
structure Discovered (table : TableId) (items : List ProjectionItem) (s : Select) (r : Registry)
    (meanings : List Meaning) (having : List Condition) (sorting : List (Meaning × Direction)) :
    Prop where
  listed : List.Forall₂ (fun item m => Means r table item.expr m) items meanings
  having : List.Forall₂ (States r table) s.having.toList having
  sorting : List.Forall₂ (SortsBy r table items) (keysOf s.orderBy) sorting

namespace Discovered

variable {r r' : Registry} {meanings meanings' : List Meaning} {having having' : List Condition}
  {sorting sorting' : List (Meaning × Direction)}

theorem grow (h : Discovered table items s r meanings having sorting) (hg : r.Grows r') :
    Discovered table items s r' meanings having sorting :=
  ⟨h.listed.imp fun _ _ hm => hm.grow hg, h.having.imp fun _ _ hp => hp.grow hg,
    h.sorting.imp fun _ _ hk => hk.grow hg⟩

theorem unique (h : Discovered table items s r meanings having sorting)
    (h' : Discovered table items s r meanings' having' sorting') :
    meanings = meanings' ∧ having = having' ∧ sorting = sorting' :=
  ⟨List.right_unique_forall₂' (fun _ _ _ hm hm' => hm.unique hm') h.listed h'.listed,
    List.right_unique_forall₂' (fun _ _ _ hp hp' => hp.unique hp') h.having h'.having,
    List.right_unique_forall₂' (fun _ _ _ hk hk' => hk.unique hk') h.sorting h'.sorting⟩

end Discovered

theorem emitDiscovery_discovered (h : emitDiscovery table items s d = (.ok (), d')) :
    ∃ meanings having sorting, Discovered table items s d'.registry meanings having sorting ∧
      d'.registry.hasAggregate = (d.registry.hasAggregate || (meanings.any Meaning.isAggregate ||
        (having.any Condition.hasAggregate || sorting.any fun k => k.1.isAggregate))) := by
  obtain ⟨_, d₁, h₁, hrest⟩ := Emit.bind_ok h
  obtain ⟨_, d₂, h₂, hlast⟩ := Emit.bind_ok hrest
  obtain ⟨meanings, hms, hitems⟩ := emitProjection_stage h₁
  obtain ⟨having, hhaving⟩ := emitHavingClause_filters h₂
  obtain ⟨sorting, hkeys, hsorting⟩ := emitOrderBy_stage hlast
  refine ⟨meanings, having, sorting, ⟨?_, ?_, hkeys⟩, ?_⟩
  · have hg := hhaving.learns.toGrows.trans hsorting.learns.toGrows
    exact hms.imp fun _ _ hm => hm.grow hg
  · exact hhaving.states.imp fun _ _ hp => hp.grow hsorting.learns.toGrows
  · rw [hsorting.hasAggregate, hhaving.hasAggregate, hitems.hasAggregate, Bool.or_assoc,
      Bool.or_assoc]

/-- Items with their meanings, as one list of named meanings. -/
theorem exists_namedMeanings {r : Registry} {meanings : List Meaning}
    (h : List.Forall₂ (fun item m => Means r table item.expr m) items meanings) :
    ∃ columns : List (String × Meaning), columns.map Prod.fst = items.map ProjectionItem.name ∧
      columns.map Prod.snd = meanings ∧
      List.Forall₂ (fun item c => item.name = c.1 ∧ Means r table item.expr c.2) items columns := by
  induction h with
  | nil => exact ⟨[], rfl, rfl, .nil⟩
  | @cons item m _ _ hm _ ih =>
    obtain ⟨columns, hnames, rfl, hcolumns⟩ := ih
    exact ⟨(item.name, m) :: columns, by rw [List.map_cons, List.map_cons, hnames], rfl,
      .cons ⟨rfl, hm⟩ hcolumns⟩

end

/-! ## The query -/

section

variable {schema : Schema} {placement : FilterPlacement} {s : Select} {q : CompiledQuery}

/-- The stages of a select write the steps of an outline. -/
theorem StageDrafts.outline {items : List ProjectionItem} {registered : RegisteredTable}
    {r : Registry} {d' : Draft}
    (h : StageDrafts 0 items s placement ⟨r, sourceSteps registered⟩ d') :
    ∃ o : Outline, d'.steps = o.steps ∧ r.Grows d'.registry ∧
      Outlines placement s items r.hasAggregate d'.registry o := by
  obtain ⟨early, hearly⟩ := emitPlaced_filters h.placedFirst
  obtain ⟨b, hkeys, hnoKeys, hgroup⟩ := emitGroupBy_bucketing h.groups
  obtain ⟨sorting, hsorts, hsorting⟩ := emitOrderBy_stage h.orders
  obtain ⟨having, hhaving⟩ := emitHavingClause_filters h.having
  obtain ⟨late, hlate⟩ := emitPlaced_filters h.placedLast
  obtain ⟨meanings, hms, hprojects⟩ := emitProjection_stage h.projects
  obtain ⟨_, -, -, hrecords⟩ : ∃ _, _ ∧ _ ∧ Stage (NamedIn []) _ _ _ _ :=
    recordProjection_stage h.records
  obtain ⟨columns, hnames, rfl, hcolumns⟩ := exists_namedMeanings hms
  -- From each draft the registry grows to the last one, in which everything is stated.
  have hprojected : h.projected.registry.Grows d'.registry := hrecords.learns.toGrows
  have hkeptAgain := hprojects.learns.toGrows.trans hprojected
  have hkept := hlate.learns.toGrows.trans hkeptAgain
  have hordered := hhaving.learns.toGrows.trans hkept
  have hgrouped := hsorting.learns.toGrows.trans hordered
  have hfiltered := hgroup.learns.toGrows.trans hgrouped
  have hearlyPlain := hearly.element rfl
  have hfound : h.filtered.registry.hasAggregate = r.hasAggregate := by
    rw [hearly.hasAggregate, hearlyPlain, Bool.or_false]
  refine ⟨⟨registered, early, b, sorting, having, late, columns⟩, ?_,
    hearly.learns.toGrows.trans hfiltered, ?_⟩
  · rw [hrecords.steps, hprojects.steps, hlate.steps, hhaving.steps, hsorting.steps,
      hgroup.steps, hearly.steps, ← hnames]
    simp [Outline.steps, Outline.elementSteps, Outline.bucketSteps, Outline.projection,
      FilterPlacement.scope]
  · exact {
      early := hearly.states.imp fun _ _ hp => hp.grow hfiltered
      earlyPlain := hearlyPlain
      keys := fun hne => by
        obtain ⟨atoms, hb, hatoms⟩ := hkeys hne
        exact ⟨atoms, hb, hatoms.imp fun _ _ hm => hm.grow hgrouped⟩
      noKeys := fun hnil => by rw [hnoKeys hnil, hfound]
      sorting := hsorts.imp fun _ _ hk => hk.grow hordered
      having := hhaving.states.imp fun _ _ hp => hp.grow hkept
      late := hlate.states.imp fun _ _ hp => hp.grow hkeptAgain
      columns := hcolumns.imp fun _ _ hc => ⟨hc.1, hc.2.grow hprojected⟩
      aggregate := by
        rw [hrecords.hasAggregate, hprojects.hasAggregate, hlate.hasAggregate,
          hhaving.hasAggregate, hsorting.hasAggregate, hgroup.hasAggregate, hfound, List.any_map]
        simp only [Outline.discovers, Bool.or_false, Function.comp_def]
        ac_rfl }

/-- All that a compiled select knows in the end is named in its trees. -/
theorem CompileRun.learns (run : CompileRun schema placement s q) :
    (Registry.reading schema run.table run.source.name).Learns (NamedIn (s.trees run.items))
      q.registry := by
  obtain ⟨_, _, hdiscovery⟩ := emitDiscovery_stage run.discovers
  obtain ⟨drafts⟩ := emitStages_drafts run.emits
  obtain ⟨_, _, hplaced⟩ : AnyStage (s.trees run.items) _ _ := emitPlaced_stage drafts.placedFirst
  obtain ⟨_, -, -, hgroup⟩ := emitGroupBy_bucketing drafts.groups
  have hgroups : Stage (NamedIn (s.trees run.items)) _ _ _ _ :=
    hgroup.mono_trees fun n hn => by simp [Select.trees, hn]
  obtain ⟨_, _, hafter⟩ := drafts.afterGrouping
  obtain ⟨_, -, -, hrecords⟩ : ∃ _, _ ∧ _ ∧ Stage (NamedIn (s.trees run.items)) _ _ _ _ :=
    recordProjection_stage drafts.records
  rw [run.registry]
  exact hdiscovery.learns.trans (hplaced.learns.trans (hgroups.learns.trans
    (hafter.learns.trans hrecords.learns)))

/-- **A compiled select has an outline.** What is known of aggregates when it is grouped is what the
select list, HAVING and ORDER BY hold of them. -/
theorem CompileRun.outline (run : CompileRun schema placement s q) :
    ∃ o : Outline, q.traversal = .root o.steps ∧
      Outlines placement s run.items o.discovers q.registry o := by
  obtain ⟨drafts⟩ := emitStages_drafts run.emits
  obtain ⟨o, hsteps, hgrows, ho⟩ := drafts.outline
  obtain ⟨_, _, _, hdiscovered, hfound⟩ := emitDiscovery_discovered run.discovers
  have hagain : Discovered 0 run.items s run.final.registry (o.columns.map Prod.snd) o.having
      o.sorting := ⟨?_, ho.having, ho.sorting⟩
  · obtain ⟨rfl, rfl, rfl⟩ := hagain.unique (hdiscovered.grow hgrows)
    rw [List.any_map] at hfound
    have hdiscovers : run.discovered.registry.hasAggregate = o.discovers := hfound
    refine ⟨o, by rw [run.traversal, hsteps], ?_⟩
    rw [run.registry, ← hdiscovers]
    exact ho
  · rw [List.forall₂_map_right_iff]
    exact ho.columns.imp fun _ _ hc => hc.2

end

end GraphSelect
