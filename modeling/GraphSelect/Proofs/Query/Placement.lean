import GraphSelect.Proofs.Expr.Coverage
import GraphSelect.Proofs.Query.Buckets
import GraphSelect.Proofs.Query.Phases
import Mathlib

/-!
# Placing a filter moves nothing else

Where WHERE stands decides when its names become known: before the grouping, or after all that
follows it. That no other clause is touched by this rests on the first phase. Once it has gone
through the select list, HAVING and ORDER BY, the registry is `Informed`: it has their names and all
names inside of them, and it knows whether they aggregate. On an informed registry each of these
clauses, and GROUP BY as well, succeeds without a trace. So in either placement WHERE is emitted on
the registry of the first phase, and everything after it finds the registry that WHERE has left.
-/

set_option autoImplicit false

namespace GraphSelect

open Sql

/-! ## The names of the clauses -/

/-- The expressions that sort keys sort by. -/
def sortExprs (items : List ProjectionItem) (keys : List Node) : List Node :=
  keys.filterMap fun key => match sortKey items key with
    | .ok (expr, _) => some expr
    | .error _ => none

section

variable {table : TableId} {items : List ProjectionItem} {s : Select} {placement : FilterPlacement}
  {d d' : Draft}

theorem emitFilterStep_settles {scope : Scope} {n : Node}
    (h : emitFilterStep table scope n d = (.ok (), d')) : Settles [n] d d' := by
  obtain ⟨_, d₁, h₁, hlast⟩ := Emit.bind_ok h
  obtain ⟨inner, hinner, -, rfl⟩ := Emit.branch_ok h₁
  have hfilter : Settles [n] d ⟨inner.registry, d.steps⟩ :=
    (emitFilter_settles hinner).steps_left.steps_right
  exact hfilter.trans (.append hlast)

theorem emitHavingClause_settles (h : emitHavingClause table s d = (.ok (), d')) :
    Settles s.having.toList d d' := by
  unfold emitHavingClause at h
  cases hhaving : s.having with
  | none =>
    simp only [hhaving] at h
    obtain ⟨-, rfl⟩ := Emit.pure_ok h
    exact .refl d'
  | some having =>
    simp only [hhaving] at h
    exact emitFilterStep_settles (emitHaving_ok h)

theorem emitItems_settles (h : emitItems table items d = (.ok (), d')) :
    Settles (items.map ProjectionItem.expr) d d' := by
  induction items generalizing d with
  | nil =>
    obtain ⟨-, rfl⟩ := Emit.pure_ok h
    exact .refl d'
  | cons item rest ih =>
    obtain ⟨t, d₁, h₁, hrest⟩ := Emit.bind_ok h
    obtain ⟨_, d₂, h₂, hlast⟩ := Emit.bind_ok hrest
    have hitem := (emitValue_branch_settles h₁).trans (.append h₂)
    exact hitem.trans (ih hlast)

theorem emitProjection_settles (h : emitProjection table items d = (.ok (), d')) :
    Settles (items.map ProjectionItem.expr) d d' := by
  obtain ⟨_, d₁, h₁, hlast⟩ := Emit.bind_ok h
  exact (Settles.append h₁).trans (emitItems_settles hlast)

theorem emitSortKeys_settles {keys : List Node}
    (h : emitSortKeys table items keys d = (.ok (), d')) :
    Settles (sortExprs items keys) d d' := by
  induction keys generalizing d with
  | nil =>
    obtain ⟨-, rfl⟩ := Emit.pure_ok h
    exact .refl d'
  | cons key rest ih =>
    obtain ⟨expr, direction, t, d₁, d₂, hkey, -, h₁, h₂, hlast⟩ := emitSortKeys_cons_ok h
    have hexprs : sortExprs items (key :: rest) = expr :: sortExprs items rest := by
      simp [sortExprs, hkey]
    rw [hexprs]
    have hvalue := (emitValue_branch_settles h₁).trans (.append h₂)
    exact hvalue.trans (ih hlast)

theorem emitOrderBy_settles {keys : List Node}
    (h : emitOrderBy table items keys d = (.ok (), d')) :
    Settles (sortExprs items keys) d d' := by
  obtain ⟨_, d₁, h₁, hlast⟩ := Emit.bind_ok h
  have horder : Settles [] d d₁ := .append h₁
  cases keys with
  | nil => exact horder.trans (.append hlast)
  | cons key rest => exact horder.trans (emitSortKeys_settles hlast)

/-- A key is a name, and so there are no names in it. -/
theorem emitGroupKey_settles {key : Node} {t : Traversal}
    (h : emitGroupKey table key d = (.ok t, d')) : Settles [] d d' := by
  obtain ⟨view, d₁, h₁, hrest⟩ := Emit.bind_ok h
  obtain ⟨hview, rfl⟩ := Emit.lift_ok h₁
  cases view with
  | identifier id =>
    obtain ⟨b, d₂, h₂, hlast⟩ := Emit.bind_ok hrest
    obtain ⟨-, rfl⟩ := Emit.ask_ok h₂
    split at hlast
    · exact absurd hlast Emit.not_fail
    · have hvalue := emitValue_branch_settles hlast
      refine ⟨hvalue.grows, by simp, hvalue.complete, fun hd _ => hvalue.still hd ?_⟩
      intro n hn
      rw [List.mem_singleton.1 hn]
      exact Registry.covers_identifier _ id
  | _ => exact absurd hrest Emit.not_fail

theorem emitGroupKeys_settles {keys : List Node} {branches : List Traversal}
    (h : emitGroupKeys table keys d = (.ok branches, d')) : Settles [] d d' := by
  induction keys generalizing d branches with
  | nil =>
    obtain ⟨-, rfl⟩ := Emit.pure_ok h
    exact .refl d'
  | cons key rest ih =>
    obtain ⟨t, d₁, h₁, hrest⟩ := Emit.bind_ok h
    obtain ⟨ts, d₂, h₂, hlast⟩ := Emit.bind_ok hrest
    obtain ⟨-, rfl⟩ := Emit.pure_ok hlast
    exact (emitGroupKey_settles h₁).trans (ih h₂)

theorem emitGroupBy_settles {keys : List Node} (h : emitGroupBy table keys d = (.ok (), d')) :
    Settles [] d d' := by
  cases keys with
  | nil =>
    obtain ⟨_, d₁, h₁, hrest⟩ := Emit.bind_ok h
    have hgroup : Settles [] d d₁ := .append h₁
    simp only [List.isEmpty_nil, ↓reduceIte] at hrest
    obtain ⟨r, d₂, h₂, hlast⟩ := Emit.bind_ok hrest
    obtain ⟨rfl, rfl⟩ := Emit.registry_ok h₂
    cases hagg : d₂.registry.hasAggregate with
    | true =>
      simp only [hagg, ↓reduceIte] at hlast
      obtain ⟨_, d₃, h₃, hend⟩ := Emit.bind_ok hlast
      exact (hgroup.trans (.append h₃)).trans (.append hend)
    | false =>
      simp only [hagg, Bool.false_eq_true, ↓reduceIte] at hlast
      exact hgroup.trans (.append hlast)
  | cons key rest =>
    obtain ⟨_, d₁, h₁, hrest₁⟩ := Emit.bind_ok h
    obtain ⟨branches, d₂, h₂, hrest₂⟩ := Emit.bind_ok hrest₁
    obtain ⟨_, d₃, h₃, hlast⟩ := Emit.bind_ok hrest₂
    have hgroup : Settles [] d d₁ := .append h₁
    exact ((hgroup.trans (emitGroupKeys_settles h₂)).trans (.append h₃)).trans (.append hlast)

/-- A WHERE filter that stands elsewhere is not emitted. -/
theorem emitPlaced_elsewhere {here : FilterPlacement} (hne : placement ≠ here)
    (h : emitPlaced table s placement here d = (.ok (), d')) : d' = d := by
  unfold emitPlaced at h
  cases hfilter : s.filter with
  | none =>
    simp only [hfilter] at h
    exact (Emit.pure_ok h).2
  | some filter =>
    simp only [hfilter, hne, ↓reduceIte] at h
    exact (Emit.pure_ok h).2

theorem emitPlaced_settles {here : FilterPlacement}
    (h : emitPlaced table s placement here d = (.ok (), d')) :
    Settles (s.filterAt placement here) d d' := by
  unfold emitPlaced at h
  unfold Select.filterAt
  cases hfilter : s.filter with
  | none =>
    simp only [hfilter] at h
    obtain ⟨-, rfl⟩ := Emit.pure_ok h
    simpa using Settles.refl d'
  | some filter =>
    simp only [hfilter] at h
    by_cases hhere : placement = here
    · rw [if_pos hhere] at h ⊢
      exact emitFilterStep_settles (emitWhere_ok h)
    · rw [if_neg hhere] at h ⊢
      obtain ⟨-, rfl⟩ := Emit.pure_ok h
      exact .refl d'

end

/-! ## Informed registries -/

/-- The trees that are emitted twice. -/
def Sql.Select.repeated (s : Select) (items : List ProjectionItem) : List Node :=
  items.map ProjectionItem.expr ++ s.having.toList ++ sortExprs items (keysOf s.orderBy)

/-- Nothing is left to be learnt from the clauses that are emitted twice. -/
structure Informed (table : TableId) (items : List ProjectionItem) (s : Select) (r : Registry) :
    Prop where
  complete : r.Complete
  covers : ∀ n ∈ s.repeated items, r.Covers n
  -- What the clauses mean, and that an aggregate among it has been noted.
  noted : ∃ meanings having sorting, Discovered table items s r meanings having sorting ∧
    ((meanings.any Meaning.isAggregate || (having.any Condition.hasAggregate ||
      sorting.any fun k => k.1.isAggregate)) = true → r.hasAggregate = true)

section

variable {table : TableId} {items : List ProjectionItem} {s : Select} {placement : FilterPlacement}
  {d d' : Draft}

/-- **The first phase leaves an informed registry.** -/
theorem emitDiscovery_informed (h : emitDiscovery table items s d = (.ok (), d'))
    (hd : d.registry.Complete) : Informed table items s d'.registry := by
  obtain ⟨meanings, having, sorting, hdiscovered, hagg⟩ := emitDiscovery_discovered h
  obtain ⟨_, d₁, h₁, hrest⟩ := Emit.bind_ok h
  obtain ⟨_, d₂, h₂, hlast⟩ := Emit.bind_ok hrest
  have hsettles : Settles (s.repeated items) d d' :=
    ((emitProjection_settles h₁).trans (emitHavingClause_settles h₂)).trans
      (emitOrderBy_settles hlast)
  refine ⟨hsettles.complete hd, hsettles.covers, meanings, having, sorting, hdiscovered, ?_⟩
  intro hany
  rw [hagg, hany, Bool.or_true]

/-- A WHERE filter keeps a registry informed. -/
theorem Informed.placed {here : FilterPlacement} (hs : Informed table items s d.registry)
    (h : emitPlaced table s placement here d = (.ok (), d')) :
    Informed table items s d'.registry := by
  have hsettles := emitPlaced_settles h
  have hknows := emitPlaced_knows h
  obtain ⟨meanings, having, sorting, hdiscovered, hnoted⟩ := hs.noted
  exact ⟨hsettles.complete hs.complete, fun n hn => (hs.covers n hn).grow hsettles.grows,
    meanings, having, sorting, hdiscovered.grow hsettles.grows,
    fun hany => hknows.aggregate (hnoted hany)⟩

/-- What is found to aggregate was noted before, so that nothing is new. -/
theorem hasAggregate_of_noted {r r' : Registry} {found : Bool}
    (h : r'.hasAggregate = (r.hasAggregate || found)) (hf : found = true → r.hasAggregate = true) :
    r'.hasAggregate = r.hasAggregate := by
  rw [h]
  cases found with
  | false => exact Bool.or_false _
  | true => rw [hf rfl, Bool.or_true]

theorem Informed.group {keys : List Node} (hs : Informed table items s d.registry)
    (h : emitGroupBy table keys d = (.ok (), d')) : d'.registry = d.registry := by
  obtain ⟨_, -, -, hgroup⟩ := emitGroupBy_bucketing h
  refine ((emitGroupBy_settles h).still hs.complete (by simp)).eq ?_
  rw [hgroup.hasAggregate, Bool.or_false]

theorem Informed.order (hs : Informed table items s d.registry)
    (h : emitOrderBy table items (keysOf s.orderBy) d = (.ok (), d')) :
    d'.registry = d.registry := by
  obtain ⟨meanings, having, sorting, hdiscovered, hnoted⟩ := hs.noted
  obtain ⟨sorting', hsorts, hstage⟩ := emitOrderBy_stage h
  have hcovers : ∀ n ∈ sortExprs items (keysOf s.orderBy), d.registry.Covers n :=
    fun n hn => hs.covers n (by simp [Select.repeated, hn])
  refine ((emitOrderBy_settles h).still hs.complete hcovers).eq ?_
  refine hasAggregate_of_noted hstage.hasAggregate fun hany => hnoted ?_
  have hsame := List.right_unique_forall₂' (fun _ _ _ hk hk' => hk.unique hk')
    (hdiscovered.grow hstage.learns.toGrows).sorting hsorts
  rw [hsame, hany, Bool.or_true, Bool.or_true]

theorem Informed.filter (hs : Informed table items s d.registry)
    (h : emitHavingClause table s d = (.ok (), d')) : d'.registry = d.registry := by
  obtain ⟨meanings, having, sorting, hdiscovered, hnoted⟩ := hs.noted
  obtain ⟨having', hfilters⟩ := emitHavingClause_filters h
  have hcovers : ∀ n ∈ s.having.toList, d.registry.Covers n :=
    fun n hn => hs.covers n (List.mem_append_left _ (List.mem_append_right _ hn))
  refine ((emitHavingClause_settles h).still hs.complete hcovers).eq ?_
  refine hasAggregate_of_noted hfilters.hasAggregate fun hany => hnoted ?_
  have hsame := List.right_unique_forall₂' (fun _ _ _ hp hp' => hp.unique hp')
    (hdiscovered.grow hfilters.learns.toGrows).having hfilters.states
  rw [hsame, hany, Bool.true_or, Bool.or_true]

theorem Informed.project (hs : Informed table items s d.registry)
    (h : emitProjection table items d = (.ok (), d')) : d'.registry = d.registry := by
  obtain ⟨meanings, having, sorting, hdiscovered, hnoted⟩ := hs.noted
  obtain ⟨meanings', hms, hstage⟩ := emitProjection_stage h
  have hcovers : ∀ n ∈ items.map ProjectionItem.expr, d.registry.Covers n :=
    fun n hn => hs.covers n (List.mem_append_left _ (List.mem_append_left _ hn))
  refine ((emitProjection_settles h).still hs.complete hcovers).eq ?_
  refine hasAggregate_of_noted hstage.hasAggregate fun hany => hnoted ?_
  have hsame := List.right_unique_forall₂' (fun _ _ _ hm hm' => hm.unique hm')
    (hdiscovered.grow hstage.learns.toGrows).listed hms
  rw [hsame, hany, Bool.true_or]

namespace StageDrafts

/-- From WHERE before the grouping up to HAVING nothing is learnt. -/
theorem kept_registry (h : StageDrafts table items s placement d d')
    (hs : Informed table items s d.registry) : h.kept.registry = h.filtered.registry := by
  have hfiltered : Informed table items s h.filtered.registry := hs.placed h.placedFirst
  have hgrouped : h.grouped.registry = h.filtered.registry := hfiltered.group h.groups
  rw [← hgrouped] at hfiltered ⊢
  have hordered : h.ordered.registry = h.grouped.registry :=
    Informed.order (d := ⟨_, h.grouped.steps ++ [.selectValues]⟩) hfiltered h.orders
  rw [← hordered] at hfiltered ⊢
  exact hfiltered.filter h.having

/-- The projection finds an informed registry. -/
theorem keptAgain_informed (h : StageDrafts table items s placement d d')
    (hs : Informed table items s d.registry) : Informed table items s h.keptAgain.registry := by
  have hkept : Informed table items s h.kept.registry := by
    rw [h.kept_registry hs]
    exact hs.placed h.placedFirst
  exact hkept.placed h.placedLast

/-- After WHERE, in either place, nothing is learnt. -/
theorem projected_registry (h : StageDrafts table items s placement d d')
    (hs : Informed table items s d.registry) : h.projected.registry = h.keptAgain.registry :=
  (h.keptAgain_informed hs).project h.projects

end StageDrafts

end

/-! ## The two placements -/

section

variable {table : TableId} {items : List ProjectionItem} {s : Select} {r : Registry}
  {early late d d' : Draft}

/-- Emitted on the same registry, WHERE establishes the same in both places. -/
theorem emitPlaced_same
    (h : emitPlaced table s .beforeGrouping .beforeGrouping ⟨r, d.steps⟩ = (.ok (), early))
    (h' : emitPlaced table s .afterHaving .afterHaving ⟨r, d'.steps⟩ = (.ok (), late)) :
    late.registry = early.registry := by
  unfold emitPlaced at h h'
  cases hfilter : s.filter with
  | none =>
    simp only [hfilter] at h h'
    obtain ⟨-, rfl⟩ := Emit.pure_ok h
    obtain ⟨-, rfl⟩ := Emit.pure_ok h'
    rfl
  | some filter =>
    simp only [hfilter, ↓reduceIte] at h h'
    obtain ⟨_, steps, hagain⟩ := emitWhere_follows filter d'.steps h
    cases hagain.symm.trans h'
    rfl

/-- The columns are worked out from the registry. -/
theorem recordProjection_same {d₁ d₁' : Draft}
    (h : recordProjection table items d = (.ok (), d₁))
    (h' : recordProjection table items d' = (.ok (), d₁')) (heq : d'.registry = d.registry) :
    d₁'.registry = d₁.registry := by
  obtain ⟨columns, hcolumns, -, -, rfl⟩ := recordProjection_ok h
  obtain ⟨columns', hcolumns', -, -, rfl⟩ := recordProjection_ok h'
  rw [heq] at hcolumns'
  cases hcolumns.symm.trans hcolumns'
  simp only [heq]

/-- The stages of a select end with one registry, wherever WHERE stands. -/
theorem StageDrafts.same_registry {d₀ : Draft}
    (h : StageDrafts table items s .beforeGrouping d₀ d)
    (h' : StageDrafts table items s .afterHaving d₀ d') (hs : Informed table items s d₀.registry) :
    d'.registry = d.registry := by
  have hearly : h.keptAgain = h.kept := emitPlaced_elsewhere (by decide) h.placedLast
  have hlate : h'.filtered = d₀ := emitPlaced_elsewhere (by decide) h'.placedFirst
  have hkept' : h'.kept.registry = d₀.registry := by rw [h'.kept_registry hs, hlate]
  have hplaced : emitPlaced table s .afterHaving .afterHaving ⟨d₀.registry, h'.kept.steps⟩ =
      (.ok (), h'.keptAgain) := by
    rw [← hkept']
    exact h'.placedLast
  have hprojected : h'.projected.registry = h.projected.registry := by
    rw [h'.projected_registry hs, h.projected_registry hs, hearly, h.kept_registry hs]
    exact emitPlaced_same h.placedFirst hplaced
  exact recordProjection_same h.records h'.records hprojected

end

section

variable {schema : Schema} {s : Select} {q q' : CompiledQuery}

/-- Stages only add to the steps that stand before them. -/
theorem StageDrafts.steps_extend {table : TableId} {items : List ProjectionItem}
    {placement : FilterPlacement} {d d' : Draft}
    (h : StageDrafts table items s placement d d') : ∃ added, d'.steps = d.steps ++ added := by
  obtain ⟨_, hfirst⟩ := emitPlaced_filters h.placedFirst
  obtain ⟨_, -, -, hgroup⟩ := emitGroupBy_bucketing h.groups
  obtain ⟨_, _, hrest⟩ := h.afterGrouping
  obtain ⟨_, -, -, hrecords⟩ : ∃ _, _ ∧ _ ∧ Stage (NamedIn []) _ _ _ _ :=
    recordProjection_stage h.records
  rw [hrecords.steps, hrest.steps, hgroup.steps, hfirst.steps]
  simp only [List.append_assoc]
  exact ⟨_, rfl⟩

/-- Right after the FROM clause there is nothing to be complete about. -/
theorem complete_reading {t : Table} {name : String} :
    (Registry.reading schema t name).Complete := by
  intro _ _ hb
  cases hb

/-- The table that a run reads, as it was registered. -/
def CompileRun.registered {placement : FilterPlacement} (run : CompileRun schema placement s q) :
    RegisteredTable :=
  run.table.registeredAs 0 run.source.name

/-- Two runs of the same select share their source, their items and the first phase. -/
theorem CompileRun.shared {placement placement' : FilterPlacement}
    (run : CompileRun schema placement s q) (run' : CompileRun schema placement' s q') :
    run'.registered = run.registered ∧ run'.items = run.items ∧
      run'.discovered = run.discovered := by
  obtain ⟨source, table, items, discovered, -, hreads, hfound, hlists, hdiscovers, -, -, -, -⟩ := run
  obtain ⟨source', table', items', discovered', -, hreads', hfound', hlists', hdiscovers', -, -, -,
    -⟩ := run'
  cases hreads.symm.trans hreads'
  cases hfound.symm.trans hfound'
  cases hlists.symm.trans hlists'
  cases hdiscovers.symm.trans hdiscovers'
  exact ⟨rfl, rfl, rfl⟩

/-- The steps of a run start with those of its source. -/
theorem CompileRun.source_eq {placement : FilterPlacement}
    (run : CompileRun schema placement s q) {o : Outline} (ho : q.traversal = .root o.steps) :
    sourceSteps o.source = sourceSteps run.registered := by
  obtain ⟨drafts⟩ := emitStages_drafts run.emits
  obtain ⟨_, hsteps⟩ := drafts.steps_extend
  have htraversal := run.traversal
  rw [ho, hsteps] at htraversal
  simp only [Traversal.root, Traversal.mk.injEq, true_and, Outline.steps, Outline.elementSteps,
    List.append_assoc] at htraversal
  exact List.append_inj_left htraversal (by simp [sourceSteps])

/-- Items have one meaning each. -/
theorem Outlines.columns_eq {placement placement' : FilterPlacement} {s' : Select}
    {items : List ProjectionItem} {found found' : Bool} {r : Registry} {o o' : Outline}
    (h : Outlines placement s items found r o) (h' : Outlines placement' s' items found' r o') :
    o'.columns = o.columns := by
  refine List.right_unique_forall₂' ?_ h'.columns h.columns
  intro item c c' hc hc'
  exact Prod.ext (hc.1.symm.trans hc'.1) (hc.2.unique hc'.2)

/-- How elements are put into buckets depends on GROUP BY and on what is known of aggregates. -/
theorem Outlines.bucketing_eq {placement placement' : FilterPlacement} {s' : Select}
    {items : List ProjectionItem} {found : Bool} {r : Registry} {o o' : Outline}
    (h : Outlines placement s items found r o) (h' : Outlines placement' s' items found r o')
    (hgroup : s'.groupBy = s.groupBy) : o'.bucketing = o.bucketing := by
  by_cases hkeys : keysOf s.groupBy = []
  · rw [h.noKeys hkeys, h'.noKeys (by rwa [hgroup])]
  · obtain ⟨atoms, hb, hatoms⟩ := h.keys hkeys
    obtain ⟨atoms', hb', hatoms'⟩ := h'.keys (by rwa [hgroup])
    rw [hgroup] at hatoms'
    have hsame : atoms' = atoms := by
      refine List.right_unique_forall₂' ?_ hatoms' hatoms
      intro key a a' ha ha'
      exact Meaning.atom.inj (ha.unique ha')
    rw [hb, hb', hsame]

/-- What WHERE states, the two runs of a select share with all other clauses. -/
theorem Outlines.same {items : List ProjectionItem} {r : Registry} {o o' : Outline}
    (h : Outlines .beforeGrouping s items o.discovers r o)
    (h' : Outlines .afterHaving s items o'.discovers r o') :
    List.Forall₂ (States r 0) s.filter.toList o.early ∧ o.late = [] ∧ o'.early = [] ∧
      o'.late = o.early ∧ o'.bucketing = o.bucketing ∧ o'.bucketSteps = o.bucketSteps ∧
      o'.projection = o.projection := by
  have hearly : List.Forall₂ (States r 0) s.filter.toList o.early := h.early
  have hlate : List.Forall₂ (States r 0) s.filter.toList o'.late := h'.late
  have hsorting : o'.sorting = o.sorting :=
    List.right_unique_forall₂' (fun _ _ _ hk hk' => hk.unique hk') h'.sorting h.sorting
  have hhaving : o'.having = o.having :=
    List.right_unique_forall₂' (fun _ _ _ hp hp' => hp.unique hp') h'.having h.having
  have hcolumns : o'.columns = o.columns := h.columns_eq h'
  have hfound : o'.discovers = o.discovers := by
    rw [Outline.discovers, Outline.discovers, hsorting, hhaving, hcolumns]
  refine ⟨hearly, List.forall₂_nil_left_iff.1 h.late, List.forall₂_nil_left_iff.1 h'.early,
    List.right_unique_forall₂' (fun _ _ _ hp hp' => hp.unique hp') hlate hearly, ?_, ?_, ?_⟩
  · rw [hfound] at h'
    exact h.bucketing_eq h' rfl
  · rw [Outline.bucketSteps, Outline.bucketSteps, hsorting, hhaving]
  · rw [Outline.projection, Outline.projection, hcolumns]

/-- **Placing WHERE only moves its filter.** If a select compiles in both placements, the two
queries have the same columns, and all that is known about them is the same. Their steps differ in
one place each. Let `conditions` hold the condition that WHERE states, or nothing if there is no
WHERE. Then the one query has a filter for it right after the label and the other one right before
the projection, and without these filters the steps are the same. -/
theorem placement_only_moves_filter (h : compile schema .beforeGrouping s = .ok q)
    (h' : compile schema .afterHaving s = .ok q') :
    q.columns = q'.columns ∧ q.registry = q'.registry ∧
    ∃ (source : RegisteredTable) (middle : List Step) (names : List String) (modifiers : List Step)
      (conditions : List Condition),
      List.Forall₂ (States q.registry 0) s.filter.toList conditions ∧
      q.traversal = .root (sourceSteps source ++ (filterSteps .element conditions ++
        (middle ++ .project names :: modifiers))) ∧
      q'.traversal = .root (sourceSteps source ++ (middle ++ (filterSteps .bucket conditions ++
        .project names :: modifiers))) := by
  obtain ⟨run⟩ := compile_run h
  obtain ⟨run'⟩ := compile_run h'
  obtain ⟨hsource, hitems, hdiscovered⟩ := run.shared run'
  have hinformed : Informed 0 run.items s run.discovered.registry :=
    emitDiscovery_informed run.discovers complete_reading
  obtain ⟨drafts⟩ := emitStages_drafts run.emits
  obtain ⟨drafts'⟩ : Nonempty (StageDrafts 0 run.items s .afterHaving
      ⟨run.discovered.registry, sourceSteps run.registered⟩ run'.final) := by
    apply emitStages_drafts
    rw [← hsource, ← hitems, ← hdiscovered]
    exact run'.emits
  have hregistry : q'.registry = q.registry := by
    rw [run.registry, run'.registry]
    exact drafts.same_registry drafts' hinformed
  obtain ⟨o, ho, houtlines⟩ := run.outline
  obtain ⟨o', ho', houtlines'⟩ := run'.outline
  rw [hitems, hregistry] at houtlines'
  obtain ⟨hstates, hlate, hearly', hlate', hbucketing, hbuckets, hprojection⟩ :=
    houtlines.same houtlines'
  have hsteps : sourceSteps o'.source = sourceSteps o.source := by
    rw [run.source_eq ho, run'.source_eq ho', hsource]
  refine ⟨?_, hregistry.symm, ?_⟩
  · have hreturns := run.returns
    have hreturns' := run'.returns
    rw [← run.registry] at hreturns
    rw [← run'.registry, hregistry] at hreturns'
    exact Except.ok.inj (hreturns.symm.trans hreturns')
  · refine ⟨o.source,
      .group :: (o.bucketing.modifiers ++ .unfold :: .selectValues :: o.bucketSteps),
      o.columns.map Prod.fst, itemModifiers (o.columns.map Prod.snd), o.early, hstates, ?_, ?_⟩
    · rw [ho]
      simp [Outline.steps, Outline.elementSteps, Outline.projection, hlate, filterSteps]
    · rw [ho', Outline.steps, Outline.elementSteps, hsteps, hprojection, hearly', hlate',
        hbucketing, hbuckets]
      simp [Outline.projection, filterSteps]

end

theorem compile_largeDepartments (placement : FilterPlacement) (bound : Float) :
    (compile agedStaffSchema placement (largeDepartments bound)).map CompiledQuery.columnNames =
      .ok ["d", "c"] := by
  cases placement with
  | beforeGrouping => cbv
  | afterHaving => cbv

/-- Large departments: the same filter, of elements in the one query and of buckets in the other. -/
theorem placement_only_moves_filter_largeDepartments :
    ∃ q q' : CompiledQuery,
      compile agedStaffSchema .beforeGrouping (largeDepartments 1.5) = .ok q ∧
      compile agedStaffSchema .afterHaving (largeDepartments 1.5) = .ok q' ∧
      q.columns = q'.columns ∧
      ∃ (source : RegisteredTable) (middle : List Step) (names : List String)
        (modifiers : List Step) (p : Condition),
        q.traversal = .root (sourceSteps source ++ .filter (.anonymous (p.steps .element)) ::
          (middle ++ .project names :: modifiers)) ∧
        q'.traversal = .root (sourceSteps source ++ (middle ++
          .filter (.anonymous (p.steps .bucket)) :: .project names :: modifiers)) := by
  obtain ⟨q, hq, -⟩ := ok_of_map (compile_largeDepartments .beforeGrouping 1.5)
  obtain ⟨q', hq', -⟩ := ok_of_map (compile_largeDepartments .afterHaving 1.5)
  obtain ⟨hcolumns, -, source, middle, names, modifiers, conditions, hstates, hsteps, hsteps'⟩ :=
    placement_only_moves_filter hq hq'
  cases hstates with
  | @cons _ p _ _ _ hrest =>
    cases hrest
    exact ⟨q, q', hq, hq', hcolumns, source, middle, names, modifiers, p, hsteps, hsteps'⟩

end GraphSelect
