import GraphSelect.Proofs.Query.Refusals
import GraphSelect.Proofs.Query.SortKeys
import GraphSelect.Traversal.Groovy
import Mathlib

/-!
# Sorting by position and by alias

The position of an item and its name are two ways to sort by a column. Both tell the registry
nothing new, so the two queries go through the same registries and all their other clauses mean the
same. What is left is the sort key itself. The position sorts by what the column holds. The name
sorts by what it is bound to, and there is a gap: a name may be given more than once if the
expressions are equal, decimals being equal as numbers, and it stays bound to the first of them. Of
the two zeros a query can sort by the one where the column holds the other.

A position has to count an item. If it does not, and everything before it is accepted, the select is
refused for it.
-/

set_option autoImplicit false

namespace GraphSelect

open Sql

attribute [ext] CompiledQuery

/-! ## What both queries have learnt -/

section

variable {table : TableId} {items : List ProjectionItem} {s : Select} {placement : FilterPlacement}
  {d d' : Draft} {itemsBefore itemsAfter : List ProjectionItem} {item : ProjectionItem}
  {expr : Node} {given : String}

theorem emitPlaced_follows (here : FilterPlacement) :
    (emitPlaced table s placement here).Follows (emitPlaced table s placement here) := by
  unfold emitPlaced
  split
  · split
    · exact .bind (.lift _) fun _ _ => .bind (.branch_same _) fun _ _ => .append _ _
    · exact .lift (.ok ())
  · exact .lift (.ok ())

/-- With other sort keys that tell nothing new, the stages end with the same registry. -/
theorem StageDrafts.resorted_registry {keys keys' : List Node} {e e' : Draft}
    (h : StageDrafts table items (s.orderedBy keys) placement d e)
    (h' : StageDrafts table items (s.orderedBy keys') placement d e')
    (hs : Informed table items (s.orderedBy keys) d.registry)
    (hs' : Informed table items (s.orderedBy keys') d.registry) :
    e'.registry = e.registry := by
  have hplaced (here : FilterPlacement) : emitPlaced table (s.orderedBy keys) placement here =
      emitPlaced table (s.orderedBy keys') placement here := rfl
  have hfirst := h.placedFirst
  rw [hplaced] at hfirst
  have hfiltered : h'.filtered = h.filtered := congrArg Prod.snd (h'.placedFirst.symm.trans hfirst)
  have hlast := h.placedLast
  rw [hplaced] at hlast
  have hlast' : emitPlaced table (s.orderedBy keys') placement .afterHaving
      ⟨h.kept.registry, h'.kept.steps⟩ = (.ok (), h'.keptAgain) := by
    rw [h.kept_registry hs, ← hfiltered, ← h'.kept_registry hs']
    exact h'.placedLast
  have hprojected : h'.projected.registry = h.projected.registry := by
    rw [h.projected_registry hs, h'.projected_registry hs']
    exact (emitPlaced_follows _).registry_eq hlast hlast'
  exact recordProjection_same h.records h'.records hprojected

/-- When the projection is emitted for the second time, the name of an item is known, and stands for
something that is equal to the item's expression. -/
theorem Informed.bound_same (hs : Informed table (itemsBefore ++ item :: itemsAfter) s d.registry)
    (hitem : item.Gives expr given)
    (h : emitProjection table (itemsBefore ++ item :: itemsAfter) d = (.ok (), d')) :
    ∃ bound, d'.registry.binding? given = some bound ∧ bound.same expr = true := by
  have hsame := hs.project h
  obtain ⟨_, d₁, h₁, hlast⟩ := Emit.bind_ok h
  cases Emit.append_ok h₁
  obtain ⟨bound, hbound, hcases | ⟨-, hnone⟩⟩ := emitItems_naming hitem hlast
  · exact ⟨bound, hbound, hcases⟩
  · rw [hsame] at hbound
    cases hnone.symm.trans hbound

/-- After the first phase the name of an item is an alias, which the select list has given. -/
theorem emitDiscovery_alias {schema : Schema} {t : Table} {label name : String}
    (h : emitDiscovery 0 (itemsBefore ++ item :: itemsAfter) s ⟨.reading schema t name, []⟩ =
      (.ok (), d))
    (ht : schema.table? label = some t) (hitem : item.Gives expr given)
    (hcolumn : t.column? given = none) :
    ∃ bound, d.registry.HasAlias 0 given bound ∧ (bound.same expr = true ∨ bound = expr) ∧
      NamedIn ((itemsBefore ++ item :: itemsAfter).map ProjectionItem.expr) given bound := by
  obtain ⟨_, d₁, h₁, hrest⟩ := Emit.bind_ok h
  obtain ⟨_, d₂, h₂, hlast⟩ := Emit.bind_ok hrest
  have hgrows := ((emitHavingClause_settles h₂).trans (emitOrderBy_settles hlast)).grows
  obtain ⟨_, -, hstage⟩ := emitProjection_stage h₁
  obtain ⟨_, d₃, h₃, hitems⟩ := Emit.bind_ok h₁
  obtain ⟨bound, hbound, hcases⟩ := emitItems_naming hitem hitems
  have htable : d.registry.schemaTable 0 = .ok t :=
    (hstage.learns.toGrows.trans hgrows).schemaTable.trans (schemaTable_reading name ht)
  exact ⟨bound, ⟨⟨t, htable, hcolumn⟩, hgrows.binding hbound⟩, hcases.imp id And.left,
    hstage.learns.binds_namedIn binds_reading hbound⟩

end

section

variable {schema : Schema} {placement : FilterPlacement} {s : Select} {q q' : CompiledQuery}
  {source : SourceTable} {t : Table} {items itemsBefore itemsAfter : List ProjectionItem}
  {item : ProjectionItem} {expr : Node} {given : String} {position : Int64} {key key' : Node}
  {direction : Direction} {before after : List Node}

theorem CompileRun.reading (run : CompileRun schema placement s q)
    (hsource : SourceTable.ofClause s.source = .ok source)
    (htable : schema.table? source.label = some t)
    (hitems : projectionItems (.reading schema t source.name) 0 s.selectList = .ok items) :
    run.source = source ∧ run.table = t ∧ run.items = items := by
  obtain rfl : run.source = source := Except.ok.inj (run.reads.symm.trans hsource)
  obtain rfl : run.table = t := Option.some.inj (run.found.symm.trans htable)
  exact ⟨rfl, rfl, Except.ok.inj (run.lists.symm.trans hitems)⟩

/-- The first phase finds out the same by either key. -/
theorem emitDiscovery_same_registry {d d' : Draft} {label name : String}
    (h : emitDiscovery 0 (itemsBefore ++ item :: itemsAfter) (s.orderedBy (before ++ key :: after))
      ⟨.reading schema t name, []⟩ = (.ok (), d))
    (h' : emitDiscovery 0 (itemsBefore ++ item :: itemsAfter)
      (s.orderedBy (before ++ key' :: after)) ⟨.reading schema t name, []⟩ = (.ok (), d'))
    (htable : schema.table? label = some t) (hitem : item.Gives expr given)
    (hcolumn : t.column? given = none) (hposition : position.toInt = itemsBefore.length + 1)
    (hkey : Marked (.literal (.integer position)) key direction)
    (hkey' : Marked (.identifier ⟨[given]⟩) key' direction) : d'.registry = d.registry := by
  obtain ⟨d₁, hfirst⟩ := emitDiscovery_first h
  obtain ⟨steps, hrest⟩ := emitDiscovery_append (List.cons_ne_nil key after) hfirst
  obtain ⟨steps', hrest'⟩ := emitDiscovery_append (List.cons_ne_nil key' after) hfirst
  rw [hrest] at h
  rw [hrest'] at h'
  have hinformed := emitDiscovery_informed hfirst complete_reading
  obtain ⟨bound, halias, hbound, -⟩ := emitDiscovery_alias hfirst htable hitem hcolumn
  exact (hinformed.idle_position hitem hposition hkey).same_registry
    (hinformed.idle_name hitem halias hbound hkey') h h'

/-- The columns of a query are on record in its registry. -/
theorem CompileRun.columns_of_registry {s' : Select} (run : CompileRun schema placement s q)
    (run' : CompileRun schema placement s' q') (h : q'.registry = q.registry) :
    q'.columns = q.columns := by
  have hreturns := run.returns
  have hreturns' := run'.returns
  rw [← run.registry] at hreturns
  rw [← run'.registry, h] at hreturns'
  exact Except.ok.inj (hreturns'.symm.trans hreturns)

/-- In a compiled query the name of an item stands for an expression that the select list gives this
name to, and that is equal to the item's own. -/
theorem CompileRun.item_alias (run : CompileRun schema placement s q)
    (hitems : run.items = itemsBefore ++ item :: itemsAfter) (hitem : item.Gives expr given)
    (hcolumn : run.table.column? given = none) :
    ∃ bound, q.registry.HasAlias 0 given bound ∧
      NamedIn ((itemsBefore ++ item :: itemsAfter).map ProjectionItem.expr) given bound ∧
      bound.same expr = true := by
  have hdiscovers := run.discovers
  have hemits := run.emits
  rw [hitems] at hdiscovers hemits
  obtain ⟨drafts⟩ := emitStages_drafts hemits
  obtain ⟨bound, halias, -, hnamed⟩ := emitDiscovery_alias hdiscovers run.found hitem hcolumn
  have hstart : q.registry.HasAlias 0 given bound := by
    rw [run.registry]
    exact drafts.knows_start.toGrows.hasAlias halias
  have hinformed : Informed 0 (itemsBefore ++ item :: itemsAfter) s run.discovered.registry :=
    emitDiscovery_informed hdiscovers complete_reading
  obtain ⟨again, hagain, hsame⟩ :=
    (drafts.keptAgain_informed hinformed).bound_same hitem drafts.projects
  have hend : q.registry.binding? given = some again := by
    rw [run.registry]
    exact drafts.knows_projected.binding hagain
  cases hstart.2.symm.trans hend
  exact ⟨bound, hstart, hnamed, hsame⟩

/-- The two queries have learnt the same. -/
theorem CompileRun.resorted_registry
    (run : CompileRun schema placement (s.orderedBy (before ++ key :: after)) q)
    (run' : CompileRun schema placement (s.orderedBy (before ++ key' :: after)) q')
    (hsource : run'.source = run.source) (htable : run'.table = run.table)
    (hsame : run'.items = run.items) (hitems : run.items = itemsBefore ++ item :: itemsAfter)
    (hitem : item.Gives expr given) (hcolumn : run.table.column? given = none)
    (hposition : position.toInt = itemsBefore.length + 1)
    (hkey : Marked (.literal (.integer position)) key direction)
    (hkey' : Marked (.identifier ⟨[given]⟩) key' direction) : q'.registry = q.registry := by
  have hdiscovers := run.discovers
  have hdiscovers' := run'.discovers
  have hemits' := run'.emits
  rw [hsource, htable, hsame] at hdiscovers' hemits'
  have hinformed := emitDiscovery_informed hdiscovers complete_reading
  have hinformed' := emitDiscovery_informed hdiscovers' complete_reading
  have hregistry : run'.discovered.registry = run.discovered.registry := by
    rw [hitems] at hdiscovers hdiscovers'
    exact emitDiscovery_same_registry hdiscovers hdiscovers' run.found hitem hcolumn hposition hkey
      hkey'
  rw [hregistry] at hemits' hinformed'
  obtain ⟨drafts⟩ := emitStages_drafts run.emits
  obtain ⟨drafts'⟩ := emitStages_drafts hemits'
  rw [run.registry, run'.registry]
  exact drafts.resorted_registry drafts' hinformed hinformed'

end

/-! ## The steps of both queries -/

section

variable {placement : FilterPlacement} {s : Select} {items : List ProjectionItem} {r : Registry}
  {o o' : Outline}

/-- With other sort keys only the sorting changes, if aggregates are found by either. -/
theorem Outlines.resorted {keys keys' : List Node}
    (h : Outlines placement (s.orderedBy keys) items o.discovers r o)
    (h' : Outlines placement (s.orderedBy keys') items o'.discovers r o')
    (hsource : sourceSteps o'.source = sourceSteps o.source)
    (hagg : (o'.sorting.any fun k => k.1.isAggregate) = o.sorting.any fun k => k.1.isAggregate) :
    o'.steps = { o with sorting := o'.sorting }.steps := by
  have hearly : o'.early = o.early :=
    List.right_unique_forall₂' (fun _ _ _ hp hp' => hp.unique hp') h'.early h.early
  have hhaving : o'.having = o.having :=
    List.right_unique_forall₂' (fun _ _ _ hp hp' => hp.unique hp') h'.having h.having
  have hlate : o'.late = o.late :=
    List.right_unique_forall₂' (fun _ _ _ hp hp' => hp.unique hp') h'.late h.late
  have hcolumns : o'.columns = o.columns := h.columns_eq h'
  have hfound : o'.discovers = o.discovers := by
    rw [Outline.discovers, Outline.discovers, hcolumns, hhaving, hagg]
  rw [hfound] at h'
  have hbucketing : o'.bucketing = o.bucketing := h.bucketing_eq h' rfl
  simp only [Outline.steps, Outline.elementSteps, Outline.bucketSteps, Outline.projection, hsource,
    hearly, hhaving, hlate, hcolumns, hbucketing]

end

/-- What stands around a sort key and a column in the steps of a query. -/
structure Around where
  -- All steps up to the ordering.
  first : List Step
  keysBefore : List Step
  keysAfter : List Step
  -- The filters between the ordering and the projection.
  filters : List Step
  names : List String
  columnsBefore : List Step
  columnsAfter : List Step

/-- The steps of a query with a sort key and a column in their places. -/
def Around.steps (w : Around) (key column : Step) : List Step :=
  w.first ++ .order :: (w.keysBefore ++ key :: (w.keysAfter ++ (w.filters ++
    .project w.names :: (w.columnsBefore ++ column :: w.columnsAfter))))

theorem Around.steps_inj {w : Around} {key key' column : Step}
    (h : w.steps key column = w.steps key' column) : key = key' := by
  simpa [Around.steps] using h

/-- The traversal that finds the value of a meaning on a bucket. -/
def Meaning.traversal (m : Meaning) : Traversal :=
  .anonymous (m.fragment .bucket)

/-- The steps of an outline around one of its sort keys and one of its columns. -/
theorem Outline.steps_around (o : Outline) {us vs : List (Meaning × Direction)}
    {cs ds : List (String × Meaning)} {c : String × Meaning}
    (hcolumns : o.columns = cs ++ c :: ds) :
    ∃ w : Around, w.keysBefore.length = us.length ∧ w.columnsBefore.length = cs.length ∧
      ∀ (m : Meaning) (direction : Direction),
        { o with sorting := us ++ (m, direction) :: vs }.steps =
          w.steps (.by m.traversal (some direction)) (.by (orMarker c.2.traversal) none) := by
  refine ⟨⟨o.elementSteps ++ .group :: (o.bucketing.modifiers ++ [.unfold, .selectValues]),
    sortModifiers us, sortModifiers vs, filterSteps .bucket o.having ++ filterSteps .bucket o.late,
    o.columns.map Prod.fst, itemModifiers (cs.map Prod.snd), itemModifiers (ds.map Prod.snd)⟩,
    by simp [sortModifiers], by simp [itemModifiers], fun m direction => ?_⟩
  have hsort : sortSteps (us ++ (m, direction) :: vs) =
      .order :: (sortModifiers us ++ .by m.traversal (some direction) :: sortModifiers vs) := by
    cases us with
    | nil => rfl
    | cons k rest => simp [sortSteps, sortModifiers, Meaning.traversal]
  simp [Outline.steps, Outline.elementSteps, Outline.bucketSteps, Outline.projection, hsort,
    Around.steps, hcolumns, itemModifiers, Meaning.traversal]

theorem Meaning.Alike.eq_of_traversal {m m' : Meaning} (h : m.Alike m')
    (heq : m.traversal = m'.traversal) : m = m' := by
  refine h.eq_of_fragment ?_
  simpa [Meaning.traversal, Traversal.anonymous] using heq

section

variable {schema : Schema} {placement : FilterPlacement} {s : Select} {q q' : CompiledQuery}
  {source : SourceTable} {t : Table} {items itemsBefore itemsAfter : List ProjectionItem}
  {item : ProjectionItem} {expr : Node} {given : String} {position : Int64} {key key' : Node}
  {direction : Direction} {before after : List Node}

/-- What a position sorts by is the meaning of the item's expression. -/
theorem SortsBy.of_position {r : Registry} {k : Meaning × Direction}
    (h : SortsBy r 0 (itemsBefore ++ item :: itemsAfter) key k) (hitem : item.Gives expr given)
    (hposition : position.toInt = itemsBefore.length + 1)
    (hkey : Marked (.literal (.integer position)) key direction) :
    k.2 = direction ∧ Means r 0 expr k.1 := by
  obtain ⟨operand, hsort, hm⟩ := h
  obtain ⟨rfl, hdirection⟩ := hitem.sortKey_position hposition hkey hsort
  exact ⟨hdirection, hm⟩

/-- What an alias sorts by is the meaning of the expression that it is bound to. -/
theorem SortsBy.of_alias {r : Registry} {items : List ProjectionItem} {bound : Node}
    {k : Meaning × Direction} (h : SortsBy r 0 items key k) (halias : r.HasAlias 0 given bound)
    (hkey : Marked (.identifier ⟨[given]⟩) key direction) :
    k.2 = direction ∧ Means r 0 bound k.1 := by
  obtain ⟨operand, hsort, hm⟩ := h
  rw [hkey.sortKey_name] at hsort
  cases hsort
  exact ⟨rfl, hm.of_alias halias⟩

/-- The steps of both queries around the sort key and the column. -/
theorem Outlines.sorted_alike {r : Registry} {o o' : Outline} {bound : Node}
    (h : Outlines placement (s.orderedBy (before ++ key :: after))
      (itemsBefore ++ item :: itemsAfter) o.discovers r o)
    (h' : Outlines placement (s.orderedBy (before ++ key' :: after))
      (itemsBefore ++ item :: itemsAfter) o'.discovers r o')
    (hsource : sourceSteps o'.source = sourceSteps o.source) (hitem : item.Gives expr given)
    (hposition : position.toInt = itemsBefore.length + 1)
    (hkey : Marked (.literal (.integer position)) key direction)
    (hkey' : Marked (.identifier ⟨[given]⟩) key' direction) (halias : r.HasAlias 0 given bound)
    (hbound : bound.same expr = true) :
    ∃ (w : Around) (m m' : Meaning),
      w.keysBefore.length = before.length ∧ w.columnsBefore.length = itemsBefore.length ∧
      o.steps = w.steps (.by m.traversal (some direction)) (.by (orMarker m.traversal) none) ∧
      o'.steps = w.steps (.by m'.traversal (some direction)) (.by (orMarker m.traversal) none) ∧
      Means r 0 expr m ∧ Means r 0 bound m' := by
  -- The keys before and after this one sort by the same, and this one by the column or the alias.
  obtain ⟨us, ⟨m, dir⟩, vs, hsorting, hus, hthis, hvs⟩ := forall₂_split h.sorting
  obtain ⟨us', ⟨m', dir'⟩, vs', hsorting', hus', hthis', hvs'⟩ := forall₂_split h'.sorting
  cases List.right_unique_forall₂' (fun _ _ _ hk hk' => hk.unique hk') hus' hus
  cases List.right_unique_forall₂' (fun _ _ _ hk hk' => hk.unique hk') hvs' hvs
  obtain ⟨rfl, hm⟩ := hthis.of_position hitem hposition hkey
  obtain ⟨rfl, hm'⟩ := hthis'.of_alias halias hkey'
  obtain ⟨cs, c, ds, hcolumns, hcs, hc, -⟩ := forall₂_split h.columns
  obtain ⟨w, hkeys, hcolumnsBefore, hsteps⟩ := o.steps_around hcolumns
  have hcolumn : c.2 = m := (hitem.means hc.2).unique hm
  rw [hcolumn] at hsteps
  have hagg : (o'.sorting.any fun k => k.1.isAggregate) =
      o.sorting.any fun k => k.1.isAggregate := by
    simp [hsorting, hsorting', (hm'.alike hm hbound).isAggregate_eq]
  refine ⟨w, m, m', hkeys.trans hus.length_eq.symm, hcolumnsBefore.trans hcs.length_eq.symm, ?_, ?_,
    hm, hm'⟩
  · rw [← hsteps, ← hsorting]
  · rw [h.resorted h' hsource hagg, hsorting', hsteps]

/-- **The queries differ in one sort key at most.** The position sorts by the column's value, and
the alias by the value of the expression that it is bound to. -/
theorem compile_sorted_alike
    (hsource : SourceTable.ofClause s.source = .ok source)
    (htable : schema.table? source.label = some t)
    (hitems : projectionItems (.reading schema t source.name) 0 s.selectList =
      .ok (itemsBefore ++ item :: itemsAfter))
    (hitem : item.Gives expr given) (hcolumn : t.column? given = none)
    (hposition : position.toInt = itemsBefore.length + 1)
    (hkey : Marked (.literal (.integer position)) key direction)
    (hkey' : Marked (.identifier ⟨[given]⟩) key' direction)
    (h : compile schema placement (s.orderedBy (before ++ key :: after)) = .ok q)
    (h' : compile schema placement (s.orderedBy (before ++ key' :: after)) = .ok q') :
    q'.columns = q.columns ∧ q'.registry = q.registry ∧
    ∃ (w : Around) (m m' : Meaning) (bound : Node),
      w.keysBefore.length = before.length ∧ w.columnsBefore.length = itemsBefore.length ∧
      q.traversal =
        .root (w.steps (.by m.traversal (some direction)) (.by (orMarker m.traversal) none)) ∧
      q'.traversal =
        .root (w.steps (.by m'.traversal (some direction)) (.by (orMarker m.traversal) none)) ∧
      Means q.registry 0 expr m ∧ Means q.registry 0 bound m' ∧
      q.registry.binding? given = some bound ∧ bound.same expr = true ∧
      NamedIn ((itemsBefore ++ item :: itemsAfter).map ProjectionItem.expr) given bound := by
  obtain ⟨run⟩ := compile_run h
  obtain ⟨run'⟩ := compile_run h'
  obtain ⟨rfl, rfl, hlists⟩ := run.reading hsource htable hitems
  obtain ⟨hsource', htable', hlists'⟩ := run'.reading hsource htable hitems
  have hregistry : q'.registry = q.registry :=
    run.resorted_registry run' hsource' htable' (hlists'.trans hlists.symm) hlists hitem hcolumn
      hposition hkey hkey'
  obtain ⟨bound, halias, hnamed, hbound⟩ := run.item_alias hlists hitem hcolumn
  obtain ⟨o, ho, houtlines⟩ := run.outline
  obtain ⟨o', ho', houtlines'⟩ := run'.outline
  rw [hlists] at houtlines
  rw [hregistry, hlists'] at houtlines'
  have hsteps : sourceSteps o'.source = sourceSteps o.source := by
    rw [run.source_eq ho, run'.source_eq ho', CompileRun.registered, CompileRun.registered,
      hsource', htable']
  obtain ⟨w, m, m', hkeys, hcolumns, hsorted, hsorted', hm, hm'⟩ :=
    houtlines.sorted_alike houtlines' hsteps hitem hposition hkey hkey' halias hbound
  exact ⟨run.columns_of_registry run' hregistry, hregistry, w, m, m', bound, hkeys, hcolumns,
    by rw [ho, hsorted], by rw [ho', hsorted'], hm, hm', halias.2, hbound, hnamed⟩

/-! ## Positions out of range -/

theorem Marked.sortKey_error_iff (hkey : Marked (.literal (.integer position)) key direction) :
    sortKey items key = .error (.ordinal position items.length) ↔ ¬ Counts items position := by
  constructor
  · intro h
    cases sortKey_blames key h with
    | expression he => cases he
    | ordinal hcounts => exact hcounts
  · intro hcounts
    rw [hkey.sortKey_position, itemAt_of_not_counts hcounts]
    rfl

/-- A select with a position out of range does not compile. -/
theorem counts_of_compile (hsource : SourceTable.ofClause s.source = .ok source)
    (htable : schema.table? source.label = some t)
    (hitems : projectionItems (.reading schema t source.name) 0 s.selectList = .ok items)
    (hkey : Marked (.literal (.integer position)) key direction)
    (h : compile schema placement (s.orderedBy (before ++ key :: after)) = .ok q) :
    Counts items position := by
  obtain ⟨run⟩ := compile_run h
  obtain ⟨rfl, rfl, rfl⟩ := run.reading hsource htable hitems
  have hdiscovers := run.discovers
  obtain ⟨d₁, hfirst⟩ := emitDiscovery_first hdiscovers
  obtain ⟨steps, hrest⟩ := emitDiscovery_append (List.cons_ne_nil key after) hfirst
  rw [hrest] at hdiscovers
  obtain ⟨_, _, _, _, _, hsort, -⟩ := emitSortKeys_cons_ok hdiscovers
  by_contra hcounts
  cases hsort.symm.trans (hkey.sortKey_error_iff.2 hcounts)

theorem compile_of_discovery_error {d : Draft} {e : CompileError}
    (hsource : SourceTable.ofClause s.source = .ok source)
    (htable : schema.table? source.label = some t)
    (hitems : projectionItems (.reading schema t source.name) 0 s.selectList = .ok items)
    (hlist : s.selectList ≠ [])
    (h : emitDiscovery 0 items s ⟨.reading schema t source.name, []⟩ = (.error e, d)) :
    compile schema placement s = .error e := by
  have hregister := registerTable_reading source.name htable
  have hdiscover : discover (emitDiscovery 0 items s) (.reading schema t source.name) =
      .error e := by
    rw [discover, h]
  have hnonempty : ¬ s.selectList.isEmpty = true := by
    rwa [List.isEmpty_iff]
  simp only [compile, hsource, bind, Except.bind, if_neg hnonempty, hregister, liftRegistry, hitems,
    hdiscover]

/-- If the first phase comes as far as to a position, the select is refused for it unless it counts
an item. -/
theorem compile_error_iff_not_counts {r : Registry}
    (hsource : SourceTable.ofClause s.source = .ok source)
    (htable : schema.table? source.label = some t)
    (hitems : projectionItems (.reading schema t source.name) 0 s.selectList = .ok items)
    (hlist : s.selectList ≠ [])
    (hfirst : discover (emitDiscovery 0 items (s.orderedBy before))
      (.reading schema t source.name) = .ok r)
    (hkey : Marked (.literal (.integer position)) key direction) :
    compile schema placement (s.orderedBy (before ++ key :: after)) =
      .error (.ordinal position items.length) ↔ ¬ Counts items position := by
  constructor
  · intro h
    obtain ⟨source', t', items', hsource', htable', hitems', -, hcounts⟩ := not_counts_of_ordinal h
    cases hsource.symm.trans hsource'
    cases htable.symm.trans htable'
    cases hitems.symm.trans hitems'
    exact hcounts
  · intro hcounts
    obtain ⟨d, hd, -⟩ := discover_ok hfirst
    obtain ⟨steps, hrest⟩ := emitDiscovery_append (List.cons_ne_nil key after) hd
    have herror : emitSortKeys 0 items (key :: after) ⟨d.registry, steps⟩ =
        (.error (.ordinal position items.length), ⟨d.registry, steps⟩) := by
      rw [emitSortKeys, hkey.sortKey_error_iff.2 hcounts]
      rfl
    exact compile_of_discovery_error hsource htable hitems hlist (hrest.trans herror)

/-! ## Both ways to sort -/

/-- **A position sorts by its column, and the alias of the column does up to the sign of a zero.**
Let the select list, with stars spelled out, be `items`.

Take an item that gives an expression a name that is no column of the table, and two selects that
differ in one sort key only, both ascending or both descending: in the one it is the position of the
item, in the other its name. If both compile, they have the same columns and the same registry. In
the first query the sort key holds the traversal that the column holds. In the second query it holds
that of the expression that the name is bound to. The select list gives it this name too, and it is
equal to the item's expression, so that the two mean the same but perhaps for the sign of a zero.
The queries are the same exactly if it is the same sign, and always if nothing else is given the
name.

A position is refused, with itself and the number of items, exactly if it is not among those from
one up to the number of items. This holds for the key, and for the whole select if the select list,
HAVING and the sort keys before this one are accepted. In no case does a select with such a key
compile. -/
theorem position_sorts_by_column (hsource : SourceTable.ofClause s.source = .ok source)
    (htable : schema.table? source.label = some t)
    (hitems : projectionItems (.reading schema t source.name) 0 s.selectList = .ok items) :
    (∀ {itemsBefore itemsAfter : List ProjectionItem} {item : ProjectionItem} {expr : Node}
      {given : String} {position : Int64} {key key' : Node} {direction : Direction}
      {before after : List Node} {q q' : CompiledQuery},
      items = itemsBefore ++ item :: itemsAfter → item.Gives expr given →
      t.column? given = none → position.toInt = itemsBefore.length + 1 →
      Marked (.literal (.integer position)) key direction →
      Marked (.identifier ⟨[given]⟩) key' direction →
      compile schema placement (s.orderedBy (before ++ key :: after)) = .ok q →
      compile schema placement (s.orderedBy (before ++ key' :: after)) = .ok q' →
      q'.columns = q.columns ∧ q'.registry = q.registry ∧
      ∃ (w : Around) (m m' : Meaning) (bound : Node),
        w.keysBefore.length = before.length ∧ w.columnsBefore.length = itemsBefore.length ∧
        q.traversal =
          .root (w.steps (.by m.traversal (some direction)) (.by (orMarker m.traversal) none)) ∧
        q'.traversal =
          .root (w.steps (.by m'.traversal (some direction)) (.by (orMarker m.traversal) none)) ∧
        Means q.registry 0 expr m ∧ Means q.registry 0 bound m' ∧
        q.registry.binding? given = some bound ∧ bound.same expr = true ∧
        NamedIn (items.map ProjectionItem.expr) given bound ∧
        m'.Alike m ∧ (q' = q ↔ m' = m) ∧
        ((∀ other, NamedIn (items.map ProjectionItem.expr) given other → other = expr) →
          q' = q)) ∧
    ∀ {position : Int64} {key : Node} {direction : Direction} {before after : List Node},
      Marked (.literal (.integer position)) key direction →
      (sortKey items key = .error (.ordinal position items.length) ↔ ¬ Counts items position) ∧
      (¬ Counts items position → ∀ q : CompiledQuery,
        compile schema placement (s.orderedBy (before ++ key :: after)) ≠ .ok q) ∧
      ∀ r : Registry, s.selectList ≠ [] →
        discover (emitDiscovery 0 items (s.orderedBy before)) (.reading schema t source.name) =
          .ok r →
        (compile schema placement (s.orderedBy (before ++ key :: after)) =
          .error (.ordinal position items.length) ↔ ¬ Counts items position) := by
  refine ⟨?_, ?_⟩
  · intro itemsBefore itemsAfter item expr given position key key' direction before after q q'
      hsplit hitem hcolumn hposition hkey hkey' h h'
    subst hsplit
    obtain ⟨hcolumns, hregistry, w, m, m', bound, hkeys, hbefore, htraversal, htraversal', hm, hm',
      hbound, hsame, hnamed⟩ :=
      compile_sorted_alike hsource htable hitems hitem hcolumn hposition hkey hkey' h h'
    have halike : m'.Alike m := hm'.alike hm hsame
    have hiff : q' = q ↔ m' = m := by
      constructor
      · rintro rfl
        rw [htraversal, Traversal.root, Traversal.root, Traversal.mk.injEq] at htraversal'
        have hby := Around.steps_inj htraversal'.2
        rw [Step.by.injEq] at hby
        exact halike.eq_of_traversal hby.1.symm
      · rintro rfl
        exact CompiledQuery.ext (htraversal'.trans htraversal.symm) hcolumns hregistry
    refine ⟨hcolumns, hregistry, w, m, m', bound, hkeys, hbefore, htraversal, htraversal', hm, hm',
      hbound, hsame, hnamed, halike, hiff, fun honly => hiff.2 ?_⟩
    rw [honly bound hnamed] at hm'
    exact hm'.unique hm
  · intro position key direction before after hkey
    refine ⟨hkey.sortKey_error_iff, fun hcounts q h => hcounts ?_, fun r hlist hfirst => ?_⟩
    · exact counts_of_compile hsource htable hitems hkey h
    · exact compile_error_iff_not_counts hsource htable hitems hlist hfirst hkey

end

/-- What the select list of `largeDepartments` stands for. -/
def departmentItems : List ProjectionItem :=
  [⟨"d", .as (.identifier ⟨["dept"]⟩) "d"⟩, ⟨"c", .as .countStar "c"⟩]

/-- The one table of `agedStaffSchema`. -/
def agedStaff : Table :=
  ⟨"person", .vertex, .string, [⟨"dept", .string⟩, ⟨"age", .integer⟩], none⟩

theorem namedIn_departmentItems {other : Node}
    (h : NamedIn (departmentItems.map ProjectionItem.expr) "c" other) : other = .countStar := by
  obtain ⟨n, hn, op, hop, hwithin⟩ := h
  simp only [departmentItems, List.map_cons, List.map_nil, List.mem_cons, List.not_mem_nil,
    or_false] at hn
  rcases hn with rfl | rfl <;>
    simp [Node.as, Node.apply, Node.countStar, Node.ident, Node.splitDots] at hwithin
  exact hwithin.2

/-- Large departments by size, counted or named: the same query. There is no third column. -/
theorem position_sorts_by_column_largeDepartments :
    (∃ q q' : CompiledQuery,
      compile agedStaffSchema .beforeGrouping ((largeDepartments 1.5).orderedBy
        [.desc (.int 2), .identifier ⟨["d"]⟩]) = .ok q ∧
      compile agedStaffSchema .beforeGrouping ((largeDepartments 1.5).orderedBy
        [.desc (.identifier ⟨["c"]⟩), .identifier ⟨["d"]⟩]) = .ok q' ∧ q' = q ∧
      ∃ (w : Around) (m : Meaning), w.keysBefore.length = 0 ∧ w.columnsBefore.length = 1 ∧
        q.traversal =
          .root (w.steps (.by m.traversal (some .desc)) (.by (orMarker m.traversal) none))) ∧
    compile agedStaffSchema .beforeGrouping ((largeDepartments 1.5).orderedBy
      [.desc (.int 3), .identifier ⟨["d"]⟩]) = .error (.ordinal 3 2) := by
  have hcompiles (bound : Float) : (compile agedStaffSchema .beforeGrouping
      ((largeDepartments bound).orderedBy [.desc (.identifier ⟨["c"]⟩), .identifier ⟨["d"]⟩])).map
      CompiledQuery.columnNames = .ok ["d", "c"] := by
    cbv
  have hdiscovers (bound : Float) : (discover (emitDiscovery 0 departmentItems
      ((largeDepartments bound).orderedBy [])) (.reading agedStaffSchema agedStaff "p")).map
      Registry.hasAggregate = .ok true := by
    cbv
  obtain ⟨q, hq, -⟩ := ok_of_map (compile_largeDepartments .beforeGrouping 1.5)
  obtain ⟨q', hq', -⟩ := ok_of_map (hcompiles 1.5)
  obtain ⟨r, hr, -⟩ := ok_of_map (hdiscovers 1.5)
  have hsource : SourceTable.ofClause (largeDepartments 1.5).source = .ok ⟨"person", "p"⟩ := rfl
  have htable : agedStaffSchema.table? "person" = some agedStaff := rfl
  have hitems : projectionItems (.reading agedStaffSchema agedStaff "p") 0
      (largeDepartments 1.5).selectList = .ok departmentItems := rfl
  obtain ⟨halike, hrange⟩ := position_sorts_by_column hsource htable hitems
  have hsplit : departmentItems =
      [⟨"d", .as (.identifier ⟨["dept"]⟩) "d"⟩] ++ ⟨"c", .as .countStar "c"⟩ :: [] := rfl
  replace hq : compile agedStaffSchema .beforeGrouping ((largeDepartments 1.5).orderedBy
    ([] ++ .desc (.int 2) :: [.identifier ⟨["d"]⟩])) = .ok q := hq
  replace hq' : compile agedStaffSchema .beforeGrouping ((largeDepartments 1.5).orderedBy
    ([] ++ .desc (.identifier ⟨["c"]⟩) :: [.identifier ⟨["d"]⟩])) = .ok q' := hq'
  refine ⟨⟨q, q', hq, hq', ?_⟩, ?_⟩
  · have hgives : ProjectionItem.Gives ⟨"c", .as .countStar "c"⟩ .countStar "c" := ⟨_, rfl, rfl⟩
    have hcounted : Marked (.int 2) (.desc (.int 2)) .desc := .desc rfl
    have hnamed : Marked (.identifier ⟨["c"]⟩) (.desc (.identifier ⟨["c"]⟩)) .desc := .desc rfl
    obtain ⟨-, -, w, m, _, _, hkeys, hcolumns, htraversal, -, -, -, -, -, -, -, -, hsame⟩ :=
      halike hsplit hgives rfl (by decide) hcounted hnamed hq hq'
    exact ⟨hsame fun _ h => namedIn_departmentItems h, w, m, hkeys, hcolumns, htraversal⟩
  · have hcounted : Marked (.int 3) (.desc (.int 3)) .desc := .desc rfl
    exact ((hrange hcounted).2.2 r (by decide) hr).2 (by decide)

/-- `SELECT (x AS a) AS s, y AS a FROM person AS p`. -/
def givenTwice (x y : Float) : Select where
  selectList := [.as (.as (.decimal x) "a") "s", .as (.decimal y) "a"]
  source := some (.as (.identifier ⟨["person"]⟩) "p")
  filter := none
  groupBy := none
  having := none
  orderBy := none

theorem ok_of_toOption {ε α β : Type} {x : Except ε α} {f : α → Option β} {b : β}
    (h : x.toOption.bind f = some b) : ∃ a, x = .ok a ∧ f a = some b := by
  cases x with
  | error e => cases h
  | ok a => exact ⟨a, rfl, h⟩

/-- The column is the one zero, and its name is bound to the other one. -/
theorem alias_sorts_by_other_zero :
    ∃ q q' : CompiledQuery,
      compile agedStaffSchema .beforeGrouping ((givenTwice (-0.0) 0.0).orderedBy [.int 2]) = .ok q ∧
      compile agedStaffSchema .beforeGrouping
        ((givenTwice (-0.0) 0.0).orderedBy [.identifier ⟨["a"]⟩]) = .ok q' ∧
      q.traversal.steps[6]?.map Step.groovy = some "by(__.constant(0.0d), asc)" ∧
      q'.traversal.steps[6]?.map Step.groovy = some "by(__.constant(-0.0d), asc)" ∧
      q'.traversal ≠ q.traversal := by
  have hposition : (compile agedStaffSchema .beforeGrouping
      ((givenTwice (-0.0) 0.0).orderedBy [.int 2])).toOption.bind
        (fun q => q.traversal.steps[6]?.map Step.groovy) = some "by(__.constant(0.0d), asc)" := by
    decide +kernel
  have halias : (compile agedStaffSchema .beforeGrouping
      ((givenTwice (-0.0) 0.0).orderedBy [.identifier ⟨["a"]⟩])).toOption.bind
        (fun q => q.traversal.steps[6]?.map Step.groovy) = some "by(__.constant(-0.0d), asc)" := by
    decide +kernel
  obtain ⟨q, hq, hby⟩ := ok_of_toOption hposition
  obtain ⟨q', hq', hby'⟩ := ok_of_toOption halias
  refine ⟨q, q', hq, hq', hby, hby', fun heq => ?_⟩
  rw [heq, hby] at hby'
  exact absurd hby' (by decide)

end GraphSelect
