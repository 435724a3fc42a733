import GraphSelect.Proofs.Expr.Replay
import GraphSelect.Proofs.Query.Outline
import Mathlib

/-!
# The two phases of compiling

The select list, HAVING and ORDER BY are emitted twice, and the second time must not go astray: the
registry has been filled by the first time and by other clauses since, and the clauses come in
another order. Each of the three can be run again, so after a first phase that succeeds the second
one writes the very steps that the first one has thrown away, whatever WHERE and GROUP BY have bound
in between, and nothing that it establishes is new. What can still go wrong are the clauses that the
first phase has not seen, and the types of the returned columns.
-/

set_option autoImplicit false

namespace GraphSelect

open Sql

/-- No tree of a clause that is emitted twice holds a NaN. -/
def Sql.Select.NaNFree (s : Select) : Prop :=
  ∀ n ∈ s.selectList ++ s.having.toList ++ keysOf s.orderBy, n.NaNFree

/-! ## Clauses that can be run again -/

section

variable {table : TableId} {items : List ProjectionItem}

theorem emitFilterStep_replays (scope : Scope) {n : Node} (hn : n.NaNFree) :
    (emitFilterStep table scope n).Replays :=
  .bind (.branch (emitFilter_replays scope hn)) fun _ => .append _

theorem emitHavingClause_replays {s : Select} (h : ∀ n ∈ s.having.toList, n.NaNFree) :
    (emitHavingClause table s).Replays := by
  unfold emitHavingClause
  cases hhaving : s.having with
  | none => exact .pure ()
  | some n =>
    have hn : n.NaNFree := h n (by simp [hhaving])
    cases n with
    | call op operands => exact emitFilterStep_replays .bucket hn
    | identifier id => exact .fail _
    | literal l => exact .fail _

theorem emitItems_replays (h : ∀ item ∈ items, item.expr.NaNFree) :
    (emitItems table items).Replays := by
  induction items with
  | nil => exact .pure ()
  | cons item rest ih =>
    rw [List.forall_mem_cons] at h
    refine .bind (.branch (emitValue_replays .bucket h.1)) fun value => ?_
    exact .bind (.append _) fun _ => ih h.2

theorem emitProjection_replays (h : ∀ item ∈ items, item.expr.NaNFree) :
    (emitProjection table items).Replays :=
  .bind (.append _) fun _ => emitItems_replays h

theorem lasting_checkSortable (n : Node) : Lasting fun r => checkSortable r table n := by
  cases n with
  | identifier id =>
    refine .bind (lasting_isEndpointName table id) fun endpoint => ?_
    cases endpoint with
    | true => exact .const _
    | false => exact .const _
  | literal l => exact .const _
  | call op operands => exact .const _

theorem emitSortKeys_replays {keys : List Node} (hitems : ∀ item ∈ items, item.expr.NaNFree)
    (hkeys : ∀ key ∈ keys, key.NaNFree) : (emitSortKeys table items keys).Replays := by
  induction keys with
  | nil => exact .pure ()
  | cons key rest ih =>
    rw [List.forall_mem_cons] at hkeys
    refine .bind_of (.lift _) fun k d d₁ _ h => ?_
    obtain ⟨expr, direction⟩ := k
    obtain ⟨hkey, -⟩ := Emit.lift_ok h
    have hexpr : expr.NaNFree := by
      obtain ⟨n, hn, hwithin⟩ := sortKey_within hkey
      rcases List.mem_cons.1 hn with rfl | hn
      · exact hkeys.1.within hwithin
      · obtain ⟨item, hitem, rfl⟩ := List.mem_map.1 hn
        exact (hitems item hitem).within hwithin
    refine .bind (.ask (lasting_checkSortable expr)) fun _ => ?_
    refine .bind (.branch (emitValue_replays .bucket hexpr)) fun value => ?_
    exact .bind (.append _) fun _ => ih hkeys.2

theorem emitOrderBy_replays {keys : List Node} (hitems : ∀ item ∈ items, item.expr.NaNFree)
    (hkeys : ∀ key ∈ keys, key.NaNFree) : (emitOrderBy table items keys).Replays := by
  refine .bind (.append _) fun _ => ?_
  split
  · exact .append _
  · exact emitSortKeys_replays hitems hkeys

/-- An item is an entry of the select list, or a column that a star stands for. -/
theorem itemsFrom_expr {r : Registry} {selectList : List Node} {position : Nat}
    (h : itemsFrom r table position selectList = .ok items) {item : ProjectionItem}
    (hitem : item ∈ items) : item.expr ∈ selectList ∨ ∃ id, item.expr = .identifier id := by
  induction selectList generalizing position items with
  | nil =>
    cases h
    cases hitem
  | cons n rest ih =>
    obtain ⟨first, hfirst, hrest⟩ := ok_of_bind h
    obtain ⟨more, hmore, hlast⟩ := ok_of_bind hrest
    cases hlast
    rcases List.mem_append.1 hitem with hitem | hitem
    · rcases entryItems_cases hfirst with ⟨-, t, -, rfl⟩ | ⟨-, name, rfl⟩
      · obtain ⟨c, -, rfl⟩ := List.mem_map.1 hitem
        exact .inr ⟨_, rfl⟩
      · cases List.mem_singleton.1 hitem
        exact .inl List.mem_cons_self
    · exact (ih hmore hitem).imp (List.mem_cons_of_mem n) id

theorem projectionItems_nanFree {r : Registry} {selectList : List Node}
    (hlist : ∀ n ∈ selectList, n.NaNFree) (h : projectionItems r table selectList = .ok items) :
    ∀ item ∈ items, item.expr.NaNFree := by
  intro item hitem
  rcases itemsFrom_expr (projectionItems_ok h).1 hitem with hmem | ⟨id, hid⟩
  · exact hlist item.expr hmem
  · rw [hid]
    exact Node.nanFree_identifier id

end

/-! ## The second phase -/

section

variable {table : TableId} {items : List ProjectionItem} {s : Select} {placement : FilterPlacement}
  {d d' : Draft}

theorem emitPlaced_knows {here : FilterPlacement}
    (h : emitPlaced table s placement here d = (.ok (), d')) :
    d'.registry.Knows d.registry := by
  obtain ⟨_, hfilters⟩ := emitPlaced_filters h
  exact hfilters.toStage.knows

theorem emitGroupBy_knows {keys : List Node} (h : emitGroupBy table keys d = (.ok (), d')) :
    d'.registry.Knows d.registry := by
  obtain ⟨_, -, -, hgroup⟩ := emitGroupBy_bucketing h
  exact hgroup.knows

theorem AnyStage.knows {trees : List Node} (h : AnyStage trees d d') :
    d'.registry.Knows d.registry := by
  obtain ⟨_, _, hstage⟩ := h
  exact hstage.knows

namespace StageDrafts

theorem knows_projected (h : StageDrafts table items s placement d d') :
    d'.registry.Knows h.projected.registry := by
  obtain ⟨_, -, -, hrecords⟩ : ∃ _, _ ∧ _ ∧ Stage (NamedIn []) _ _ _ _ :=
    recordProjection_stage h.records
  exact hrecords.knows

theorem knows_ordered (h : StageDrafts table items s placement d d') :
    d'.registry.Knows h.ordered.registry := by
  have hhaving : AnyStage (s.trees items) h.ordered h.kept := emitHavingClause_stage h.having
  have hprojects : AnyStage (s.trees items) h.keptAgain h.projected := emitProjection_any h.projects
  have hkept := (emitPlaced_knows h.placedLast).trans hhaving.knows
  exact h.knows_projected.trans (hprojects.knows.trans hkept)

theorem knows_grouped (h : StageDrafts table items s placement d d') :
    d'.registry.Knows h.grouped.registry :=
  h.knows_projected.trans h.afterGrouping.knows

theorem knows_start (h : StageDrafts table items s placement d d') :
    d'.registry.Knows d.registry :=
  (h.knows_grouped.trans (emitGroupBy_knows h.groups)).trans (emitPlaced_knows h.placedFirst)

end StageDrafts

/-- A compiled query knows what was known when its FROM clause had been read. -/
theorem CompileRun.knows_reading {schema : Schema} {q : CompiledQuery}
    (run : CompileRun schema placement s q) :
    q.registry.Knows (.reading schema run.table run.source.name) := by
  obtain ⟨drafts⟩ := emitStages_drafts run.emits
  rw [run.registry]
  exact drafts.knows_start.trans (emitDiscovery_stage run.discovers).knows

end

/-- A draft with more steps, and nothing more established. -/
def Draft.extend (d : Draft) (added : List Step) : Draft :=
  ⟨d.registry, d.steps ++ added⟩

/-- **The phases agree.** If the first phase succeeds, on the registry that reading FROM leaves, it
has passed on certain steps for the select list, for HAVING and for ORDER BY. In the second phase,
after any WHERE and GROUP BY that are accepted, each of the three succeeds, leaves the registry as
it is and adds those steps. -/
theorem second_phase_repeats_first {schema : Schema} {s : Select} {label name : String}
    {registry : Registry} {table : TableId} {items : List ProjectionItem} {discovered : Draft}
    (hnan : s.NaNFree)
    (hregister : (Registry.empty schema).registerTable label name = (.ok table, registry))
    (hlists : projectionItems registry table s.selectList = .ok items)
    (hdiscovers : emitDiscovery table items s ⟨registry, []⟩ = (.ok (), discovered)) :
    ∃ (projecting having ordering : List Step) (projected kept : Draft),
      emitProjection table items ⟨registry, []⟩ = (.ok (), projected) ∧
      projected.steps = projecting ∧
      emitHavingClause table s projected = (.ok (), kept) ∧
      kept.steps = projected.steps ++ having ∧
      emitOrderBy table items (keysOf s.orderBy) kept = (.ok (), discovered) ∧
      discovered.steps = kept.steps ++ ordering ∧
      ∀ (placement : FilterPlacement) (steps : List Step) (filtered grouped : Draft),
        emitPlaced table s placement .beforeGrouping ⟨discovered.registry, steps⟩ =
          (.ok (), filtered) →
        emitGroupBy table (keysOf s.groupBy) filtered = (.ok (), grouped) →
        emitOrderBy table items (keysOf s.orderBy) (grouped.extend [.selectValues]) =
          (.ok (), (grouped.extend [.selectValues]).extend ordering) ∧
        emitHavingClause table s ((grouped.extend [.selectValues]).extend ordering) =
          (.ok (), ((grouped.extend [.selectValues]).extend ordering).extend having) ∧
        ∀ late : Draft,
          emitPlaced table s placement .afterHaving
              (((grouped.extend [.selectValues]).extend ordering).extend having) =
            (.ok (), late) →
          emitProjection table items late = (.ok (), late.extend projecting) := by
  obtain ⟨t, -, rfl, rfl⟩ := registerTable_empty hregister
  have hreading : (Registry.reading schema t name).NaNFree :=
    binds_reading (P := fun _ expr => expr.NaNFree)
  have hitemsNaN : ∀ item ∈ items, item.expr.NaNFree :=
    projectionItems_nanFree (fun n hn => hnan n (by simp [hn])) hlists
  obtain ⟨_, d₁, h₁, hrest⟩ := Emit.bind_ok hdiscovers
  obtain ⟨_, d₂, h₂, h₃⟩ := Emit.bind_ok hrest
  obtain ⟨hnan₁, -, projecting, hsteps₁, hprojects⟩ :=
    emitProjection_replays hitemsNaN hreading h₁
  obtain ⟨hnan₂, hknows₂, having, hsteps₂, hkeeps⟩ :=
    emitHavingClause_replays (fun n hn => hnan n (by simp [hn])) hnan₁ h₂
  obtain ⟨-, hknows₃, ordering, hsteps₃, horders⟩ :=
    emitOrderBy_replays hitemsNaN (fun n hn => hnan n (by simp [hn])) hnan₂ h₃
  rw [List.nil_append] at hsteps₁
  refine ⟨projecting, having, ordering, d₁, d₂, h₁, hsteps₁, h₂, hsteps₂, h₃, hsteps₃, ?_⟩
  intro placement steps filtered grouped hfilters hgroups
  have hfiltered := emitPlaced_knows hfilters
  have hgrouped : grouped.registry.Knows discovered.registry :=
    (emitGroupBy_knows hgroups).trans hfiltered
  refine ⟨horders _ hgrouped, hkeeps _ (hgrouped.trans hknows₃), fun late hlate => ?_⟩
  have hlater := (emitPlaced_knows hlate).trans hgrouped
  exact hprojects _ (hlater.trans (hknows₃.trans hknows₂))

/-- People of a certain age, who may have a department. -/
def agedStaffSchema : Schema :=
  ⟨[⟨"person", .vertex, .string, [⟨"dept", .string⟩, ⟨"age", .integer⟩], none⟩]⟩

/-- `SELECT dept AS d, COUNT(*) AS c FROM person AS p WHERE age AS a > 18 GROUP BY d
HAVING c > bound ORDER BY 2 DESC, d`. -/
def largeDepartments (bound : Float) : Select where
  selectList := [.as (.identifier ⟨["dept"]⟩) "d", .as .countStar "c"]
  source := some (.as (.identifier ⟨["person"]⟩) "p")
  filter := some (.infixed .greaterThan (.as (.identifier ⟨["age"]⟩) "a") (.int 18))
  groupBy := some [.identifier ⟨["d"]⟩]
  having := some (.infixed .greaterThan (.identifier ⟨["c"]⟩) (.decimal bound))
  orderBy := some [.desc (.int 2), .identifier ⟨["d"]⟩]

theorem largeDepartments_nanFree (bound : Float) (h : (bound == bound) = true) :
    (largeDepartments bound).NaNFree := by
  intro n hn x hx
  simp only [largeDepartments, keysOf, List.mem_append, List.mem_cons, List.not_mem_nil,
    Option.toList_some, Option.getD_some, or_false] at hn
  rcases hn with ((rfl | rfl) | rfl) | rfl | rfl <;>
    simp [Node.as, Node.countStar, Node.infixed, Node.apply, Node.decimal, Node.desc, Node.int,
      Node.ident] at hx
  rw [hx, h]

theorem second_phase_repeats_first_largeDepartments :
    (largeDepartments 1.5).NaNFree ∧
    ∃ (label name : String) (registry : Registry) (items : List ProjectionItem)
      (discovered filtered grouped late : Draft) (steps projecting having ordering : List Step),
      (Registry.empty agedStaffSchema).registerTable label name = (.ok 0, registry) ∧
      projectionItems registry 0 (largeDepartments 1.5).selectList = .ok items ∧
      emitDiscovery 0 items (largeDepartments 1.5) ⟨registry, []⟩ = (.ok (), discovered) ∧
      discovered.steps = projecting ++ having ++ ordering ∧
      emitPlaced 0 (largeDepartments 1.5) .beforeGrouping .beforeGrouping
        ⟨discovered.registry, steps⟩ = (.ok (), filtered) ∧
      emitGroupBy 0 (keysOf (largeDepartments 1.5).groupBy) filtered = (.ok (), grouped) ∧
      emitOrderBy 0 items (keysOf (largeDepartments 1.5).orderBy) (grouped.extend [.selectValues]) =
        (.ok (), (grouped.extend [.selectValues]).extend ordering) ∧
      emitHavingClause 0 (largeDepartments 1.5)
          ((grouped.extend [.selectValues]).extend ordering) =
        (.ok (), ((grouped.extend [.selectValues]).extend ordering).extend having) ∧
      emitPlaced 0 (largeDepartments 1.5) .beforeGrouping .afterHaving
          (((grouped.extend [.selectValues]).extend ordering).extend having) = (.ok (), late) ∧
      emitProjection 0 items late = (.ok (), late.extend projecting) := by
  have hnan := largeDepartments_nanFree 1.5 (by decide)
  have hcompiles : ∀ bound : Float,
      (compile agedStaffSchema .beforeGrouping (largeDepartments bound)).map
        CompiledQuery.columnNames = .ok ["d", "c"] := by
    intro bound
    cbv
  obtain ⟨q, hq, -⟩ := ok_of_map (hcompiles 1.5)
  obtain ⟨run⟩ := compile_run hq
  obtain ⟨drafts⟩ := emitStages_drafts run.emits
  have hregister : (Registry.empty agedStaffSchema).registerTable run.source.label run.source.name =
      (.ok 0, .reading agedStaffSchema run.table run.source.name) :=
    registerTable_reading run.source.name run.found
  obtain ⟨projecting, having, ordering, _, _, -, hprojecting, -, hhaving, -, hordering, hagain⟩ :=
    second_phase_repeats_first hnan hregister run.lists run.discovers
  obtain ⟨horders, hkeeps, hprojects⟩ :=
    hagain .beforeGrouping _ _ _ drafts.placedFirst drafts.groups
  have hsteps : run.discovered.steps = projecting ++ having ++ ordering := by
    rw [hordering, hhaving, hprojecting]
  exact ⟨hnan, _, _, _, _, _, _, _, _, _, projecting, having, ordering, hregister, run.lists,
    run.discovers, hsteps, drafts.placedFirst, drafts.groups, horders, hkeeps, rfl, hprojects _ rfl⟩

end GraphSelect
