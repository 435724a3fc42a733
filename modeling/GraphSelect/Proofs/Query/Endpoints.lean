import GraphSelect.Proofs.Query.Phases
import Mathlib

/-!
# Keys on the endpoints of an edge

Neither groups nor sorting may rest on the id of an edge's endpoint, so before a key is emitted it
is checked where its name leads. The check follows names through aliases like the emission does, but
it takes only one given name off an expression, and it gives up at any other call. The emission goes
through given names and sort marks of any depth. What the check does not see is `Veiled`; a key is
on an endpoint after all exactly if it leads there and is veiled.
-/

set_option autoImplicit false

namespace GraphSelect

open Sql

/-- A key whose check gives up: it is a call, or a name that leads to a call through aliases, where
each alias stands for its expression without the outermost name given to it. -/
inductive Veiled (r : Registry) (table : TableId) : Node → Prop where
  | call (op : Operator) (operands : List Node) : Veiled r table (.call op operands)
  | named {id : Identifier} {expr inner : Node} :
      r.HasAlias table id.simpleName expr → expr.unaliased = .ok inner → Veiled r table inner →
      Veiled r table (.identifier id)

/-! ## The check and the emission -/

section

variable {table : TableId} {scope : Scope} {d d' : Draft} {R : Registry}

theorem emitNode_identifier {expand : Expansion} {id : Identifier}
    (h : emitNode table expand scope (.identifier id) d = (.ok (), d')) :
    emitIdentifier table expand scope id d = (.ok (), d') := by
  simp only [emitNode] at h
  split at h
  · exact absurd h Emit.not_fail
  · exact h

theorem emitValue_eq_emitWithin (table : TableId) (scope : Scope) (n : Node) :
    emitValue table scope n = emitWithin table maxAliasDepth [] scope n :=
  rfl

theorem emitWithin_eq_emitNode (table : TableId) (hops : Nat) (expanding : List String) :
    ∃ expand, ∀ scope n,
      emitWithin table hops expanding scope n = emitNode table expand scope n := by
  cases hops with
  | zero => exact ⟨_, fun _ _ => rfl⟩
  | succ hops => exact ⟨_, fun _ _ => rfl⟩

/-- A node that is emitted is emitted without the name given to it, once this has been bound. -/
theorem emitWithin_unaliased {hops : Nat} {expanding : List String} {n inner : Node}
    (hinner : n.unaliased = .ok inner)
    (h : emitWithin table hops expanding scope n d = (.ok (), d')) :
    ∃ d₁, emitWithin table hops expanding scope inner d₁ = (.ok (), d') := by
  rcases unaliased_cases hinner with rfl | ⟨op, name, hop, rfl⟩
  · exact ⟨d, h⟩
  · obtain ⟨expand, hexpand⟩ := emitWithin_eq_emitNode table hops expanding
    rw [hexpand] at h
    simp only [emitNode, hop] at h
    obtain ⟨_, d₁, -, hrest⟩ := Emit.bind_ok h
    exact ⟨d₁, by rw [hexpand, hrest]⟩

theorem Means.unaliased {n inner : Node} {m : Meaning} (hinner : n.unaliased = .ok inner)
    (h : Means R table n m) : Means R table inner m := by
  rcases unaliased_cases hinner with rfl | ⟨op, name, hop, rfl⟩
  · exact h
  · cases h with
    | naming _ h => exact h

/-- An alias that is emitted is expanded, and this takes one of the hops. -/
theorem emitWithin_alias {hops : Nat} {expanding : List String} {id : Identifier} {expr : Node}
    (h : emitWithin table hops expanding scope (.identifier id) d = (.ok (), d'))
    (hR : d'.registry.Grows R) (ha : R.HasAlias table id.simpleName expr) :
    ∃ k expanding', hops = k + 1 ∧ emitWithin table k expanding' scope expr d = (.ok (), d') := by
  obtain ⟨m, hm⟩ := emitWithin_emission h
  have hgrows : d.registry.Grows R := hm.learns.toGrows.trans hR
  cases hops with
  | zero =>
    obtain ⟨-, -, ⟨c, hc⟩ | ⟨_, -, hfail⟩⟩ := emitIdentifier_cases (emitNode_identifier h)
    · exact absurd (hgrows.hasColumn hc) ha.not_column
    · exact absurd hfail Emit.not_fail
  | succ k =>
    obtain ⟨-, -, ⟨c, hc⟩ | ⟨_, ha', hexpr⟩⟩ := emitIdentifier_cases (emitNode_identifier h)
    · exact absurd (hgrows.hasColumn hc) ha.not_column
    · cases (hgrows.hasAlias ha').unique ha
      split at hexpr
      · exact absurd hexpr Emit.not_fail
      · exact ⟨k, _, rfl, hexpr⟩

/-- **The check finds the column that is emitted, unless the name is veiled.** Both follow an alias
in one hop, so the hops that the check is given are as many as the emission may need. -/
theorem emitWithin_source {hops : Nat} : ∀ {expanding : List String} {id : Identifier}
    {d d' : Draft} {source : Option ColumnSource},
    emitWithin table hops expanding scope (.identifier id) d = (.ok (), d') →
    R.Knows d'.registry → sourceWithin R table (hops + 1) id = .ok source →
    Veiled R table (.identifier id) ∨
      ∀ c, Means R table (.identifier id) (.atom (.column c)) → source = some c.source := by
  induction hops using Nat.strongRecOn with
  | ind hops ih =>
    intro expanding id d d' source h hR hsource
    obtain ⟨res, hres, hrest⟩ := ok_of_bind hsource
    cases res with
    | physical c =>
      cases hrest
      refine .inr fun c' hc' => ?_
      have hc : R.HasColumn table id.simpleName c := resolveIdentifier_ok hres
      cases hc'.unique (.column hc)
      rfl
    | named expr =>
      have ha : R.HasAlias table id.simpleName expr := resolveIdentifier_ok hres
      obtain ⟨k, expanding', rfl, hexpr⟩ := emitWithin_alias h hR.toGrows ha
      obtain ⟨inner, hinner, hlast⟩ := ok_of_bind hrest
      have hmeans : ∀ c, Means R table (.identifier id) (.atom (.column c)) →
          Means R table inner (.atom (.column c)) := by
        intro c hc
        cases hc with
        | column hc => exact absurd hc ha.not_column
        | named ha' hc =>
          cases ha.unique ha'
          exact hc.unaliased hinner
      cases inner with
      | identifier next =>
        obtain ⟨d₁, hnext⟩ := emitWithin_unaliased hinner hexpr
        rcases ih k (Nat.lt_succ_self k) hnext hR hlast with hveiled | hfound
        · exact .inl (.named ha hinner hveiled)
        · exact .inr fun c hc => hfound c (hmeans c hc)
      | literal l => exact .inr fun c hc => nomatch hmeans c hc
      | call op operands => exact .inl (.named ha hinner (.call op operands))

/-- A key that stands for the id of an endpoint is veiled. -/
def OnlyVeiledEndpoints (r : Registry) (table : TableId) (n : Node) : Prop :=
  ∀ c, Means r table n (.atom (.column c)) → c.source.isEndpoint = true → Veiled r table n

/-- A key that has passed its check and is emitted leads to an endpoint only if it is veiled. -/
theorem emitValue_onlyVeiled {n : Node} (h : emitValue table scope n d = (.ok (), d'))
    (hR : R.Knows d'.registry)
    (hcheck : ∀ id, n = .identifier id → isEndpointName R table id = .ok false) :
    OnlyVeiledEndpoints R table n := by
  intro c hc hend
  cases n with
  | literal l => cases hc
  | call op operands => exact .call op operands
  | identifier id =>
    obtain ⟨source, hsource, hlast⟩ := ok_of_bind (hcheck id rfl)
    rw [emitValue_eq_emitWithin] at h
    rcases emitWithin_source h hR hsource with hveiled | hfound
    · exact hveiled
    · have hany : source.any ColumnSource.isEndpoint = false := Except.ok.inj hlast
      rw [hfound c hc, Option.any_some, hend] at hany
      cases hany

theorem emitGroupKey_onlyVeiled {key : Node} {t : Traversal}
    (h : emitGroupKey table key d = (.ok t, d')) (hR : R.Knows d'.registry) :
    OnlyVeiledEndpoints R table key := by
  obtain ⟨_, -, -, hstage⟩ := emitGroupKey_stage h
  have hknows : R.Knows d.registry := hR.trans hstage.knows
  obtain ⟨view, d₁, h₁, hrest⟩ := Emit.bind_ok h
  obtain ⟨hview, rfl⟩ := Emit.lift_ok h₁
  cases view with
  | identifier id =>
    obtain ⟨endpoint, d₂, h₂, hlast⟩ := Emit.bind_ok hrest
    obtain ⟨hendpoint, rfl⟩ := Emit.ask_ok h₂
    cases endpoint with
    | true => exact absurd hlast Emit.not_fail
    | false =>
      obtain ⟨inner, hinner, rfl, rfl⟩ := Emit.branch_ok hlast
      cases view_cases hview
      refine emitValue_onlyVeiled hinner hR fun id' hid => ?_
      cases hid
      exact lasting_isEndpointName table id hknows hendpoint
  | _ => exact absurd hrest Emit.not_fail

theorem emitGroupKeys_onlyVeiled {keys : List Node} {branches : List Traversal}
    (h : emitGroupKeys table keys d = (.ok branches, d')) (hR : R.Knows d'.registry) :
    ∀ key ∈ keys, OnlyVeiledEndpoints R table key := by
  induction keys generalizing d branches with
  | nil => nofun
  | cons key rest ih =>
    obtain ⟨t, d₁, h₁, hrest⟩ := Emit.bind_ok h
    obtain ⟨ts, d₂, h₂, hlast⟩ := Emit.bind_ok hrest
    obtain ⟨-, rfl⟩ := Emit.pure_ok hlast
    obtain ⟨_, -, -, hstages⟩ := emitGroupKeys_stage h₂
    rw [List.forall_mem_cons]
    exact ⟨emitGroupKey_onlyVeiled h₁ (hR.trans hstages.knows), ih h₂⟩

theorem emitGroupBy_onlyVeiled {keys : List Node} (h : emitGroupBy table keys d = (.ok (), d'))
    (hR : R.Knows d'.registry) : ∀ key ∈ keys, OnlyVeiledEndpoints R table key := by
  cases keys with
  | nil => nofun
  | cons key rest =>
    obtain ⟨_, d₁, h₁, hrest⟩ := Emit.bind_ok h
    obtain ⟨branches, d₂, h₂, hrest⟩ := Emit.bind_ok hrest
    obtain ⟨_, d₃, h₃, hlast⟩ := Emit.bind_ok hrest
    have hafter : Stage (NamedIn []) _ _ d₂ d' := (Stage.append h₃).trans (.append hlast)
    exact emitGroupKeys_onlyVeiled h₂ (hR.trans hafter.knows)

theorem emitSortKeys_onlyVeiled {items : List ProjectionItem} {keys : List Node}
    (h : emitSortKeys table items keys d = (.ok (), d')) (hR : R.Knows d'.registry) :
    ∀ key ∈ keys, ∀ k, sortKey items key = .ok k → OnlyVeiledEndpoints R table k.1 := by
  induction keys generalizing d with
  | nil => nofun
  | cons key rest ih =>
    obtain ⟨expr, direction, t, d₁, d₂, hkey, hcheck, h₁, h₂, hlast⟩ := emitSortKeys_cons_ok h
    obtain ⟨_, -, -, -, hvalue⟩ := emitValue_branch h₁
    obtain ⟨sorted, -, hsorted⟩ := emitSortKeys_stage hlast
    have hby : Stage (NamedIn []) _ _ d₁ d₂ := .append h₂
    have hknows₁ : R.Knows d₁.registry := (hR.trans hsorted.knows).trans hby.knows
    have hknows : R.Knows d.registry := hknows₁.trans hvalue.knows
    obtain ⟨inner, hinner, rfl, rfl⟩ := Emit.branch_ok h₁
    rw [List.forall_mem_cons]
    refine ⟨fun k hk => ?_, ih hlast⟩
    cases hkey.symm.trans hk
    refine emitValue_onlyVeiled hinner hknows₁ fun id hid => ?_
    subst hid
    obtain ⟨endpoint, hendpoint, hrefuses⟩ := ok_of_bind (lasting_checkSortable _ hknows hcheck)
    cases endpoint with
    | true => cases hrefuses
    | false => exact hendpoint

theorem emitOrderBy_onlyVeiled {items : List ProjectionItem} {keys : List Node}
    (h : emitOrderBy table items keys d = (.ok (), d')) (hR : R.Knows d'.registry) :
    ∀ key ∈ keys, ∀ k, sortKey items key = .ok k → OnlyVeiledEndpoints R table k.1 := by
  cases keys with
  | nil => nofun
  | cons key rest =>
    obtain ⟨_, d₁, h₁, hlast⟩ := Emit.bind_ok h
    exact emitSortKeys_onlyVeiled hlast hR

end

/-! ## Fragments of endpoints -/

/-- The traversals that find the id of an endpoint, from an edge or from a bucket of edges. -/
def endpointFragments : Scope → List Traversal
  | .element => [.anonymous [.inVertex, .id], .anonymous [.outVertex, .id]]
  | .bucket => [.anonymous [.unfold, .inVertex, .id], .anonymous [.unfold, .outVertex, .id]]

theorem Atom.fragment_mem_endpointFragments {a : Atom} :
    .anonymous (a.fragment .element) ∈ endpointFragments .element ↔
      ∃ c, a = .column c ∧ c.source.isEndpoint = true := by
  cases a with
  | constant l => simp [fragment, endpointFragments, Traversal.anonymous]
  | column c =>
    cases hsource : c.source <;>
      simp [fragment, endpointFragments, Traversal.anonymous, ColumnSource.steps, hsource,
        ColumnSource.isEndpoint]

/-- An aggregate ends with its own step, and so it is none of these fragments. -/
theorem Meaning.fragment_mem_endpointFragments {m : Meaning} :
    .anonymous (m.fragment .bucket) ∈ endpointFragments .bucket ↔
      ∃ c, m = .atom (.column c) ∧ c.source.isEndpoint = true := by
  have hunfold : ∀ steps : List Step,
      .anonymous (.unfold :: steps) ∈ endpointFragments .bucket ↔
        .anonymous steps ∈ endpointFragments .element := by
    simp [endpointFragments, Traversal.anonymous]
  have hid : ∀ f : Aggregate, f.step ≠ .id := by
    intro f h
    cases f <;> cases h
  cases m with
  | atom a =>
    cases a with
    | constant l => simp [fragment, Atom.fragment, endpointFragments, Traversal.anonymous]
    | column c =>
      refine (hunfold c.source.steps).trans ?_
      refine (Atom.column c).fragment_mem_endpointFragments.trans ?_
      simp
  | aggregate f operand =>
    have hlast : ∀ steps : List Step,
        .anonymous (steps ++ [f.step]) ∉ endpointFragments .element := by
      intro steps hmem
      simp only [endpointFragments, Traversal.anonymous, List.mem_cons, List.not_mem_nil, or_false,
        Traversal.mk.injEq, true_and] at hmem
      rcases hmem with hmem | hmem <;>
        · have hend := congrArg List.getLast? hmem
          rw [List.getLast?_concat] at hend
          exact hid f (Option.some.inj hend)
    have hnone : .anonymous ((Meaning.aggregate f operand).fragment .bucket) ∉
        endpointFragments .bucket := by
      cases operand with
      | none => exact fun hmem => hlast [] ((hunfold _).1 hmem)
      | some a => exact fun hmem => hlast _ ((hunfold _).1 hmem)
    simp [hnone]

/-- An expression stands for the id of an endpoint, behind a veil. -/
def HidesEndpoint (r : Registry) (table : TableId) (n : Node) : Prop :=
  Veiled r table n ∧ ∃ c, Means r table n (.atom (.column c)) ∧ c.source.isEndpoint = true

/-- Where only veiled keys lead to endpoints, the meaning of a key tells whether it hides one. -/
theorem hidesEndpoint_iff {r : Registry} {table : TableId} {n : Node} {m : Meaning}
    (hm : Means r table n m) (hveiled : OnlyVeiledEndpoints r table n) :
    HidesEndpoint r table n ↔ ∃ c, m = .atom (.column c) ∧ c.source.isEndpoint = true := by
  constructor
  · rintro ⟨-, c, hc, hend⟩
    exact ⟨c, hm.unique hc, hend⟩
  · rintro ⟨c, rfl, hend⟩
    exact ⟨hveiled c hm hend, c, hm, hend⟩

/-! ## Compiled queries -/

/-- The modifiers of an ordering. -/
def orderModifiers : List (Meaning × Direction) → List Step
  | [] => [.by (.anonymous [.unfold, .id]) none]
  | k :: rest => sortModifiers (k :: rest)

theorem sortSteps_eq (sorted : List (Meaning × Direction)) :
    sortSteps sorted = .order :: orderModifiers sorted := by
  cases sorted <;> rfl

theorem lasting_itemsFrom (table : TableId) (selectList : List Node) :
    ∀ position, Lasting fun r => itemsFrom r table position selectList := by
  induction selectList with
  | nil => exact fun _ => .const _
  | cons n rest ih =>
    intro position
    refine .bind ?_ fun items => .bind (ih (position + 1)) fun _ => .const _
    cases n with
    | identifier id =>
      cases hstar : id.isStar with
      | true =>
        simp only [entryItems, hstar, ↓reduceIte]
        exact .bind (.lift (lasting_schemaTable table)) fun _ => .const _
      | false =>
        simp only [entryItems, hstar, Bool.false_eq_true, ↓reduceIte]
        exact .const _
    | literal l => exact .const _
    | call op operands => exact .const _

theorem lasting_projectionItems (table : TableId) (selectList : List Node) :
    Lasting fun r => projectionItems r table selectList :=
  .bind (lasting_itemsFrom table selectList 0) fun _ => .const _

/-- What comes after the ordering of an outline. -/
def Outline.afterOrdering (o : Outline) : List Step :=
  filterSteps .bucket o.having ++ (filterSteps .bucket o.late ++ o.projection)

theorem Outline.afterOrdering_head (o : Outline) (key : Traversal) (direction : Option Direction) :
    o.afterOrdering.head? ≠ some (.by key direction) := by
  unfold afterOrdering
  cases o.having with
  | cons p rest => simp [filterSteps]
  | nil =>
    cases o.late with
    | cons p rest => simp [filterSteps]
    | nil => simp [filterSteps, projection]

/-- The steps of a query, with the modifiers of its grouping and of its ordering in view. -/
def keyedSteps (before grouping ordering after : List Step) : List Step :=
  before ++ .group :: (grouping ++ .unfold :: .selectValues :: .order :: (ordering ++ after))

/-- **Keys on endpoints are veiled.** In a compiled query, a branch of the grouping finds the id of
an endpoint exactly if the key it is emitted for hides one, and a modifier of the ordering does so
exactly if what its key sorts by hides one. Without keys there is no branch, and the only modifier
of the ordering sorts by the ids of the elements. -/
theorem endpoint_key_iff_hidden {schema : Schema} {placement : FilterPlacement} {s : Select}
    {q : CompiledQuery} (h : compile schema placement s = .ok q) :
    ∃ (items : List ProjectionItem) (before grouping ordering after : List Step),
      projectionItems q.registry 0 s.selectList = .ok items ∧
      q.traversal = .root (keyedSteps before grouping ordering after) ∧
      (∀ key direction, after.head? ≠ some (.by key direction)) ∧
      (keysOf s.groupBy = [] →
        grouping = [] ∨ grouping = [.by (.anonymous [.constant (.boolean true)]) none]) ∧
      (keysOf s.groupBy ≠ [] → ∃ branches : List Traversal,
        grouping = [.by (.anonymous [.union branches, .fold]) none] ∧
        List.Forall₂ (fun key branch =>
          branch ∈ endpointFragments .element ↔ HidesEndpoint q.registry 0 key)
          (keysOf s.groupBy) branches) ∧
      (keysOf s.orderBy = [] → ordering = [.by (.anonymous [.unfold, .id]) none]) ∧
      (keysOf s.orderBy ≠ [] → ∃ values : List (Traversal × Direction),
        (ordering = values.map fun v => .by v.1 (some v.2)) ∧
        List.Forall₂ (fun key v => ∃ expr, sortKey items key = .ok (expr, v.2) ∧
          (v.1 ∈ endpointFragments .bucket ↔ HidesEndpoint q.registry 0 expr))
          (keysOf s.orderBy) values) := by
  obtain ⟨run⟩ := compile_run h
  obtain ⟨drafts⟩ := emitStages_drafts run.emits
  obtain ⟨o, htraversal, ho⟩ := run.outline
  have hgroup : ∀ key ∈ keysOf s.groupBy, OnlyVeiledEndpoints q.registry 0 key := by
    rw [run.registry]
    exact emitGroupBy_onlyVeiled drafts.groups drafts.knows_grouped
  have hsort : ∀ key ∈ keysOf s.orderBy, ∀ k, sortKey run.items key = .ok k →
      OnlyVeiledEndpoints q.registry 0 k.1 := by
    rw [run.registry]
    exact emitOrderBy_onlyVeiled drafts.orders drafts.knows_ordered
  refine ⟨run.items, o.elementSteps, o.bucketing.modifiers, orderModifiers o.sorting,
    o.afterOrdering, ?_, ?_, o.afterOrdering_head, fun hnil => ?_, fun hne => ?_, fun hnil => ?_,
    fun hne => ?_⟩
  · exact lasting_projectionItems 0 s.selectList run.knows_reading run.lists
  · rw [htraversal, Outline.steps, Outline.bucketSteps, sortSteps_eq]
    simp [keyedSteps, Outline.afterOrdering]
  · rw [ho.noKeys hnil]
    cases o.discovers with
    | true => exact .inr rfl
    | false => exact .inl rfl
  · obtain ⟨atoms, hb, hatoms⟩ := ho.keys hne
    refine ⟨_, by rw [hb]; rfl, ?_⟩
    rw [List.forall₂_map_right_iff]
    have hboth := (List.forall₂_and_left _ _).2 ⟨hgroup, hatoms⟩
    refine hboth.imp fun key a hkey => ?_
    rw [hidesEndpoint_iff hkey.2 hkey.1, Atom.fragment_mem_endpointFragments]
    simp only [Meaning.atom.injEq]
  · have hsorting := ho.sorting
    rw [hnil, List.forall₂_nil_left_iff] at hsorting
    rw [hsorting]
    rfl
  · refine ⟨o.sorting.map fun k => (.anonymous (k.1.fragment .bucket), k.2), ?_, ?_⟩
    · have hsorting : o.sorting ≠ [] := by
        intro hnil
        have hkeys := ho.sorting
        rw [hnil, List.forall₂_nil_right_iff] at hkeys
        exact hne hkeys
      obtain ⟨k, rest, hcons⟩ := List.exists_cons_of_ne_nil hsorting
      rw [hcons, orderModifiers, sortModifiers, List.map_map]
      rfl
    · rw [List.forall₂_map_right_iff]
      have hboth := (List.forall₂_and_left _ _).2 ⟨hsort, ho.sorting⟩
      refine hboth.imp fun key k hkey => ?_
      obtain ⟨expr, hexpr, hm⟩ := hkey.2
      refine ⟨expr, hexpr, ?_⟩
      rw [hidesEndpoint_iff hm (hkey.1 _ hexpr), Meaning.fragment_mem_endpointFragments]

/-- Cities with roads between them. -/
def roadSchema : Schema :=
  ⟨[⟨"city", .vertex, .integer, [], none⟩,
    ⟨"road", .edge "city" "city", .string, [], some (.integer, .integer)⟩]⟩

/-- `SELECT city_IN_ID DESC AS to FROM road AS r GROUP BY to ORDER BY to`. -/
def byDestination : Select where
  selectList := [.as (.desc (.identifier ⟨["city_IN_ID"]⟩)) "to"]
  source := some (.as (.identifier ⟨["road"]⟩) "r")
  filter := none
  groupBy := some [.identifier ⟨["to"]⟩]
  having := none
  orderBy := some [.identifier ⟨["to"]⟩]

def byDestinationSteps : List Step :=
  [.edges, .hasLabel "road", .group,
    .by (.anonymous [.union [.anonymous [.inVertex, .id]], .fold]) none, .unfold, .selectValues,
    .order, .by (.anonymous [.unfold, .inVertex, .id]) (some .asc), .project ["to"],
    .by (orMarker (.anonymous [.unfold, .inVertex, .id])) none]

theorem compile_byDestination : ∃ q, compile roadSchema .beforeGrouping byDestination = .ok q ∧
    q.traversal = .root byDestinationSteps := by
  refine ⟨⟨.root byDestinationSteps, [⟨"to", .integer⟩],
    ⟨roadSchema, [⟨0, "road", "r", .edge "city" "city"⟩], [("r", "road")],
      [(0, [⟨"to", .integer⟩])], ["to"], [("to", .desc (.identifier ⟨["city_IN_ID"]⟩))],
      false⟩⟩, ?_, rfl⟩
  cbv

theorem endpoint_key_iff_hidden_byDestination :
    ∃ q, compile roadSchema .beforeGrouping byDestination = .ok q ∧
      ∃ (items : List ProjectionItem) (before after : List Step) (branches : List Traversal)
        (values : List (Traversal × Direction)),
        projectionItems q.registry 0 byDestination.selectList = .ok items ∧
        q.traversal = .root (keyedSteps before [.by (.anonymous [.union branches, .fold]) none]
          (values.map fun v => .by v.1 (some v.2)) after) ∧
        (∀ key direction, after.head? ≠ some (.by key direction)) ∧
        List.Forall₂ (fun key branch =>
          branch ∈ endpointFragments .element ↔ HidesEndpoint q.registry 0 key)
          [.identifier ⟨["to"]⟩] branches ∧
        List.Forall₂ (fun key v => ∃ expr, sortKey items key = .ok (expr, v.2) ∧
          (v.1 ∈ endpointFragments .bucket ↔ HidesEndpoint q.registry 0 expr))
          [.identifier ⟨["to"]⟩] values := by
  obtain ⟨q, hq, -⟩ := compile_byDestination
  obtain ⟨items, before, grouping, ordering, after, hitems, htraversal, hafter, -, hgroups, -,
    horders⟩ := endpoint_key_iff_hidden hq
  obtain ⟨branches, rfl, hbranches⟩ := hgroups nofun
  obtain ⟨values, rfl, hvalues⟩ := horders nofun
  exact ⟨q, hq, items, before, after, branches, values, hitems, htraversal, hafter, hbranches,
    hvalues⟩

/-- Under a sort mark and an alias, the endpoint of an edge is a key of the grouping and of the
ordering. -/
theorem grouped_and_sorted_by_endpoint :
    ∃ q branches after, compile roadSchema .beforeGrouping byDestination = .ok q ∧
      q.traversal = .root (.edges :: .hasLabel "road" :: .group ::
        .by (.anonymous [.union branches, .fold]) none :: .unfold :: .selectValues :: .order ::
        .by (.anonymous [.unfold, .inVertex, .id]) (some .asc) :: after) ∧
      .anonymous [.inVertex, .id] ∈ branches := by
  obtain ⟨q, hq, htraversal⟩ := compile_byDestination
  exact ⟨q, _, _, hq, htraversal, List.mem_singleton_self _⟩

end GraphSelect
