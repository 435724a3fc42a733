import GraphSelect.Proofs.Query.Condition
import GraphSelect.Proofs.Schema.Lookup
import GraphSelect.Query.Compile
import Mathlib.Data.List.Forall2
import Mathlib.Tactic.Tauto

/-!
# The stages of a compiled select

Each clause of a select is emitted by a function of its own. Here stands, clause by clause, what a
success does to the draft: the steps that are added are given by the meanings of the expressions in
the clause, and all that is learnt is named in them. Compiling is one stage after the other, so a
statement about a compiled select starts from the drafts between them.
-/

set_option autoImplicit false

namespace GraphSelect

open Sql

/-- An expression is named in one of several trees. -/
def NamedIn (trees : List Node) (name : String) (expr : Node) : Prop :=
  ∃ n ∈ trees, n.Names name expr

section

variable {trees trees' : List Node} {added : List Step} {aggregates : Bool} {d d' : Draft}

theorem Stage.mono_trees (h : Stage (NamedIn trees) added aggregates d d') (hs : trees ⊆ trees') :
    Stage (NamedIn trees') added aggregates d d' :=
  h.mono fun ⟨n, hn, hname⟩ => ⟨n, hs hn, hname⟩

theorem Stage.named_in {n m : Node} (h : Stage n.Names added aggregates d d') (hm : m ∈ trees)
    (hn : Node.Within n m) : Stage (NamedIn trees) added aggregates d d' :=
  h.mono fun hname => ⟨m, hm, hname.within hn⟩

end

/-- Where all aliases are named in some trees, what is learnt from the trees keeps it so. -/
theorem Registry.Learns.binds_namedIn {trees : List Node} {r r' : Registry}
    (h : r.Learns (NamedIn trees) r') (hr : r.Binds (NamedIn trees)) :
    r'.Binds (NamedIn trees) := by
  refine h.binds ?_ (fun hgiven => hgiven) hr
  rintro name expr name' expr' ⟨n, hn, hname⟩ hname'
  exact ⟨n, hn, hname'.within hname.expr_within⟩

/-! ## Grouping -/

/-- The key of a grouping: the values of several atoms as one list. -/
def groupKey (atoms : List Atom) : Traversal :=
  .anonymous [.union (atoms.map fun a => .anonymous (a.fragment .element)), .fold]

section

variable {table : TableId} {d d' : Draft}

theorem emitGroupKey_stage {key : Node} {t : Traversal}
    (h : emitGroupKey table key d = (.ok t, d')) :
    ∃ a, t = .anonymous (a.fragment .element) ∧ Means d'.registry table key (.atom a) ∧
      Stage key.Names [] false d d' := by
  obtain ⟨view, d₁, h₁, hrest⟩ := Emit.bind_ok h
  obtain ⟨hview, rfl⟩ := Emit.lift_ok h₁
  cases view with
  | identifier id =>
    obtain ⟨b, d₂, h₂, hlast⟩ := Emit.bind_ok hrest
    obtain ⟨-, rfl⟩ := Emit.ask_ok h₂
    split at hlast
    · exact absurd hlast Emit.not_fail
    · obtain ⟨m, rfl, hm, helement, hstage⟩ := emitValue_branch hlast
      obtain ⟨a, rfl⟩ := helement rfl
      cases view_cases hview
      exact ⟨a, rfl, hm, hstage⟩
  | _ => exact absurd hrest Emit.not_fail

theorem emitGroupKeys_stage {keys : List Node} {branches : List Traversal}
    (h : emitGroupKeys table keys d = (.ok branches, d')) :
    ∃ atoms, branches = atoms.map (fun a => .anonymous (a.fragment .element)) ∧
      List.Forall₂ (fun key a => Means d'.registry table key (.atom a)) keys atoms ∧
      Stage (NamedIn keys) [] false d d' := by
  induction keys generalizing d branches with
  | nil =>
    obtain ⟨rfl, rfl⟩ := Emit.pure_ok h
    exact ⟨[], rfl, .nil, .refl d'⟩
  | cons key rest ih =>
    obtain ⟨t, d₁, h₁, hrest⟩ := Emit.bind_ok h
    obtain ⟨ts, d₂, h₂, hlast⟩ := Emit.bind_ok hrest
    obtain ⟨rfl, rfl⟩ := Emit.pure_ok hlast
    obtain ⟨a, rfl, hm, hstage⟩ := emitGroupKey_stage h₁
    obtain ⟨atoms, rfl, hms, hstages⟩ := ih h₂
    refine ⟨a :: atoms, rfl, .cons (hm.grow hstages.learns.toGrows) hms, ?_⟩
    exact (hstage.named_in (by simp) (.refl key)).trans (hstages.mono_trees (by simp))

theorem emitGroupBy_keys {keys : List Node} (hkeys : keys ≠ [])
    (h : emitGroupBy table keys d = (.ok (), d')) :
    ∃ atoms, List.Forall₂ (fun key a => Means d'.registry table key (.atom a)) keys atoms ∧
      Stage (NamedIn keys) [.group, .by (groupKey atoms) none, .unfold] false d d' := by
  obtain ⟨_, d₁, h₁, hrest⟩ := Emit.bind_ok h
  simp only [List.isEmpty_iff, hkeys, ↓reduceIte] at hrest
  obtain ⟨branches, d₂, h₂, hrest⟩ := Emit.bind_ok hrest
  obtain ⟨_, d₃, h₃, hlast⟩ := Emit.bind_ok hrest
  obtain ⟨atoms, rfl, hms, hstage⟩ := emitGroupKeys_stage h₂
  have hby : Stage (NamedIn keys) [.by (groupKey atoms) none, .unfold] false d₂ d' :=
    (Stage.append h₃).trans (.append hlast)
  refine ⟨atoms, hms.imp fun _ _ hm => hm.grow hby.learns.toGrows, ?_⟩
  exact ((Stage.append h₁).trans hstage).trans hby

/-- The grouping without keys: one bucket, or one for each element. -/
theorem emitGroupBy_nil {Given : String → Node → Prop}
    (h : emitGroupBy table [] d = (.ok (), d')) :
    Stage Given (.group :: (if d.registry.hasAggregate
      then [.by (.anonymous [.constant (.boolean true)]) none] else []) ++ [.unfold])
      false d d' := by
  obtain ⟨_, d₁, h₁, hrest⟩ := Emit.bind_ok h
  simp only [List.isEmpty_nil, ↓reduceIte] at hrest
  obtain ⟨r, d₂, h₂, hlast⟩ := Emit.bind_ok hrest
  obtain ⟨rfl, rfl⟩ := Emit.registry_ok h₂
  have hgroup : Stage Given [.group] false d d₂ := .append h₁
  rw [hgroup.hasAggregate, Bool.or_false] at hlast
  cases hagg : d.registry.hasAggregate with
  | true =>
    simp only [hagg, ↓reduceIte] at hlast ⊢
    obtain ⟨_, d₃, h₃, hend⟩ := Emit.bind_ok hlast
    exact (hgroup.trans (.append h₃)).trans (.append hend)
  | false =>
    simp only [hagg, Bool.false_eq_true, ↓reduceIte] at hlast ⊢
    exact hgroup.trans (.append hlast)

/-! ## Ordering -/

theorem unaliased_within {n expr : Node} (h : n.unaliased = .ok expr) : Node.Within expr n := by
  rcases unaliased_cases h with rfl | ⟨op, name, -, rfl⟩
  · exact .refl expr
  · exact .of_operand (by simp)

/-- A sort key is marked, or it is what it sorts by. -/
theorem splitDirection_cases {key operand : Node} {direction : Direction}
    (h : splitDirection key = .ok (operand, direction)) :
    operand = key ∨ ∃ op : Operator, key = .call op [operand] := by
  obtain ⟨view, hview, hrest⟩ := ok_of_bind h
  split at hrest
  · cases hrest
    cases view_cases hview
    exact .inr ⟨_, rfl⟩
  · cases hrest
  · cases hrest
    exact .inl rfl

theorem splitDirection_within {key operand : Node} {direction : Direction}
    (h : splitDirection key = .ok (operand, direction)) : Node.Within operand key := by
  rcases splitDirection_cases h with rfl | ⟨op, rfl⟩
  · exact .refl operand
  · exact .of_operand (by simp)

theorem itemAt_mem {items : List ProjectionItem} {position : Int64} {expr : Node}
    (h : itemAt items position = .ok expr) : ∃ item ∈ items, item.expr = expr := by
  unfold itemAt at h
  split at h
  · cases h
  · split at h
    · cases h
      exact ⟨_, List.mem_of_getElem? ‹_›, rfl⟩
    · cases h

/-- A sort key loses its mark, counts an item if it is a number, and loses a name. -/
theorem sortKey_ok {items : List ProjectionItem} {key expr : Node} {direction : Direction}
    (h : sortKey items key = .ok (expr, direction)) :
    ∃ operand chosen, splitDirection key = .ok (operand, direction) ∧
      chosen.unaliased = .ok expr ∧
      (chosen = operand ∨ ∃ position, operand = .literal (.integer position) ∧
        itemAt items position = .ok chosen) := by
  obtain ⟨⟨operand, dir⟩, hsplit, hrest⟩ := ok_of_bind h
  simp only at hrest
  split at hrest
  · obtain ⟨chosen, hchosen, hrest₁⟩ := ok_of_bind hrest
    obtain ⟨inner, hinner, hlast⟩ := ok_of_bind hrest₁
    cases hlast
    exact ⟨_, chosen, hsplit, hinner, .inr ⟨_, rfl, hchosen⟩⟩
  · obtain ⟨chosen, hchosen, hrest₁⟩ := ok_of_bind hrest
    cases hchosen
    obtain ⟨inner, hinner, hlast⟩ := ok_of_bind hrest₁
    cases hlast
    exact ⟨_, _, hsplit, hinner, .inl rfl⟩

/-- What is sorted by stands in the sort key, or in the item that it counts. -/
theorem sortKey_within {items : List ProjectionItem} {key expr : Node} {direction : Direction}
    (h : sortKey items key = .ok (expr, direction)) :
    ∃ n ∈ key :: items.map ProjectionItem.expr, Node.Within expr n := by
  obtain ⟨operand, chosen, hsplit, hexpr, rfl | ⟨position, -, hitem⟩⟩ := sortKey_ok h
  · exact ⟨key, List.mem_cons_self, (unaliased_within hexpr).trans (splitDirection_within hsplit)⟩
  · obtain ⟨item, hmem, rfl⟩ := itemAt_mem hitem
    exact ⟨item.expr, .tail _ (List.mem_map_of_mem hmem), unaliased_within hexpr⟩

/-- A sort key is what it sorts by, perhaps under a name and a mark, or a number under a mark. -/
theorem of_sortKey {P : Node → Prop} {items : List ProjectionItem} {key expr : Node}
    {direction : Direction} (h : sortKey items key = .ok (expr, direction)) (hexpr : P expr)
    (hnamed : ∀ (op : Operator) (name : String), op.role? = some .naming →
      P (.call op [expr, .identifier ⟨[name]⟩]))
    (hliteral : ∀ l : Literal, P (.literal l))
    (hmarked : ∀ (op : Operator) (operand : Node), P operand → P (.call op [operand])) : P key := by
  obtain ⟨operand, chosen, hsplit, hchosen, hcases⟩ := sortKey_ok h
  have hoperand : P operand := by
    rcases hcases with rfl | ⟨position, rfl, -⟩
    · rcases unaliased_cases hchosen with rfl | ⟨op, name, hop, rfl⟩
      · exact hexpr
      · exact hnamed op name hop
    · exact hliteral _
  rcases splitDirection_cases hsplit with rfl | ⟨op, rfl⟩
  · exact hoperand
  · exact hmarked op operand hoperand

/-- A sort key sorts by a meaning, in a direction. -/
def SortsBy (r : Registry) (table : TableId) (items : List ProjectionItem) (key : Node)
    (k : Meaning × Direction) : Prop :=
  ∃ expr, sortKey items key = .ok (expr, k.2) ∧ Means r table expr k.1

theorem SortsBy.grow {r r' : Registry} {items : List ProjectionItem} {key : Node}
    {k : Meaning × Direction} (h : SortsBy r table items key k) (hg : r.Grows r') :
    SortsBy r' table items key k := by
  obtain ⟨expr, hkey, hm⟩ := h
  exact ⟨expr, hkey, hm.grow hg⟩

theorem SortsBy.unique {r : Registry} {items : List ProjectionItem} {key : Node}
    {k k' : Meaning × Direction} (h : SortsBy r table items key k)
    (h' : SortsBy r table items key k') : k = k' := by
  obtain ⟨m, direction⟩ := k
  obtain ⟨m', direction'⟩ := k'
  obtain ⟨expr, hkey, hm⟩ := h
  obtain ⟨expr', hkey', hm'⟩ := h'
  cases hkey.symm.trans hkey'
  cases (hm.unique hm' : m = m')
  rfl

def sortModifiers (keys : List (Meaning × Direction)) : List Step :=
  keys.map fun k => .by (.anonymous (k.1.fragment .bucket)) (some k.2)

/-- A sort key that is accepted has a value, and the others follow it. -/
theorem emitSortKeys_cons_ok {items : List ProjectionItem} {key : Node} {rest : List Node}
    (h : emitSortKeys table items (key :: rest) d = (.ok (), d')) :
    ∃ expr direction value d₁ d₂, sortKey items key = .ok (expr, direction) ∧
      checkSortable d.registry table expr = .ok () ∧
      Emit.branch (emitValue table .bucket expr) d = (.ok value, d₁) ∧
      Emit.append (.by value (some direction)) d₁ = (.ok (), d₂) ∧
      emitSortKeys table items rest d₂ = (.ok (), d') := by
  obtain ⟨⟨expr, direction⟩, d₁, h₁, hrest₁⟩ := Emit.bind_ok h
  obtain ⟨hkey, rfl⟩ := Emit.lift_ok h₁
  obtain ⟨_, d₂, h₂, hrest₂⟩ := Emit.bind_ok hrest₁
  obtain ⟨hcheck, rfl⟩ := Emit.ask_ok h₂
  obtain ⟨value, d₃, h₃, hrest₃⟩ := Emit.bind_ok hrest₂
  obtain ⟨_, d₄, h₄, hlast⟩ := Emit.bind_ok hrest₃
  exact ⟨expr, direction, value, d₃, d₄, hkey, hcheck, h₃, h₄, hlast⟩

theorem emitSortKeys_stage {items : List ProjectionItem} {keys : List Node}
    (h : emitSortKeys table items keys d = (.ok (), d')) :
    ∃ sorted : List (Meaning × Direction),
      List.Forall₂ (SortsBy d'.registry table items) keys sorted ∧
      Stage (NamedIn (keys ++ items.map ProjectionItem.expr)) (sortModifiers sorted)
        (sorted.any fun k => k.1.isAggregate) d d' := by
  induction keys generalizing d with
  | nil =>
    obtain ⟨-, rfl⟩ := Emit.pure_ok h
    exact ⟨[], .nil, .refl d'⟩
  | cons key rest ih =>
    obtain ⟨expr, direction, t, d₁, d₂, hkey, -, h₁, h₂, hlast⟩ := emitSortKeys_cons_ok h
    obtain ⟨m, rfl, hm, -, hvalue⟩ := emitValue_branch h₁
    obtain ⟨sorted, hkeys, hsorted⟩ := ih hlast
    obtain ⟨n, hn, hwithin⟩ := sortKey_within hkey
    have hn' : n ∈ (key :: rest) ++ items.map ProjectionItem.expr := by
      simp only [List.mem_cons, List.cons_append, List.mem_append] at hn ⊢
      tauto
    have hfirst := (hvalue.named_in hn' hwithin).trans (.append h₂)
    have hrest := (Stage.append h₂).trans hsorted
    refine ⟨(m, direction) :: sorted,
      .cons ⟨expr, hkey, hm.grow hrest.learns.toGrows⟩ hkeys, ?_⟩
    have hall := hfirst.trans (hsorted.mono_trees (by simp))
    simpa [sortModifiers] using hall

theorem emitOrderBy_nil {Given : String → Node → Prop} {items : List ProjectionItem}
    (h : emitOrderBy table items [] d = (.ok (), d')) :
    Stage Given [.order, .by (.anonymous [.unfold, .id]) none] false d d' := by
  obtain ⟨_, d₁, h₁, hlast⟩ := Emit.bind_ok h
  exact (Stage.append h₁).trans (.append hlast)

/-- The steps of an ordering. Without keys, buckets are sorted by the ids of their elements. -/
def sortSteps : List (Meaning × Direction) → List Step
  | [] => [.order, .by (.anonymous [.unfold, .id]) none]
  | k :: rest => .order :: sortModifiers (k :: rest)

theorem emitOrderBy_stage {items : List ProjectionItem} {keys : List Node}
    (h : emitOrderBy table items keys d = (.ok (), d')) :
    ∃ sorted : List (Meaning × Direction),
      List.Forall₂ (SortsBy d'.registry table items) keys sorted ∧
      Stage (NamedIn (keys ++ items.map ProjectionItem.expr)) (sortSteps sorted)
        (sorted.any fun k => k.1.isAggregate) d d' := by
  cases keys with
  | nil => exact ⟨[], .nil, emitOrderBy_nil h⟩
  | cons key rest =>
    obtain ⟨_, d₁, h₁, hlast⟩ := Emit.bind_ok h
    obtain ⟨sorted, hkeys, hsorted⟩ := emitSortKeys_stage hlast
    refine ⟨sorted, hkeys, ?_⟩
    cases hkeys with
    | cons _ _ => simpa [sortSteps] using (Stage.append h₁).trans hsorted

/-! ## Filters -/

theorem emitHaving_ok {scope : Scope} {n : Node} (h : emitHaving table scope n d = (.ok (), d')) :
    emitFilterStep table scope n d = (.ok (), d') := by
  unfold emitHaving at h
  split at h
  · exact h
  · exact absurd h Emit.not_fail

/-- One filter for each condition. -/
def filterSteps (scope : Scope) (conditions : List Condition) : List Step :=
  conditions.map fun p => .filter (.anonymous (p.steps scope))

/-- What a filtering clause does to a draft. The clause is a list of trees, empty if it is left out,
and there is a condition for each of them. -/
structure FilterStage (table : TableId) (scope : Scope) (clause : List Node)
    (conditions : List Condition) (d d' : Draft) : Prop
    extends Stage (NamedIn clause) (filterSteps scope conditions)
      (conditions.any Condition.hasAggregate) d d' where
  states : List.Forall₂ (States d'.registry table) clause conditions
  element : scope = .element → conditions.any Condition.hasAggregate = false

theorem FilterStage.skip {scope : Scope} (d : Draft) : FilterStage table scope [] [] d d :=
  ⟨.refl d, .nil, fun _ => rfl⟩

theorem emitFilterStep_filters {scope : Scope} {n : Node}
    (h : emitFilterStep table scope n d = (.ok (), d')) :
    ∃ conditions, FilterStage table scope [n] conditions d d' := by
  obtain ⟨p, hstates, helement, hstage⟩ := emitFilterStep_stage h
  refine ⟨[p], ?_, .cons hstates .nil, fun hs => by simp [helement hs]⟩
  simpa [filterSteps] using hstage.named_in (List.mem_singleton_self n) (.refl n)

/-! ## The projection -/

def itemModifiers (meanings : List Meaning) : List Step :=
  meanings.map fun m => .by (orMarker (.anonymous (m.fragment .bucket))) none

theorem emitItems_stage {items : List ProjectionItem}
    (h : emitItems table items d = (.ok (), d')) :
    ∃ meanings, List.Forall₂ (fun item m => Means d'.registry table item.expr m) items meanings ∧
      Stage (NamedIn (items.map ProjectionItem.expr)) (itemModifiers meanings)
        (meanings.any Meaning.isAggregate) d d' := by
  induction items generalizing d with
  | nil =>
    obtain ⟨-, rfl⟩ := Emit.pure_ok h
    exact ⟨[], .nil, .refl d'⟩
  | cons item rest ih =>
    obtain ⟨t, d₁, h₁, hrest⟩ := Emit.bind_ok h
    obtain ⟨_, d₂, h₂, hlast⟩ := Emit.bind_ok hrest
    obtain ⟨m, rfl, hm, -, hvalue⟩ := emitValue_branch h₁
    obtain ⟨meanings, hms, hstages⟩ := ih hlast
    have hfirst := (hvalue.named_in (List.mem_cons_self (l := rest.map ProjectionItem.expr))
      (.refl item.expr)).trans (.append h₂)
    have hrest := (Stage.append h₂).trans hstages
    refine ⟨m :: meanings, .cons (hm.grow hrest.learns.toGrows) hms, ?_⟩
    simpa [itemModifiers] using hfirst.trans (hstages.mono_trees (by simp))

theorem emitProjection_stage {items : List ProjectionItem}
    (h : emitProjection table items d = (.ok (), d')) :
    ∃ meanings, List.Forall₂ (fun item m => Means d'.registry table item.expr m) items meanings ∧
      Stage (NamedIn (items.map ProjectionItem.expr))
        (.project (items.map ProjectionItem.name) :: itemModifiers meanings)
        (meanings.any Meaning.isAggregate) d d' := by
  obtain ⟨_, d₁, h₁, hlast⟩ := Emit.bind_ok h
  obtain ⟨meanings, hms, hstage⟩ := emitItems_stage hlast
  exact ⟨meanings, hms, by simpa using (Stage.append h₁).trans hstage⟩

/-- An entry of the select list is a star, which stands for all columns, or it stands for itself. -/
theorem entryItems_cases {r : Registry} {position : Nat} {n : Node} {items : List ProjectionItem}
    (h : entryItems r table position n = .ok items) :
    (n.isStar = true ∧ ∃ t, r.schemaTable table = .ok t ∧
      items = t.allColumns.map fun c => ⟨c.name, Node.ident c.name⟩) ∨
      (n.isStar = false ∧ ∃ name, items = [⟨name, n⟩]) := by
  cases n with
  | identifier id =>
    simp only [entryItems] at h
    split at h
    · obtain ⟨t, ht, hlast⟩ := ok_of_bind h
      cases hlast
      exact .inl ⟨‹_›, t, liftRegistry_ok ht, rfl⟩
    · rename_i hstar
      cases h
      exact .inr ⟨Bool.eq_false_iff.2 hstar, _, rfl⟩
  | literal l =>
    cases h
    exact .inr ⟨rfl, _, rfl⟩
  | call op operands =>
    obtain ⟨view, -, hlast⟩ := ok_of_bind h
    cases hlast
    exact .inr ⟨rfl, _, rfl⟩

theorem projectionItems_ok {r : Registry} {selectList : List Node} {items : List ProjectionItem}
    (h : projectionItems r table selectList = .ok items) :
    itemsFrom r table 0 selectList = .ok items ∧ checkNames [] items = .ok () := by
  obtain ⟨listed, hlisted, hrest⟩ := ok_of_bind h
  obtain ⟨_, hcheck, hlast⟩ := ok_of_bind hrest
  cases hlast
  exact ⟨hlisted, hcheck⟩

theorem checkNames_nodup {items : List ProjectionItem} {seen : List String}
    (h : checkNames seen items = .ok ()) :
    (items.map ProjectionItem.name).Nodup ∧ ∀ item ∈ items, item.name ∉ seen := by
  induction items generalizing seen with
  | nil => simp
  | cons item rest ih =>
    rw [checkNames] at h
    split at h
    · cases h
    · rename_i hseen
      obtain ⟨hnodup, hfresh⟩ := ih h
      rw [List.contains_iff_mem] at hseen
      refine ⟨?_, ?_⟩
      · rw [List.map_cons, List.nodup_cons]
        refine ⟨fun hmem => ?_, hnodup⟩
        obtain ⟨other, hother, heq⟩ := List.mem_map.1 hmem
        exact hfresh other hother (heq ▸ List.mem_cons_self)
      · rw [List.forall_mem_cons]
        exact ⟨hseen, fun other hother hmem => hfresh other hother (List.mem_cons_of_mem _ hmem)⟩

theorem outputsOf_ok {r : Registry} {items : List ProjectionItem} {columns : List OutputColumn}
    (h : outputsOf r table items = .ok columns) :
    List.Forall₂ (fun item c => c.name = item.name ∧ columnType r table item.expr = .ok c.type)
      items columns := by
  induction items generalizing columns with
  | nil =>
    cases h
    exact .nil
  | cons item rest ih =>
    obtain ⟨type, htype, hrest₁⟩ := ok_of_bind h
    obtain ⟨more, hmore, hlast⟩ := ok_of_bind hrest₁
    cases hlast
    exact .cons ⟨rfl, htype⟩ (ih hmore)

theorem recordProjection_ok {items : List ProjectionItem}
    (h : recordProjection table items d = (.ok (), d')) :
    ∃ columns, outputsOf d.registry table items = .ok columns ∧ columns ≠ [] ∧
      d.registry.outputs = [] ∧ d' = ⟨d.registry.withOutputs table columns, d.steps⟩ := by
  obtain ⟨columns, d₁, h₁, hrest⟩ := Emit.bind_ok h
  obtain ⟨hcolumns, rfl⟩ := Emit.ask_ok h₁
  obtain ⟨r, hr, rfl⟩ := Emit.onRegistry_ok hrest
  obtain ⟨-, hnone, hne, rfl⟩ := Registry.recordOutputs_ok_iff.1 hr
  exact ⟨columns, hcolumns, hne, hnone, rfl⟩

theorem recordProjection_stage {items : List ProjectionItem} {Given : String → Node → Prop}
    (h : recordProjection table items d = (.ok (), d')) :
    ∃ columns, outputsOf d.registry table items = .ok columns ∧
      d'.registry.outputs = [(table, columns)] ∧ Stage Given [] false d d' := by
  obtain ⟨columns, hcolumns, -, hnone, rfl⟩ := recordProjection_ok h
  have houtputs : (d.registry.withOutputs table columns).outputs = [(table, columns)] := by
    rw [Registry.withOutputs, hnone, List.nil_append]
  exact ⟨columns, hcolumns, houtputs, (List.append_nil _).symm,
    ⟨⟨rfl, rfl, id⟩, fun _ _ hb => hb⟩, (Bool.or_false _).symm⟩

/-! ## Compiling -/

/-- The trees of a select: the items that its select list stands for, and its clauses. -/
def Sql.Select.trees (s : Select) (items : List ProjectionItem) : List Node :=
  items.map ProjectionItem.expr ++ s.filter.toList ++ keysOf s.groupBy ++ s.having.toList ++
    keysOf s.orderBy

/-- Whatever is added, all that is learnt is named in these trees. -/
def AnyStage (trees : List Node) (d d' : Draft) : Prop :=
  ∃ added aggregates, Stage (NamedIn trees) added aggregates d d'

theorem AnyStage.trans {trees : List Node} {d'' : Draft} (h : AnyStage trees d d')
    (h' : AnyStage trees d' d'') : AnyStage trees d d'' := by
  obtain ⟨_, _, h⟩ := h
  obtain ⟨_, _, h'⟩ := h'
  exact ⟨_, _, h.trans h'⟩

variable {s : Select} {placement : FilterPlacement} {items : List ProjectionItem}

/-- The WHERE clause as far as it stands here. -/
def Sql.Select.filterAt (s : Select) (placement here : FilterPlacement) : List Node :=
  if placement = here then s.filter.toList else []

/-- What reaches a WHERE filter. -/
def FilterPlacement.scope : FilterPlacement → Scope
  | .beforeGrouping => .element
  | .afterHaving => .bucket

theorem emitPlaced_filters {here : FilterPlacement}
    (h : emitPlaced table s placement here d = (.ok (), d')) :
    ∃ conditions, FilterStage table here.scope (s.filterAt placement here) conditions d d' := by
  unfold emitPlaced at h
  unfold Select.filterAt
  cases hfilter : s.filter with
  | none =>
    simp only [hfilter] at h
    obtain ⟨-, rfl⟩ := Emit.pure_ok h
    exact ⟨[], by simpa using FilterStage.skip d'⟩
  | some filter =>
    simp only [hfilter] at h
    split at h
    · rename_i hhere
      rw [if_pos hhere]
      cases here with
      | beforeGrouping => exact emitFilterStep_filters (emitWhere_ok h)
      | afterHaving => exact emitFilterStep_filters (emitWhere_ok h)
    · rename_i hhere
      rw [if_neg hhere]
      obtain ⟨-, rfl⟩ := Emit.pure_ok h
      exact ⟨[], .skip d'⟩

theorem emitHavingClause_filters (h : emitHavingClause table s d = (.ok (), d')) :
    ∃ conditions, FilterStage table .bucket s.having.toList conditions d d' := by
  unfold emitHavingClause at h
  cases hhaving : s.having with
  | none =>
    simp only [hhaving] at h
    obtain ⟨-, rfl⟩ := Emit.pure_ok h
    exact ⟨[], .skip d'⟩
  | some having =>
    simp only [hhaving] at h
    exact emitFilterStep_filters (emitHaving_ok h)

theorem emitPlaced_stage {here : FilterPlacement}
    (h : emitPlaced table s placement here d = (.ok (), d')) : AnyStage (s.trees items) d d' := by
  obtain ⟨conditions, hfilters⟩ := emitPlaced_filters h
  refine ⟨_, _, hfilters.mono_trees fun n hn => ?_⟩
  unfold Select.filterAt at hn
  split at hn
  · simp [Select.trees, hn]
  · cases hn

theorem emitHavingClause_stage (h : emitHavingClause table s d = (.ok (), d')) :
    AnyStage (s.trees items) d d' := by
  obtain ⟨conditions, hfilters⟩ := emitHavingClause_filters h
  refine ⟨_, _, hfilters.mono_trees fun n hn => ?_⟩
  simp only [Select.trees, List.mem_append]
  tauto

theorem emitOrderClause_stage (h : emitOrderBy table items (keysOf s.orderBy) d = (.ok (), d')) :
    AnyStage (s.trees items) d d' := by
  obtain ⟨sorted, -, hsorted⟩ := emitOrderBy_stage h
  refine ⟨_, _, hsorted.mono_trees fun n hn => ?_⟩
  simp only [Select.trees, List.mem_append] at hn ⊢
  tauto

theorem emitProjection_any (h : emitProjection table items d = (.ok (), d')) :
    AnyStage (s.trees items) d d' := by
  obtain ⟨meanings, -, hitems⟩ := emitProjection_stage h
  refine ⟨_, _, hitems.mono_trees fun n hn => ?_⟩
  simp only [Select.trees, List.mem_append]
  tauto

theorem emitDiscovery_stage (h : emitDiscovery table items s d = (.ok (), d')) :
    AnyStage (s.trees items) d d' := by
  obtain ⟨_, d₁, h₁, hrest⟩ := Emit.bind_ok h
  obtain ⟨_, d₂, h₂, hlast⟩ := Emit.bind_ok hrest
  exact ((emitProjection_any h₁).trans (emitHavingClause_stage h₂)).trans
    (emitOrderClause_stage hlast)

/-- The drafts between the stages of a select. -/
structure StageDrafts (table : TableId) (items : List ProjectionItem) (s : Select)
    (placement : FilterPlacement) (d d' : Draft) where
  filtered : Draft
  grouped : Draft
  ordered : Draft
  kept : Draft
  keptAgain : Draft
  projected : Draft
  placedFirst : emitPlaced table s placement .beforeGrouping d = (.ok (), filtered)
  groups : emitGroupBy table (keysOf s.groupBy) filtered = (.ok (), grouped)
  orders : emitOrderBy table items (keysOf s.orderBy)
    ⟨grouped.registry, grouped.steps ++ [.selectValues]⟩ = (.ok (), ordered)
  having : emitHavingClause table s ordered = (.ok (), kept)
  placedLast : emitPlaced table s placement .afterHaving kept = (.ok (), keptAgain)
  projects : emitProjection table items keptAgain = (.ok (), projected)
  records : recordProjection table items projected = (.ok (), d')

theorem emitStages_drafts (h : emitStages table items s placement d = (.ok (), d')) :
    Nonempty (StageDrafts table items s placement d d') := by
  obtain ⟨_, d₁, h₁, hrest₁⟩ := Emit.bind_ok h
  obtain ⟨_, d₂, h₂, hrest₂⟩ := Emit.bind_ok hrest₁
  obtain ⟨_, d₃, h₃, hrest₃⟩ := Emit.bind_ok hrest₂
  cases Emit.append_ok h₃
  obtain ⟨_, d₄, h₄, hrest₄⟩ := Emit.bind_ok hrest₃
  obtain ⟨_, d₅, h₅, hrest₅⟩ := Emit.bind_ok hrest₄
  obtain ⟨_, d₆, h₆, hrest₆⟩ := Emit.bind_ok hrest₅
  obtain ⟨_, d₇, h₇, hlast⟩ := Emit.bind_ok hrest₆
  exact ⟨⟨d₁, d₂, d₄, d₅, d₆, d₇, h₁, h₂, h₄, h₅, h₆, h₇, hlast⟩⟩

/-- From the buckets to the end of the projection. -/
theorem StageDrafts.afterGrouping (h : StageDrafts table items s placement d d') :
    AnyStage (s.trees items) h.grouped h.projected := by
  have hvalues : AnyStage (s.trees items) h.grouped
      ⟨h.grouped.registry, h.grouped.steps ++ [.selectValues]⟩ := ⟨_, _, .append rfl⟩
  exact ((((hvalues.trans (emitOrderClause_stage h.orders)).trans
    (emitHavingClause_stage h.having)).trans (emitPlaced_stage h.placedLast)).trans
    (emitProjection_any h.projects))

end

/-! ## From the clauses to the query -/

/-- The registry of a query that has only read its FROM clause. -/
def Registry.reading (schema : Schema) (t : Table) (name : String) : Registry :=
  (Registry.empty schema).withTable t name

section

variable {schema : Schema} {placement : FilterPlacement} {s : Select} {q : CompiledQuery}

theorem registerTable_empty {label name : String} {r : Registry} {id : TableId}
    (h : (Registry.empty schema).registerTable label name = (.ok id, r)) :
    ∃ t, schema.table? label = some t ∧ r = .reading schema t name ∧ id = 0 := by
  obtain ⟨t, ht, ⟨-, found, hfound, -⟩ | ⟨-, rfl, rfl⟩⟩ := Registry.registerTable_ok h
  · cases hfound
  · exact ⟨t, ht, rfl, rfl⟩

theorem registerTable_reading {label : String} {t : Table} (name : String)
    (h : schema.table? label = some t) :
    (Registry.empty schema).registerTable label name = (.ok 0, .reading schema t name) :=
  Registry.registerTable_new (r := .empty schema) h fun _ hmem => absurd hmem List.not_mem_nil

theorem schemaTable_reading {label : String} {t : Table} (name : String)
    (h : schema.table? label = some t) :
    (Registry.reading schema t name).schemaTable 0 = .ok t := by
  have ht : (Registry.empty schema).schema.table? t.label = some t := Schema.table?_label h
  have hregistered : (Registry.reading schema t name).table 0 = .ok (t.registeredAs 0 name) := rfl
  have hlabel : (Registry.reading schema t name).schema.table? (t.registeredAs 0 name).label =
      some t := ht
  simp only [Registry.schemaTable, hregistered, bind, Except.bind, hlabel]
  rfl

/-- Right after the FROM clause, no alias is bound. -/
theorem binds_reading {t : Table} {name : String} {P : String → Node → Prop} :
    (Registry.reading schema t name).Binds P := by
  intro _ _ h
  cases h

theorem discover_ok {m : Emit Unit} {r r' : Registry} (h : discover m r = .ok r') :
    ∃ d, m ⟨r, []⟩ = (.ok (), d) ∧ d.registry = r' := by
  unfold discover at h
  split at h
  · cases h
    exact ⟨_, ‹_›, rfl⟩
  · cases h

/-- What has happened when a select compiles. -/
structure CompileRun (schema : Schema) (placement : FilterPlacement) (s : Select)
    (q : CompiledQuery) where
  source : SourceTable
  table : Table
  items : List ProjectionItem
  discovered : Draft
  final : Draft
  reads : SourceTable.ofClause s.source = .ok source
  found : schema.table? source.label = some table
  lists : projectionItems (.reading schema table source.name) 0 s.selectList = .ok items
  discovers : emitDiscovery 0 items s ⟨.reading schema table source.name, []⟩ = (.ok (), discovered)
  emits : emitStages 0 items s placement
    ⟨discovered.registry, sourceSteps (table.registeredAs 0 source.name)⟩ = (.ok (), final)
  returns : final.registry.outputColumns = .ok q.columns
  traversal : q.traversal = .root final.steps
  registry : q.registry = final.registry

theorem compile_run (h : compile schema placement s = .ok q) :
    Nonempty (CompileRun schema placement s q) := by
  obtain ⟨source, hsource, hrest₁⟩ := ok_of_bind h
  split at hrest₁
  · cases hrest₁
  · rcases hregister : (Registry.empty schema).registerTable source.label source.name with
      ⟨answer, r⟩
    rw [hregister] at hrest₁
    obtain ⟨id, hid, hrest₂⟩ := ok_of_bind hrest₁
    cases liftRegistry_ok hid
    obtain ⟨t, ht, rfl, rfl⟩ := registerTable_empty hregister
    obtain ⟨items, hitems, hrest₃⟩ := ok_of_bind hrest₂
    obtain ⟨_, hdiscover, hrest₄⟩ := ok_of_bind hrest₃
    obtain ⟨d, hd, rfl⟩ := discover_ok hdiscover
    obtain ⟨registered, hregistered, hrest₅⟩ := ok_of_bind hrest₄
    obtain ⟨_, _, hstage⟩ := emitDiscovery_stage hd
    rw [hstage.learns.toGrows.table_eq] at hregistered
    cases hregistered
    split at hrest₅
    · cases hrest₅
    · rename_i draft hstages
      obtain ⟨_, _, hrest₆⟩ := ok_of_bind hrest₅
      obtain ⟨columns, hcolumns, hlast⟩ := ok_of_bind hrest₆
      cases hlast
      exact ⟨⟨source, t, items, d, draft, hsource, ht, hitems, hd, hstages,
        liftRegistry_ok hcolumns, rfl, rfl⟩⟩

end

end GraphSelect
