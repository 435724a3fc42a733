import GraphSelect.Proofs.Expr.Alike
import GraphSelect.Proofs.Query.Placement
import Mathlib

/-!
# Sort keys that point into the select list

A sort key that is a number counts an item of the select list and sorts by its expression. A sort
key that is the name of an item is followed to what the name is bound to. Neither tells the registry
anything: when the first phase comes to ORDER BY it has gone through the select list, and knows the
names in it and whether it aggregates. A key of this kind is `Idle`, and since the registry is all
that the keys after it depend on, one idle key may stand for another.
-/

set_option autoImplicit false

namespace GraphSelect

open Sql

/-! ## Keys -/

/-- The select with other sort keys. -/
def Sql.Select.orderedBy (s : Select) (keys : List Node) : Select :=
  { s with orderBy := some keys }

/-- A sort key is an expression, bare or marked as descending. -/
inductive Marked (n : Node) : Node → Direction → Prop where
  | bare : Marked n n .asc
  | desc {op : Operator} : op.role? = some (.mark .desc) → Marked n (.call op [n]) .desc

section

variable {items : List ProjectionItem} {position : Int64} {key : Node} {direction : Direction}

theorem Marked.splitDirection_eq {n : Node} {view : View} (h : Marked n key direction)
    (hview : n.view = .ok view) (hmark : ∀ m operand, view ≠ .mark m operand) :
    splitDirection key = .ok (n, direction) := by
  cases h with
  | bare =>
    rw [splitDirection, hview]
    cases view with
    | mark m operand => exact absurd rfl (hmark m operand)
    | _ => rfl
  | @desc op hop =>
    have hdesc : Node.view (.call op [n]) = .ok (.mark .desc n) := by
      simp only [Node.view, hop]
    rw [splitDirection, hdesc]
    rfl

/-- A number counts an item, which is sorted by without its name. -/
theorem Marked.sortKey_position (h : Marked (.literal (.integer position)) key direction) :
    sortKey items key = (do
      let expr ← itemAt items position
      let expr ← expr.unaliased
      return (expr, direction)) := by
  rw [sortKey, h.splitDirection_eq rfl (by simp)]
  rfl

/-- A name is sorted by as it is. -/
theorem Marked.sortKey_name {name : String} (h : Marked (.identifier ⟨[name]⟩) key direction) :
    sortKey items key = .ok (.identifier ⟨[name]⟩, direction) := by
  rw [sortKey, h.splitDirection_eq rfl (by simp)]
  rfl

end

/-! ## One key after the other -/

section

variable {table : TableId} {items : List ProjectionItem} {s : Select} {d d' : Draft}

theorem emitSortKeys_append (keys more : List Node) :
    emitSortKeys table items (keys ++ more) =
      emitSortKeys table items keys >>= fun _ => emitSortKeys table items more := by
  induction keys with
  | nil => rfl
  | cons key rest ih =>
    rw [List.cons_append, emitSortKeys, emitSortKeys, Emit.bind_assoc]
    refine congrArg _ (funext fun k => ?_)
    simp only [ih, Emit.bind_assoc]

theorem emitSortKeys_follows (keys : List Node) :
    (emitSortKeys table items keys).Follows (emitSortKeys table items keys) := by
  induction keys with
  | nil => exact .lift (.ok ())
  | cons key rest ih =>
    rw [emitSortKeys]
    cases hkey : sortKey items key with
    | error e =>
      intro u d d' steps h
      cases h
    | ok k =>
      exact .ask fun _ => .bind (.branch_same _) fun _ _ => .bind (.append _ _) fun _ _ => ih

theorem emitOrderBy_eq {keys : List Node} (hkeys : keys ≠ []) (d : Draft) :
    emitOrderBy table items keys d =
      emitSortKeys table items keys ⟨d.registry, d.steps ++ [.order]⟩ := by
  cases keys with
  | nil => exact absurd rfl hkeys
  | cons key rest => rfl

/-- The ordering by some keys is the beginning of an ordering by more keys. -/
theorem emitOrderBy_first {keys more : List Node}
    (h : emitOrderBy table items (keys ++ more) d = (.ok (), d')) :
    ∃ d₁, emitOrderBy table items keys d = (.ok (), d₁) := by
  cases keys with
  | nil => exact ⟨_, rfl⟩
  | cons key rest =>
    rw [emitOrderBy_eq (by simp), emitSortKeys_append] at h
    obtain ⟨_, d₁, h₁, -⟩ := Emit.bind_ok h
    exact ⟨d₁, h₁⟩

theorem emitOrderBy_append {keys more : List Node} {d₁ : Draft} (hmore : more ≠ [])
    (h : emitOrderBy table items keys d = (.ok (), d₁)) :
    ∃ steps, emitOrderBy table items (keys ++ more) d =
      emitSortKeys table items more ⟨d₁.registry, steps⟩ := by
  cases keys with
  | nil =>
    cases h
    exact ⟨_, emitOrderBy_eq hmore d⟩
  | cons key rest =>
    rw [emitOrderBy_eq (by simp)] at h
    refine ⟨d₁.steps, ?_⟩
    rw [emitOrderBy_eq (by simp), emitSortKeys_append, Emit.bind_of_ok h]

theorem emitDiscovery_first {keys more : List Node}
    (h : emitDiscovery table items (s.orderedBy (keys ++ more)) d = (.ok (), d')) :
    ∃ d₁, emitDiscovery table items (s.orderedBy keys) d = (.ok (), d₁) := by
  obtain ⟨_, d₁, h₁, hrest⟩ := Emit.bind_ok h
  obtain ⟨_, d₂, h₂, hlast⟩ := Emit.bind_ok hrest
  obtain ⟨d₃, h₃⟩ := emitOrderBy_first hlast
  refine ⟨d₃, ?_⟩
  rw [emitDiscovery, Emit.bind_of_ok h₁]
  exact (Emit.bind_of_ok h₂).trans h₃

/-- After the first keys the first phase goes on with the others. -/
theorem emitDiscovery_append {keys more : List Node} {d₁ : Draft} (hmore : more ≠ [])
    (h : emitDiscovery table items (s.orderedBy keys) d = (.ok (), d₁)) :
    ∃ steps, emitDiscovery table items (s.orderedBy (keys ++ more)) d =
      emitSortKeys table items more ⟨d₁.registry, steps⟩ := by
  obtain ⟨_, d₂, h₂, hrest⟩ := Emit.bind_ok h
  obtain ⟨_, d₃, h₃, hlast⟩ := Emit.bind_ok hrest
  obtain ⟨steps, hsteps⟩ := emitOrderBy_append hmore hlast
  refine ⟨steps, ?_⟩
  rw [emitDiscovery, Emit.bind_of_ok h₂]
  exact (Emit.bind_of_ok h₃).trans hsteps

end

/-! ## Keys that tell nothing new -/

/-- A sort key has nothing to tell a registry. -/
def Idle (table : TableId) (items : List ProjectionItem) (r : Registry) (key : Node) : Prop :=
  ∀ ⦃expr : Node⦄ ⦃direction : Direction⦄ ⦃value : Traversal⦄ ⦃steps : List Step⦄ ⦃d' : Draft⦄,
    sortKey items key = .ok (expr, direction) →
    Emit.branch (emitValue table .bucket expr) ⟨r, steps⟩ = (.ok value, d') → d'.registry = r

section

variable {table : TableId} {items : List ProjectionItem} {r : Registry} {d d' : Draft}

theorem Idle.rest {key : Node} {keys : List Node} {steps : List Step} (h : Idle table items r key)
    (hd : emitSortKeys table items (key :: keys) ⟨r, steps⟩ = (.ok (), d)) :
    ∃ steps', emitSortKeys table items keys ⟨r, steps'⟩ = (.ok (), d) := by
  obtain ⟨expr, direction, value, d₁, d₂, hkey, -, hvalue, hby, hlast⟩ := emitSortKeys_cons_ok hd
  cases Emit.append_ok hby
  rw [h hkey hvalue] at hlast
  exact ⟨_, hlast⟩

/-- An idle key may be replaced by another one. -/
theorem Idle.same_registry {key key' : Node} {keys : List Node} {steps steps' : List Step}
    (h : Idle table items r key) (h' : Idle table items r key')
    (hd : emitSortKeys table items (key :: keys) ⟨r, steps⟩ = (.ok (), d))
    (hd' : emitSortKeys table items (key' :: keys) ⟨r, steps'⟩ = (.ok (), d')) :
    d'.registry = d.registry := by
  obtain ⟨_, hrest⟩ := h.rest hd
  obtain ⟨_, hrest'⟩ := h'.rest hd'
  exact (emitSortKeys_follows keys).registry_eq hrest hrest'

/-- What is known in full and has been noted leaves no trace when it is emitted again. -/
theorem emitValue_still {n : Node} {value : Traversal}
    (h : Emit.branch (emitValue table .bucket n) d = (.ok value, d'))
    (hd : d.registry.Complete) (hn : d.registry.Covers n)
    (hnoted : ∀ m, Means d'.registry table n m → m.isAggregate = true →
      d.registry.hasAggregate = true) : d'.registry = d.registry := by
  obtain ⟨m, -, hm, -, hstage⟩ := emitValue_branch h
  refine ((emitValue_branch_settles h).still hd (by simpa using hn)).eq ?_
  exact hasAggregate_of_noted hstage.hasAggregate (hnoted m hm)

end

/-! ## Items with a name -/

/-- An item of the select list is an expression with a name. -/
def ProjectionItem.Gives (item : ProjectionItem) (expr : Node) (given : String) : Prop :=
  ∃ op : Operator, op.role? = some .naming ∧ item.expr = .call op [expr, .identifier ⟨[given]⟩]

section

variable {table : TableId} {s : Select} {d d' : Draft} {r : Registry}
  {itemsBefore itemsAfter : List ProjectionItem} {item : ProjectionItem} {expr : Node}
  {given : String}

theorem ProjectionItem.Gives.unaliased {inner : Node} (h : item.Gives expr given)
    (hinner : item.expr.unaliased = .ok inner) : inner = expr := by
  obtain ⟨op, hop, hexpr⟩ := h
  have hview : item.expr.view = .ok (.naming expr given) := by
    simp only [hexpr, Node.view, hop]
  obtain ⟨view, hv, hrest⟩ := ok_of_bind hinner
  cases hview.symm.trans hv
  obtain ⟨_, -, hlast⟩ := ok_of_bind hrest
  cases hlast
  rfl

theorem ProjectionItem.Gives.means {m : Meaning} (h : item.Gives expr given)
    (hm : Means r table item.expr m) : Means r table expr m := by
  obtain ⟨op, hop, hexpr⟩ := h
  rw [hexpr] at hm
  cases hm with
  | naming _ hm => exact hm

theorem ProjectionItem.Gives.covers (h : item.Gives expr given) (hr : r.Covers item.expr) :
    r.Covers expr := by
  obtain ⟨op, -, hexpr⟩ := h
  rw [hexpr] at hr
  exact hr.operand (by simp)

/-- An alias leads to its expression. -/
theorem Means.of_alias {m : Meaning} {bound : Node} (ha : r.HasAlias table given bound)
    (h : Means r table (.identifier ⟨[given]⟩) m) : Means r table bound m := by
  cases h with
  | column hc => exact absurd hc ha.not_column
  | named ha' hm => rwa [ha.unique ha']

theorem emitValue_naming {scope : Scope} {value : Traversal} (hitem : item.Gives expr given)
    (h : Emit.branch (emitValue table scope item.expr) d = (.ok value, d')) :
    ∃ bound, d'.registry.binding? given = some bound ∧
      (bound.same expr = true ∨ bound = expr ∧ d.registry.binding? given = none) := by
  obtain ⟨op, hop, hexpr⟩ := hitem
  obtain ⟨inner, hinner, -, rfl⟩ := Emit.branch_ok h
  simp only [hexpr, emitValue, emitNode, hop] at hinner
  obtain ⟨_, d₁, h₁, hrest⟩ := Emit.bind_ok hinner
  obtain ⟨r, hr, rfl⟩ := Emit.bindAlias_ok h₁
  obtain ⟨m, hm⟩ := emitNode_emission (expandAlias_sound table) hrest
  obtain ⟨rfl, bound, hb, hsame⟩ | ⟨hnone, rfl⟩ := Registry.bindAlias_ok hr
  · exact ⟨bound, hm.learns.binding hb, .inl hsame⟩
  · have hb := (Registry.binding?_bind d.registry given given expr).trans (if_pos rfl)
    exact ⟨expr, hm.learns.binding hb, .inr ⟨rfl, hnone⟩⟩

/-- After the projection the name of an item is bound: to the item's own expression, unless it was
bound before, and then to one that is equal to it. -/
theorem emitItems_naming (hitem : item.Gives expr given)
    (h : emitItems table (itemsBefore ++ item :: itemsAfter) d = (.ok (), d')) :
    ∃ bound, d'.registry.binding? given = some bound ∧
      (bound.same expr = true ∨ bound = expr ∧ d.registry.binding? given = none) := by
  induction itemsBefore generalizing d with
  | nil =>
    obtain ⟨_, d₁, h₁, hrest⟩ := Emit.bind_ok h
    obtain ⟨_, d₂, h₂, hlast⟩ := Emit.bind_ok hrest
    obtain ⟨bound, hbound, hcases⟩ := emitValue_naming hitem h₁
    cases Emit.append_ok h₂
    exact ⟨bound, (emitItems_settles hlast).grows.binding hbound, hcases⟩
  | cons first rest ih =>
    obtain ⟨_, d₁, h₁, hrest⟩ := Emit.bind_ok h
    obtain ⟨_, d₂, h₂, hlast⟩ := Emit.bind_ok hrest
    have hgrows := ((emitValue_branch_settles h₁).trans (.append h₂)).grows
    obtain ⟨bound, hbound, hsame | ⟨heq, hnone⟩⟩ := ih hlast
    · exact ⟨bound, hbound, .inl hsame⟩
    · refine ⟨bound, hbound, .inr ⟨heq, ?_⟩⟩
      cases hd : d.registry.binding? given with
      | none => rfl
      | some other => cases hnone.symm.trans (hgrows.binding hd)

/-- The item at a position is sorted by without its name. -/
theorem ProjectionItem.Gives.sortKey_position {position : Int64} {key operand : Node}
    {direction direction' : Direction} (hitem : item.Gives expr given)
    (hposition : position.toInt = itemsBefore.length + 1)
    (hkey : Marked (.literal (.integer position)) key direction)
    (h : sortKey (itemsBefore ++ item :: itemsAfter) key = .ok (operand, direction')) :
    operand = expr ∧ direction' = direction := by
  rw [hkey.sortKey_position] at h
  obtain ⟨chosen, hchosen, hrest⟩ := ok_of_bind h
  obtain ⟨inner, hinner, hlast⟩ := ok_of_bind hrest
  cases hlast
  have hindex : position.toInt.toNat - 1 = itemsBefore.length := by omega
  have hlow : ¬ position.toInt < 1 := by omega
  rw [itemAt, if_neg hlow, hindex, List.getElem?_append_right (Nat.le_refl _), Nat.sub_self]
    at hchosen
  cases hchosen
  exact ⟨hitem.unaliased hinner, rfl⟩

/-- What an informed registry knows of an item. -/
theorem Informed.knows_item (hs : Informed table (itemsBefore ++ item :: itemsAfter) s r) :
    r.Covers item.expr ∧ ∃ m, Means r table item.expr m ∧
      (m.isAggregate = true → r.hasAggregate = true) := by
  refine ⟨hs.covers _ (by simp [Select.repeated]), ?_⟩
  obtain ⟨meanings, having, sorting, hdiscovered, hnoted⟩ := hs.noted
  obtain ⟨us, m, vs, rfl, -, hm, -⟩ := forall₂_split hdiscovered.listed
  refine ⟨m, hm, fun hagg => hnoted ?_⟩
  simp [hagg]

theorem Informed.idle_position {position : Int64} {key : Node} {direction : Direction}
    (hs : Informed table (itemsBefore ++ item :: itemsAfter) s r) (hitem : item.Gives expr given)
    (hposition : position.toInt = itemsBefore.length + 1)
    (hkey : Marked (.literal (.integer position)) key direction) :
    Idle table (itemsBefore ++ item :: itemsAfter) r key := by
  intro operand direction' value steps d' hsort h
  obtain ⟨rfl, -⟩ := hitem.sortKey_position hposition hkey hsort
  obtain ⟨hcovers, m, hm, hnoted⟩ := hs.knows_item
  refine emitValue_still h hs.complete (hitem.covers hcovers) fun m' hm' hagg => hnoted ?_
  have hgrows := (emitValue_branch_settles h).grows
  rwa [((hitem.means hm).grow hgrows).unique hm']

theorem Informed.idle_name {key bound : Node} {direction : Direction}
    (hs : Informed table (itemsBefore ++ item :: itemsAfter) s r) (hitem : item.Gives expr given)
    (ha : r.HasAlias table given bound) (hbound : bound.same expr = true ∨ bound = expr)
    (hkey : Marked (.identifier ⟨[given]⟩) key direction) :
    Idle table (itemsBefore ++ item :: itemsAfter) r key := by
  intro operand direction' value steps d' hsort h
  rw [hkey.sortKey_name] at hsort
  cases hsort
  obtain ⟨-, m, hm, hnoted⟩ := hs.knows_item
  refine emitValue_still h hs.complete (Registry.covers_identifier _ _) fun m' hm' hagg => hnoted ?_
  have hgrows := (emitValue_branch_settles h).grows
  have hexpr : Means d'.registry table expr m := (hitem.means hm).grow hgrows
  have halias : Means d'.registry table bound m' := hm'.of_alias (hgrows.hasAlias ha)
  rcases hbound with hsame | rfl
  · rwa [← (halias.alike hexpr hsame).isAggregate_eq]
  · rwa [hexpr.unique halias]

end

end GraphSelect
