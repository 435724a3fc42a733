import GraphSelect.Proofs.Expr.Emission

/-!
# Emission run again

The clauses of a select are emitted twice, the second time on a registry that the first time has
filled and that other clauses have filled further. That both times come to the same is a fact about
each computation on its own: once it has succeeded, it can be run again on every registry that
knows what it has established. It then gives the same result, writes the same steps and finds
nothing left to establish.

`Emit.Replays` says this of a computation. It is closed under the ways in which computations are
built, so each emission inherits it from its parts. Two of the parts carry an argument. A question
to the registry has an answer that lasts, because a name that is resolved stays resolved. A name
that is given again meets its own expression, and this is where a tree must not hold a NaN: it is
not equal to itself, and the name would count as given to something else.
-/

set_option autoImplicit false

namespace GraphSelect

open Sql

/-! ## Trees without NaN -/

/-- Every decimal literal of a tree is a number: it is equal to itself. -/
def Sql.Node.NaNFree (n : Node) : Prop :=
  ∀ x : Float, Within (.literal (.decimal x)) n → (x == x) = true

theorem Sql.Literal.same_self {l : Literal} (h : (Node.literal l).NaNFree) : l.same l = true := by
  cases l with
  | decimal x => exact h x (.refl _)
  | null => rfl
  | boolean b => exact beq_self_eq_true b
  | integer i => exact beq_self_eq_true i
  | string s => exact beq_self_eq_true s

namespace Sql.Node

theorem NaNFree.within {m n : Node} (h : n.NaNFree) (hm : m.Within n) : m.NaNFree :=
  fun x hx => h x (hx.trans hm)

theorem NaNFree.operand {n : Node} {op : Operator} {operands : List Node}
    (h : (Node.call op operands).NaNFree) (hn : n ∈ operands) : n.NaNFree :=
  h.within (.of_operand hn)

theorem nanFree_identifier (id : Identifier) : (Node.identifier id).NaNFree := by
  intro x hx
  cases within_identifier.1 hx

mutual

/-- A tree without NaN is equal to itself. -/
theorem NaNFree.same_self : ∀ {n : Node}, n.NaNFree → n.same n = true
  | .identifier id, _ => by rw [same, beq_self_eq_true]
  | .literal l, h => by rw [same, Literal.same_self h]
  | .call op operands, h => by
    rw [same, beq_self_eq_true, NaNFree.sameAll_self fun n hn => h.operand hn]
    rfl

theorem NaNFree.sameAll_self : ∀ {ns : List Node}, (∀ n ∈ ns, n.NaNFree) → sameAll ns ns = true
  | [], _ => by rw [sameAll]
  | n :: rest, h => by
    rw [sameAll, NaNFree.same_self (h n List.mem_cons_self),
      NaNFree.sameAll_self fun m hm => h m (List.mem_cons_of_mem n hm)]
    rfl

end

end Sql.Node

/-- No alias stands for a tree with a NaN in it. -/
def Registry.NaNFree (r : Registry) : Prop :=
  r.Binds fun _ expr => expr.NaNFree

/-! ## Registries that know more -/

/-- A registry knows all that another one does, also whether the query aggregates. -/
structure Registry.Knows (R r : Registry) : Prop extends Registry.Grows r R where
  aggregate : r.hasAggregate = true → R.hasAggregate = true

namespace Registry.Knows

variable {r r' R : Registry}

theorem refl (r : Registry) : r.Knows r :=
  ⟨.refl r, id⟩

theorem trans (h : R.Knows r') (h' : r'.Knows r) : R.Knows r :=
  ⟨h'.toGrows.trans h.toGrows, fun hagg => h.aggregate (h'.aggregate hagg)⟩

end Registry.Knows

theorem Stage.knows {Given : String → Node → Prop} {added : List Step} {aggregates : Bool}
    {d d' : Draft} (h : Stage Given added aggregates d d') : d'.registry.Knows d.registry :=
  ⟨h.learns.toGrows, fun hagg => by rw [h.hasAggregate, hagg, Bool.true_or]⟩

/-! ## Questions with lasting answers -/

/-- An answer that is given is given by every registry that knows more. -/
def Lasting {ε α : Type} (question : Registry → Except ε α) : Prop :=
  ∀ ⦃r R : Registry⦄ ⦃a : α⦄, R.Knows r → question r = .ok a → question R = .ok a

namespace Lasting

variable {ε α β : Type}

theorem const (answer : Except ε α) : Lasting fun _ => answer :=
  fun _ _ _ _ h => h

theorem bind {question : Registry → Except ε α} {next : α → Registry → Except ε β}
    (hq : Lasting question) (hn : ∀ a, Lasting (next a)) :
    Lasting fun r => question r >>= fun a => next a r := by
  intro r R b hR h
  obtain ⟨a, ha, hb⟩ := ok_of_bind h
  change (question R >>= fun a => next a R) = .ok b
  rw [hq hR ha]
  exact hn a hR hb

theorem lift {question : Registry → Except RegistryError α} (hq : Lasting question) :
    Lasting fun r => liftRegistry (question r) := by
  intro r R a hR h
  change liftRegistry (question R) = .ok a
  rw [hq hR (liftRegistry_ok h)]
  rfl

end Lasting

section

variable (table : TableId)

theorem lasting_table : Lasting fun r => r.table table := by
  intro r R t hR h
  simpa only [Registry.table, hR.tables] using h

theorem lasting_schemaTable : Lasting fun r => r.schemaTable table := by
  intro r R t hR h
  exact hR.toGrows.schemaTable.trans h

theorem lasting_checkQualifier (id : Identifier) :
    Lasting fun r => checkQualifier r table id := by
  unfold checkQualifier
  cases id.qualifier? with
  | none => exact .const _
  | some qualifier => exact .bind (.lift (lasting_table table)) fun _ => .const _

/-- A name that is resolved stays resolved: columns come first, and an alias is never bound anew. -/
theorem lasting_resolveColumn (name : String) : Lasting fun r => r.resolveColumn table name := by
  refine .bind (lasting_schemaTable table) fun t => ?_
  cases t.column? name with
  | some column => exact .const _
  | none =>
    intro r R res hR h
    cases hb : r.binding? name with
    | some expr =>
      simp only [hb] at h
      simp only [hR.binding hb]
      exact h
    | none =>
      simp only [hb] at h
      obtain ⟨_, _, h⟩ := ok_of_bind h
      cases h

theorem lasting_resolveIdentifier (id : Identifier) :
    Lasting fun r => resolveIdentifier r table id :=
  .bind (lasting_checkQualifier table id) fun _ => .lift (lasting_resolveColumn table _)

theorem lasting_identifierType {typeOf : Registry → Node → Except CompileError ColumnType}
    (h : ∀ n, Lasting fun r => typeOf r n) (id : Identifier) :
    Lasting fun r => identifierType r table (typeOf r) id := by
  refine .bind (lasting_resolveIdentifier table id) fun res => ?_
  cases res with
  | physical column => exact .const _
  | named expr => exact h expr

theorem lasting_typeWithin (depth : Nat) :
    ∀ n : Node, Lasting fun r => typeWithin r table depth n := by
  induction depth with
  | zero => exact fun n => .const _
  | succ depth ih =>
    intro n
    refine .bind (.const n.view) fun view => ?_
    cases view with
    | identifier id => exact lasting_identifierType table ih id
    | literal l => exact .const _
    | naming inner name => exact ih inner
    | binary op left right => exact .const _
    | negation operand => exact .const _
    | mark m operand => exact ih operand
    | aggregate f operand =>
      cases operand with
      | none => cases f <;> exact .const _
      | some operand =>
        cases f with
        | count => exact .const _
        | avg => exact .const _
        | sum => exact ih operand
        | min => exact ih operand
        | max => exact ih operand

theorem lasting_checkBoolean (id : Identifier) : Lasting fun r => checkBoolean r table id := by
  refine .bind (.bind (lasting_resolveIdentifier table id) fun res => ?_) fun _ => ?_
  · cases res with
    | physical column => exact .const _
    | named expr => exact .const _
  · exact .bind (lasting_identifierType table (lasting_typeWithin table maxAliasDepth) id)
      fun _ => .const _

theorem lasting_sourceWithin (hops : Nat) :
    ∀ id : Identifier, Lasting fun r => sourceWithin r table hops id := by
  induction hops with
  | zero => exact fun id => .const _
  | succ hops ih =>
    intro id
    refine .bind (lasting_resolveIdentifier table id) fun res => ?_
    cases res with
    | physical column => exact .const _
    | named expr =>
      refine .bind (.const expr.unaliased) fun inner => ?_
      cases inner with
      | identifier next => exact ih next
      | literal l => exact .const _
      | call op operands => exact .const _

theorem lasting_isEndpointName (id : Identifier) : Lasting fun r => isEndpointName r table id :=
  .bind (lasting_sourceWithin table _ id) fun _ => .const _

end

/-! ## Computations that can be run again -/

/-- A run of a computation that can be repeated. The registry has only learnt, and on every registry
that knows what was learnt the computation gives the same result, adds the same steps and
establishes nothing. -/
structure Emit.Repeatable {α : Type} (m : Emit α) (a : α) (d d' : Draft) : Prop where
  nanFree : d'.registry.NaNFree
  knows : d'.registry.Knows d.registry
  again : ∃ added, d'.steps = d.steps ++ added ∧ ∀ {R : Registry} (steps : List Step),
    R.Knows d'.registry → m ⟨R, steps⟩ = (.ok a, ⟨R, steps ++ added⟩)

/-- Every success of a computation can be repeated. -/
def Emit.Replays {α : Type} (m : Emit α) : Prop :=
  ∀ ⦃a : α⦄ ⦃d d' : Draft⦄, d.registry.NaNFree → m d = (.ok a, d') → m.Repeatable a d d'

namespace Emit.Replays

variable {α β : Type}

theorem pure (a : α) : (Pure.pure a : Emit α).Replays := by
  intro b d d' hnan h
  obtain ⟨rfl, rfl⟩ := Emit.pure_ok h
  exact ⟨hnan, .refl _, [], by simp, fun steps _ => by rw [List.append_nil]; rfl⟩

theorem fail (err : CompileError) : (Emit.fail err : Emit α).Replays :=
  fun _ _ _ _ h => absurd h Emit.not_fail

theorem lift (answer : Except CompileError α) : (Emit.lift answer).Replays := by
  cases answer with
  | ok a => exact .pure a
  | error err => exact .fail err

theorem ask {question : Registry → Except CompileError α} (hq : Lasting question) :
    (Emit.ask question).Replays := by
  intro a d d' hnan h
  obtain ⟨ha, rfl⟩ := Emit.ask_ok h
  refine ⟨hnan, .refl _, [], by simp, fun steps hR => ?_⟩
  rw [Emit.ask, hq hR ha, List.append_nil]

theorem appendAll (steps : List Step) : (Emit.appendAll steps).Replays := by
  intro _ d d' hnan h
  cases Emit.appendAll_ok h
  exact ⟨hnan, .refl _, steps, rfl, fun _ _ => rfl⟩

theorem append (s : Step) : (Emit.append s).Replays :=
  .appendAll [s]

/-- A registry that knows that the query aggregates has nothing to mark. -/
theorem markAggregate : Emit.markAggregate.Replays := by
  intro _ d d' hnan h
  cases Emit.markAggregate_ok h
  refine ⟨hnan, ⟨⟨rfl, rfl, id⟩, fun _ => rfl⟩, [], by simp, fun {R} steps hR => ?_⟩
  have hmark : R.markAggregate = R := by
    rw [Registry.markAggregate, ← hR.aggregate rfl]
  rw [Emit.markAggregate, hmark, List.append_nil]

/-- A name that is given again meets the expression that it has. -/
theorem bindAlias (name : String) {expr : Node} (hexpr : expr.NaNFree) :
    (Emit.bindAlias name expr).Replays := by
  intro _ d d' hnan h
  obtain ⟨r, hr, rfl⟩ := Emit.bindAlias_ok h
  have hlearns : d.registry.Learns (fun n e => n = name ∧ e = expr) r := .bindAlias hr ⟨rfl, rfl⟩
  have hbound : ∃ bound, r.binding? name = some bound ∧ bound.same expr = true := by
    obtain ⟨rfl, hbound⟩ | ⟨-, rfl⟩ := Registry.bindAlias_ok hr
    · exact hbound
    · refine ⟨expr, ?_, hexpr.same_self⟩
      rw [Registry.binding?_bind, if_pos rfl]
  refine ⟨hlearns.binds (fun hP hn => hP.within hn.expr_within) ?_ hnan,
    ⟨hlearns.toGrows, fun hagg => ?_⟩, [], by simp, fun {R} steps hR => ?_⟩
  · rintro _ _ ⟨rfl, rfl⟩
    exact hexpr
  · rw [Registry.bindAlias_writes hr, hagg]
  · obtain ⟨bound, hb, hsame⟩ := hbound
    have hagain : R.bindAlias name expr = (.ok (), R) := by
      simp only [Registry.bindAlias, hR.binding hb, hsame, ↓reduceIte]
    rw [List.append_nil]
    exact Emit.bindAlias_of_eq (d := ⟨R, steps⟩) hagain

/-- One computation after the other. What the second one does may rest on what is known of the
result and of the registry in between. -/
theorem bind_of {m : Emit α} {f : α → Emit β} (hm : m.Replays)
    (hf : ∀ (a : α) (d d₁ : Draft), d.registry.NaNFree → m d = (.ok a, d₁) → (f a).Replays) :
    (m >>= f).Replays := by
  intro b d d' hnan h
  obtain ⟨a, d₁, h₁, h₂⟩ := Emit.bind_ok h
  obtain ⟨hnan₁, hknows₁, added₁, hsteps₁, hagain₁⟩ := hm hnan h₁
  obtain ⟨hnan₂, hknows₂, added₂, hsteps₂, hagain₂⟩ := hf a d d₁ hnan h₁ hnan₁ h₂
  refine ⟨hnan₂, hknows₂.trans hknows₁, added₁ ++ added₂, ?_, fun steps hR => ?_⟩
  · rw [hsteps₂, hsteps₁, List.append_assoc]
  · have hfirst := hagain₁ steps (hR.trans hknows₂)
    have hsecond := hagain₂ (steps ++ added₁) hR
    change Emit.bind m f ⟨_, steps⟩ = _
    rw [Emit.bind, hfirst, ← List.append_assoc]
    exact hsecond

theorem bind {m : Emit α} {f : α → Emit β} (hm : m.Replays) (hf : ∀ a, (f a).Replays) :
    (m >>= f).Replays :=
  .bind_of hm fun a _ _ _ _ => hf a

/-- A branch is written apart, so that a second run writes the same traversal. -/
theorem branch {m : Emit Unit} (hm : m.Replays) : (Emit.branch m).Replays := by
  intro t d d' hnan h
  obtain ⟨inner, hinner, rfl, rfl⟩ := Emit.branch_ok h
  obtain ⟨hnan', hknows, added, hsteps, hagain⟩ := hm (d := ⟨d.registry, []⟩) hnan hinner
  refine ⟨hnan', hknows, [], by simp, fun steps hR => ?_⟩
  have hrun := hagain [] hR
  simp only [List.nil_append] at hsteps hrun
  simp only [Emit.branch, hrun, hsteps, List.append_nil]

end Emit.Replays

/-! ## Values -/

/-- A treatment of aliases whose successes can be repeated. -/
def Expansion.Replays (expand : Expansion) : Prop :=
  ∀ (scope : Scope) (name : String) {expr : Node}, expr.NaNFree → (expand scope name expr).Replays

section

variable {table : TableId} {expand : Expansion}

theorem emitIdentifier_replays (hexp : expand.Replays) (scope : Scope) (id : Identifier) :
    (emitIdentifier table expand scope id).Replays := by
  unfold emitIdentifier
  split
  · exact .fail _
  · refine .bind_of (.ask (lasting_resolveIdentifier table id)) fun res d d₁ hnan h => ?_
    obtain ⟨hres, rfl⟩ := Emit.ask_ok h
    cases res with
    | physical column =>
      cases scope with
      | element => exact .appendAll _
      | bucket => exact .bind (.append _) fun _ => .appendAll _
    | named expr =>
      have ha : d₁.registry.HasAlias table id.simpleName expr := resolveIdentifier_ok hres
      exact hexp scope id.simpleName (hnan ha.2)

theorem openAggregate_replays (scope : Scope) (call : Node) :
    (openAggregate scope call).Replays := by
  unfold openAggregate
  split
  · exact .bind .markAggregate fun _ => .append _
  · exact .fail _

theorem emitNode_replays (hexp : expand.Replays) (scope : Scope) {n : Node} (hn : n.NaNFree) :
    (emitNode table expand scope n).Replays := by
  induction scope, n using emitNode.induct with
  | case1 scope id hempty =>
    simp only [emitNode, hempty, ↓reduceIte]
    exact .fail _
  | case2 scope id hempty =>
    simp only [emitNode, hempty, Bool.false_eq_true, ↓reduceIte]
    exact emitIdentifier_replays hexp scope id
  | case3 scope l =>
    simp only [emitNode]
    exact .append _
  | case4 scope op inner name hop ih =>
    simp only [emitNode, hop]
    have hinner : inner.NaNFree := hn.operand (by simp)
    exact .bind (.bindAlias name hinner) fun _ => ih hinner
  | case5 scope op operand hop ih =>
    simp only [emitNode, hop]
    exact ih (hn.operand (by simp))
  | case7 scope op hop =>
    simp only [emitNode, hop]
    exact .bind (openAggregate_replays _ _) fun _ => .append _
  | case8 scope op f operand hop ih =>
    rw [emitNode.eq_def]
    simp only [hop]
    refine .bind (openAggregate_replays _ _) fun _ => ?_
    split
    · exact .bind (ih (hn.operand (by simp))) fun _ => .append _
    · exact .append _
  | case6 _ _ _ _ _ hop | case9 _ _ _ _ _ hop | case10 _ _ _ hop =>
    rw [emitNode.eq_def]
    simp only [hop]
    exact .fail _
  | case11 scope op operands =>
    rw [emitNode.eq_def]
    simp only
    exact .fail _

theorem emitWithin_replays (hops : Nat) :
    ∀ (expanding : List String) (scope : Scope) {n : Node}, n.NaNFree →
      (emitWithin table hops expanding scope n).Replays := by
  induction hops with
  | zero =>
    intro expanding scope n hn
    exact emitNode_replays (fun _ _ _ _ => .fail _) scope hn
  | succ hops ih =>
    intro expanding scope n hn
    refine emitNode_replays (fun scope name expr hexpr => ?_) scope hn
    split
    · exact .fail _
    · exact ih (name :: expanding) scope hexpr

theorem expandAlias_replays (table : TableId) : (expandAlias table).Replays :=
  fun scope name _ hexpr => emitWithin_replays _ [name] scope hexpr

theorem emitValue_replays (scope : Scope) {n : Node} (hn : n.NaNFree) :
    (emitValue table scope n).Replays :=
  emitNode_replays (expandAlias_replays table) scope hn

/-! ## Conditions -/

theorem emitBoolean_replays (hexp : expand.Replays) (scope : Scope) (id : Identifier)
    (expected : Bool) : (emitBoolean table expand scope id expected).Replays :=
  .bind (.ask (lasting_checkBoolean table id)) fun _ =>
    .bind (emitIdentifier_replays hexp scope id) fun _ => .append _

theorem emitComparison_replays (hexp : expand.Replays) (scope : Scope) (c : Compare)
    {left right : Node} (hl : left.NaNFree) (hr : right.NaNFree) :
    (emitComparison table expand scope c left right).Replays := by
  unfold emitComparison
  split
  · exact .fail _
  · exact .bind (emitNode_replays hexp scope hl) fun _ => .append _
  · exact .bind (emitNode_replays hexp scope hr) fun _ => .append _
  · exact .fail _

theorem emitCondition_replays (hexp : expand.Replays) (scope : Scope) {n : Node}
    (hn : n.NaNFree) : (emitCondition table expand scope n).Replays := by
  induction n using emitCondition.induct with
  | case1 id hempty =>
    simp only [emitCondition, hempty, ↓reduceIte]
    exact .fail _
  | case2 id hempty =>
    simp only [emitCondition, hempty, Bool.false_eq_true, ↓reduceIte]
    exact emitBoolean_replays hexp scope id true
  | case3 l =>
    simp only [emitCondition]
    exact .fail _
  | case4 op c left right hop =>
    rw [emitCondition.eq_def]
    simp only [hop]
    exact emitComparison_replays hexp scope c (hn.operand (by simp)) (hn.operand (by simp))
  | case5 op left right hop ihl ihr | case6 op left right hop ihl ihr =>
    rw [emitCondition.eq_def]
    simp only [hop]
    refine .bind (.branch (ihl (hn.operand (by simp)))) fun _ => ?_
    exact .bind (.branch (ihr (hn.operand (by simp)))) fun _ => .append _
  | case7 op id hop =>
    rw [emitCondition.eq_def]
    simp only [hop]
    exact emitBoolean_replays hexp scope id false
  | case8 _ _ _ hop | case9 _ _ _ hop | case10 _ _ _ hop | case11 _ hop | case12 _ _ _ hop =>
    rw [emitCondition.eq_def]
    simp only [hop]
    exact .fail _
  | case13 op operands =>
    rw [emitCondition.eq_def]
    simp only
    exact .fail _

theorem emitFilter_replays (scope : Scope) {n : Node} (hn : n.NaNFree) :
    (emitFilter table scope n).Replays :=
  emitCondition_replays (expandAlias_replays table) scope hn

end

end GraphSelect
