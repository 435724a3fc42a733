import GraphSelect.Proofs.Expr.Replay

/-!
# What emission leaves alone

Emission adds to a draft. It binds the names that it gives, it writes steps after those that are
there, and it may find that the query aggregates. Nothing else changes: the tables stay the ones
that were registered, the returned columns are not touched, and an alias keeps its expression. This
holds of a failure as well, which keeps the draft as far as it got. And of all that a draft holds,
emission looks only at the tables and the aliases.

Neither fact needs to be followed through the trees. Both are inherited by whatever is built from
computations that have them, `Emit.Inherited` lists the ways of building, and emission is built in
these ways.
-/

set_option autoImplicit false

namespace GraphSelect

open Sql

/-! ## What emission looks at -/

/-- Two registries have the same tables and the same aliases. They may differ in what is returned
and in whether the query aggregates. -/
structure Registry.Agrees (r r' : Registry) : Prop where
  schema : r'.schema = r.schema
  tables : r'.tables = r.tables
  aliases : r'.aliases = r.aliases

/-- A question whose answer rests on the tables and the aliases alone. -/
def AboutNames {α : Type} (question : Registry → Except CompileError α) : Prop :=
  ∀ ⦃r r' : Registry⦄, r.Agrees r' → question r' = question r

namespace Registry.Agrees

variable {r r' : Registry}

theorem eq_with (h : r.Agrees r') :
    r' = { r with
      renames := r'.renames
      outputs := r'.outputs
      renamedColumns := r'.renamedColumns
      hasAggregate := r'.hasAggregate } := by
  obtain ⟨hschema, htables, haliases⟩ := h
  cases r
  cases r'
  simp_all

theorem binding? (h : r.Agrees r') (name : String) : r'.binding? name = r.binding? name := by
  rw [Registry.binding?, Registry.binding?, h.aliases]

theorem bindAlias (h : r.Agrees r') (name : String) (expr : Node) :
    ∃ answer r₁ r₁', r.bindAlias name expr = (answer, r₁) ∧
      r'.bindAlias name expr = (answer, r₁') ∧ r₁.Agrees r₁' := by
  simp only [Registry.bindAlias, h.binding?]
  cases r.binding? name with
  | none =>
    exact ⟨_, _, _, rfl, rfl, h.schema, h.tables, congrArg (List.cons (name, expr)) h.aliases⟩
  | some bound => exact ⟨_, _, _, rfl, rfl, h⟩

end Registry.Agrees

theorem aboutNames_resolveIdentifier (table : TableId) (id : Identifier) :
    AboutNames fun r => resolveIdentifier r table id := by
  intro r r' h
  rw [h.eq_with]
  rfl

theorem aboutNames_typeWithin (table : TableId) (depth : Nat) :
    ∀ n : Node, AboutNames fun r => typeWithin r table depth n := by
  induction depth with
  | zero => exact fun n r r' h => rfl
  | succ depth ih =>
    intro n r r' h
    have hrest : typeWithin r' table depth = typeWithin r table depth := funext fun m => ih m h
    have hname (id : Identifier) : identifierType r' table (typeWithin r table depth) id =
        identifierType r table (typeWithin r table depth) id := by
      simp only [identifierType, aboutNames_resolveIdentifier table id h]
    simp only [typeWithin, hrest, hname]

theorem aboutNames_checkBoolean (table : TableId) (id : Identifier) :
    AboutNames fun r => checkBoolean r table id := by
  intro r r' h
  have htype : typeWithin r' table maxAliasDepth = typeWithin r table maxAliasDepth :=
    funext fun n => aboutNames_typeWithin table maxAliasDepth n h
  simp only [checkBoolean, checkNamesNoCondition, identifierType, htype,
    aboutNames_resolveIdentifier table id h]

/-! ## What is inherited -/

/-- A property of computations that passes on to whatever is built from them. -/
structure Emit.Inherited (P : (α : Type) → Emit α → Prop) : Prop where
  fail : ∀ {α : Type} (e : CompileError), P α (Emit.fail e)
  ask : ∀ {α : Type} {question : Registry → Except CompileError α}, AboutNames question →
    P α (Emit.ask question)
  appendAll : ∀ steps : List Step, P Unit (Emit.appendAll steps)
  markAggregate : P Unit Emit.markAggregate
  bindAlias : ∀ (name : String) (expr : Node), P Unit (Emit.bindAlias name expr)
  bind : ∀ {α β : Type} {m : Emit α} {f : α → Emit β}, P α m → (∀ a, P β (f a)) → P β (m >>= f)
  branch : ∀ {m : Emit Unit}, P Unit m → P Traversal (Emit.branch m)

namespace Emit.Inherited

variable {P : (α : Type) → Emit α → Prop} {table : TableId} {expand : Expansion} {scope : Scope}

theorem append (hP : Inherited P) (s : Step) : P Unit (Emit.append s) :=
  hP.appendAll [s]

theorem openAggregate (hP : Inherited P) (call : Node) : P Unit (openAggregate scope call) := by
  unfold GraphSelect.openAggregate
  split
  · exact hP.bind hP.markAggregate fun _ => hP.append _
  · exact hP.fail _

section

variable (hP : Inherited P)
  (hexp : ∀ (scope : Scope) (name : String) (expr : Node), P Unit (expand scope name expr))

include hP hexp

theorem emitIdentifier (id : Identifier) : P Unit (emitIdentifier table expand scope id) := by
  unfold GraphSelect.emitIdentifier
  split
  · exact hP.fail _
  · refine hP.bind (hP.ask (aboutNames_resolveIdentifier table id)) fun res => ?_
    cases res with
    | physical column =>
      dsimp only
      split
      · exact hP.bind (hP.append _) fun _ => hP.appendAll _
      · exact hP.appendAll _
    | named expr => exact hexp scope id.simpleName expr

theorem emitNode (n : Node) : P Unit (emitNode table expand scope n) := by
  induction scope, n using emitNode.induct with
  | case1 scope id hempty =>
    simp only [GraphSelect.emitNode, hempty, ↓reduceIte]
    exact hP.fail _
  | case2 scope id hempty =>
    simp only [GraphSelect.emitNode, hempty, Bool.false_eq_true, ↓reduceIte]
    exact hP.emitIdentifier hexp id
  | case3 scope l =>
    simp only [GraphSelect.emitNode]
    exact hP.append _
  | case4 scope op inner name hop ih =>
    simp only [GraphSelect.emitNode, hop]
    exact hP.bind (hP.bindAlias name inner) fun _ => ih
  | case5 scope op operand hop ih =>
    simp only [GraphSelect.emitNode, hop]
    exact ih
  | case7 scope op hop =>
    simp only [GraphSelect.emitNode, hop]
    exact hP.bind (hP.openAggregate _) fun _ => hP.append _
  | case8 scope op f operand hop ih =>
    rw [emitNode.eq_def]
    simp only [hop]
    refine hP.bind (hP.openAggregate _) fun _ => ?_
    split
    · exact hP.bind ih fun _ => hP.append _
    · exact hP.append _
  | case6 _ _ _ _ _ hop | case9 _ _ _ _ _ hop | case10 _ _ _ hop =>
    rw [emitNode.eq_def]
    simp only [hop]
    exact hP.fail _
  | case11 scope op operands =>
    rw [emitNode.eq_def]
    simp only
    exact hP.fail _

theorem emitBoolean (id : Identifier) (expected : Bool) :
    P Unit (emitBoolean table expand scope id expected) :=
  hP.bind (hP.ask (aboutNames_checkBoolean table id)) fun _ =>
    hP.bind (hP.emitIdentifier hexp id) fun _ => hP.append _

theorem emitComparison (c : Compare) (left right : Node) :
    P Unit (emitComparison table expand scope c left right) := by
  unfold GraphSelect.emitComparison
  split
  · exact hP.fail _
  · exact hP.bind (hP.emitNode hexp left) fun _ => hP.append _
  · exact hP.bind (hP.emitNode hexp right) fun _ => hP.append _
  · exact hP.fail _

theorem emitCondition (n : Node) : P Unit (emitCondition table expand scope n) := by
  induction n using emitCondition.induct with
  | case1 id hempty =>
    simp only [GraphSelect.emitCondition, hempty, ↓reduceIte]
    exact hP.fail _
  | case2 id hempty =>
    simp only [GraphSelect.emitCondition, hempty, Bool.false_eq_true, ↓reduceIte]
    exact hP.emitBoolean hexp id true
  | case3 l =>
    simp only [GraphSelect.emitCondition]
    exact hP.fail _
  | case4 op c left right hop =>
    rw [emitCondition.eq_def]
    simp only [hop]
    exact hP.emitComparison hexp c left right
  | case5 op left right hop ihl ihr | case6 op left right hop ihl ihr =>
    rw [emitCondition.eq_def]
    simp only [hop]
    exact hP.bind (hP.branch ihl) fun _ => hP.bind (hP.branch ihr) fun _ => hP.append _
  | case7 op id hop =>
    rw [emitCondition.eq_def]
    simp only [hop]
    exact hP.emitBoolean hexp id false
  | case8 _ _ _ hop | case9 _ _ _ hop | case10 _ _ _ hop | case11 _ hop | case12 _ _ _ hop =>
    rw [emitCondition.eq_def]
    simp only [hop]
    exact hP.fail _
  | case13 op operands =>
    rw [emitCondition.eq_def]
    simp only
    exact hP.fail _

end

theorem emitWithin (hP : Inherited P) (hops : Nat) :
    ∀ (expanding : List String) (scope : Scope) (n : Node),
      P Unit (emitWithin table hops expanding scope n) := by
  induction hops with
  | zero => exact fun _ _ n => hP.emitNode (fun _ _ _ => hP.fail _) n
  | succ hops ih =>
    intro expanding scope n
    refine hP.emitNode (fun scope name expr => ?_) n
    split
    · exact hP.fail _
    · exact ih _ _ _

end Emit.Inherited

/-! ## Drafts that go on from others -/

/-- A draft goes on from another one: it knows as much, returns the same columns under the same
names, and begins with the same steps. -/
structure Draft.Extends (d d' : Draft) : Prop
    extends Registry.Knows d'.registry d.registry where
  renames : d'.registry.renames = d.registry.renames
  outputs : d'.registry.outputs = d.registry.outputs
  renamed : d'.registry.renamedColumns = d.registry.renamedColumns
  steps : d.steps <+: d'.steps

namespace Draft.Extends

variable {d d' d'' : Draft}

theorem refl (d : Draft) : d.Extends d :=
  ⟨.refl _, rfl, rfl, rfl, List.prefix_refl _⟩

theorem trans (h : d.Extends d') (h' : d'.Extends d'') : d.Extends d'' :=
  ⟨h'.toKnows.trans h.toKnows, h'.renames.trans h.renames, h'.outputs.trans h.outputs,
    h'.renamed.trans h.renamed, h.steps.trans h'.steps⟩

end Draft.Extends

/-- However a computation ends, the draft that it leaves goes on from the one it was given. -/
def Emit.Frames {α : Type} (m : Emit α) : Prop :=
  ∀ d : Draft, d.Extends (m d).2

theorem Emit.Frames.extends {α : Type} {m : Emit α} {answer : Except CompileError α} {d d' : Draft}
    (h : m.Frames) (hm : m d = (answer, d')) : d.Extends d' := by
  have hd := h d
  rwa [hm] at hd

namespace Emit.Frames

variable {α β : Type}

theorem bindAlias (name : String) (expr : Node) : (Emit.bindAlias name expr).Frames := by
  intro d
  rcases hr : d.registry.bindAlias name expr with ⟨err | ⟨⟩, r⟩
  · obtain ⟨rfl, -⟩ := Registry.bindAlias_error hr
    rw [Emit.bindAlias_of_eq hr]
    exact .refl d
  · have hlearns : d.registry.Learns (fun _ _ => True) r := .bindAlias hr trivial
    have hwrites := Registry.bindAlias_writes hr
    rw [Emit.bindAlias_of_eq hr]
    refine ⟨⟨hlearns.toGrows, fun hagg => ?_⟩, ?_, ?_, ?_, List.prefix_refl _⟩
    all_goals
      dsimp only
      rw [hwrites]
    exact hagg

theorem bind {m : Emit α} {f : α → Emit β} (hm : m.Frames) (hf : ∀ a, (f a).Frames) :
    (m >>= f).Frames := by
  intro d
  change d.Extends (Emit.bind m f d).2
  unfold Emit.bind
  split
  · rename_i a d₁ hfirst
    exact (hm.extends hfirst).trans (hf a d₁)
  · rename_i e d₁ hfirst
    exact hm.extends hfirst

/-- A branch is written apart, so the steps around it stay as they are. -/
theorem branch {m : Emit Unit} (h : m.Frames) : (Emit.branch m).Frames := by
  intro d
  unfold Emit.branch
  split
  · rename_i inner hinner
    have hd := h.extends hinner
    exact ⟨hd.toKnows, hd.renames, hd.outputs, hd.renamed, List.prefix_refl _⟩
  · rename_i e inner hinner
    have hd := h.extends hinner
    exact ⟨hd.toKnows, hd.renames, hd.outputs, hd.renamed, List.prefix_refl _⟩

theorem inherited : Inherited fun _ m => m.Frames where
  fail _ := Draft.Extends.refl
  ask _ := Draft.Extends.refl
  appendAll _ _ := ⟨.refl _, rfl, rfl, rfl, List.prefix_append _ _⟩
  markAggregate _ := ⟨⟨⟨rfl, rfl, id⟩, fun _ => rfl⟩, rfl, rfl, rfl, List.prefix_refl _⟩
  bindAlias := bindAlias
  bind := bind
  branch := branch

end Emit.Frames

/-! ## Computations that look at names only -/

/-- What a computation does rests on the tables and the aliases alone: from drafts that agree on
them it gives the same answer, adds the same steps, and leaves drafts that agree on them. -/
def Emit.Blind {α : Type} (m : Emit α) : Prop :=
  ∀ ⦃d d' : Draft⦄, d.registry.Agrees d'.registry →
    (m d').1 = (m d).1 ∧ (m d).2.registry.Agrees (m d').2.registry ∧
      ∃ added, (m d).2.steps = d.steps ++ added ∧ (m d').2.steps = d'.steps ++ added

namespace Emit.Blind

variable {α β : Type}

theorem bindAlias (name : String) (expr : Node) : (Emit.bindAlias name expr).Blind := by
  intro d d' h
  obtain ⟨answer, r₁, r₁', hr, hr', hagrees⟩ := h.bindAlias name expr
  rw [Emit.bindAlias_of_eq hr, Emit.bindAlias_of_eq hr']
  exact ⟨rfl, hagrees, [], (List.append_nil _).symm, (List.append_nil _).symm⟩

theorem bind {m : Emit α} {f : α → Emit β} (hm : m.Blind) (hf : ∀ a, (f a).Blind) :
    (m >>= f).Blind := by
  intro d d' h
  obtain ⟨hanswer, hagrees, added, hsteps, hsteps'⟩ := hm h
  simp only [Bind.bind, Emit.bind]
  generalize m d = run at *
  generalize m d' = run' at *
  obtain ⟨answer, d₁⟩ := run
  obtain ⟨answer', d₁'⟩ := run'
  cases hanswer
  cases answer with
  | error e => exact ⟨rfl, hagrees, added, hsteps, hsteps'⟩
  | ok a =>
    obtain ⟨hlast, hagrees₂, added₂, hsteps₂, hsteps₂'⟩ := hf a hagrees
    refine ⟨hlast, hagrees₂, added ++ added₂, ?_, ?_⟩
    · rw [hsteps₂, hsteps, List.append_assoc]
    · rw [hsteps₂', hsteps', List.append_assoc]

theorem branch {m : Emit Unit} (hm : m.Blind) : (Emit.branch m).Blind := by
  intro d d' h
  obtain ⟨hanswer, hagrees, added, hsteps, hsteps'⟩ :=
    @hm ⟨d.registry, []⟩ ⟨d'.registry, []⟩ h
  simp only [Emit.branch]
  generalize m ⟨d.registry, []⟩ = run at *
  generalize m ⟨d'.registry, []⟩ = run' at *
  obtain ⟨answer, inner⟩ := run
  obtain ⟨answer', inner'⟩ := run'
  cases hanswer
  cases answer with
  | error e => exact ⟨rfl, hagrees, [], (List.append_nil _).symm, (List.append_nil _).symm⟩
  | ok u =>
    have hsame : inner'.steps = inner.steps := hsteps'.trans hsteps.symm
    refine ⟨?_, hagrees, [], (List.append_nil _).symm, (List.append_nil _).symm⟩
    simp only [hsame]

theorem inherited : Inherited fun _ m => m.Blind where
  fail _ _ _ h := ⟨rfl, h, [], (List.append_nil _).symm, (List.append_nil _).symm⟩
  ask hq _ _ h := ⟨hq h, h, [], (List.append_nil _).symm, (List.append_nil _).symm⟩
  appendAll steps _ _ h := ⟨rfl, h, steps, rfl, rfl⟩
  markAggregate _ _ h := ⟨rfl, ⟨h.schema, h.tables, h.aliases⟩, [], (List.append_nil _).symm,
    (List.append_nil _).symm⟩
  bindAlias := bindAlias
  bind := bind
  branch := branch

end Emit.Blind

end GraphSelect
