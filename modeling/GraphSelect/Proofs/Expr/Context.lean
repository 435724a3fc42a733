import GraphSelect.Expr.Context
import GraphSelect.Proofs.Expr.Frame
import GraphSelect.Sql.Build

/-!
# Emission in a context

Exactly one emission unfolds in a context as `Drafting.Unfolds` says. It does to the draft what
emission does that is handed the list of aliases as an argument, and it leaves its position as it
was, which is what the list being balanced comes to. Together with what emission does to drafts this
is the frame of emission: what a tree that was emitted can change for the next one in the same
context are names that it has bound, and nothing else.
-/

set_option autoImplicit false

namespace GraphSelect

open Sql

/-! ## Computations that stay where they are -/

/-- Started in a position, a computation on the context does to the draft what another one does that
is given the draft alone, and ends in the same position. -/
def Drafting.Does {α : Type} (m : Drafting α) (p : Position) (e : Emit α) : Prop :=
  ∀ d : Draft, m ⟨p, d⟩ = ((e d).1, ⟨p, (e d).2⟩)

namespace Drafting.Does

variable {α β : Type} {p : Position}

theorem fail (err : CompileError) : (Drafting.fail err : Drafting α).Does p (Emit.fail err) :=
  fun _ => rfl

theorem onDraft (m : Position → Emit α) : (Drafting.onDraft m).Does p (m p) :=
  fun _ => rfl

theorem bind {m : Drafting α} {f : α → Drafting β} {e : Emit α} {g : α → Emit β} (hm : m.Does p e)
    (hf : ∀ a, (f a).Does p (g a)) : (m >>= f).Does p (e >>= g) := by
  intro d
  simp only [Bind.bind, Drafting.bind, Emit.bind, hm d]
  rcases e d with ⟨answer, d₁⟩
  cases answer with
  | ok a => exact hf a d₁
  | error err => rfl

theorem branch {m : Drafting Unit} {e : Emit Unit} (hm : m.Does p e) :
    (Drafting.branch m).Does p (Emit.branch e) := by
  intro d
  simp only [Drafting.branch, Emit.branch, hm ⟨d.registry, []⟩]
  rcases e ⟨d.registry, []⟩ with ⟨answer, inner⟩
  cases answer with
  | ok u => rfl
  | error err => rfl

theorem inScope {scope : Scope} {m : Drafting Unit} {e : Emit Unit}
    (hm : m.Does { p with scope := scope } e) : (Drafting.inScope scope m).Does p e := by
  intro d
  rw [Drafting.inScope]
  simp only [hm d]

theorem expand_refused {emit : Node → Drafting Unit} {name : String} {expr : Node}
    (h : (p.expanding.contains name || maxAliasDepth ≤ p.expanding.length) = true) :
    (Drafting.expand emit name expr).Does p (Emit.fail (.shape (.cyclicAlias name))) := by
  intro d
  have henter : Drafting.enter name ⟨p, d⟩ = (.error (.shape (.cyclicAlias name)), ⟨p, d⟩) :=
    if_pos h
  change Drafting.bind (Drafting.enter name) (fun _ => Drafting.thenLeave (emit expr)) ⟨p, d⟩ = _
  rw [Drafting.bind, henter]
  rfl

/-- What is put on the list is taken off again, because the expression leaves the list as it found
it. -/
theorem expand_entered {emit : Node → Drafting Unit} {name : String} {expr : Node} {e : Emit Unit}
    (h : ¬ (p.expanding.contains name || maxAliasDepth ≤ p.expanding.length) = true)
    (hm : (emit expr).Does { p with expanding := name :: p.expanding } e) :
    (Drafting.expand emit name expr).Does p e := by
  intro d
  have henter : Drafting.enter name ⟨p, d⟩ =
      (.ok (), ⟨{ p with expanding := name :: p.expanding }, d⟩) := if_neg h
  change Drafting.bind (Drafting.enter name) (fun _ => Drafting.thenLeave (emit expr)) ⟨p, d⟩ = _
  rw [Drafting.bind, henter]
  change Drafting.thenLeave (emit expr) ⟨{ p with expanding := name :: p.expanding }, d⟩ = _
  rw [Drafting.thenLeave, hm d]
  rfl

end Drafting.Does

section

variable {emit : Node → Drafting Unit} {p : Position} {expand : Expansion}

theorem emitIdentifier_does
    (hexp : ∀ (name : String) (expr : Node),
      (Drafting.expand emit name expr).Does p (expand p.scope name expr)) (id : Identifier) :
    (Drafting.emitIdentifier emit id).Does p (emitIdentifier p.table expand p.scope id) := by
  unfold Drafting.emitIdentifier GraphSelect.emitIdentifier
  split
  · exact .fail _
  · refine .bind (.onDraft _) fun res => ?_
    cases res with
    | physical column => exact .onDraft _
    | named expr => exact hexp id.simpleName expr

theorem emitNode_does {table : TableId} {expanding : List String}
    (hexp : ∀ (scope : Scope) (name : String) (expr : Node),
      (Drafting.expand emit name expr).Does ⟨table, scope, expanding⟩ (expand scope name expr))
    (scope : Scope) (n : Node) :
    (Drafting.emitNode emit n).Does ⟨table, scope, expanding⟩ (emitNode table expand scope n) := by
  induction scope, n using emitNode.induct with
  | case1 scope id hempty =>
    simp only [Drafting.emitNode, GraphSelect.emitNode, hempty, ↓reduceIte]
    exact .fail _
  | case2 scope id hempty =>
    simp only [Drafting.emitNode, GraphSelect.emitNode, hempty, Bool.false_eq_true, ↓reduceIte]
    exact emitIdentifier_does (hexp scope) id
  | case3 scope l =>
    simp only [Drafting.emitNode, GraphSelect.emitNode]
    exact .onDraft _
  | case4 scope op inner name hop ih =>
    simp only [Drafting.emitNode, GraphSelect.emitNode, hop]
    exact .bind (.onDraft _) fun _ => ih
  | case5 scope op operand hop ih =>
    simp only [Drafting.emitNode, GraphSelect.emitNode, hop]
    exact ih
  | case7 scope op hop =>
    simp only [Drafting.emitNode, GraphSelect.emitNode, hop]
    exact .bind (.onDraft _) fun _ => .onDraft _
  | case8 scope op f operand hop ih =>
    rw [Drafting.emitNode.eq_def, emitNode.eq_def]
    simp only [hop]
    refine .bind (.onDraft _) fun _ => ?_
    split
    · exact .bind (.inScope ih) fun _ => .onDraft _
    · exact .onDraft _
  | case6 _ _ _ _ _ hop | case9 _ _ _ _ _ hop | case10 _ _ _ hop =>
    rw [Drafting.emitNode.eq_def, emitNode.eq_def]
    simp only [hop]
    exact .fail _
  | case11 scope op operands =>
    rw [Drafting.emitNode.eq_def, emitNode.eq_def]
    simp only
    exact .fail _

theorem emitBoolean_does
    (hexp : ∀ (name : String) (expr : Node),
      (Drafting.expand emit name expr).Does p (expand p.scope name expr)) (id : Identifier)
    (expected : Bool) :
    (Drafting.emitBoolean emit id expected).Does p
      (emitBoolean p.table expand p.scope id expected) :=
  .bind (.onDraft _) fun _ => .bind (emitIdentifier_does hexp id) fun _ => .onDraft _

theorem emitComparison_does
    (hexp : ∀ (scope : Scope) (name : String) (expr : Node),
      (Drafting.expand emit name expr).Does { p with scope := scope } (expand scope name expr))
    (c : Compare) (left right : Node) :
    (Drafting.emitComparison emit c left right).Does p
      (emitComparison p.table expand p.scope c left right) := by
  cases right with
  | literal r =>
    cases left with
    | literal l => exact .fail _
    | identifier _ | call _ _ => exact .bind (emitNode_does hexp p.scope _) fun _ => .onDraft _
  | identifier _ | call _ _ =>
    cases left with
    | literal l => exact .bind (emitNode_does hexp p.scope _) fun _ => .onDraft _
    | identifier _ | call _ _ => exact .fail _

theorem emitCondition_does
    (hexp : ∀ (scope : Scope) (name : String) (expr : Node),
      (Drafting.expand emit name expr).Does { p with scope := scope } (expand scope name expr))
    (n : Node) :
    (Drafting.emitCondition emit n).Does p (emitCondition p.table expand p.scope n) := by
  induction n using emitCondition.induct with
  | case1 id hempty =>
    simp only [Drafting.emitCondition, GraphSelect.emitCondition, hempty, ↓reduceIte]
    exact .fail _
  | case2 id hempty =>
    simp only [Drafting.emitCondition, GraphSelect.emitCondition, hempty, Bool.false_eq_true,
      ↓reduceIte]
    exact emitBoolean_does (hexp p.scope) id true
  | case3 l =>
    simp only [Drafting.emitCondition, GraphSelect.emitCondition]
    exact .fail _
  | case4 op c left right hop =>
    rw [Drafting.emitCondition.eq_def, emitCondition.eq_def]
    simp only [hop]
    exact emitComparison_does hexp c left right
  | case5 op left right hop ihl ihr | case6 op left right hop ihl ihr =>
    rw [Drafting.emitCondition.eq_def, emitCondition.eq_def]
    simp only [hop]
    exact .bind (.branch ihl) fun _ => .bind (.branch ihr) fun _ => .onDraft _
  | case7 op id hop =>
    rw [Drafting.emitCondition.eq_def, emitCondition.eq_def]
    simp only [hop]
    exact emitBoolean_does (hexp p.scope) id false
  | case8 _ _ _ hop | case9 _ _ _ hop | case10 _ _ _ hop | case11 _ hop | case12 _ _ _ hop =>
    rw [Drafting.emitCondition.eq_def, emitCondition.eq_def]
    simp only [hop]
    exact .fail _
  | case13 op operands =>
    rw [Drafting.emitCondition.eq_def, emitCondition.eq_def]
    simp only
    exact .fail _

end

/-! ## The one emission that unfolds -/

namespace Position

/-- The list of aliases says how many more may be expanded. -/
theorem emitWithin_eq (p : Position) (n : Node) :
    emitWithin p.table (maxAliasDepth - p.expanding.length) p.expanding p.scope n =
      p.demand (.value n) := by
  cases hroom : maxAliasDepth - p.expanding.length with
  | zero =>
    have hfull : maxAliasDepth ≤ p.expanding.length := Nat.sub_eq_zero_iff_le.1 hroom
    have hexp : p.expansion = fun _ name _ => Emit.fail (.shape (.cyclicAlias name)) := by
      funext scope name expr
      exact if_pos (by simp [hfull])
    rw [emitWithin, demand, hexp]
  | succ hops =>
    have hfree : ¬ maxAliasDepth ≤ p.expanding.length := by omega
    have hleft : maxAliasDepth - (p.expanding.length + 1) = hops := by omega
    rw [emitWithin, demand]
    congr 1
    funext scope name expr
    simp only [expansion, hfree, decide_false, Bool.or_false, hleft]

/-- Whatever is inherited by all that emission is built from holds of emission at a
position. -/
theorem demand_inherits {P : (α : Type) → Emit α → Prop} (hP : Emit.Inherited P) (p : Position)
    (demand : Demand) : P Unit (p.demand demand) := by
  have hexp (scope : Scope) (name : String) (expr : Node) :
      P Unit (p.expansion scope name expr) := by
    unfold expansion
    split
    · exact hP.fail _
    · exact hP.emitWithin _ _ _ _
  cases demand with
  | value n => exact hP.emitNode hexp n
  | condition n => exact hP.emitCondition hexp n

end Position

namespace Drafting

variable {emit' : Node → Drafting Unit}

/-- What an emission does at an alias, if it is known what it does one alias further in. -/
theorem expand_does {p : Position}
    (h : ∀ (scope : Scope) (name : String) (expr : Node), p.expanding.length < maxAliasDepth →
      (emit' expr).Does ⟨p.table, scope, name :: p.expanding⟩
        (Position.demand ⟨p.table, scope, name :: p.expanding⟩ (.value expr)))
    (scope : Scope) (name : String) (expr : Node) :
    (expand emit' name expr).Does { p with scope := scope } (p.expansion scope name expr) := by
  unfold Position.expansion
  split
  · exact .expand_refused ‹_›
  · rename_i hnot
    have hroom : p.expanding.length < maxAliasDepth := by
      simp only [Bool.or_eq_true, decide_eq_true_eq, not_or, Nat.not_le] at hnot
      exact hnot.2
    refine .expand_entered hnot ?_
    have hinner := h scope name expr hroom
    rwa [← Position.emitWithin_eq] at hinner

/-- The induction is on the room that is left on the list. -/
theorem Unfolds.does (h : Unfolds emit') (p : Position) (n : Node) :
    (emit' n).Does p (p.demand (.value n)) := by
  induction hroom : maxAliasDepth - p.expanding.length generalizing p n with
  | zero =>
    rw [h n]
    refine emitNode_does (expand_does fun scope name expr hlt => ?_) p.scope n
    omega
  | succ hops ih =>
    rw [h n]
    refine emitNode_does (expand_does fun scope name expr hlt => ih _ expr ?_) p.scope n
    rw [List.length_cons]
    omega

theorem emit_unfolds : Unfolds emit := by
  intro n
  funext c
  have hstep : (emitNode emit n).Does c.toPosition (c.toPosition.demand (.value n)) :=
    emitNode_does (expand_does fun _ _ _ _ => .onDraft _) c.scope n
  exact (hstep c.draft).symm

/-- **An emission that is bounded by the list of aliases alone comes to an end**: there is one, and
there is no other. -/
theorem unfolds_iff : Unfolds emit' ↔ emit' = emit := by
  constructor
  · intro h
    funext n c
    exact h.does c.toPosition n c.draft
  · rintro rfl
    exact emit_unfolds

theorem Unfolds.demand_does (h : Unfolds emit') (p : Position) (demand : Demand) :
    (Drafting.demand emit' demand).Does p (p.demand demand) := by
  cases demand with
  | value n => exact h.does p n
  | condition n => exact emitCondition_does (expand_does fun _ _ expr _ => h.does _ expr) n

theorem run_cons (emit : Node → Drafting Unit) (demand : Demand) (rest : List Demand)
    (c : Context) : run emit (demand :: rest) c = run emit rest (Drafting.demand emit demand c).2 :=
  rfl

end Drafting

/-! ## The frame -/

/-- What stays as it is in a context, and what is only added to. -/
structure Context.Keeps (c c' : Context) : Prop where
  table : c'.table = c.table
  scope : c'.scope = c.scope
  expanding : c'.expanding = c.expanding
  schema : c'.draft.registry.schema = c.draft.registry.schema
  tables : c'.draft.registry.tables = c.draft.registry.tables
  renames : c'.draft.registry.renames = c.draft.registry.renames
  outputs : c'.draft.registry.outputs = c.draft.registry.outputs
  renamed : c'.draft.registry.renamedColumns = c.draft.registry.renamedColumns
  aliases : ∀ {name : String} {expr : Node}, c.draft.registry.binding? name = some expr →
    c'.draft.registry.binding? name = some expr
  aggregate : c.draft.registry.hasAggregate = true → c'.draft.registry.hasAggregate = true
  steps : c.draft.steps <+: c'.draft.steps
  -- What a name stands for it stands for later on.
  resolves : ∀ {table : TableId} {name : String} {res : Resolution},
    c.draft.registry.resolveColumn table name = .ok res →
      c'.draft.registry.resolveColumn table name = .ok res

/-- A context with the aliases of another one. -/
def Context.withAliasesOf (c c' : Context) : Context :=
  ⟨c.toPosition, ⟨{ c.draft.registry with aliases := c'.draft.registry.aliases }, c.draft.steps⟩⟩

theorem Context.Keeps.of_extends {p : Position} {d d' : Draft} (h : d.Extends d') :
    Context.Keeps ⟨p, d⟩ ⟨p, d'⟩ where
  table := rfl
  scope := rfl
  expanding := rfl
  schema := h.schema
  tables := h.tables
  renames := h.renames
  outputs := h.outputs
  renamed := h.renamed
  aliases := h.binding
  aggregate := h.aggregate
  steps := h.steps
  resolves := fun hres => lasting_resolveColumn _ _ h.toKnows hres

section

variable {emit : Node → Drafting Unit} (hemit : Drafting.Unfolds emit)

include hemit

theorem Drafting.Unfolds.demand_eq (c : Context) (demand : Demand) :
    Drafting.demand emit demand c =
      ((c.toPosition.demand demand c.draft).1,
        ⟨c.toPosition, (c.toPosition.demand demand c.draft).2⟩) :=
  hemit.demand_does c.toPosition demand c.draft

theorem Drafting.Unfolds.demand_extends (c : Context) (demand : Demand) :
    c.draft.Extends (Drafting.demand emit demand c).2.draft := by
  rw [hemit.demand_eq]
  exact c.toPosition.demand_inherits Emit.Frames.inherited demand c.draft

theorem Drafting.Unfolds.run_extends (demands : List Demand) (c : Context) :
    ∃ d, Drafting.run emit demands c = ⟨c.toPosition, d⟩ ∧ c.draft.Extends d := by
  induction demands generalizing c with
  | nil => exact ⟨c.draft, rfl, .refl _⟩
  | cons demand rest ih =>
    obtain ⟨d, hrun, hd⟩ := ih (Drafting.demand emit demand c).2
    refine ⟨d, ?_, (hemit.demand_extends c demand).trans hd⟩
    rw [Drafting.run_cons, hrun, hemit.demand_eq]

/-- **The frame of emission.** Whether a tree is accepted or not, for its value or as a condition:

* the position of the context is what it was, the aliases being expanded with it; tables, schema and
  returned columns are what they were; an alias keeps its expression, a query that aggregates goes
  on doing so, the steps written so far stand before those that are added, and what a name stands
  for it stands for later on;
* where nothing is being expanded, this is the emission that a query is compiled by;
* after any trees in the same context, a further one is accepted or refused, and adds steps, as it
  would if nothing had been done but to bind the aliases that were added. -/
theorem emission_frame (c : Context) :
    (∀ demand, c.Keeps (Drafting.demand emit demand c).2) ∧
    (c.expanding = [] → ∀ n,
      Drafting.demand emit (.value n) c = ((emitValue c.table c.scope n c.draft).1,
        ⟨c.toPosition, (emitValue c.table c.scope n c.draft).2⟩) ∧
      Drafting.demand emit (.condition n) c = ((emitFilter c.table c.scope n c.draft).1,
        ⟨c.toPosition, (emitFilter c.table c.scope n c.draft).2⟩)) ∧
    ∀ (demands : List Demand) (later : Demand),
      c.Keeps (Drafting.run emit demands c) ∧
      (Drafting.demand emit later (Drafting.run emit demands c)).1 =
        (Drafting.demand emit later (c.withAliasesOf (Drafting.run emit demands c))).1 ∧
      ∃ added,
        (Drafting.demand emit later (Drafting.run emit demands c)).2.draft.steps =
          (Drafting.run emit demands c).draft.steps ++ added ∧
        (Drafting.demand emit later
          (c.withAliasesOf (Drafting.run emit demands c))).2.draft.steps =
          c.draft.steps ++ added := by
  refine ⟨fun demand => ?_, fun hfresh n => ?_, fun demands later => ?_⟩
  · have hextends := hemit.demand_extends c demand
    rw [hemit.demand_eq] at hextends ⊢
    exact .of_extends hextends
  · obtain ⟨⟨table, scope, expanding⟩, d⟩ := c
    cases hfresh
    exact ⟨hemit.demand_eq _ _, hemit.demand_eq _ _⟩
  · obtain ⟨d, hrun, hextends⟩ := hemit.run_extends demands c
    have hagrees : (c.withAliasesOf ⟨c.toPosition, d⟩).draft.registry.Agrees d.registry :=
      ⟨hextends.schema, hextends.tables, rfl⟩
    obtain ⟨hanswer, -, added, hsteps, hsteps'⟩ :=
      c.toPosition.demand_inherits Emit.Blind.inherited later hagrees
    rw [hrun, hemit.demand_eq, hemit.demand_eq]
    exact ⟨.of_extends hextends, hanswer, added, hsteps', hsteps⟩

end

/-- The names `a` and `b` stand for each other. The alias `x` is being expanded. -/
def circleContext : Context where
  table := 0
  scope := .bucket
  expanding := ["x"]
  draft := ⟨{ Registry.empty ⟨[⟨"person", .vertex, .string, [⟨"age", .integer⟩], none⟩]⟩ with
    tables := [⟨0, "person", "p", .vertex⟩]
    renames := [("p", "person")]
    aliases := [("b", .identifier ⟨["a"]⟩), ("a", .identifier ⟨["b"]⟩)] }, [.count]⟩

/-- `MAX(a) AS c`. -/
def circleDemand : Demand :=
  .value (.as (.aggregate .max (.identifier ⟨["a"]⟩)) "c")

/-- A circle is refused two aliases deep, after a name was given and an aggregate was begun. Only
`x` is on the list then, as before. -/
theorem emission_frame_circle :
    Drafting.Unfolds Drafting.emit ∧
      (Drafting.demand Drafting.emit circleDemand circleContext).1 =
        .error (.shape (.cyclicAlias "a")) ∧
      circleContext.Keeps (Drafting.demand Drafting.emit circleDemand circleContext).2 ∧
      (Drafting.demand Drafting.emit circleDemand circleContext).2.expanding = ["x"] ∧
      (Drafting.demand Drafting.emit circleDemand circleContext).2.draft.registry.aliases.map
        Prod.fst = ["c", "b", "a"] ∧
      (Drafting.demand Drafting.emit circleDemand circleContext).2.draft.registry.hasAggregate =
        true :=
  ⟨Drafting.emit_unfolds, rfl, (emission_frame Drafting.emit_unfolds circleContext).1 circleDemand,
    rfl, rfl, rfl⟩

end GraphSelect
