import GraphSelect.Proofs.Expr.Inversion

/-!
# The same expression in both scopes

What is accepted on a single element is accepted on a bucket too, since a bucket only allows for
more, namely aggregates. The steps are others, but the registry ends up the same, so that the names
in the expression stand for the same things.

`Emit.Follows` says this of two computations. Like a property of one computation it is closed under
the ways in which computations are built.
-/

set_option autoImplicit false

namespace GraphSelect

open Sql

/-- Where one computation succeeds, another one succeeds on the same registry, whatever steps have
been written before, and establishes the same. -/
def Emit.Follows {α β : Type} (m' : Emit β) (m : Emit α) : Prop :=
  ∀ ⦃a : α⦄ ⦃d d' : Draft⦄ (steps : List Step), m d = (.ok a, d') →
    ∃ b steps', m' ⟨d.registry, steps⟩ = (.ok b, ⟨d'.registry, steps'⟩)

namespace Emit.Follows

variable {α α' β β' : Type}

theorem of_fail (m' : Emit β) (err : CompileError) : m'.Follows (Emit.fail err : Emit α) :=
  fun _ _ _ _ h => absurd h Emit.not_fail

theorem lift (answer : Except CompileError α) :
    (Emit.lift answer).Follows (Emit.lift answer) := by
  cases answer with
  | ok a =>
    intro b d d' steps h
    obtain ⟨-, rfl⟩ := Emit.pure_ok h
    exact ⟨a, steps, rfl⟩
  | error err => exact .of_fail _ err

/-- Steps alone establish nothing. -/
theorem appendAll (added' added : List Step) :
    (Emit.appendAll added').Follows (Emit.appendAll added) := by
  intro _ d d' steps h
  cases Emit.appendAll_ok h
  exact ⟨(), steps ++ added', rfl⟩

theorem append (s' s : Step) : (Emit.append s').Follows (Emit.append s) :=
  .appendAll [s'] [s]

theorem bindAlias (name : String) (expr : Node) :
    (Emit.bindAlias name expr).Follows (Emit.bindAlias name expr) := by
  intro _ d d' steps h
  obtain ⟨r, hr, rfl⟩ := Emit.bindAlias_ok h
  exact ⟨(), steps, Emit.bindAlias_of_eq (d := ⟨d.registry, steps⟩) hr⟩

theorem bind {m' : Emit α'} {m : Emit α} {f' : α' → Emit β'} {f : α → Emit β} (hm : m'.Follows m)
    (hf : ∀ a' a, (f' a').Follows (f a)) : (m' >>= f').Follows (m >>= f) := by
  intro b d d' steps h
  obtain ⟨a, d₁, h₁, h₂⟩ := Emit.bind_ok h
  obtain ⟨a', steps₁, hfirst⟩ := hm steps h₁
  obtain ⟨b', steps₂, hsecond⟩ := hf a' a steps₁ h₂
  refine ⟨b', steps₂, ?_⟩
  change Emit.bind m' f' ⟨d.registry, steps⟩ = _
  rw [Emit.bind, hfirst]
  exact hsecond

/-- Both are told the same. -/
theorem ask {question : Registry → Except CompileError α} {f' : α → Emit β'} {f : α → Emit β}
    (hf : ∀ a, (f' a).Follows (f a)) : (Emit.ask question >>= f').Follows
      (Emit.ask question >>= f) := by
  intro b d d' steps h
  obtain ⟨a, d₁, h₁, h₂⟩ := Emit.bind_ok h
  obtain ⟨ha, rfl⟩ := Emit.ask_ok h₁
  obtain ⟨b', steps', hsecond⟩ := hf a steps h₂
  refine ⟨b', steps', ?_⟩
  change Emit.bind (Emit.ask question) f' ⟨d₁.registry, steps⟩ = _
  rw [Emit.bind, Emit.ask, ha]
  exact hsecond

/-- A step may come first that the other computation does without. -/
theorem append_first (s : Step) {m' : Emit β'} {m : Emit β} (h : m'.Follows m) :
    (Emit.append s >>= fun _ => m').Follows m := by
  intro b d d' steps hm
  obtain ⟨b', steps', hagain⟩ := h (steps ++ [s]) hm
  exact ⟨b', steps', hagain⟩

theorem branch {m' m : Emit Unit} (h : m'.Follows m) :
    (Emit.branch m').Follows (Emit.branch m) := by
  intro t d d' steps hm
  obtain ⟨inner, hinner, rfl, rfl⟩ := Emit.branch_ok hm
  obtain ⟨_, steps', hagain⟩ := h [] hinner
  exact ⟨.anonymous steps', steps, by rw [Emit.branch, hagain]⟩

/-- A branch is written apart, so the steps before it do not matter. -/
theorem branch_same (m : Emit Unit) : (Emit.branch m).Follows (Emit.branch m) := by
  intro t d d' steps h
  obtain ⟨inner, hinner, rfl, rfl⟩ := Emit.branch_ok h
  exact ⟨.anonymous inner.steps, steps, by rw [Emit.branch, hinner]⟩

/-- A computation that follows itself ends with one registry, whatever steps it starts with. -/
theorem registry_eq {m : Emit α} (hm : m.Follows m) {a b : α} {d d₁ d₂ : Draft} {steps : List Step}
    (h : m d = (.ok a, d₁)) (h' : m ⟨d.registry, steps⟩ = (.ok b, d₂)) :
    d₂.registry = d₁.registry := by
  obtain ⟨_, _, hagain⟩ := hm steps h
  cases hagain.symm.trans h'
  rfl

end Emit.Follows

/-! ## Values -/

/-- What is done at an alias in bucket scope follows what is done in element scope. -/
def Expansion.FollowsElement (expand : Expansion) : Prop :=
  ∀ (name : String) (expr : Node), (expand .bucket name expr).Follows (expand .element name expr)

section

variable {table : TableId} {expand : Expansion}

theorem emitIdentifier_follows (hexp : expand.FollowsElement) (id : Identifier) :
    (emitIdentifier table expand .bucket id).Follows
      (emitIdentifier table expand .element id) := by
  unfold emitIdentifier
  split
  · exact .of_fail _ _
  · refine .ask fun res => ?_
    cases res with
    | physical column => exact .append_first _ (.appendAll _ _)
    | named expr => exact hexp id.simpleName expr

/-- On a single element there is nothing to aggregate. -/
theorem follows_openAggregate {α β : Type} (m' : Emit β) (call : Node) (f : Unit → Emit α) :
    m'.Follows (openAggregate .element call >>= f) := by
  intro a d d' steps h
  obtain ⟨_, d₁, h₁, -⟩ := Emit.bind_ok h
  exact absurd h₁ Emit.not_fail

theorem emitNode_follows (hexp : expand.FollowsElement) (n : Node) :
    (emitNode table expand .bucket n).Follows (emitNode table expand .element n) := by
  generalize hscope : Scope.element = scope
  induction scope, n using emitNode.induct with
  | case1 scope id hempty =>
    simp only [emitNode, hempty, ↓reduceIte]
    exact .of_fail _ _
  | case2 scope id hempty =>
    subst hscope
    simp only [emitNode, hempty, Bool.false_eq_true, ↓reduceIte]
    exact emitIdentifier_follows hexp id
  | case3 scope l =>
    simp only [emitNode]
    exact .append _ _
  | case4 scope op inner name hop ih =>
    simp only [emitNode, hop]
    exact .bind (.bindAlias name inner) fun _ _ => ih hscope
  | case5 scope op operand hop ih =>
    simp only [emitNode, hop]
    exact ih hscope
  | case7 scope op hop =>
    subst hscope
    simp only [emitNode, hop]
    exact follows_openAggregate _ _ _
  | case8 scope op f operand hop ih =>
    subst hscope
    rw [emitNode.eq_def table expand .element]
    simp only [hop]
    exact follows_openAggregate _ _ _
  | case6 _ _ _ _ _ hop | case9 _ _ _ _ _ hop | case10 _ _ _ hop =>
    subst hscope
    rw [emitNode.eq_def table expand .element]
    simp only [hop]
    exact .of_fail _ _
  | case11 scope op operands =>
    subst hscope
    rw [emitNode.eq_def table expand .element]
    simp only
    exact .of_fail _ _

theorem emitWithin_follows (hops : Nat) :
    ∀ (expanding : List String) (n : Node),
      (emitWithin table hops expanding .bucket n).Follows
        (emitWithin table hops expanding .element n) := by
  induction hops with
  | zero =>
    intro expanding n
    exact emitNode_follows (fun _ _ => .of_fail _ _) n
  | succ hops ih =>
    intro expanding n
    refine emitNode_follows (fun name expr => ?_) n
    split
    · exact .of_fail _ _
    · exact ih (name :: expanding) expr

theorem expandAlias_follows (table : TableId) : (expandAlias table).FollowsElement :=
  fun name expr => emitWithin_follows _ [name] expr

/-! ## Conditions -/

theorem emitBoolean_follows (hexp : expand.FollowsElement) (id : Identifier) (expected : Bool) :
    (emitBoolean table expand .bucket id expected).Follows
      (emitBoolean table expand .element id expected) :=
  .ask fun _ => .bind (emitIdentifier_follows hexp id) fun _ _ => .append _ _

theorem emitComparison_follows (hexp : expand.FollowsElement) (c : Compare) (left right : Node) :
    (emitComparison table expand .bucket c left right).Follows
      (emitComparison table expand .element c left right) := by
  unfold emitComparison
  split
  · exact .of_fail _ _
  · exact .bind (emitNode_follows hexp _) fun _ _ => .append _ _
  · exact .bind (emitNode_follows hexp _) fun _ _ => .append _ _
  · exact .of_fail _ _

theorem emitCondition_follows (hexp : expand.FollowsElement) (n : Node) :
    (emitCondition table expand .bucket n).Follows (emitCondition table expand .element n) := by
  induction n using emitCondition.induct with
  | case1 id hempty =>
    simp only [emitCondition, hempty, ↓reduceIte]
    exact .of_fail _ _
  | case2 id hempty =>
    simp only [emitCondition, hempty, Bool.false_eq_true, ↓reduceIte]
    exact emitBoolean_follows hexp id true
  | case3 l =>
    simp only [emitCondition]
    exact .of_fail _ _
  | case4 op c left right hop =>
    rw [emitCondition.eq_def table expand .element, emitCondition.eq_def table expand .bucket]
    simp only [hop]
    exact emitComparison_follows hexp c left right
  | case5 op left right hop ihl ihr | case6 op left right hop ihl ihr =>
    rw [emitCondition.eq_def table expand .element, emitCondition.eq_def table expand .bucket]
    simp only [hop]
    exact .bind (.branch ihl) fun _ _ => .bind (.branch ihr) fun _ _ => .append _ _
  | case7 op id hop =>
    rw [emitCondition.eq_def table expand .element, emitCondition.eq_def table expand .bucket]
    simp only [hop]
    exact emitBoolean_follows hexp id false
  | case8 _ _ _ hop | case9 _ _ _ hop | case10 _ _ _ hop | case11 _ hop | case12 _ _ _ hop =>
    rw [emitCondition.eq_def table expand .element]
    simp only [hop]
    exact .of_fail _ _
  | case13 op operands =>
    rw [emitCondition.eq_def table expand .element]
    simp only
    exact .of_fail _ _

theorem emitFilter_follows (n : Node) :
    (emitFilter table .bucket n).Follows (emitFilter table .element n) :=
  emitCondition_follows (expandAlias_follows table) n

end

end GraphSelect
