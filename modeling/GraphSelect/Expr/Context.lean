import GraphSelect.Expr.Emit

/-!
# Contexts of emission

One context serves for many trees: the items of a list, the keys of an order, the branches of a
condition. In it stand the table, the scope, and the aliases that are being expanded. An alias is
put on that list before its expression is emitted and taken off again afterwards, whether or not the
expression is accepted, and under an aggregate another scope is entered and left.

Here emission is written in that way, as a computation that changes its context. The recursion is
bounded by nothing but the list of aliases, so what is given is what one expansion does in terms of
the next (`Drafting.Unfolds`). `Drafting.emit` is the emission that is handed the list as an
argument, seen as such a computation.
-/

set_option autoImplicit false

namespace GraphSelect

open Sql

/-! ## Contexts -/

/-- Where in a query an emission stands. -/
structure Position where
  table : TableId
  scope : Scope
  -- The aliases that are being expanded, innermost first.
  expanding : List String

/-- A position, and the draft that is written there. -/
structure Context extends Position where
  draft : Draft

/-- A computation on a context. It may fail, and leaves a context in either case. -/
def Drafting (α : Type) : Type :=
  Context → Except CompileError α × Context

namespace Drafting

def pure {α : Type} (a : α) : Drafting α :=
  fun c => (.ok a, c)

def bind {α β : Type} (m : Drafting α) (f : α → Drafting β) : Drafting β :=
  fun c => match m c with
    | (.ok a, c) => f a c
    | (.error e, c) => (.error e, c)

instance : Monad Drafting where
  pure := Drafting.pure
  bind := Drafting.bind

def fail {α : Type} (e : CompileError) : Drafting α :=
  fun c => (.error e, c)

/-- A computation on the draft. -/
def onDraft {α : Type} (m : Position → Emit α) : Drafting α :=
  fun c => ((m c.toPosition c.draft).1, { c with draft := (m c.toPosition c.draft).2 })

/-- Puts an alias on the list. One that is on it already, or one too many, is refused. -/
def enter (name : String) : Drafting Unit :=
  fun c =>
    if c.expanding.contains name || maxAliasDepth ≤ c.expanding.length then
      (.error (.shape (.cyclicAlias name)), c)
    else
      (.ok (), { c with expanding := name :: c.expanding })

/-- A computation with the innermost alias taken off the list after it, however it ends. -/
def thenLeave (m : Drafting Unit) : Drafting Unit :=
  fun c => ((m c).1, { (m c).2 with expanding := (m c).2.expanding.tail })

/-- A computation in another scope, on a copy of the context, of which the draft is kept. -/
def inScope (scope : Scope) (m : Drafting Unit) : Drafting Unit :=
  fun c => ((m { c with scope := scope }).1,
    { c with draft := (m { c with scope := scope }).2.draft })

/-- The anonymous traversal that a computation writes in the same context. -/
def branch (m : Drafting Unit) : Drafting Traversal :=
  fun c => match m { c with draft := ⟨c.draft.registry, []⟩ } with
    | (.ok (), inner) =>
      (.ok (.anonymous inner.draft.steps),
        { inner with draft := ⟨inner.draft.registry, c.draft.steps⟩ })
    | (.error e, inner) =>
      (.error e, { inner with draft := ⟨inner.draft.registry, c.draft.steps⟩ })

/-! ## Emission -/

section

-- What to do with the expression of an alias.
variable (emit : Node → Drafting Unit)

def expand (name : String) (expr : Node) : Drafting Unit := do
  enter name
  thenLeave (emit expr)

def emitIdentifier (id : Identifier) : Drafting Unit := do
  if id.isStar then
    fail (.shape (.starOutsideList id))
  else do
    match ← onDraft fun p => Emit.ask fun r => resolveIdentifier r p.table id with
    | .physical column =>
      onDraft fun p => do
        if p.scope = .bucket then Emit.append .unfold
        Emit.appendAll column.source.steps
    | .named expr => expand emit id.simpleName expr

def emitNode : Node → Drafting Unit
  | .identifier id =>
    if id.names.isEmpty then fail (.shape .emptyIdentifier) else emitIdentifier emit id
  | .literal l => onDraft fun _ => Emit.append (.constant (.ofLiteral l))
  | .call op operands =>
    match op.role?, operands with
    | some .naming, [inner, .identifier ⟨[name]⟩] => do
      onDraft fun _ => Emit.bindAlias name inner
      emitNode inner
    | some (.mark .desc), [operand] => emitNode operand
    | some (.mark _), [_] => fail (.shape (.nullOrdering (.call op operands)))
    | some (.aggregate .count), [] => do
      onDraft fun p => openAggregate p.scope (.call op operands)
      onDraft fun _ => Emit.append .count
    | some (.aggregate f), [operand] => do
      onDraft fun p => openAggregate p.scope (.call op operands)
      if !operand.isStar then inScope .element (emitNode operand)
      onDraft fun _ => Emit.append f.step
    | some (.binary _), [_, _] => fail (.shape (.conditionAsValue (.call op operands)))
    | some .negation, [_] => fail (.shape (.conditionAsValue (.call op operands)))
    | _, _ => fail (.shape (callProblem op operands))

def emitBoolean (id : Identifier) (expected : Bool) : Drafting Unit := do
  onDraft fun p => Emit.ask fun r => checkBoolean r p.table id
  emitIdentifier emit id
  onDraft fun _ => Emit.append (.is .eq (.boolean expected))

def emitComparison (c : Compare) (left right : Node) : Drafting Unit :=
  match left, right with
  | .literal _, .literal _ => fail (.filter (.twoLiterals left right))
  | _, .literal l => do
    emitNode emit left
    onDraft fun _ => Emit.append (.is c (.ofLiteral l))
  | .literal l, _ => do
    emitNode emit right
    onDraft fun _ => Emit.append (.is c.flipped (.ofLiteral l))
  | _, _ => fail (.filter (.noLiteral left right))

def emitCondition : Node → Drafting Unit
  | .identifier id =>
    if id.names.isEmpty then fail (.shape .emptyIdentifier) else emitBoolean emit id true
  | .literal l => fail (.filter (.literalCondition l))
  | .call op operands =>
    match op.role?, operands with
    | some (.binary (.compare c)), [left, right] => emitComparison emit c left right
    | some (.binary .and), [left, right] => do
      let a ← branch (emitCondition left)
      let b ← branch (emitCondition right)
      onDraft fun _ => Emit.append (.and [a, b])
    | some (.binary .or), [left, right] => do
      let a ← branch (emitCondition left)
      let b ← branch (emitCondition right)
      onDraft fun _ => Emit.append (.or [a, b])
    | some .negation, [.identifier id] => emitBoolean emit id false
    | some .negation, [operand] => fail (.filter (.negatedExpression operand))
    | some .naming, [_, .identifier ⟨[_]⟩] => fail (.filter (.notACondition (.call op operands)))
    | some (.mark _), [_] => fail (.filter (.notACondition (.call op operands)))
    | some (.aggregate .count), [] => fail (.filter (.notACondition (.call op operands)))
    | some (.aggregate _), [_] => fail (.filter (.notACondition (.call op operands)))
    | _, _ => fail (.shape (callProblem op operands))

/-- An emission that expands aliases by itself. The recursion goes on as long as the list of aliases
admits one more. -/
def Unfolds : Prop :=
  ∀ n : Node, emit n = emitNode emit n

end

end Drafting

/-! ## Many trees in one context -/

/-- A tree to be emitted, for its value or as a condition. -/
inductive Demand where
  | value (n : Node)
  | condition (n : Node)

def Drafting.demand (emit : Node → Drafting Unit) : Demand → Drafting Unit
  | .value n => emit n
  | .condition n => emitCondition emit n

/-- Several trees in one context, each emitted whether or not those before it were accepted. -/
def Drafting.run (emit : Node → Drafting Unit) (demands : List Demand) (c : Context) : Context :=
  demands.foldl (fun c demand => (Drafting.demand emit demand c).2) c

/-! ## Emission at a position -/

namespace Position

/-- What is done at an alias while others are being expanded. -/
def expansion (p : Position) : Expansion :=
  fun scope name expr =>
    if p.expanding.contains name || maxAliasDepth ≤ p.expanding.length then
      Emit.fail (.shape (.cyclicAlias name))
    else
      emitWithin p.table (maxAliasDepth - (p.expanding.length + 1)) (name :: p.expanding) scope expr

/-- What emitting a tree does to a draft. -/
def demand (p : Position) : Demand → Emit Unit
  | .value n => emitNode p.table p.expansion p.scope n
  | .condition n => emitCondition p.table p.expansion p.scope n

end Position

/-- Emission with the list of aliases handed on as an argument. -/
def Drafting.emit (n : Node) : Drafting Unit :=
  onDraft fun p => p.demand (.value n)

end GraphSelect
