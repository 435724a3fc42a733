import GraphSelect.Expr.Typing

/-!
# Emitting expressions

An expression becomes a fragment of steps. What reaches the fragment depends on where it stands. In
element scope it is a single vertex or edge. In bucket scope it is the list of the elements of one
group, so a column is read off the unfolded list, and only there can aggregates be computed.
Constants are the same in both.

Emission is a computation on a `Draft`: the registry and the steps so far. A computation that fails
keeps its draft. The aliases that it has bound and the steps that it has added stay, which is why
the draft is not part of the result but stands beside it.

An alias is expanded where it is used. `emitNode` and `emitCondition` follow the tree only and are
given what to do at an alias; `emitWithin` ties the knot, with the aliases being expanded at hand,
so that an alias inside its own meaning is refused.
-/

set_option autoImplicit false

namespace GraphSelect

open Sql

/-- What reaches a fragment: a single element, or the list of the elements of a group. -/
inductive Scope where
  | element
  | bucket
deriving DecidableEq

/-- What emission has established so far. -/
structure Draft where
  registry : Registry
  -- The steps of the pipeline that is being written, in order.
  steps : List Step

/-- A computation on a draft. It may fail, and leaves a draft in either case. -/
def Emit (α : Type) : Type :=
  Draft → Except CompileError α × Draft

namespace Emit

def pure {α : Type} (a : α) : Emit α :=
  fun d => (.ok a, d)

/-- One computation after the other; a failure of the first is that of both. -/
def bind {α β : Type} (m : Emit α) (f : α → Emit β) : Emit β :=
  fun d => match m d with
    | (.ok a, d) => f a d
    | (.error e, d) => (.error e, d)

instance : Monad Emit where
  pure := Emit.pure
  bind := Emit.bind

def fail {α : Type} (e : CompileError) : Emit α :=
  fun d => (.error e, d)

/-- A result that is known already. -/
def lift {α : Type} : Except CompileError α → Emit α
  | .ok a => Emit.pure a
  | .error e => Emit.fail e

def registry : Emit Registry :=
  fun d => (.ok d.registry, d)

def ask {α : Type} (question : Registry → Except CompileError α) : Emit α :=
  fun d => (question d.registry, d)

def append (step : Step) : Emit Unit :=
  fun d => (.ok (), { d with steps := d.steps ++ [step] })

def appendAll (steps : List Step) : Emit Unit :=
  fun d => (.ok (), { d with steps := d.steps ++ steps })

def markAggregate : Emit Unit :=
  fun d => (.ok (), { d with registry := d.registry.markAggregate })

/-- An operation of the registry. What it leaves of the registry is kept, also where it fails. -/
def onRegistry {α : Type} (operation : Registry → Except RegistryError α × Registry) : Emit α :=
  fun d => match operation d.registry with
    | (result, r) => (result.mapError .registry, { d with registry := r })

def bindAlias (name : String) (expr : Node) : Emit Unit :=
  onRegistry fun r => r.bindAlias name expr

/-- The anonymous traversal that a computation writes. The pipeline around it is not touched. -/
def branch (m : Emit Unit) : Emit Traversal :=
  fun d => match m { d with steps := [] } with
    | (.ok (), inner) => (.ok (.anonymous inner.steps), { inner with steps := d.steps })
    | (.error e, inner) => (.error e, { inner with steps := d.steps })

end Emit

/-- What to do where a name turns out to be an alias: given the scope, the alias and its
expression. -/
abbrev Expansion := Scope → String → Node → Emit Unit

/-! ## Values -/

def emitIdentifier (table : TableId) (expand : Expansion) (scope : Scope) (id : Identifier) :
    Emit Unit := do
  if id.isStar then
    Emit.fail (.shape (.starOutsideList id))
  else do
    match ← Emit.ask fun r => resolveIdentifier r table id with
    | .physical column => do
      if scope = .bucket then Emit.append .unfold
      Emit.appendAll column.source.steps
    | .named expr => expand scope id.simpleName expr

/-- What comes before the operand of an aggregate: the elements of the bucket, one by one. -/
def openAggregate (scope : Scope) (call : Node) : Emit Unit := do
  if scope = .bucket then do
    Emit.markAggregate
    Emit.append .unfold
  else
    Emit.fail (.shape (.ungroupedAggregate call))

/-- Whether a node stands for all columns. -/
def Sql.Node.isStar : Node → Bool
  | .identifier id => id.isStar
  | _ => false

def emitNode (table : TableId) (expand : Expansion) (scope : Scope) : Node → Emit Unit
  | .identifier id =>
    if id.names.isEmpty then Emit.fail (.shape .emptyIdentifier)
    else emitIdentifier table expand scope id
  | .literal l => Emit.append (.constant (.ofLiteral l))
  | .call op operands =>
    match op.role?, operands with
    | some .naming, [inner, .identifier ⟨[name]⟩] => do
      Emit.bindAlias name inner
      emitNode table expand scope inner
    | some (.mark .desc), [operand] => emitNode table expand scope operand
    | some (.mark _), [_] => Emit.fail (.shape (.nullOrdering (.call op operands)))
    | some (.aggregate .count), [] => do
      openAggregate scope (.call op operands)
      Emit.append .count
    | some (.aggregate f), [operand] => do
      openAggregate scope (.call op operands)
      if !operand.isStar then emitNode table expand .element operand
      Emit.append f.step
    | some (.binary _), [_, _] => Emit.fail (.shape (.conditionAsValue (.call op operands)))
    | some .negation, [_] => Emit.fail (.shape (.conditionAsValue (.call op operands)))
    | _, _ => Emit.fail (.shape (callProblem op operands))

/-! ## Conditions -/

/-- Refuses an alias that names a condition, where a boolean column is needed. -/
def checkNamesNoCondition (r : Registry) (table : TableId) (id : Identifier) :
    Except CompileError Unit := do
  match ← resolveIdentifier r table id with
  | .physical _ => return ()
  | .named expr => do
    let inner ← expr.unaliased
    if (← inner.view).isPredicate then .error (.filter (.namesCondition id expr))
    else return ()

/-- Refuses a name that is not boolean. -/
def checkBoolean (r : Registry) (table : TableId) (id : Identifier) : Except CompileError Unit := do
  checkNamesNoCondition r table id
  let type ← identifierType r table (typeWithin r table maxAliasDepth) id
  if type = .boolean then return () else .error (.filter (.notBoolean id type))

/-- The condition that a boolean column has the expected value. -/
def emitBoolean (table : TableId) (expand : Expansion) (scope : Scope) (id : Identifier)
    (expected : Bool) : Emit Unit := do
  Emit.ask fun r => checkBoolean r table id
  emitIdentifier table expand scope id
  Emit.append (.is .eq (.boolean expected))

/-- The condition that a comparison holds. Exactly one side is a literal; if it is the left one, the
comparison is turned around. -/
def emitComparison (table : TableId) (expand : Expansion) (scope : Scope) (c : Compare)
    (left right : Node) : Emit Unit :=
  match left, right with
  | .literal _, .literal _ => Emit.fail (.filter (.twoLiterals left right))
  | _, .literal l => do
    emitNode table expand scope left
    Emit.append (.is c (.ofLiteral l))
  | .literal l, _ => do
    emitNode table expand scope right
    Emit.append (.is c.flipped (.ofLiteral l))
  | _, _ => Emit.fail (.filter (.noLiteral left right))

/-- The condition that a node states: what does not satisfy it finds nothing. -/
def emitCondition (table : TableId) (expand : Expansion) (scope : Scope) : Node → Emit Unit
  | .identifier id =>
    if id.names.isEmpty then Emit.fail (.shape .emptyIdentifier)
    else emitBoolean table expand scope id true
  | .literal l => Emit.fail (.filter (.literalCondition l))
  | .call op operands =>
    match op.role?, operands with
    | some (.binary (.compare c)), [left, right] => emitComparison table expand scope c left right
    | some (.binary .and), [left, right] => do
      let a ← Emit.branch (emitCondition table expand scope left)
      let b ← Emit.branch (emitCondition table expand scope right)
      Emit.append (.and [a, b])
    | some (.binary .or), [left, right] => do
      let a ← Emit.branch (emitCondition table expand scope left)
      let b ← Emit.branch (emitCondition table expand scope right)
      Emit.append (.or [a, b])
    | some .negation, [.identifier id] => emitBoolean table expand scope id false
    | some .negation, [operand] => Emit.fail (.filter (.negatedExpression operand))
    | some .naming, [_, .identifier ⟨[_]⟩] =>
      Emit.fail (.filter (.notACondition (.call op operands)))
    | some (.mark _), [_] => Emit.fail (.filter (.notACondition (.call op operands)))
    | some (.aggregate .count), [] => Emit.fail (.filter (.notACondition (.call op operands)))
    | some (.aggregate _), [_] => Emit.fail (.filter (.notACondition (.call op operands)))
    | _, _ => Emit.fail (.shape (callProblem op operands))

/-! ## Aliases -/

/-- The value of a node while the aliases `expanding` are being expanded, with `hops` more to go. An
alias that is being expanded already, or one too many, is refused. -/
def emitWithin (table : TableId) : Nat → List String → Scope → Node → Emit Unit
  | 0, _, scope, n =>
    emitNode table (fun _ name _ => Emit.fail (.shape (.cyclicAlias name))) scope n
  | hops + 1, expanding, scope, n =>
    emitNode table
      (fun scope name expr =>
        if expanding.contains name then Emit.fail (.shape (.cyclicAlias name))
        else emitWithin table hops (name :: expanding) scope expr)
      scope n

/-- What happens at an alias outside of any other: its expression is emitted in its place. -/
def expandAlias (table : TableId) : Expansion :=
  fun scope name expr => emitWithin table (maxAliasDepth - 1) [name] scope expr

def emitValue (table : TableId) (scope : Scope) (n : Node) : Emit Unit :=
  emitNode table (expandAlias table) scope n

def emitFilter (table : TableId) (scope : Scope) (n : Node) : Emit Unit :=
  emitCondition table (expandAlias table) scope n

end GraphSelect
