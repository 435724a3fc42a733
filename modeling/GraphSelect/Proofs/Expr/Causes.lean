import GraphSelect.Proofs.Expr.Emission

/-!
# What an expression can be refused for

A computation that fails says why. `Emit.Leads` is the rule by which the causes are found: where
the registry is as it should be, a success leads to one that is as it should be afterwards, and a
failure has a cause of a certain kind. Like a property of successes it is closed under the ways in
which computations are built. Most computations uphold what they ask for.

While a query is underway, an expression is refused for its shape, as a filter, or for a name that
is not known or that is given twice. All other errors come from the clauses around it.
-/

set_option autoImplicit false

namespace GraphSelect

open Sql

/-! ## Causes -/

/-- If there is an error, it has a cause of a certain kind. -/
def Blames {α : Type} (Cause : CompileError → Prop) (answer : Except CompileError α) : Prop :=
  ∀ ⦃e : CompileError⦄, answer = .error e → Cause e

/-- From a registry with one property, a success leads to a registry with another, and a failure has
a cause of a certain kind. -/
structure Emit.Leads {α : Type} (Before After : Registry → Prop) (Cause : CompileError → Prop)
    (m : Emit α) : Prop where
  reaches : ∀ {a : α} {d d' : Draft}, Before d.registry → m d = (.ok a, d') → After d'.registry
  blames : ∀ {e : CompileError} {d d' : Draft}, Before d.registry → m d = (.error e, d') → Cause e

/-- A registry that is as it should be stays so. -/
abbrev Emit.Upholds {α : Type} (Inv : Registry → Prop) (Cause : CompileError → Prop)
    (m : Emit α) : Prop :=
  m.Leads Inv Inv Cause

namespace Blames

variable {α β : Type} {Cause : CompileError → Prop}

theorem ok (a : α) : Blames Cause (.ok a) :=
  fun _ h => by cases h

theorem error {e : CompileError} (he : Cause e) : Blames Cause (.error e : Except CompileError α) :=
  fun _ h => by
    cases h
    exact he

theorem bind {answer : Except CompileError α} {f : α → Except CompileError β}
    (h : Blames Cause answer) (hf : ∀ a, answer = .ok a → Blames Cause (f a)) :
    Blames Cause (answer >>= f) := by
  cases answer with
  | error e => exact Blames.error (h rfl)
  | ok a => exact hf a rfl

theorem mono {Cause' : CompileError → Prop} {answer : Except CompileError α}
    (h : Blames Cause answer) (hc : ∀ {e}, Cause e → Cause' e) : Blames Cause' answer :=
  fun _ he => hc (h he)

end Blames

namespace Emit.Leads

variable {α β : Type} {Before Between After : Registry → Prop} {Cause : CompileError → Prop}

theorem bind {m : Emit α} {f : α → Emit β} (hm : m.Leads Before Between Cause)
    (hf : ∀ a, (f a).Leads Between After Cause) : (m >>= f).Leads Before After Cause := by
  refine ⟨fun hd h => ?_, fun {e d d'} hd h => ?_⟩
  · obtain ⟨a, d₁, h₁, h₂⟩ := Emit.bind_ok h
    exact (hf a).reaches (hm.reaches hd h₁) h₂
  · change Emit.bind m f d = (.error e, d') at h
    unfold Emit.bind at h
    split at h
    · exact (hf _).blames (hm.reaches hd ‹_›) h
    · cases h
      exact hm.blames hd ‹_›

theorem mono {Cause' : CompileError → Prop} {m : Emit α} (h : m.Leads Before After Cause)
    (hc : ∀ {e}, Cause e → Cause' e) : m.Leads Before After Cause' :=
  ⟨h.reaches, fun hd he => hc (h.blames hd he)⟩

-- What is computed without a change to the registry upholds whatever it has.
variable {Inv : Registry → Prop}

theorem pure (a : α) : (Pure.pure a : Emit α).Upholds Inv Cause :=
  ⟨fun hd h => (Emit.pure_ok h).2 ▸ hd, fun _ h => by cases h⟩

theorem fail {e : CompileError} (he : Cause e) : (Emit.fail e : Emit α).Upholds Inv Cause :=
  ⟨fun _ h => absurd h Emit.not_fail, fun _ h => by
    cases h
    exact he⟩

theorem lift {answer : Except CompileError α} (h : Blames Cause answer) :
    (Emit.lift answer).Upholds Inv Cause := by
  cases answer with
  | ok a => exact .pure a
  | error e => exact .fail (h rfl)

theorem ask {question : Registry → Except CompileError α}
    (h : ∀ r, Inv r → Blames Cause (question r)) : (Emit.ask question).Upholds Inv Cause := by
  refine ⟨fun hd hq => ?_, fun hd hq => h _ hd (congrArg Prod.fst hq)⟩
  obtain ⟨-, rfl⟩ := Emit.ask_ok hq
  exact hd

theorem registry : Emit.registry.Upholds Inv Cause := by
  refine ⟨fun hd h => ?_, fun _ h => by cases h⟩
  obtain ⟨-, rfl⟩ := Emit.registry_ok h
  exact hd

theorem appendAll (steps : List Step) : (Emit.appendAll steps).Upholds Inv Cause := by
  refine ⟨fun hd h => ?_, fun _ h => by cases h⟩
  cases Emit.appendAll_ok h
  exact hd

theorem append (s : Step) : (Emit.append s).Upholds Inv Cause :=
  .appendAll [s]

theorem branch {m : Emit Unit} (h : m.Upholds Inv Cause) : (Emit.branch m).Upholds Inv Cause := by
  refine ⟨fun hd hb => ?_, fun hd hb => ?_⟩
  · obtain ⟨inner, hinner, -, rfl⟩ := Emit.branch_ok hb
    have hkept : Inv inner.registry := h.reaches (d := ⟨_, []⟩) hd hinner
    exact hkept
  · unfold Emit.branch at hb
    split at hb
    · cases hb
    · rename_i hinner
      cases hb
      exact h.blames (d := ⟨_, []⟩) hd hinner

end Emit.Leads

/-! ## Names and types -/

/-- An error for which an expression is refused. -/
inductive OfExpression : CompileError → Prop where
  | shape (problem : ShapeProblem) : OfExpression (.shape problem)
  | filter (problem : FilterProblem) : OfExpression (.filter problem)
  | unresolved (table column : String) : OfExpression (.registry (.unresolvedColumn table column))
  | duplicate (name : String) : OfExpression (.registry (.duplicateAlias name))

/-- The registry has a table, and so does its schema. -/
def HasTable (table : TableId) (r : Registry) : Prop :=
  ∃ t, r.schemaTable table = .ok t

/-- A query is underway: it reads this table and no other, and its columns are not recorded yet. -/
structure Underway (table : TableId) (r : Registry) : Prop where
  hasTable : HasTable table r
  single : r.tables.length = 1
  unrecorded : r.outputs = []

section

variable {r : Registry} {table : TableId}

theorem HasTable.registered (h : HasTable table r) : ∃ t, r.table table = .ok t := by
  obtain ⟨_, ht⟩ := h
  obtain ⟨registered, hregistered, -⟩ := ok_of_bind ht
  exact ⟨registered, hregistered⟩

theorem Underway.grow {r' : Registry} (h : Underway table r) (hg : r.Grows r')
    (houtputs : r'.outputs = r.outputs) : Underway table r' := by
  obtain ⟨t, ht⟩ := h.hasTable
  refine ⟨⟨t, hg.schemaTable.trans ht⟩, ?_, houtputs.trans h.unrecorded⟩
  rw [hg.tables, h.single]

theorem view_blames (n : Node) : Blames OfExpression n.view := by
  cases n with
  | identifier id =>
    rw [Node.view]
    split
    · exact .error (.shape _)
    · exact .ok _
  | literal l => exact .ok _
  | call op operands =>
    unfold Node.view
    dsimp only
    split
    case h_7 => exact .error (.shape _)
    all_goals exact .ok _

theorem unaliased_blames (n : Node) : Blames OfExpression n.unaliased := by
  refine .bind (view_blames n) fun view _ => ?_
  cases view with
  | naming inner name => exact .bind (view_blames inner) fun _ _ => .ok _
  | _ => exact .ok _

theorem checkQualifier_blames (h : HasTable table r) (id : Identifier) :
    Blames OfExpression (checkQualifier r table id) := by
  obtain ⟨registered, hregistered⟩ := h.registered
  rw [checkQualifier]
  split
  · exact .ok ()
  · rw [hregistered]
    refine .bind (.ok _) fun _ _ => ?_
    split
    · exact .ok ()
    · exact .error (.unresolved _ _)

theorem resolveColumn_error {name : String} {err : RegistryError} (h : HasTable table r)
    (herr : r.resolveColumn table name = .error err) :
    ∃ working, err = .unresolvedColumn working name := by
  obtain ⟨registered, hregistered⟩ := h.registered
  obtain ⟨t, ht⟩ := h
  simp only [Registry.resolveColumn, ht, Registry.workingLabel, hregistered, bind,
    Except.bind] at herr
  split at herr
  · cases herr
  · split at herr
    · cases herr
    · cases herr
      exact ⟨_, rfl⟩

theorem resolveIdentifier_blames (h : HasTable table r) (id : Identifier) :
    Blames OfExpression (resolveIdentifier r table id) := by
  refine .bind (checkQualifier_blames h id) fun _ _ => ?_
  cases hresolve : r.resolveColumn table id.simpleName with
  | ok res => exact .ok _
  | error err =>
    obtain ⟨working, rfl⟩ := resolveColumn_error h hresolve
    exact .error (.unresolved working id.simpleName)

theorem identifierType_blames (h : HasTable table r)
    {typeOf : Node → Except CompileError ColumnType} (htype : ∀ n, Blames OfExpression (typeOf n))
    (id : Identifier) : Blames OfExpression (identifierType r table typeOf id) := by
  refine .bind (resolveIdentifier_blames h id) fun res _ => ?_
  cases res with
  | physical column => exact .ok _
  | named expr => exact htype expr

theorem typeWithin_blames (h : HasTable table r) (depth : Nat) :
    ∀ n : Node, Blames OfExpression (typeWithin r table depth n) := by
  induction depth with
  | zero => exact fun n => .bind (view_blames n) fun _ _ => .error (.shape _)
  | succ depth ih =>
    intro n
    refine .bind (view_blames n) fun view _ => ?_
    cases view with
    | identifier id => exact identifierType_blames h ih id
    | literal l => exact .ok _
    | naming inner name => exact ih inner
    | binary op left right => exact .error (.shape _)
    | negation operand => exact .error (.shape _)
    | mark m operand => exact ih operand
    | aggregate f operand =>
      cases operand with
      | none => cases f <;> exact .ok _
      | some operand =>
        cases f with
        | count | avg => exact .ok _
        | sum | min | max => exact ih operand

theorem sourceWithin_blames (h : HasTable table r) (hops : Nat) :
    ∀ id : Identifier, Blames OfExpression (sourceWithin r table hops id) := by
  induction hops with
  | zero => exact fun id => .ok _
  | succ hops ih =>
    intro id
    refine .bind (resolveIdentifier_blames h id) fun res _ => ?_
    cases res with
    | physical column => exact .ok _
    | named expr =>
      refine .bind (unaliased_blames expr) fun inner _ => ?_
      cases inner with
      | identifier next => exact ih next
      | literal l => exact .ok _
      | call op operands => exact .ok _

theorem isEndpointName_blames (h : HasTable table r) (id : Identifier) :
    Blames OfExpression (isEndpointName r table id) :=
  .bind (sourceWithin_blames h _ id) fun _ _ => .ok _

theorem checkBoolean_blames (h : HasTable table r) (id : Identifier) :
    Blames OfExpression (checkBoolean r table id) := by
  refine .bind (.bind (resolveIdentifier_blames h id) fun res _ => ?_) fun _ _ => ?_
  · cases res with
    | physical column => exact .ok _
    | named expr =>
      refine .bind (unaliased_blames expr) fun inner _ => .bind (view_blames inner) fun view _ => ?_
      split
      · exact .error (.filter _)
      · exact .ok _
  · refine .bind (identifierType_blames h (typeWithin_blames h _) id) fun type _ => ?_
    split
    · exact .ok _
    · exact .error (.filter _)

end

/-! ## Values -/

theorem bindAlias_upholds (table : TableId) (name : String) (expr : Node) :
    (Emit.bindAlias name expr).Upholds (Underway table) OfExpression := by
  refine ⟨fun hd h => ?_, fun {e d d'} _ h => ?_⟩
  · obtain ⟨r, hr, rfl⟩ := Emit.bindAlias_ok h
    have hlearns : Registry.Learns (fun _ _ => True) _ r := .bindAlias hr trivial
    exact hd.grow hlearns.toGrows (by rw [Registry.bindAlias_writes hr])
  · obtain ⟨err, r, herr, rfl, rfl⟩ := Emit.onRegistry_error h
    obtain ⟨-, rfl, -⟩ := Registry.bindAlias_error herr
    exact .duplicate name

theorem markAggregate_upholds (table : TableId) :
    Emit.markAggregate.Upholds (Underway table) OfExpression := by
  refine ⟨fun hd h => ?_, fun _ h => by cases h⟩
  cases Emit.markAggregate_ok h
  exact hd.grow ⟨rfl, rfl, id⟩ rfl

/-- What is done at an alias fails only for causes of the expression. -/
def Expansion.Upholds (table : TableId) (expand : Expansion) : Prop :=
  ∀ (scope : Scope) (name : String) (expr : Node),
    (expand scope name expr).Upholds (Underway table) OfExpression

section

variable {table : TableId} {expand : Expansion} {scope : Scope}

theorem emitIdentifier_upholds (hexp : expand.Upholds table) (id : Identifier) :
    (emitIdentifier table expand scope id).Upholds (Underway table) OfExpression := by
  unfold emitIdentifier
  split
  · exact .fail (.shape _)
  · refine .bind (.ask fun r hr => resolveIdentifier_blames hr.hasTable id) fun res => ?_
    cases res with
    | physical column =>
      dsimp only
      split
      · exact .bind (.append _) fun _ => .appendAll _
      · exact .appendAll _
    | named expr => exact hexp scope id.simpleName expr

theorem openAggregate_upholds (call : Node) :
    (openAggregate scope call).Upholds (Underway table) OfExpression := by
  unfold openAggregate
  split
  · exact .bind (markAggregate_upholds table) fun _ => .append _
  · exact .fail (.shape _)

theorem emitNode_upholds (hexp : expand.Upholds table) (n : Node) :
    (emitNode table expand scope n).Upholds (Underway table) OfExpression := by
  induction scope, n using emitNode.induct with
  | case1 scope id hempty =>
    simp only [emitNode, hempty, ↓reduceIte]
    exact .fail (.shape _)
  | case2 scope id hempty =>
    simp only [emitNode, hempty, Bool.false_eq_true, ↓reduceIte]
    exact emitIdentifier_upholds hexp id
  | case3 scope l =>
    simp only [emitNode]
    exact .append _
  | case4 scope op inner name hop ih =>
    simp only [emitNode, hop]
    exact .bind (bindAlias_upholds table name inner) fun _ => ih
  | case5 scope op operand hop ih =>
    simp only [emitNode, hop]
    exact ih
  | case7 scope op hop =>
    simp only [emitNode, hop]
    exact .bind (openAggregate_upholds _) fun _ => .append _
  | case8 scope op f operand hop ih =>
    rw [emitNode.eq_def]
    simp only [hop]
    refine .bind (openAggregate_upholds _) fun _ => ?_
    split
    · exact .bind ih fun _ => .append _
    · exact .append _
  | case6 _ _ _ _ _ hop | case9 _ _ _ _ _ hop | case10 _ _ _ hop =>
    rw [emitNode.eq_def]
    simp only [hop]
    exact .fail (.shape _)
  | case11 scope op operands =>
    rw [emitNode.eq_def]
    simp only
    exact .fail (.shape _)

/-! ## Conditions -/

theorem emitBoolean_upholds (hexp : expand.Upholds table) (id : Identifier) (b : Bool) :
    (emitBoolean table expand scope id b).Upholds (Underway table) OfExpression :=
  .bind (.ask fun _ hr => checkBoolean_blames hr.hasTable id) fun _ =>
    .bind (emitIdentifier_upholds hexp id) fun _ => .append _

theorem emitComparison_upholds (hexp : expand.Upholds table) (c : Compare) (left right : Node) :
    (emitComparison table expand scope c left right).Upholds (Underway table) OfExpression := by
  unfold emitComparison
  split
  · exact .fail (.filter _)
  · exact .bind (emitNode_upholds hexp left) fun _ => .append _
  · exact .bind (emitNode_upholds hexp right) fun _ => .append _
  · exact .fail (.filter _)

theorem emitCondition_upholds (hexp : expand.Upholds table) (n : Node) :
    (emitCondition table expand scope n).Upholds (Underway table) OfExpression := by
  induction n using emitCondition.induct with
  | case1 id hempty =>
    simp only [emitCondition, hempty, ↓reduceIte]
    exact .fail (.shape _)
  | case2 id hempty =>
    simp only [emitCondition, hempty, Bool.false_eq_true, ↓reduceIte]
    exact emitBoolean_upholds hexp id true
  | case3 l =>
    simp only [emitCondition]
    exact .fail (.filter _)
  | case4 op c left right hop =>
    rw [emitCondition.eq_def]
    simp only [hop]
    exact emitComparison_upholds hexp c left right
  | case5 op left right hop ihl ihr | case6 op left right hop ihl ihr =>
    rw [emitCondition.eq_def]
    simp only [hop]
    exact .bind (.branch ihl) fun _ => .bind (.branch ihr) fun _ => .append _
  | case7 op id hop =>
    rw [emitCondition.eq_def]
    simp only [hop]
    exact emitBoolean_upholds hexp id false
  | case8 _ _ _ hop | case9 _ _ _ hop | case10 _ _ _ hop | case11 _ hop | case12 _ _ _ hop =>
    rw [emitCondition.eq_def]
    simp only [hop]
    exact .fail (.filter _)
  | case13 op operands =>
    rw [emitCondition.eq_def]
    simp only
    exact .fail (.shape _)

/-! ## Aliases -/

theorem emitWithin_upholds (hops : Nat) : ∀ (expanding : List String) (scope : Scope) (n : Node),
    (emitWithin table hops expanding scope n).Upholds (Underway table) OfExpression := by
  induction hops with
  | zero => exact fun _ _ n => emitNode_upholds (fun _ _ _ => .fail (.shape _)) n
  | succ hops ih =>
    intro expanding scope n
    refine emitNode_upholds (fun scope name expr => ?_) n
    split
    · exact .fail (.shape _)
    · exact ih _ _ _

theorem emitValue_upholds (n : Node) :
    (emitValue table scope n).Upholds (Underway table) OfExpression :=
  emitNode_upholds (fun _ _ _ => emitWithin_upholds _ _ _ _) n

theorem emitFilter_upholds (n : Node) :
    (emitFilter table scope n).Upholds (Underway table) OfExpression :=
  emitCondition_upholds (fun _ _ _ => emitWithin_upholds _ _ _ _) n

end

end GraphSelect
