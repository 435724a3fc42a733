import GraphSelect.Expr.Emit
import GraphSelect.Proofs.Lists

/-!
# Taking computations apart

A statement about a query that compiles starts from a computation that has succeeded, and asks what
its parts have done. Each lemma here says that for one way of building a computation: what succeeds
after something else is preceded by a success, a branch that succeeds has been written apart from
the pipeline around it, a name that is resolved is a column or an alias of the table.
-/

set_option autoImplicit false

namespace GraphSelect

open Sql

variable {α β : Type}

theorem ok_of_bind {ε : Type} : ∀ {m : Except ε α} {f : α → Except ε β} {b : β},
    (m >>= f) = .ok b → ∃ a, m = .ok a ∧ f a = .ok b
  | .ok a, _, _, h => ⟨a, rfl, h⟩
  | .error _, _, _, h => nomatch h

theorem bind_eq_ok_iff {ε : Type} {m : Except ε α} {f : α → Except ε β} {b : β} :
    (m >>= f) = .ok b ↔ ∃ a, m = .ok a ∧ f a = .ok b := by
  constructor
  · exact ok_of_bind
  · rintro ⟨a, rfl, hf⟩
    exact hf

theorem ok_of_map {ε α β : Type} {x : Except ε α} {f : α → β} {b : β} (h : x.map f = .ok b) :
    ∃ a, x = .ok a ∧ f a = b := by
  cases x with
  | error e => cases h
  | ok a => exact ⟨a, rfl, Except.ok.inj h⟩

namespace Emit

variable {d d' : Draft}

theorem bind_ok {m : Emit α} {f : α → Emit β} {b : β} (h : (m >>= f) d = (.ok b, d')) :
    ∃ a d₁, m d = (.ok a, d₁) ∧ f a d₁ = (.ok b, d') := by
  change Emit.bind m f d = (.ok b, d') at h
  unfold Emit.bind at h
  split at h
  · exact ⟨_, _, ‹_›, h⟩
  · cases h

theorem bind_of_ok {m : Emit α} {f : α → Emit β} {a : α} (h : m d = (.ok a, d')) :
    (m >>= f) d = f a d' := by
  change Emit.bind m f d = f a d'
  rw [Emit.bind, h]

theorem bind_of_error {m : Emit α} {f : α → Emit β} {e : CompileError}
    (h : m d = (.error e, d')) : (m >>= f) d = (.error e, d') := by
  change Emit.bind m f d = (.error e, d')
  rw [Emit.bind, h]

theorem bind_assoc {γ : Type} (m : Emit α) (f : α → Emit β) (g : β → Emit γ) :
    (m >>= f) >>= g = m >>= fun a => f a >>= g := by
  funext d
  change Emit.bind (Emit.bind m f) g d = Emit.bind m (fun a => Emit.bind (f a) g) d
  simp only [Emit.bind]
  cases m d with
  | mk answer d' => cases answer <;> rfl

theorem pure_ok {a b : α} (h : (Pure.pure a : Emit α) d = (.ok b, d')) : b = a ∧ d' = d := by
  cases h
  exact ⟨rfl, rfl⟩

theorem not_fail {err : CompileError} {b : α} : (Emit.fail err : Emit α) d ≠ (.ok b, d') := by
  intro h
  cases h

theorem lift_ok {m : Except CompileError α} {b : α} (h : Emit.lift m d = (.ok b, d')) :
    m = .ok b ∧ d' = d := by
  cases m with
  | error err => cases h
  | ok a =>
    cases h
    exact ⟨rfl, rfl⟩

theorem ask_of_eq {question : Registry → Except CompileError α} {result : Except CompileError α}
    (h : question d.registry = result) : Emit.ask question d = (result, d) := by
  rw [Emit.ask, h]

theorem ask_ok {question : Registry → Except CompileError α} {b : α}
    (h : Emit.ask question d = (.ok b, d')) : question d.registry = .ok b ∧ d' = d := by
  have h₁ := congrArg Prod.fst h
  have h₂ := congrArg Prod.snd h
  exact ⟨h₁, h₂.symm⟩

theorem registry_ok {r : Registry} (h : Emit.registry d = (.ok r, d')) :
    r = d.registry ∧ d' = d := by
  cases h
  exact ⟨rfl, rfl⟩

theorem append_ok {s : Step} {u : Unit} (h : Emit.append s d = (.ok u, d')) :
    d' = ⟨d.registry, d.steps ++ [s]⟩ := by
  cases h
  rfl

theorem appendAll_ok {steps : List Step} {u : Unit} (h : Emit.appendAll steps d = (.ok u, d')) :
    d' = ⟨d.registry, d.steps ++ steps⟩ := by
  cases h
  rfl

theorem markAggregate_ok {u : Unit} (h : Emit.markAggregate d = (.ok u, d')) :
    d' = ⟨d.registry.markAggregate, d.steps⟩ := by
  cases h
  rfl

theorem onRegistry_of_eq {operation : Registry → Except RegistryError α × Registry}
    {result : Except RegistryError α} {r : Registry} (h : operation d.registry = (result, r)) :
    Emit.onRegistry operation d = (result.mapError .registry, ⟨r, d.steps⟩) := by
  rw [Emit.onRegistry, h]

theorem onRegistry_ok {operation : Registry → Except RegistryError α × Registry} {a : α}
    (h : Emit.onRegistry operation d = (.ok a, d')) :
    ∃ r, operation d.registry = (.ok a, r) ∧ d' = ⟨r, d.steps⟩ := by
  rcases hop : operation d.registry with ⟨err | b, r⟩
  · rw [onRegistry_of_eq hop] at h
    cases h
  · rw [onRegistry_of_eq hop] at h
    cases h
    exact ⟨r, rfl, rfl⟩

theorem onRegistry_error {operation : Registry → Except RegistryError α × Registry}
    {e : CompileError} (h : Emit.onRegistry operation d = (.error e, d')) :
    ∃ err r, operation d.registry = (.error err, r) ∧ e = .registry err ∧ d' = ⟨r, d.steps⟩ := by
  rcases hop : operation d.registry with ⟨err | b, r⟩
  · rw [onRegistry_of_eq hop] at h
    cases h
    exact ⟨err, r, rfl, rfl, rfl⟩
  · rw [onRegistry_of_eq hop] at h
    cases h

theorem bindAlias_of_eq {name : String} {expr : Node} {result : Except RegistryError Unit}
    {r : Registry} (h : d.registry.bindAlias name expr = (result, r)) :
    Emit.bindAlias name expr d = (result.mapError .registry, ⟨r, d.steps⟩) :=
  onRegistry_of_eq h

theorem bindAlias_ok {name : String} {expr : Node} {u : Unit}
    (h : Emit.bindAlias name expr d = (.ok u, d')) :
    ∃ r, d.registry.bindAlias name expr = (.ok (), r) ∧ d' = ⟨r, d.steps⟩ :=
  onRegistry_ok h

theorem branch_ok {m : Emit Unit} {t : Traversal} (h : Emit.branch m d = (.ok t, d')) :
    ∃ inner, m ⟨d.registry, []⟩ = (.ok (), inner) ∧ t = .anonymous inner.steps ∧
      d' = ⟨inner.registry, d.steps⟩ := by
  unfold Emit.branch at h
  split at h
  · cases h
    exact ⟨_, ‹_›, rfl, rfl⟩
  · cases h

end Emit

/-! ## Views -/

inductive Views : Node → View → Prop where
  | identifier (id : Identifier) : Views (.identifier id) (.identifier id)
  | literal (l : Literal) : Views (.literal l) (.literal l)
  | naming {op : Operator} (inner : Node) (name : String) :
      op.role? = some .naming →
      Views (.call op [inner, .identifier ⟨[name]⟩]) (.naming inner name)
  | binary {op : Operator} {b : BinaryRole} (left right : Node) :
      op.role? = some (.binary b) → Views (.call op [left, right]) (.binary b left right)
  | negation {op : Operator} (operand : Node) :
      op.role? = some .negation → Views (.call op [operand]) (.negation operand)
  | mark {op : Operator} {m : SortMark} (operand : Node) :
      op.role? = some (.mark m) → Views (.call op [operand]) (.mark m operand)
  | countAll {op : Operator} :
      op.role? = some (.aggregate .count) → Views (.call op []) (.aggregate .count none)
  | aggregate {op : Operator} {f : Aggregate} (operand : Node) :
      op.role? = some (.aggregate f) → Views (.call op [operand]) (.aggregate f (some operand))

theorem view_cases {n : Node} {view : View} (h : n.view = .ok view) : Views n view := by
  cases n with
  | identifier id =>
    simp only [Node.view] at h
    split at h <;> cases h
    exact .identifier id
  | literal l =>
    cases h
    exact .literal l
  | call op operands =>
    simp only [Node.view] at h
    split at h <;> cases h
    · exact .naming _ _ ‹_›
    · exact .binary _ _ ‹_›
    · exact .negation _ ‹_›
    · exact .mark _ ‹_›
    · exact .countAll ‹_›
    · exact .aggregate _ ‹_›

/-! ## Names -/

theorem liftRegistry_ok {m : Except RegistryError α} {a : α} (h : liftRegistry m = .ok a) :
    m = .ok a := by
  cases m with
  | error err => cases h
  | ok b =>
    cases h
    rfl

/-- The table has a column of this name. -/
def Registry.HasColumn (r : Registry) (table : TableId) (name : String) (c : TableColumn) : Prop :=
  ∃ t, r.schemaTable table = .ok t ∧ t.column? name = some c

/-- The table has no column of this name, and the name is bound to an expression. -/
def Registry.HasAlias (r : Registry) (table : TableId) (name : String) (expr : Node) : Prop :=
  (∃ t, r.schemaTable table = .ok t ∧ t.column? name = none) ∧ r.binding? name = some expr

section

variable {r : Registry} {table : TableId} {name : String}

theorem Registry.HasColumn.unique {c c' : TableColumn} (h : r.HasColumn table name c)
    (h' : r.HasColumn table name c') : c = c' := by
  obtain ⟨t, ht, hc⟩ := h
  obtain ⟨t', ht', hc'⟩ := h'
  cases ht.symm.trans ht'
  exact Option.some.inj (hc.symm.trans hc')

theorem Registry.HasAlias.unique {expr expr' : Node} (h : r.HasAlias table name expr)
    (h' : r.HasAlias table name expr') : expr = expr' :=
  Option.some.inj (h.2.symm.trans h'.2)

theorem Registry.HasAlias.not_column {expr : Node} {c : TableColumn}
    (h : r.HasAlias table name expr) : ¬ r.HasColumn table name c := by
  rintro ⟨t, ht, hc⟩
  obtain ⟨⟨t', ht', hn⟩, -⟩ := h
  cases ht.symm.trans ht'
  cases hc.symm.trans hn

/-- A resolution as a fact about the registry. -/
def Registry.Resolves (r : Registry) (table : TableId) (name : String) : Resolution → Prop
  | .physical c => r.HasColumn table name c
  | .named expr => r.HasAlias table name expr

theorem resolveColumn_ok {res : Resolution} (h : r.resolveColumn table name = .ok res) :
    r.Resolves table name res := by
  obtain ⟨t, ht, h⟩ := ok_of_bind h
  split at h
  · cases h
    exact ⟨t, ht, ‹_›⟩
  · split at h
    · cases h
      exact ⟨⟨t, ht, ‹_›⟩, ‹_›⟩
    · obtain ⟨_, _, h⟩ := ok_of_bind h
      cases h

theorem resolveIdentifier_ok {id : Identifier} {res : Resolution}
    (h : resolveIdentifier r table id = .ok res) : r.Resolves table id.simpleName res := by
  obtain ⟨_, _, h⟩ := ok_of_bind h
  exact resolveColumn_ok (liftRegistry_ok h)

theorem resolveIdentifier_qualified {id : Identifier} {res : Resolution}
    (h : resolveIdentifier r table id = .ok res) : checkQualifier r table id = .ok () := by
  obtain ⟨_, h, _⟩ := ok_of_bind h
  exact h

end

/-- What has happened when a name is emitted: it is no star, its qualifier was checked, and it is a
column or an alias that is expanded. -/
theorem emitIdentifier_cases {table : TableId} {expand : Expansion} {scope : Scope}
    {id : Identifier} {d d' : Draft}
    (h : emitIdentifier table expand scope id d = (.ok (), d')) :
    id.isStar = false ∧ checkQualifier d.registry table id = .ok () ∧
      ((∃ c, d.registry.HasColumn table id.simpleName c) ∨
        ∃ expr, d.registry.HasAlias table id.simpleName expr ∧
          expand scope id.simpleName expr d = (.ok (), d')) := by
  unfold emitIdentifier at h
  split at h
  · exact absurd h Emit.not_fail
  · rename_i hstar
    obtain ⟨res, d₁, h₁, hrest⟩ := Emit.bind_ok h
    obtain ⟨hres, rfl⟩ := Emit.ask_ok h₁
    refine ⟨Bool.eq_false_iff.2 hstar, resolveIdentifier_qualified hres, ?_⟩
    cases res with
    | physical c => exact .inl ⟨c, resolveIdentifier_ok hres⟩
    | named expr => exact .inr ⟨expr, resolveIdentifier_ok hres, hrest⟩

/-- A node that stands under a name, or the node itself if no name is given. -/
theorem unaliased_cases {n inner : Node} (h : n.unaliased = .ok inner) :
    inner = n ∨ ∃ (op : Operator) (name : String), op.role? = some .naming ∧
      n = .call op [inner, .identifier ⟨[name]⟩] := by
  obtain ⟨view, hview, hrest⟩ := ok_of_bind h
  split at hrest
  · obtain ⟨_, _, hlast⟩ := ok_of_bind hrest
    cases hlast
    cases view_cases hview
    exact .inr ⟨_, _, ‹_›, rfl⟩
  · cases hrest
    exact .inl rfl

end GraphSelect
