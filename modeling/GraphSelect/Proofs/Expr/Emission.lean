import GraphSelect.Proofs.Expr.Meaning
import GraphSelect.Proofs.Registry.Operations

/-!
# Emission writes what an expression means

`Emission` says all that emitting the value of an expression does to a draft, if it succeeds. The
expression has a meaning in the registry that is left behind, the steps of that meaning are added,
and the registry grows by names that the expression gives, its own and those inside the aliases that
it uses. The query counts as aggregating from then on if the meaning is an aggregate, which in
element scope it never is.

The proof follows the tree with an arbitrary treatment of aliases that does the same, and then goes
by induction on how many aliases may still be expanded.
-/

set_option autoImplicit false

namespace GraphSelect

open Sql

/-! ## Where aliases come from -/

/-- A property of named expressions that passes on to the names inside them. -/
def Hereditary (P : String → Node → Prop) : Prop :=
  ∀ {name : String} {expr : Node} {name' : String} {expr' : Node},
    P name expr → expr.Names name' expr' → P name' expr'

/-- Every alias has a property together with its expression. -/
def Registry.Binds (r : Registry) (P : String → Node → Prop) : Prop :=
  ∀ {name : String} {expr : Node}, r.binding? name = some expr → P name expr

/-- A registry grows, and what it learns was named by `Given`, or inside of an alias. -/
structure Registry.Learns (Given : String → Node → Prop) (r r' : Registry) : Prop
    extends Registry.Grows r r' where
  binds : ∀ {P : String → Node → Prop}, Hereditary P →
    (∀ {name : String} {expr : Node}, Given name expr → P name expr) → r.Binds P → r'.Binds P

/-- An alias that a tree can bring about: it is bound already, or it is named in the tree or in an
expression that is bound already. -/
def Registry.Offers (r : Registry) (n : Node) (name : String) (expr : Node) : Prop :=
  r.binding? name = some expr ∨
    ∃ tree, (tree = n ∨ ∃ other, r.binding? other = some tree) ∧ tree.Names name expr

namespace Registry.Learns

variable {Given Given' : String → Node → Prop} {r r' r'' : Registry}

theorem refl (r : Registry) : r.Learns Given r :=
  ⟨.refl r, fun _ _ hb => hb⟩

theorem trans (h : r.Learns Given r') (h' : r'.Learns Given r'') : r.Learns Given r'' :=
  ⟨h.toGrows.trans h'.toGrows, fun hP hG hb => h'.binds hP hG (h.binds hP hG hb)⟩

theorem mono (h : r.Learns Given r')
    (hG : ∀ {name : String} {expr : Node}, Given name expr → Given' name expr) :
    r.Learns Given' r' :=
  ⟨h.toGrows, fun hP hG' hb => h.binds hP (fun hg => hG' (hG hg)) hb⟩

/-- What is learnt from a tree was known before, or it is named in the tree or in an alias known
before. -/
theorem origin {n : Node} (h : r.Learns n.Names r') : r'.Binds (r.Offers n) := by
  refine h.binds (fun hb hin => ?_) (fun hn => .inr ⟨n, .inl rfl, hn⟩) .inl
  rcases hb with hb | ⟨tree, ht, hn⟩
  · exact .inr ⟨_, .inr ⟨_, hb⟩, hin⟩
  · exact .inr ⟨tree, ht, hin.within hn.expr_within⟩

theorem bindAlias {name : String} {expr : Node} (h : r.bindAlias name expr = (.ok (), r'))
    (hG : Given name expr) : r.Learns Given r' := by
  obtain ⟨rfl, -⟩ | ⟨hnone, rfl⟩ := Registry.bindAlias_ok h
  · exact .refl _
  · refine ⟨⟨rfl, rfl, fun {other e} hb => ?_⟩, fun {P} _ hGP hb {other e} hl => ?_⟩
    · have hne : other ≠ name := by
        rintro rfl
        cases hnone.symm.trans hb
      rwa [Registry.binding?_bind, if_neg hne]
    · rw [Registry.binding?_bind] at hl
      split at hl
      · rename_i heq
        cases hl
        exact heq ▸ hGP hG
      · exact hb hl

end Registry.Learns

/-! ## Stages -/

/-- What emission does to a draft: some steps are added, names are learnt, and the query may turn
out to aggregate. -/
structure Stage (Given : String → Node → Prop) (added : List Step) (aggregates : Bool)
    (d d' : Draft) : Prop where
  steps : d'.steps = d.steps ++ added
  learns : d.registry.Learns Given d'.registry
  hasAggregate : d'.registry.hasAggregate = (d.registry.hasAggregate || aggregates)

namespace Stage

variable {Given Given' : String → Node → Prop} {added added' : List Step}
  {aggregates aggregates' : Bool} {d d' d'' : Draft}

theorem refl (d : Draft) : Stage Given [] false d d :=
  ⟨by simp, .refl _, by simp⟩

theorem trans (h : Stage Given added aggregates d d')
    (h' : Stage Given added' aggregates' d' d'') :
    Stage Given (added ++ added') (aggregates || aggregates') d d'' :=
  ⟨by rw [h'.steps, h.steps, List.append_assoc], h.learns.trans h'.learns,
    by rw [h'.hasAggregate, h.hasAggregate, Bool.or_assoc]⟩

theorem mono (h : Stage Given added aggregates d d')
    (hG : ∀ {name : String} {expr : Node}, Given name expr → Given' name expr) :
    Stage Given' added aggregates d d' :=
  ⟨h.steps, h.learns.mono hG, h.hasAggregate⟩

theorem operand {n : Node} (h : Stage n.Names added aggregates d d') (op : Operator)
    {operands : List Node} (hn : n ∈ operands) :
    Stage (Node.Names (.call op operands)) added aggregates d d' :=
  h.mono fun hname => hname.within (.of_operand hn)

theorem appendAll {steps : List Step} {u : Unit} (h : Emit.appendAll steps d = (.ok u, d')) :
    Stage Given steps false d d' := by
  cases Emit.appendAll_ok h
  exact ⟨rfl, .refl _, by simp⟩

theorem append {s : Step} {u : Unit} (h : Emit.append s d = (.ok u, d')) :
    Stage Given [s] false d d' :=
  appendAll h

/-- What is written as a branch leaves the pipeline around it as it is. -/
theorem ofBranch (h : Stage Given added aggregates ⟨d.registry, []⟩ d') :
    Stage Given [] aggregates d ⟨d'.registry, d.steps⟩ :=
  ⟨by simp, h.learns, h.hasAggregate⟩

theorem bindAlias {name : String} {expr : Node} {u : Unit}
    (h : Emit.bindAlias name expr d = (.ok u, d')) (hG : Given name expr) :
    Stage Given [] false d d' := by
  obtain ⟨r, hr, rfl⟩ := Emit.bindAlias_ok h
  exact ⟨by simp, .bindAlias hr hG, by rw [Registry.bindAlias_writes hr, Bool.or_false]⟩

theorem openAggregate {scope : Scope} {call : Node} {u : Unit}
    (h : openAggregate scope call d = (.ok u, d')) :
    scope = .bucket ∧ Stage Given [.unfold] true d d' := by
  unfold GraphSelect.openAggregate at h
  split at h
  · obtain ⟨_, d₁, h₁, hlast⟩ := Emit.bind_ok h
    cases Emit.markAggregate_ok h₁
    cases Emit.append_ok hlast
    exact ⟨‹_›, rfl, ⟨⟨rfl, rfl, id⟩, fun _ _ hb => hb⟩, by simp [Registry.markAggregate]⟩
  · exact absurd h Emit.not_fail

end Stage

/-! ## Values -/

/-- What emitting the value of an expression does to a draft. -/
structure Emission (table : TableId) (scope : Scope) (n : Node) (m : Meaning) (d d' : Draft) :
    Prop extends Stage n.Names (m.fragment scope) m.isAggregate d d' where
  means : Means d'.registry table n m
  element : scope = .element → ∃ a, m = .atom a

/-- A treatment of aliases that emits the value of the expression behind them. -/
def Expansion.Sound (table : TableId) (expand : Expansion) : Prop :=
  ∀ {scope : Scope} {name : String} {expr : Node} {d d' : Draft},
    expand scope name expr d = (.ok (), d') → ∃ m, Emission table scope expr m d d'

section

variable {table : TableId} {expand : Expansion} {scope : Scope} {d d' : Draft}

theorem Sql.Node.eq_identifier_of_isStar {n : Node} (h : n.isStar = true) :
    ∃ id : Identifier, n = .identifier id ∧ id.isStar = true := by
  cases n with
  | identifier id => exact ⟨id, rfl, h⟩
  | literal l => cases h
  | call op operands => cases h

/-- The steps of a column, after the members of a bucket where there is one. -/
theorem emitColumn_ok {c : TableColumn} {u : Unit}
    (h : (do
      if scope = .bucket then Emit.append .unfold
      Emit.appendAll c.source.steps : Emit Unit) d = (.ok u, d')) :
    d' = ⟨d.registry, d.steps ++ (Atom.column c).fragment scope⟩ := by
  cases scope with
  | element => exact Emit.appendAll_ok h
  | bucket =>
    obtain ⟨_, d₁, h₁, hlast⟩ := Emit.bind_ok h
    cases Emit.append_ok h₁
    cases Emit.appendAll_ok hlast
    simp [Atom.fragment]

theorem emitIdentifier_emission (hexp : expand.Sound table) {id : Identifier}
    (h : emitIdentifier table expand scope id d = (.ok (), d')) :
    ∃ m, Emission table scope (.identifier id) m d d' := by
  unfold emitIdentifier at h
  split at h
  · exact absurd h Emit.not_fail
  · obtain ⟨res, d₁, h₁, hrest⟩ := Emit.bind_ok h
    obtain ⟨hres, rfl⟩ := Emit.ask_ok h₁
    cases res with
    | physical c =>
      cases emitColumn_ok hrest
      exact ⟨.atom (.column c), ⟨rfl, .refl _, by simp [Meaning.isAggregate]⟩,
        .column (resolveIdentifier_ok hres), fun _ => ⟨_, rfl⟩⟩
    | named expr =>
      have ha : d₁.registry.HasAlias table id.simpleName expr := resolveIdentifier_ok hres
      obtain ⟨m, hm⟩ := hexp hrest
      -- A name in itself gives nothing a name. What is learnt stands inside the expression of an
      -- alias that was bound before.
      have hlearns : d₁.registry.Learns (Node.Names (.identifier id)) d'.registry :=
        ⟨hm.learns.toGrows, fun hP _ hb => hm.learns.binds hP (fun hn => hP (hb ha.2) hn) hb⟩
      exact ⟨m, ⟨hm.steps, hlearns, hm.hasAggregate⟩,
        .named (hm.learns.toGrows.hasAlias ha) hm.means, hm.element⟩

/-- **Emitting the value of a node.** -/
theorem emitNode_emission (hexp : expand.Sound table) {n : Node}
    (h : emitNode table expand scope n d = (.ok (), d')) :
    ∃ m, Emission table scope n m d d' := by
  induction scope, n using emitNode.induct generalizing d d' with
  | case1 scope id hempty =>
    simp only [emitNode, hempty, ↓reduceIte] at h
    exact absurd h Emit.not_fail
  | case2 scope id hempty =>
    simp only [emitNode, hempty, Bool.false_eq_true, ↓reduceIte] at h
    exact emitIdentifier_emission hexp h
  | case3 scope l =>
    simp only [emitNode] at h
    exact ⟨.atom (.constant l), .append h, .literal l, fun _ => ⟨_, rfl⟩⟩
  | case4 scope op inner name hop ih =>
    simp only [emitNode, hop] at h
    obtain ⟨_, d₁, h₁, hrest⟩ := Emit.bind_ok h
    obtain ⟨m, hm⟩ := ih hrest
    have hbind : Stage (Node.Names (.call op [inner, .identifier ⟨[name]⟩])) [] false d d₁ :=
      .bindAlias h₁ ⟨op, hop, .refl _⟩
    exact ⟨m, by simpa using hbind.trans (hm.operand op (by simp)), .naming hop hm.means,
      hm.element⟩
  | case5 scope op operand hop ih =>
    simp only [emitNode, hop] at h
    obtain ⟨m, hm⟩ := ih h
    exact ⟨m, hm.operand op (by simp), .desc hop hm.means, hm.element⟩
  | case7 scope op hop =>
    simp only [emitNode, hop] at h
    obtain ⟨_, d₁, h₁, hrest⟩ := Emit.bind_ok h
    obtain ⟨rfl, hopen⟩ := Stage.openAggregate h₁
    exact ⟨.aggregate .count none, hopen.trans (.append hrest), .countAll hop, nofun⟩
  | case8 scope op f operand hop ih =>
    rw [emitNode.eq_def] at h
    simp only [hop] at h
    obtain ⟨_, d₁, h₁, hrest⟩ := Emit.bind_ok h
    obtain ⟨rfl, hopen⟩ := Stage.openAggregate h₁
    cases hstar : operand.isStar with
    | false =>
      simp only [hstar, Bool.not_false, ↓reduceIte] at hrest
      obtain ⟨_, d₂, h₂, hlast⟩ := Emit.bind_ok hrest
      -- The operand is emitted for single elements, so it cannot be an aggregate again.
      obtain ⟨_, hm⟩ := ih h₂
      obtain ⟨a, rfl⟩ := hm.element rfl
      have hvalue := (hm.operand op (List.mem_singleton_self operand)).trans (.append hlast)
      cases Emit.append_ok hlast
      exact ⟨.aggregate f (some a), hopen.trans hvalue, .aggregate hop hstar hm.means, nofun⟩
    | true =>
      simp only [hstar, Bool.not_true, Bool.false_eq_true, ↓reduceIte] at hrest
      obtain ⟨id, rfl, hid⟩ := Node.eq_identifier_of_isStar hstar
      exact ⟨.aggregate f none, hopen.trans (.append hrest), .star hop hid, nofun⟩
  | case6 _ _ _ _ _ hop | case9 _ _ _ _ _ hop | case10 _ _ _ hop =>
    rw [emitNode.eq_def] at h
    simp only [hop] at h
    exact absurd h Emit.not_fail
  | case11 scope op operands =>
    rw [emitNode.eq_def] at h
    simp only at h
    exact absurd h Emit.not_fail

theorem emitWithin_emission :
    ∀ {hops : Nat} {expanding : List String} {scope : Scope} {n : Node} {d d' : Draft},
      emitWithin table hops expanding scope n d = (.ok (), d') →
        ∃ m, Emission table scope n m d d' := by
  intro hops
  induction hops with
  | zero =>
    -- With no hops left, an emission that succeeds has met no alias.
    intro expanding scope n d d' h
    exact emitNode_emission (fun hfail => absurd hfail Emit.not_fail) h
  | succ hops ih =>
    intro expanding scope n d d' h
    refine emitNode_emission (fun hexp => ?_) h
    split at hexp
    · exact absurd hexp Emit.not_fail
    · exact ih hexp

theorem expandAlias_sound (table : TableId) : Expansion.Sound table (expandAlias table) :=
  fun h => emitWithin_emission h

/-- **Emitting the value of an expression.** -/
theorem emitValue_emission {n : Node} (h : emitValue table scope n d = (.ok (), d')) :
    ∃ m, Emission table scope n m d d' :=
  emitNode_emission (expandAlias_sound table) h

theorem emitValue_branch {n : Node} {t : Traversal}
    (h : Emit.branch (emitValue table scope n) d = (.ok t, d')) :
    ∃ m, t = .anonymous (m.fragment scope) ∧ Means d'.registry table n m ∧
      (scope = .element → ∃ a, m = .atom a) ∧ Stage n.Names [] m.isAggregate d d' := by
  obtain ⟨inner, hinner, rfl, rfl⟩ := Emit.branch_ok h
  obtain ⟨m, hm⟩ := emitValue_emission hinner
  have hsteps : inner.steps = m.fragment scope := hm.steps
  exact ⟨m, by rw [hsteps], hm.means, hm.element, hm.toStage.ofBranch⟩

end

end GraphSelect
