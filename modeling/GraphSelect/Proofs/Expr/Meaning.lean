import GraphSelect.Proofs.Expr.Inversion
import GraphSelect.Proofs.Traversal.Semantics

/-!
# What an expression stands for

Under its names, sort marks and aliases every value that a select can ask for is one of two things:
an `Atom`, which is a column of the table or a constant, or an aggregate of an atom. `Means` says
which one, by rules for the node alone: a name is a column if the table has one of that name and an
alias otherwise, and an alias means what its expression means.

The steps of a fragment are a function of the meaning and the scope, and what they find on an
element is the value of the meaning. That emission writes the fragment of the meaning is shown
elsewhere. A meaning is kept as the registry grows, since columns come before aliases and an alias
is never bound anew.
-/

set_option autoImplicit false

namespace GraphSelect

open Sql

/-! ## Parts of a tree -/

namespace Sql.Node

/-- Whether a node is a tree or stands somewhere inside it. -/
inductive Within : Node → Node → Prop where
  | refl (n : Node) : Within n n
  | operand {m n : Node} {op : Operator} {operands : List Node} :
      n ∈ operands → Within m n → Within m (.call op operands)

/-- Whether a tree gives a name to an expression somewhere inside it. -/
def Names (n : Node) (name : String) (expr : Node) : Prop :=
  ∃ op : Operator, op.role? = some .naming ∧ Within (.call op [expr, .identifier ⟨[name]⟩]) n

variable {k m n : Node} {name : String} {expr : Node}

theorem Within.trans (h : Within k m) (h' : Within m n) : Within k n := by
  induction h' with
  | refl => exact h
  | operand hn _ ih => exact .operand hn ih

theorem Within.of_operand {op : Operator} {operands : List Node} (h : n ∈ operands) :
    Within n (.call op operands) :=
  .operand h (.refl n)

@[simp] theorem within_identifier {id : Identifier} :
    Within m (.identifier id) ↔ m = .identifier id :=
  ⟨fun h => by cases h; rfl, fun h => h ▸ .refl _⟩

@[simp] theorem within_literal {l : Literal} : Within m (.literal l) ↔ m = .literal l :=
  ⟨fun h => by cases h; rfl, fun h => h ▸ .refl _⟩

@[simp] theorem within_call {op : Operator} {operands : List Node} :
    Within m (.call op operands) ↔ m = .call op operands ∨ ∃ n ∈ operands, Within m n := by
  constructor
  · rintro (_ | ⟨hn, h⟩)
    · exact .inl rfl
    · exact .inr ⟨_, hn, h⟩
  · rintro (rfl | ⟨n, hn, h⟩)
    · exact .refl _
    · exact .operand hn h

theorem Names.within (h : m.Names name expr) (h' : Within m n) : n.Names name expr := by
  obtain ⟨op, hop, h⟩ := h
  exact ⟨op, hop, h.trans h'⟩

theorem Names.expr_within (h : n.Names name expr) : Within expr n := by
  obtain ⟨op, -, h⟩ := h
  exact Within.trans (.of_operand (by simp)) h

end Sql.Node

/-! ## Meanings -/

/-- What a value is read off. -/
inductive Atom where
  | column (c : TableColumn)
  | constant (l : Literal)

/-- What an expression stands for. -/
inductive Meaning where
  | atom (a : Atom)
  -- An aggregate of a value, or of the elements themselves.
  | aggregate (f : Aggregate) (operand : Option Atom)

def Meaning.isAggregate : Meaning → Bool
  | .atom _ => false
  | .aggregate _ _ => true

/-- What a node stands for. -/
inductive Means (r : Registry) (table : TableId) : Node → Meaning → Prop where
  | column {id : Identifier} {c : TableColumn} :
      r.HasColumn table id.simpleName c → Means r table (.identifier id) (.atom (.column c))
  | named {id : Identifier} {expr : Node} {m : Meaning} :
      r.HasAlias table id.simpleName expr → Means r table expr m → Means r table (.identifier id) m
  | literal (l : Literal) : Means r table (.literal l) (.atom (.constant l))
  | naming {op : Operator} {inner : Node} {name : String} {m : Meaning} :
      op.role? = some .naming → Means r table inner m →
      Means r table (.call op [inner, .identifier ⟨[name]⟩]) m
  | desc {op : Operator} {operand : Node} {m : Meaning} :
      op.role? = some (.mark .desc) → Means r table operand m → Means r table (.call op [operand]) m
  | countAll {op : Operator} :
      op.role? = some (.aggregate .count) → Means r table (.call op []) (.aggregate .count none)
  | star {op : Operator} {f : Aggregate} {id : Identifier} :
      op.role? = some (.aggregate f) → id.isStar = true →
      Means r table (.call op [.identifier id]) (.aggregate f none)
  | aggregate {op : Operator} {f : Aggregate} {operand : Node} {a : Atom} :
      op.role? = some (.aggregate f) → operand.isStar = false → Means r table operand (.atom a) →
      Means r table (.call op [operand]) (.aggregate f (some a))

/-! ## Growing registries -/

/-- What is known in one registry is known in another: the tables are the same and no alias is
lost or bound anew. -/
structure Registry.Grows (r r' : Registry) : Prop where
  schema : r'.schema = r.schema
  tables : r'.tables = r.tables
  binding : ∀ {name : String} {expr : Node}, r.binding? name = some expr →
    r'.binding? name = some expr

namespace Registry.Grows

variable {r r' r'' : Registry} {table : TableId}

theorem refl (r : Registry) : r.Grows r :=
  ⟨rfl, rfl, id⟩

theorem trans (h : r.Grows r') (h' : r'.Grows r'') : r.Grows r'' :=
  ⟨h'.schema.trans h.schema, h'.tables.trans h.tables, fun hb => h'.binding (h.binding hb)⟩

theorem table_eq (h : r.Grows r') : r'.table table = r.table table := by
  simp only [Registry.table, h.tables]

theorem schemaTable (h : r.Grows r') : r'.schemaTable table = r.schemaTable table := by
  simp only [Registry.schemaTable, h.schema, h.table_eq]

theorem hasColumn {name : String} {c : TableColumn} (h : r.Grows r')
    (hc : r.HasColumn table name c) : r'.HasColumn table name c := by
  obtain ⟨t, ht, hc⟩ := hc
  exact ⟨t, h.schemaTable.trans ht, hc⟩

theorem hasAlias {name : String} {expr : Node} (h : r.Grows r')
    (ha : r.HasAlias table name expr) : r'.HasAlias table name expr := by
  obtain ⟨⟨t, ht, hn⟩, hb⟩ := ha
  exact ⟨⟨t, h.schemaTable.trans ht, hn⟩, h.binding hb⟩

end Registry.Grows

/-- A meaning is kept as the registry grows. -/
theorem Means.grow {r r' : Registry} {table : TableId} {n : Node} {m : Meaning}
    (h : Means r table n m) (hg : r.Grows r') : Means r' table n m := by
  induction h with
  | column hc => exact .column (hg.hasColumn hc)
  | named ha _ ih => exact .named (hg.hasAlias ha) ih
  | literal l => exact .literal l
  | naming hop _ ih => exact .naming hop ih
  | desc hop _ ih => exact .desc hop ih
  | countAll hop => exact .countAll hop
  | star hop hs => exact .star hop hs
  | aggregate hop hs _ ih => exact .aggregate hop hs ih

/-- An expression has at most one meaning. -/
theorem Means.unique {r : Registry} {table : TableId} {n : Node} {m m' : Meaning}
    (h : Means r table n m) (h' : Means r table n m') : m = m' := by
  induction h generalizing m' with
  | column hc =>
    cases h' with
    | column hc' => rw [hc.unique hc']
    | named ha _ => exact absurd hc ha.not_column
  | named ha _ ih =>
    cases h' with
    | column hc => exact absurd hc ha.not_column
    | named ha' hm =>
      cases ha.unique ha'
      exact ih hm
  | literal l =>
    cases h'
    rfl
  | naming _ _ ih =>
    cases h' with
    | naming _ hm => exact ih hm
  | desc hop _ ih =>
    cases h' with
    | desc _ hm => exact ih hm
    | star hop' _ => cases hop.symm.trans hop'
    | aggregate hop' _ _ => cases hop.symm.trans hop'
  | countAll _ =>
    cases h'
    rfl
  | star hop hs =>
    cases h' with
    | desc hop' _ => cases hop.symm.trans hop'
    | star hop' _ =>
      cases hop.symm.trans hop'
      rfl
    | aggregate _ hs' _ => cases hs.symm.trans hs'
  | aggregate hop hs _ ih =>
    cases h' with
    | desc hop' _ => cases hop.symm.trans hop'
    | star _ hs' => cases hs.symm.trans hs'
    | aggregate hop' _ hm =>
      cases hop.symm.trans hop'
      cases ih hm
      rfl

/-! ## Values on an element -/

namespace Atom

/-- The value of an atom on an element, if there is one. -/
def value (x : Element) : Atom → Option Scalar
  | .column c => c.source.read x
  | .constant l => some (.ofLiteral l)

def type : Atom → ColumnType
  | .column c => c.type
  | .constant l => l.type

/-- The steps that find the value of an atom. -/
def fragment : Scope → Atom → List Step
  | _, .constant l => [.constant (.ofLiteral l)]
  | .element, .column c => c.source.steps
  | .bucket, .column c => .unfold :: c.source.steps

end Atom

def Meaning.fragment (scope : Scope) : Meaning → List Step
  | .atom a => a.fragment scope
  | .aggregate f none => [.unfold, f.step]
  | .aggregate f (some a) => .unfold :: (a.fragment .element ++ [f.step])

section

variable {e : Engine} {g : Graph}

theorem ColumnSource.flow (s : ColumnSource) (x : Element) :
    (pipeline e g s.steps).flow [.element x] = (s.read x).toList.map .scalar := by
  cases s with
  | property key => simp [steps, pipeline, Step.apply, Value.property, read]
  | id => simp [steps, pipeline, Step.apply, Value.elementId, read]
  | inVertexId =>
    cases x <;> simp [steps, pipeline, Step.apply, Value.inVertex, Value.elementId, read,
      Element.inVertex?, Element.id]
  | outVertexId =>
    cases x <;> simp [steps, pipeline, Step.apply, Value.outVertex, Value.elementId, read,
      Element.outVertex?, Element.id]

/-- In element scope, a fragment finds the value of its atom on the element. -/
theorem Atom.flow_element (a : Atom) (x : Element) :
    (pipeline e g (a.fragment .element)).flow [.element x] = (a.value x).toList.map .scalar := by
  cases a with
  | column c => exact c.source.flow x
  | constant l => simp [fragment, pipeline, Step.apply, value]

/-- In bucket scope, a fragment finds the value of its atom on the only element of the bucket. -/
theorem Atom.flow_bucket (a : Atom) (x : Element) :
    (pipeline e g (a.fragment .bucket)).flow [.list [.element x]] =
      (a.value x).toList.map .scalar := by
  cases a with
  | column c =>
    have hunfold : (pipeline e g (.unfold :: c.source.steps)).flow [.list [.element x]] =
        (pipeline e g c.source.steps).flow [.element x] := by
      rw [pipeline_cons rfl]
      simp [Step.apply, Value.members]
    exact hunfold.trans (c.source.flow x)
  | constant l => simp [fragment, pipeline, Step.apply, value]

end

/-! ## Types -/

/-- The type of the value that a meaning stands for. A sum, a minimum or a maximum has the type of
its operand, so of the elements themselves it has none. -/
def Meaning.type? : Meaning → Option ColumnType
  | .atom a => some a.type
  | .aggregate .count _ => some .integer
  | .aggregate .avg _ => some .float
  | .aggregate _ operand => operand.map Atom.type

/-- The type that is worked out for an expression is the type of its meaning, if it has one. -/
theorem Means.type?_eq {r : Registry} {table : TableId} {type' : ColumnType} :
    ∀ {depth : Nat} {n : Node} {m : Meaning} {type : ColumnType}, Means r table n m →
      typeWithin r table depth n = .ok type → m.type? = some type' → type = type' := by
  intro depth
  induction depth with
  | zero =>
    intro n m type _ ht _
    obtain ⟨_, _, ht⟩ := ok_of_bind ht
    cases ht
  | succ depth ih =>
    intro n m type h ht hm
    obtain ⟨view, hview, ht⟩ := ok_of_bind ht
    cases view_cases hview with
    | identifier id =>
      obtain ⟨res, hres, ht⟩ := ok_of_bind ht
      cases res with
      | physical c =>
        cases ht
        cases h with
        | column hc =>
          cases (resolveIdentifier_ok hres : r.HasColumn _ _ c).unique hc
          exact Option.some.inj hm
        | named ha _ => exact absurd (resolveIdentifier_ok hres) ha.not_column
      | named expr =>
        have ha : r.HasAlias table id.simpleName expr := resolveIdentifier_ok hres
        cases h with
        | column hc => exact absurd hc ha.not_column
        | named ha' hexpr =>
          cases ha.unique ha'
          exact ih hexpr ht hm
    | literal l =>
      cases h
      cases ht
      exact Option.some.inj hm
    | naming inner name hop =>
      cases h with
      | naming _ hinner => exact ih hinner ht hm
    | mark operand hop =>
      cases h with
      | desc _ hoperand => exact ih hoperand ht hm
      | star hop' _ => cases hop.symm.trans hop'
      | aggregate hop' _ _ => cases hop.symm.trans hop'
    | binary => cases ht
    | negation => cases ht
    | countAll =>
      cases h
      cases ht
      exact Option.some.inj hm
    | @aggregate _ f operand hop =>
      cases h with
      | desc hop' _ => cases hop.symm.trans hop'
      | star hop' _ =>
        cases hop.symm.trans hop'
        cases f with
        | count | avg =>
          cases ht
          exact Option.some.inj hm
        | sum | min | max => cases hm
      | aggregate hop' _ hoperand =>
        cases hop.symm.trans hop'
        cases f with
        | count | avg =>
          cases ht
          exact Option.some.inj hm
        | sum | min | max => exact ih hoperand ht hm

/-- The type that is worked out for an expression is the type of its atom. -/
theorem Means.type_eq {r : Registry} {table : TableId} {a : Atom} {depth : Nat} {n : Node}
    {type : ColumnType} (h : Means r table n (.atom a))
    (ht : typeWithin r table depth n = .ok type) : type = a.type :=
  h.type?_eq ht rfl

end GraphSelect
