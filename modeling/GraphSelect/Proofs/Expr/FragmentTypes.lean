import GraphSelect.Proofs.Expr.Emission
import GraphSelect.Sql.Build
import Mathlib

/-!
# Declared types and delivered values

The type of a column is worked out on the expression, and its values come from the steps that are
emitted for it. Steps have a type of their own: `Step.leads` follows them from a bucket to an
element, from an edge to its endpoints and on to a value, whose type is that of a constant, a
declared property or an id, or is made by an aggregate. Both go through the meaning of the
expression, and so they agree.

They only part where an aggregate that keeps the type of its operand is asked of the elements
themselves, as in `MIN(*)`. No operand is emitted then, while the type is looked up for a column of
the name `*`. Written out, this is an identifier that is a star; but an alias can stand for it.
-/

set_option autoImplicit false

namespace GraphSelect

open Sql

/-! ## The type of a fragment -/

/-- What the steps of a fragment have reached. -/
inductive Reached where
  -- The elements of a group, in one list.
  | bucket
  | element
  -- The vertex that the edge leads into.
  | inVertex
  -- The vertex that the edge comes out of.
  | outVertex
  | value (type : ColumnType)

/-- The type of a constant; a null passes for a text. -/
def Scalar.type : Scalar → ColumnType
  | .null => .string
  | .boolean _ => .boolean
  | .long _ => .integer
  | .double _ => .float
  | .string _ => .string

/-- The declared type of a property. -/
def Table.propertyType? (t : Table) (key : String) : Option ColumnType :=
  (t.columns.find? fun c => c.name == key).map Column.type

/-- Where a step leads from what was reached before it, nowhere if it does not fit there. -/
def Step.leads (t : Table) : Reached → Step → Option Reached
  | .bucket, .unfold => some .element
  | .element, .values key => (t.propertyType? key).map .value
  | .element, .id => some (.value t.idType)
  | .element, .inVertex => some .inVertex
  | .element, .outVertex => some .outVertex
  | .inVertex, .id => t.endpointTypes.map fun types => .value types.1
  | .outVertex, .id => t.endpointTypes.map fun types => .value types.2
  | .value type, .sum => some (.value type)
  | .value type, .min => some (.value type)
  | .value type, .max => some (.value type)
  | _, .constant v => some (.value v.type)
  | _, .count => some (.value .integer)
  | _, .mean => some (.value .float)
  | _, _ => none

/-- Where steps lead, one after the other. -/
def Table.follow (t : Table) (start : Reached) (steps : List Step) : Option Reached :=
  steps.foldlM (Step.leads t) start

/-- The type of the values that a fragment finds in a bucket of elements of the table. -/
def Table.fragmentType? (t : Table) (fragment : List Step) : Option ColumnType :=
  match t.follow .bucket fragment with
  | some (.value type) => some type
  | _ => none

theorem Scalar.type_ofLiteral (l : Literal) : (Scalar.ofLiteral l).type = l.type := by
  cases l <;> rfl

/-! ## Columns -/

/-- A column is one of the properties, the id, or the id of an endpoint of an edge. -/
theorem Table.column?_cases {t : Table} {name : String} {c : TableColumn}
    (h : t.column? name = some c) :
    c = t.idColumn ∨ c ∈ t.endpointColumns ∨
      ∃ p, (t.columns.find? fun p => p.name == name) = some p ∧ c = p.asTableColumn := by
  rw [Table.column?, List.find?_cons] at h
  split at h
  · exact .inl (Option.some.inj h).symm
  · rw [List.find?_append, Option.or_eq_some_iff] at h
    rcases h with h | ⟨-, h⟩
    · exact .inr (.inl (List.mem_of_find?_eq_some h))
    · rw [List.find?_map, Option.map_eq_some_iff] at h
      obtain ⟨p, hp, hc⟩ := h
      exact .inr (.inr ⟨p, hp, hc.symm⟩)

/-- The steps of a column lead from an element to a value of the column's type. -/
theorem Table.follow_column {t : Table} {name : String} {c : TableColumn}
    (h : t.column? name = some c) : t.follow .element c.source.steps = some (.value c.type) := by
  rcases t.column?_cases h with rfl | hc | ⟨p, hp, rfl⟩
  · rfl
  · unfold Table.endpointColumns at hc
    split at hc
    · rename_i htypes
      rcases List.mem_pair.1 hc with rfl | rfl
      · simp only [follow, ColumnSource.steps, List.foldlM_cons, Step.leads, htypes]
        rfl
      · simp only [follow, ColumnSource.steps, List.foldlM_cons, Step.leads, htypes]
        rfl
    · cases hc
  · have hfound := List.find?_some hp
    have hname : p.name = name := beq_iff_eq.1 hfound
    have htype : t.propertyType? p.name = some p.type := by
      rw [propertyType?, hname, hp]
      rfl
    simp only [follow, Column.asTableColumn, ColumnSource.steps, List.foldlM_cons, Step.leads,
      htype]
    rfl

/-! ## Meanings -/

/-- The columns of a meaning are columns of the table. -/
def Atom.Of (t : Table) : Atom → Prop
  | .column c => ∃ name, t.column? name = some c
  | .constant _ => True

def Meaning.Of (t : Table) : Meaning → Prop
  | .atom a => a.Of t
  | .aggregate _ none => True
  | .aggregate _ (some a) => a.Of t

theorem Means.of {r : Registry} {table : TableId} {t : Table} {n : Node} {m : Meaning}
    (ht : r.schemaTable table = .ok t) (h : Means r table n m) : m.Of t := by
  induction h with
  | column hc =>
    obtain ⟨t', ht', hc⟩ := hc
    cases ht.symm.trans ht'
    exact ⟨_, hc⟩
  | named _ _ ih => exact ih
  | literal l => trivial
  | naming _ _ ih => exact ih
  | desc _ _ ih => exact ih
  | countAll _ => trivial
  | star _ _ => trivial
  | aggregate _ _ _ ih => exact ih

theorem Table.follow_append (t : Table) (start : Reached) (first second : List Step) :
    t.follow start (first ++ second) = (t.follow start first).bind (t.follow · second) :=
  List.foldlM_append

/-- On an element, the fragment of an atom leads to a value of its type. -/
theorem Atom.follow_element {t : Table} {a : Atom} (ha : a.Of t) :
    t.follow .element (a.fragment .element) = some (.value a.type) := by
  cases a with
  | column c =>
    obtain ⟨name, hc⟩ := ha
    exact t.follow_column hc
  | constant l =>
    rw [Atom.type, ← Scalar.type_ofLiteral l]
    rfl

/-- The fragment of a meaning has the type of the meaning, if it has one. -/
theorem Meaning.fragmentType?_eq {t : Table} {m : Meaning} (hm : m.Of t) :
    t.fragmentType? (m.fragment .bucket) = m.type? := by
  cases m with
  | atom a =>
    cases a with
    | column c =>
      have hfollow : t.follow .bucket (.unfold :: c.source.steps) = some (.value c.type) :=
        Atom.follow_element (a := .column c) hm
      rw [Table.fragmentType?, fragment, Atom.fragment, hfollow]
      rfl
    | constant l =>
      rw [type?, Atom.type, ← Scalar.type_ofLiteral l]
      rfl
  | aggregate f operand =>
    cases operand with
    | none => cases f <;> rfl
    | some a =>
      have hfollow : t.follow .bucket (.unfold :: (a.fragment .element ++ [f.step])) =
          Step.leads t (.value a.type) f.step := by
        change t.follow .element (a.fragment .element ++ [f.step]) = _
        rw [t.follow_append, Atom.follow_element hm]
        exact bind_pure _
      rw [Table.fragmentType?, fragment, hfollow]
      cases f <;> rfl

/-! ## Stars -/

/-- No identifier in the tree is a star. -/
def Sql.Node.StarFree (n : Node) : Prop :=
  ∀ id : Identifier, Within (.identifier id) n → id.isStar = false

theorem Sql.Node.StarFree.within {m n : Node} (h : n.StarFree) (hm : m.Within n) : m.StarFree :=
  fun id hid => h id (hid.trans hm)

theorem Sql.Node.StarFree.operand {n : Node} {op : Operator} {operands : List Node}
    (h : (Node.call op operands).StarFree) (hn : n ∈ operands) : n.StarFree :=
  h.within (.of_operand hn)

/-- No alias stands for a tree with a star in it. -/
def Registry.StarFree (r : Registry) : Prop :=
  r.Binds fun _ expr => expr.StarFree

/-- An aggregate that keeps the type of its operand. -/
def Aggregate.keepsType : Aggregate → Bool
  | .sum => true
  | .min => true
  | .max => true
  | _ => false

/-- Without a star, only counting is asked of the elements themselves. -/
theorem Means.type?_isSome_of_starFree {r : Registry} {table : TableId} {n : Node} {m : Meaning}
    (hr : r.StarFree) (h : Means r table n m) (hn : n.StarFree) : m.type?.isSome = true := by
  induction h with
  | column _ => rfl
  | named ha _ ih => exact ih (hr ha.2)
  | literal _ => rfl
  | naming _ _ ih => exact ih (hn.operand (by simp))
  | desc _ _ ih => exact ih (hn.operand (by simp))
  | countAll _ => rfl
  | star _ hstar =>
    have hfree := hn _ (.of_operand (List.mem_singleton_self _))
    cases hstar.symm.trans hfree
  | @aggregate _ f _ _ _ _ _ _ => cases f <;> rfl

/-- Only an aggregate that would keep the type of the elements has no type. -/
theorem Meaning.fragment_of_type?_eq_none {m : Meaning} (h : m.type? = none) :
    ∃ f : Aggregate, f.keepsType = true ∧ m.fragment .bucket = [.unfold, f.step] := by
  cases m with
  | atom a => cases h
  | aggregate f operand =>
    cases operand with
    | some a => cases f <;> cases h
    | none =>
      refine ⟨f, ?_, rfl⟩
      cases f with
      | count | avg => cases h
      | sum | min | max => rfl

theorem Table.fragmentType?_elements (t : Table) {f : Aggregate} (hf : f.keepsType = true) :
    t.fragmentType? [.unfold, f.step] = none := by
  cases f with
  | count | avg => cases hf
  | sum | min | max => rfl

/-- **Declared types are those of the emitted fragments.** If the value of an expression is emitted
for buckets and its type can be worked out, then this is the type of the fragment, unless the
fragment is nothing but a sum, a minimum or a maximum of the elements. It is never that for an
expression without stars in a registry whose aliases have none either. -/
theorem declared_type_iff_fragment_type {table : TableId} {t : Table} {n : Node} {d d' : Draft}
    {type : ColumnType} (ht : d.registry.schemaTable table = .ok t)
    (h : emitValue table .bucket n d = (.ok (), d'))
    (htype : columnType d'.registry table n = .ok type) :
    ∃ fragment, d'.steps = d.steps ++ fragment ∧
      (t.fragmentType? fragment = some type ↔
        ∀ f : Aggregate, f.keepsType = true → fragment ≠ [.unfold, f.step]) ∧
      (n.StarFree → d.registry.StarFree → t.fragmentType? fragment = some type) := by
  obtain ⟨m, hm⟩ := emitValue_emission h
  have ht' : d'.registry.schemaTable table = .ok t := hm.learns.toGrows.schemaTable.trans ht
  have hfragment : t.fragmentType? (m.fragment .bucket) = m.type? :=
    Meaning.fragmentType?_eq (hm.means.of ht')
  have hagrees : m.type? ≠ none → m.type? = some type := by
    intro hsome
    obtain ⟨type', htype'⟩ := Option.ne_none_iff_exists'.1 hsome
    rw [hm.means.type?_eq htype htype', htype']
  refine ⟨m.fragment .bucket, hm.steps, ?_, fun hn hr => ?_⟩
  · constructor
    · intro hsome f hf hbare
      rw [hbare, t.fragmentType?_elements hf] at hsome
      cases hsome
    · intro hbare
      rw [hfragment]
      refine hagrees fun hnone => ?_
      obtain ⟨f, hf, hsteps⟩ := Meaning.fragment_of_type?_eq_none hnone
      exact hbare f hf hsteps
  · -- What the emission binds stands inside the tree or inside an alias, so it has no star either.
    have hr' : d'.registry.StarFree :=
      hm.learns.binds (fun hP hin => hP.within hin.expr_within)
        (fun hin => hn.within hin.expr_within) hr
    have hsome := hm.means.type?_isSome_of_starFree hr' hn
    rw [hfragment]
    exact hagrees (Option.isSome_iff_ne_none.1 hsome)

def agesTable : Table :=
  ⟨"person", .vertex, .string, [⟨"age", .integer⟩, ⟨"name", .string⟩], none⟩

/-- People, with `years` as another name for their age. -/
def agesDraft : Draft :=
  ⟨{ (Registry.empty ⟨[agesTable]⟩).withTable agesTable "p" with
    aliases := [("years", .as (.identifier ⟨["age"]⟩) "a")] }, []⟩

/-- `MAX(p.years DESC)`. -/
def maxYears : Node :=
  .aggregate .max (.desc (.identifier ⟨["p", "years"]⟩))

/-- `MAX(p.years DESC) AS oldest`. -/
def oldest : Node :=
  .as maxYears "oldest"

/-- What the emission of `oldest` leaves behind. -/
def oldestDraft : Draft :=
  ⟨{ agesDraft.registry with
      aliases := ("a", .identifier ⟨["age"]⟩) :: ("oldest", maxYears) :: agesDraft.registry.aliases
      hasAggregate := true },
    [.unfold, .values "age", .max]⟩

theorem oldest_starFree : oldest.StarFree := by
  intro id hid
  simp [oldest, maxYears, Node.as, Node.ident, Node.splitDots, Node.aggregate, Node.desc,
    Node.apply] at hid
  rcases hid with rfl | rfl <;> rfl

theorem agesDraft_starFree : agesDraft.registry.StarFree := by
  intro name expr hbound
  simp only [agesDraft, Registry.binding?, List.lookup_cons, List.lookup_nil] at hbound
  split at hbound
  · cases hbound
    intro id hid
    simp [Node.as, Node.ident, Node.splitDots, Node.apply] at hid
    rcases hid with rfl | rfl <;> rfl
  · cases hbound

theorem declared_type_iff_fragment_type_oldest :
    agesDraft.registry.schemaTable 0 = .ok agesTable ∧
      emitValue 0 .bucket oldest agesDraft = (.ok (), oldestDraft) ∧
      columnType oldestDraft.registry 0 oldest = .ok .integer ∧
      oldest.StarFree ∧ agesDraft.registry.StarFree ∧
      ∃ fragment, oldestDraft.steps = fragment ∧
        (agesTable.fragmentType? fragment = some .integer ↔
          ∀ f : Aggregate, f.keepsType = true → fragment ≠ [.unfold, f.step]) ∧
        agesTable.fragmentType? fragment = some .integer := by
  have ht : agesDraft.registry.schemaTable 0 = .ok agesTable := by cbv
  have hemits : emitValue 0 .bucket oldest agesDraft = (.ok (), oldestDraft) := by cbv
  have htype : columnType oldestDraft.registry 0 oldest = .ok .integer := by cbv
  obtain ⟨fragment, hsteps, hiff, hfree⟩ := declared_type_iff_fragment_type ht hemits htype
  exact ⟨ht, hemits, htype, oldest_starFree, agesDraft_starFree, fragment, hsteps, hiff,
    hfree oldest_starFree agesDraft_starFree⟩

def starTable : Table :=
  ⟨"person", .vertex, .string, [⟨"*", .integer⟩], none⟩

/-- People who have a property of the name `*`, with `m` as a name for `MIN(*)`. -/
def starAliasDraft : Draft :=
  ⟨{ (Registry.empty ⟨[starTable]⟩).withTable starTable "p" with
    aliases := [("m", .aggregate .min (.identifier ⟨["*"]⟩))] }, []⟩

/-- The name `m` holds no star and has a declared type, but the fragment that is emitted for it
takes the minimum of the elements themselves, which have none. -/
theorem declared_type_of_untyped_fragment :
    (Node.identifier ⟨["m"]⟩).StarFree ∧
      starAliasDraft.registry.schemaTable 0 = .ok starTable ∧
      ∃ d', emitValue 0 .bucket (.identifier ⟨["m"]⟩) starAliasDraft = (.ok (), d') ∧
        columnType d'.registry 0 (.identifier ⟨["m"]⟩) = .ok .integer ∧
        d'.steps = [.unfold, .min] ∧ starTable.fragmentType? d'.steps = none := by
  have hfree : (Node.identifier ⟨["m"]⟩).StarFree := by
    intro id hid
    cases Node.within_identifier.1 hid
    rfl
  have ht : starAliasDraft.registry.schemaTable 0 = .ok starTable := by cbv
  have hemits : emitValue 0 .bucket (.identifier ⟨["m"]⟩) starAliasDraft =
      (.ok (), ⟨starAliasDraft.registry.markAggregate, [.unfold, .min]⟩) := by cbv
  have htype : columnType starAliasDraft.registry.markAggregate 0 (.identifier ⟨["m"]⟩) =
      .ok .integer := by cbv
  exact ⟨hfree, ht, _, hemits, htype, rfl, starTable.fragmentType?_elements (f := .min) rfl⟩

end GraphSelect
