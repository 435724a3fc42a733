import GraphSelect.Proofs.Expr.Coverage
import GraphSelect.Proofs.Query.Outline
import GraphSelect.Sql.Build
import Mathlib

/-!
# What aliases rest on

An alias may stand for an expression that uses other aliases, and nothing keeps a select from giving
names in a circle. What is left behind by a select that compiles is in order all the same: every
name that the expression of an alias uses is a column of the table or another alias, and there are
no circles, so that each alias leads to columns and constants in finitely many steps.

The reason is that emission follows every name that it meets to its end. In the registry that is
left behind every tree of the select has a meaning, and a meaning is a finite derivation. Every
alias is named in one of the trees, and what is named inside a tree with a meaning has a meaning
itself. The rest is about one derivation: the names that a tree with a meaning uses are resolved,
and each of them rests on aliases with shorter derivations only.
-/

set_option autoImplicit false

namespace GraphSelect

open Sql

/-! ## Names that are looked up -/

/-- The operands of a call in which names are looked up. A name that is given is not looked up, and
neither is a star that is aggregated. -/
def Sql.Operator.resolved (op : Operator) (operands : List Node) : List Node :=
  match op.role? with
  | some .naming => operands.take 1
  | some (.aggregate _) => operands.filter fun n => !n.isStar
  | _ => operands

/-- Whether a tree uses a name: it occurs somewhere as a column reference. -/
inductive Sql.Node.Uses (id : Identifier) : Node → Prop where
  | here : Uses id (.identifier id)
  | operand {op : Operator} {operands : List Node} {n : Node} :
      n ∈ op.resolved operands → Uses id n → Uses id (.call op operands)

namespace Sql.Node

variable {id : Identifier} {op : Operator}

theorem uses_call {operands : List Node} :
    (Node.call op operands).Uses id ↔ ∃ n ∈ op.resolved operands, n.Uses id := by
  constructor
  · intro h
    cases h with
    | operand hn hid => exact ⟨_, hn, hid⟩
  · rintro ⟨n, hn, hid⟩
    exact .operand hn hid

theorem uses_naming (hop : op.role? = some .naming) {inner target : Node} :
    (Node.call op [inner, target]).Uses id ↔ inner.Uses id := by
  simp [uses_call, Operator.resolved, hop]

theorem uses_mark {mark : SortMark} (hop : op.role? = some (.mark mark)) {operand : Node} :
    (Node.call op [operand]).Uses id ↔ operand.Uses id := by
  simp [uses_call, Operator.resolved, hop]

theorem uses_aggregate {f : Aggregate} (hop : op.role? = some (.aggregate f))
    {operands : List Node} :
    (Node.call op operands).Uses id ↔ ∃ n ∈ operands, n.isStar = false ∧ n.Uses id := by
  simp [uses_call, Operator.resolved, hop, and_assoc]

end Sql.Node

/-! ## Trees with a meaning -/

/-- The expression of one alias uses another name, which is not a column of the table. -/
def Registry.RestsOn (r : Registry) (t : Table) (name other : String) : Prop :=
  ∃ expr id, r.binding? name = some expr ∧ expr.Uses id ∧ id.simpleName = other ∧
    t.column? other = none

/-- A name is a column of the table, or it is an alias and no infinite chain starts at it. -/
def Registry.Grounds (r : Registry) (t : Table) (name : String) : Prop :=
  (t.column? name).isSome ∨ ((r.binding? name).isSome ∧
    Acc (fun other name => r.RestsOn t name other) name)

section

variable {r : Registry} {table : TableId} {t : Table}

/-- An alias that uses only names that end somewhere starts no infinite chain. -/
theorem Registry.acc_of_grounds {name : String} {expr : Node} (hname : r.binding? name = some expr)
    (h : ∀ id, expr.Uses id → r.Grounds t id.simpleName) :
    Acc (fun other name => r.RestsOn t name other) name := by
  refine .intro name ?_
  rintro other ⟨expr', id, hexpr', hid, rfl, hcolumn⟩
  cases hname.symm.trans hexpr'
  rcases h id hid with hsome | ⟨-, hacc⟩
  · rw [hcolumn] at hsome
    cases hsome
  · exact hacc

/-- **The names that a tree with a meaning uses end somewhere.** The induction goes through the
expressions of aliases, and so from alias to alias. -/
theorem Means.grounds_of_uses (ht : r.schemaTable table = .ok t) {n : Node} {m : Meaning}
    (h : Means r table n m) {id : Identifier} (hid : n.Uses id) : r.Grounds t id.simpleName := by
  induction h generalizing id with
  | column hc =>
    cases hid
    obtain ⟨t', ht', hcolumn⟩ := hc
    cases ht.symm.trans ht'
    exact .inl (by rw [hcolumn]; rfl)
  | named ha _ ih =>
    cases hid
    refine .inr ⟨by rw [ha.2]; rfl, ?_⟩
    exact Registry.acc_of_grounds ha.2 (fun id' hid' => ih hid')
  | literal l => cases hid
  | naming hop _ ih => exact ih ((Node.uses_naming hop).1 hid)
  | desc hop _ ih => exact ih ((Node.uses_mark hop).1 hid)
  | countAll hop =>
    obtain ⟨n, hn, -⟩ := (Node.uses_aggregate hop).1 hid
    cases hn
  | star hop hstar =>
    -- The star itself is not looked up.
    obtain ⟨n, hn, hplain, -⟩ := (Node.uses_aggregate hop).1 hid
    rw [List.mem_singleton.1 hn] at hplain
    cases hplain.symm.trans hstar
  | aggregate hop _ _ ih =>
    obtain ⟨n, hn, -, hid⟩ := (Node.uses_aggregate hop).1 hid
    exact ih (List.mem_singleton.1 hn ▸ hid)

/-! ## What is named inside of them -/

/-- Whatever is named in a tree has a meaning. -/
def Explained (r : Registry) (table : TableId) (n : Node) : Prop :=
  ∀ name expr, n.Names name expr → ∃ m, Means r table expr m

namespace Explained

theorem identifier (id : Identifier) : Explained r table (.identifier id) := by
  rintro name expr ⟨op, -, hwithin⟩
  cases Node.within_identifier.1 hwithin

theorem literal (l : Literal) : Explained r table (.literal l) := by
  rintro name expr ⟨op, -, hwithin⟩
  cases Node.within_literal.1 hwithin

theorem call {op : Operator} {operands : List Node} (hop : op.role? ≠ some .naming)
    (h : ∀ n ∈ operands, Explained r table n) : Explained r table (.call op operands) := by
  intro name expr hname
  rcases hname.of_call with ⟨hnaming, -⟩ | ⟨n, hn, hinside⟩
  · exact absurd hnaming hop
  · exact h n hn name expr hinside

theorem naming {op : Operator} {inner : Node} {target : Identifier} {m : Meaning}
    (hm : Means r table inner m) (h : Explained r table inner) :
    Explained r table (.call op [inner, .identifier target]) := by
  intro name expr hname
  rcases hname.of_call with ⟨-, heq⟩ | ⟨n, hn, hinside⟩
  · cases heq
    exact ⟨m, hm⟩
  · simp only [List.mem_cons, List.not_mem_nil, or_false] at hn
    rcases hn with rfl | rfl
    · exact h name expr hinside
    · exact identifier target name expr hinside

/-- A call with one operand gives no name itself. -/
theorem single (op : Operator) {operand : Node} (h : Explained r table operand) :
    Explained r table (.call op [operand]) := by
  intro name expr hname
  rcases hname.of_call with ⟨-, heq⟩ | ⟨n, hn, hinside⟩
  · cases heq
  · exact h name expr (List.mem_singleton.1 hn ▸ hinside)

end Explained

theorem Means.explained {n : Node} {m : Meaning} (h : Means r table n m) :
    Explained r table n := by
  induction h with
  | @column id _ _ | @named id _ _ _ _ _ => exact .identifier id
  | literal l => exact .literal l
  | naming _ hm ih => exact .naming hm ih
  | desc _ _ ih | aggregate _ _ _ ih => exact .single _ ih
  | countAll hop => exact .call (by simp [hop]) (by simp)
  | @star _ _ id _ _ => exact .single _ (.identifier id)

theorem States.explained {n : Node} {p : Condition} (h : States r table n p) :
    Explained r table n := by
  induction h with
  | column hm => exact hm.explained
  | negation _ hm => exact .single _ hm.explained
  | literalRight hop _ hm | literalLeft hop hm =>
    exact .call (by simp [hop]) (by simp [hm.explained, Explained.literal])
  | and hop _ _ ihl ihr | or hop _ _ ihl ihr => exact .call (by simp [hop]) (by simp [ihl, ihr])

/-- A sort key counts an item, or it adds a name and a mark to what is sorted by. -/
theorem SortsBy.explained {items : List ProjectionItem} {key : Node} {k : Meaning × Direction}
    (h : SortsBy r table items key k) : Explained r table key := by
  obtain ⟨expr, hkey, hm⟩ := h
  refine of_sortKey hkey hm.explained ?_ .literal ?_
  · intro op name hop
    exact .naming hm hm.explained
  · intro op operand hoperand
    exact .single op hoperand

end

/-! ## Compiled queries -/

section

variable {schema : Schema} {placement : FilterPlacement} {s : Select} {q : CompiledQuery}

/-- Every tree of an outlined select has a meaning or states a condition, so what is named in it has
a meaning. -/
theorem Outlines.explained {items : List ProjectionItem} {found : Bool} {r : Registry} {o : Outline}
    (h : Outlines placement s items found r o) : ∀ n ∈ s.trees items, Explained r 0 n := by
  intro n hn
  simp only [Select.trees, List.mem_append, or_assoc] at hn
  rcases hn with hlisted | hfilter | hkey | hhaving | hsort
  · obtain ⟨item, hitem, rfl⟩ := List.mem_map.1 hlisted
    obtain ⟨c, -, -, hm⟩ := exists_of_mem_forall₂ h.columns hitem
    exact hm.explained
  · -- The WHERE clause stands in one of two places.
    cases placement with
    | beforeGrouping =>
      obtain ⟨p, -, hp⟩ := exists_of_mem_forall₂ h.early hfilter
      exact hp.explained
    | afterHaving =>
      obtain ⟨p, -, hp⟩ := exists_of_mem_forall₂ h.late hfilter
      exact hp.explained
  · obtain ⟨atoms, -, hatoms⟩ := h.keys (List.ne_nil_of_mem hkey)
    obtain ⟨a, -, hm⟩ := exists_of_mem_forall₂ hatoms hkey
    exact hm.explained
  · obtain ⟨p, -, hp⟩ := exists_of_mem_forall₂ h.having hhaving
    exact hp.explained
  · obtain ⟨k, -, hk⟩ := exists_of_mem_forall₂ h.sorting hsort
    exact hk.explained

/-- **Every alias of a compiled select has a meaning.** -/
theorem CompileRun.aliases_mean (run : CompileRun schema placement s q) :
    q.registry.Binds fun _ expr => ∃ m, Means q.registry 0 expr m := by
  obtain ⟨o, -, ho⟩ := run.outline
  have hnamed : q.registry.Binds (NamedIn (s.trees run.items)) :=
    run.learns.binds_namedIn binds_reading
  intro name expr hexpr
  obtain ⟨n, hn, hname⟩ := hnamed hexpr
  exact ho.explained n hn name expr hname

theorem CompileRun.schemaTable (run : CompileRun schema placement s q) :
    q.registry.schemaTable 0 = .ok run.table :=
  run.learns.toGrows.schemaTable.trans (schemaTable_reading run.source.name run.found)

/-- There is no infinite chain of aliases in a compiled select, each resting on the next. -/
theorem CompileRun.wellFounded_restsOn (run : CompileRun schema placement s q) :
    WellFounded fun other name => q.registry.RestsOn run.table name other := by
  refine ⟨fun name => ?_⟩
  cases hname : q.registry.binding? name with
  | none =>
    refine .intro name ?_
    rintro other ⟨expr, id, hexpr, -⟩
    cases hname.symm.trans hexpr
  | some expr =>
    obtain ⟨m, hm⟩ := run.aliases_mean hname
    exact Registry.acc_of_grounds hname (fun id hid => hm.grounds_of_uses run.schemaTable hid)

/-- **Aliases are closed and without circles.** In the registry that a select leaves behind when it
compiles:

* whatever the expression of an alias uses is a column of the table or another alias;
* no alias rests on itself, directly or through others, and there is no infinite chain of aliases;
* every alias has a meaning: followed through aliases, names and marks, it comes to a column (an
  endpoint's id among them), a constant, or an aggregate of one of these or of all elements. -/
theorem aliases_closed_and_acyclic (h : compile schema placement s = .ok q) :
    ∃ (source : SourceTable) (t : Table), SourceTable.ofClause s.source = .ok source ∧
      schema.table? source.label = some t ∧
      (∀ name expr id, q.registry.binding? name = some expr → expr.Uses id →
        (t.column? id.simpleName).isSome ∨
          (id.simpleName ≠ name ∧ (q.registry.binding? id.simpleName).isSome)) ∧
      (∀ name, ¬ Relation.TransGen (q.registry.RestsOn t) name name) ∧
      (WellFounded fun other name => q.registry.RestsOn t name other) ∧
      ∀ name expr, q.registry.binding? name = some expr → ∃ m, Means q.registry 0 expr m := by
  obtain ⟨run⟩ := compile_run h
  have hwf := run.wellFounded_restsOn
  have hcycle : ∀ name, ¬ Relation.TransGen (q.registry.RestsOn run.table) name name := by
    intro name hpath
    exact hwf.transGen.irrefl.irrefl name (Relation.transGen_swap.1 hpath)
  refine ⟨run.source, run.table, run.reads, run.found, ?_, hcycle, hwf, fun _ _ => run.aliases_mean⟩
  intro name expr id hexpr hid
  obtain ⟨m, hm⟩ := run.aliases_mean hexpr
  rcases hcolumn : run.table.column? id.simpleName with _ | c
  · rcases hm.grounds_of_uses run.schemaTable hid with hsome | ⟨hbound, -⟩
    · rw [hcolumn] at hsome
      cases hsome
    · refine .inr ⟨?_, hbound⟩
      rintro rfl
      exact hcycle _ (.single ⟨expr, id, hexpr, hid, rfl, hcolumn⟩)
  · exact .inl rfl

end

/-- People with an age, who may have a department. -/
def crewSchema : Schema :=
  ⟨[⟨"person", .vertex, .string, [⟨"dept", .string⟩, ⟨"age", .integer⟩], none⟩]⟩

/-- `SELECT dept AS unit, MAX(age AS years) AS oldest, oldest AS top FROM person AS p
GROUP BY unit ORDER BY top DESC`. -/
def oldestOfUnits : Select where
  selectList := [.as (.identifier ⟨["dept"]⟩) "unit",
    .as (.aggregate .max (.as (.identifier ⟨["age"]⟩) "years")) "oldest",
    .as (.identifier ⟨["oldest"]⟩) "top"]
  source := some (.as (.identifier ⟨["person"]⟩) "p")
  filter := none
  groupBy := some [.identifier ⟨["unit"]⟩]
  having := none
  orderBy := some [.desc (.identifier ⟨["top"]⟩)]

/-- Four aliases, one named inside another and one that rests on another. -/
theorem aliases_closed_and_acyclic_oldestOfUnits :
    ∃ q, compile crewSchema .beforeGrouping oldestOfUnits = .ok q ∧
      q.registry.aliases.map Prod.fst = ["top", "years", "oldest", "unit"] ∧
      ∃ (source : SourceTable) (t : Table),
        SourceTable.ofClause oldestOfUnits.source = .ok source ∧
        crewSchema.table? source.label = some t ∧
        (∀ name expr id, q.registry.binding? name = some expr → expr.Uses id →
          (t.column? id.simpleName).isSome ∨
            (id.simpleName ≠ name ∧ (q.registry.binding? id.simpleName).isSome)) ∧
        (∀ name, ¬ Relation.TransGen (q.registry.RestsOn t) name name) ∧
        (WellFounded fun other name => q.registry.RestsOn t name other) ∧
        ∀ name expr, q.registry.binding? name = some expr → ∃ m, Means q.registry 0 expr m := by
  have hcompiles : (compile crewSchema .beforeGrouping oldestOfUnits).map
      (fun q => q.registry.aliases.map Prod.fst) = .ok ["top", "years", "oldest", "unit"] := by
    cbv
  obtain ⟨q, hq, haliases⟩ := ok_of_map hcompiles
  exact ⟨q, hq, haliases, aliases_closed_and_acyclic hq⟩

end GraphSelect
