import GraphSelect.Proofs.Query.Outline
import Mathlib

/-!
# Which qualifiers are checked

A column may be qualified by the name that the query gives the table or by the table's label. There
is no single place where that is checked: each way of reading a name does it for itself. `Checked`
says of a tree what all of them together have looked at if it is emitted. Every name in it is
checked, at any depth, except for stars: a star below an aggregate is passed over, and a star in the
select list stands for the columns of the table whatever comes before it.
-/

set_option autoImplicit false

namespace GraphSelect

open Sql

/-! ## Column references -/

/-- The operands that a call reads. Where a name is given, the name itself is not read. -/
def Sql.Operator.reads (op : Operator) (operands : List Node) : List Node :=
  if op.role? = some .naming then operands.take 1 else operands

/-- Whether a name occurs in a tree as a column reference. -/
inductive Sql.Node.Refers (id : Identifier) : Node → Prop where
  | here : Refers id (.identifier id)
  | operand {op : Operator} {operands : List Node} {n : Node} :
      n ∈ op.reads operands → Refers id n → Refers id (.call op operands)

/-- Whether a tree aggregates all columns, written as this name. -/
def Sql.Node.AggregatesStar (id : Identifier) (n : Node) : Prop :=
  id.isStar = true ∧ ∃ (op : Operator) (f : Aggregate), op.role? = some (.aggregate f) ∧
    Node.Within (.call op [.identifier id]) n

theorem Sql.Operator.mem_of_mem_reads {op : Operator} {operands : List Node} {n : Node}
    (h : n ∈ op.reads operands) : n ∈ operands := by
  unfold Operator.reads at h
  split at h
  · exact List.mem_of_mem_take h
  · exact h

theorem Sql.Node.AggregatesStar.operand {id : Identifier} {n : Node} (h : n.AggregatesStar id)
    {op : Operator} {operands : List Node} (hn : n ∈ operands) :
    Node.AggregatesStar id (.call op operands) := by
  obtain ⟨hstar, op', f, hop, hwithin⟩ := h
  exact ⟨hstar, op', f, hop, .operand hn hwithin⟩

/-! ## Trees whose names are checked -/

/-- A qualifier is the name or the label of a table, up to the case of ASCII letters. -/
def RegisteredTable.Answers (t : RegisteredTable) (qualifier : String) : Prop :=
  Text.eqIgnoringCase qualifier t.workingLabel = true ∨
    Text.eqIgnoringCase qualifier t.label = true

/-- Every name is qualified as the table is called, but for stars below an aggregate. -/
inductive Checked (t : RegisteredTable) : Node → Prop where
  | identifier {id : Identifier} : id.isStar = false →
      (∀ qualifier, id.qualifier? = some qualifier → t.Answers qualifier) →
      Checked t (.identifier id)
  | literal (l : Literal) : Checked t (.literal l)
  | naming {op : Operator} {inner : Node} (name : String) : op.role? = some .naming →
      Checked t inner → Checked t (.call op [inner, .identifier ⟨[name]⟩])
  | star {op : Operator} {f : Aggregate} {id : Identifier} : op.role? = some (.aggregate f) →
      id.isStar = true → Checked t (.call op [.identifier id])
  | call (op : Operator) {operands : List Node} : (∀ n ∈ operands, Checked t n) →
      Checked t (.call op operands)

theorem Checked.call_one {t : RegisteredTable} {n : Node} (op : Operator) (h : Checked t n) :
    Checked t (.call op [n]) :=
  .call op (by simpa using h)

theorem Checked.call_two {t : RegisteredTable} {left right : Node} (op : Operator)
    (hl : Checked t left) (hr : Checked t right) : Checked t (.call op [left, right]) :=
  .call op (by simpa using ⟨hl, hr⟩)

/-- A reference in a checked tree is qualified as the table is called, or it is an aggregated
star. -/
theorem Checked.of_refers {t : RegisteredTable} {n : Node} {id : Identifier} {qualifier : String}
    (h : Checked t n) (hid : n.Refers id) (hq : id.qualifier? = some qualifier) :
    t.Answers qualifier ∨ n.AggregatesStar id := by
  induction h with
  | identifier _ hanswers =>
    cases hid
    exact .inl (hanswers qualifier hq)
  | literal l => cases hid
  | naming name hop _ ih =>
    cases hid with
    | operand hn hid =>
      simp only [Operator.reads, hop, ↓reduceIte, List.take_succ_cons, List.take_zero,
        List.mem_singleton] at hn
      subst hn
      exact (ih hid).imp_right fun hstar => hstar.operand (by simp)
  | @star op f _ hop hstar =>
    cases hid with
    | operand hn hid =>
      cases List.mem_singleton.1 (Operator.mem_of_mem_reads hn)
      cases hid
      exact .inr ⟨hstar, op, f, hop, .refl _⟩
  | call op _ ih =>
    cases hid with
    | operand hn hid =>
      have hmem := Operator.mem_of_mem_reads hn
      exact (ih _ hmem hid).imp_right fun hstar => hstar.operand hmem

/-! ## Expressions -/

section

variable {table : TableId} {t : RegisteredTable} {expand : Expansion} {scope : Scope} {d d' : Draft}

theorem Stage.table_ok {Given : String → Node → Prop} {added : List Step} {aggregates : Bool}
    (h : Stage Given added aggregates d d') (ht : d.registry.table table = .ok t) :
    d'.registry.table table = .ok t :=
  h.learns.toGrows.table_eq.trans ht

theorem checkQualifier_answers {r : Registry} {id : Identifier} (ht : r.table table = .ok t)
    (h : checkQualifier r table id = .ok ()) :
    ∀ qualifier, id.qualifier? = some qualifier → t.Answers qualifier := by
  intro qualifier hq
  simp only [checkQualifier, hq] at h
  obtain ⟨registered, hregistered, hrest⟩ := ok_of_bind h
  cases ht.symm.trans (liftRegistry_ok hregistered)
  split at hrest
  · rename_i hanswers
    exact Bool.or_eq_true_iff.1 hanswers
  · cases hrest

theorem emitIdentifier_checked {id : Identifier}
    (h : emitIdentifier table expand scope id d = (.ok (), d'))
    (ht : d.registry.table table = .ok t) : Checked t (.identifier id) := by
  obtain ⟨hstar, hqualifier, -⟩ := emitIdentifier_cases h
  exact .identifier hstar (checkQualifier_answers ht hqualifier)

/-- Emitting a value checks its names. -/
theorem emitNode_checked {n : Node} (h : emitNode table expand scope n d = (.ok (), d'))
    (ht : d.registry.table table = .ok t) : Checked t n := by
  induction scope, n using emitNode.induct generalizing d d' with
  | case1 scope id hempty =>
    simp only [emitNode, hempty, ↓reduceIte] at h
    exact absurd h Emit.not_fail
  | case2 scope id hempty =>
    simp only [emitNode, hempty, Bool.false_eq_true, ↓reduceIte] at h
    exact emitIdentifier_checked h ht
  | case3 scope l => exact .literal l
  | case4 scope op inner name hop ih =>
    simp only [emitNode, hop] at h
    obtain ⟨_, d₁, h₁, hrest⟩ := Emit.bind_ok h
    have hbind : Stage (fun _ _ => True) [] false d d₁ := .bindAlias h₁ trivial
    exact .naming name hop (ih hrest (hbind.table_ok ht))
  | case5 scope op operand hop ih =>
    simp only [emitNode, hop] at h
    exact .call_one op (ih h ht)
  | case7 scope op hop => exact .call op (by simp)
  | case8 scope op f operand hop ih =>
    rw [emitNode.eq_def] at h
    simp only [hop] at h
    obtain ⟨_, d₁, h₁, hrest⟩ := Emit.bind_ok h
    obtain ⟨-, hopen⟩ : _ ∧ Stage (fun _ _ => True) _ _ _ _ := Stage.openAggregate h₁
    cases hstar : operand.isStar with
    | false =>
      simp only [hstar, Bool.not_false, ↓reduceIte] at hrest
      obtain ⟨_, d₂, h₂, -⟩ := Emit.bind_ok hrest
      exact .call_one op (ih h₂ (hopen.table_ok ht))
    | true =>
      -- The star is never read, so nothing is known of its qualifier.
      obtain ⟨id, rfl, hid⟩ := Node.eq_identifier_of_isStar hstar
      exact .star hop hid
  | case6 _ _ _ _ _ hop | case9 _ _ _ _ _ hop | case10 _ _ _ hop =>
    rw [emitNode.eq_def] at h
    simp only [hop] at h
    exact absurd h Emit.not_fail
  | case11 scope op operands =>
    rw [emitNode.eq_def] at h
    simp only at h
    exact absurd h Emit.not_fail

theorem emitValue_branch_checked {n : Node} {value : Traversal}
    (h : Emit.branch (emitValue table scope n) d = (.ok value, d'))
    (ht : d.registry.table table = .ok t) : Checked t n := by
  obtain ⟨inner, hinner, -, -⟩ := Emit.branch_ok h
  exact emitNode_checked hinner ht

theorem emitBoolean_checked {id : Identifier} {expected : Bool}
    (h : emitBoolean table expand scope id expected d = (.ok (), d'))
    (ht : d.registry.table table = .ok t) : Checked t (.identifier id) := by
  obtain ⟨_, d₁, h₁, hrest⟩ := Emit.bind_ok h
  obtain ⟨-, rfl⟩ := Emit.ask_ok h₁
  obtain ⟨_, d₂, h₂, -⟩ := Emit.bind_ok hrest
  exact emitIdentifier_checked h₂ ht

theorem emitComparison_checked {c : Compare} {left right : Node}
    (h : emitComparison table expand scope c left right d = (.ok (), d'))
    (ht : d.registry.table table = .ok t) : Checked t left ∧ Checked t right := by
  unfold emitComparison at h
  split at h
  · exact absurd h Emit.not_fail
  · obtain ⟨_, d₁, h₁, -⟩ := Emit.bind_ok h
    exact ⟨emitNode_checked h₁ ht, .literal _⟩
  · obtain ⟨_, d₁, h₁, -⟩ := Emit.bind_ok h
    exact ⟨.literal _, emitNode_checked h₁ ht⟩
  · exact absurd h Emit.not_fail

/-- Two conditions that become the branches of one step. -/
theorem emitBranches_checked (hexp : expand.Sound table) {left right : Node}
    {join : List Traversal → Step}
    (hleft : ∀ {d d' : Draft}, emitCondition table expand scope left d = (.ok (), d') →
      d.registry.table table = .ok t → Checked t left)
    (hright : ∀ {d d' : Draft}, emitCondition table expand scope right d = (.ok (), d') →
      d.registry.table table = .ok t → Checked t right)
    (h : (do
      let a ← Emit.branch (emitCondition table expand scope left)
      let b ← Emit.branch (emitCondition table expand scope right)
      Emit.append (join [a, b]) : Emit Unit) d = (.ok (), d'))
    (ht : d.registry.table table = .ok t) : Checked t left ∧ Checked t right := by
  obtain ⟨_, d₁, h₁, hrest⟩ := Emit.bind_ok h
  obtain ⟨inner₁, hinner₁, -, rfl⟩ := Emit.branch_ok h₁
  obtain ⟨_, d₂, h₂, -⟩ := Emit.bind_ok hrest
  obtain ⟨inner₂, hinner₂, -, -⟩ := Emit.branch_ok h₂
  obtain ⟨p, hp⟩ := emitCondition_emission hexp hinner₁
  exact ⟨hleft hinner₁ ht, hright hinner₂ (hp.toStage.table_ok ht)⟩

/-- Emitting a condition checks its names. -/
theorem emitCondition_checked (hexp : expand.Sound table) {n : Node}
    (h : emitCondition table expand scope n d = (.ok (), d'))
    (ht : d.registry.table table = .ok t) : Checked t n := by
  induction n using emitCondition.induct generalizing d d' with
  | case1 id hempty =>
    simp only [emitCondition, hempty, ↓reduceIte] at h
    exact absurd h Emit.not_fail
  | case2 id hempty =>
    simp only [emitCondition, hempty, Bool.false_eq_true, ↓reduceIte] at h
    exact emitBoolean_checked h ht
  | case3 l => exact .literal l
  | case4 op c left right hop =>
    rw [emitCondition.eq_def] at h
    simp only [hop] at h
    obtain ⟨hl, hr⟩ := emitComparison_checked h ht
    exact .call_two op hl hr
  | case5 op left right hop ihl ihr | case6 op left right hop ihl ihr =>
    rw [emitCondition.eq_def] at h
    simp only [hop] at h
    obtain ⟨hl, hr⟩ := emitBranches_checked hexp ihl ihr h ht
    exact .call_two op hl hr
  | case7 op id hop =>
    rw [emitCondition.eq_def] at h
    simp only [hop] at h
    exact .call_one op (emitBoolean_checked h ht)
  | case8 _ _ _ hop | case9 _ _ _ hop | case10 _ _ _ hop | case11 _ hop | case12 _ _ _ hop =>
    rw [emitCondition.eq_def] at h
    simp only [hop] at h
    exact absurd h Emit.not_fail
  | case13 op operands =>
    rw [emitCondition.eq_def] at h
    simp only at h
    exact absurd h Emit.not_fail

/-! ## Clauses -/

theorem emitFilterStep_checked {n : Node} (h : emitFilterStep table scope n d = (.ok (), d'))
    (ht : d.registry.table table = .ok t) : Checked t n := by
  obtain ⟨_, d₁, h₁, -⟩ := Emit.bind_ok h
  obtain ⟨inner, hinner, -, -⟩ := Emit.branch_ok h₁
  exact emitCondition_checked (expandAlias_sound table) hinner ht

theorem emitPlaced_checked {s : Select} {placement here : FilterPlacement}
    (h : emitPlaced table s placement here d = (.ok (), d')) (ht : d.registry.table table = .ok t) :
    ∀ n ∈ s.filterAt placement here, Checked t n := by
  intro n hn
  unfold Select.filterAt at hn
  split at hn
  · rename_i hhere
    rw [Option.mem_toList] at hn
    unfold emitPlaced at h
    simp only [show s.filter = some n from hn, hhere, ↓reduceIte] at h
    exact emitFilterStep_checked (emitWhere_ok h) ht
  · cases hn

theorem emitHavingClause_checked {s : Select} (h : emitHavingClause table s d = (.ok (), d'))
    (ht : d.registry.table table = .ok t) : ∀ n ∈ s.having.toList, Checked t n := by
  intro n hn
  rw [Option.mem_toList] at hn
  unfold emitHavingClause at h
  simp only [show s.having = some n from hn] at h
  exact emitFilterStep_checked (emitHaving_ok h) ht

theorem emitGroupKey_checked {key : Node} {value : Traversal}
    (h : emitGroupKey table key d = (.ok value, d'))
    (ht : d.registry.table table = .ok t) : Checked t key := by
  obtain ⟨view, d₁, h₁, hrest⟩ := Emit.bind_ok h
  obtain ⟨hview, rfl⟩ := Emit.lift_ok h₁
  cases view with
  | identifier id =>
    cases view_cases hview
    obtain ⟨endpoint, d₂, h₂, hlast⟩ := Emit.bind_ok hrest
    obtain ⟨-, rfl⟩ := Emit.ask_ok h₂
    split at hlast
    · exact absurd hlast Emit.not_fail
    · exact emitValue_branch_checked hlast ht
  | _ => exact absurd hrest Emit.not_fail

theorem emitGroupKeys_checked {keys : List Node} {branches : List Traversal}
    (h : emitGroupKeys table keys d = (.ok branches, d'))
    (ht : d.registry.table table = .ok t) : ∀ key ∈ keys, Checked t key := by
  induction keys generalizing d d' branches with
  | nil => nofun
  | cons key rest ih =>
    obtain ⟨_, d₁, h₁, hrest⟩ := Emit.bind_ok h
    obtain ⟨_, d₂, h₂, -⟩ := Emit.bind_ok hrest
    obtain ⟨_, -, -, hstage⟩ := emitGroupKey_stage h₁
    rw [List.forall_mem_cons]
    exact ⟨emitGroupKey_checked h₁ ht, ih h₂ (hstage.table_ok ht)⟩

theorem emitGroupBy_checked {keys : List Node} (h : emitGroupBy table keys d = (.ok (), d'))
    (ht : d.registry.table table = .ok t) : ∀ key ∈ keys, Checked t key := by
  cases keys with
  | nil => nofun
  | cons key rest =>
    obtain ⟨_, d₁, h₁, hrest⟩ := Emit.bind_ok h
    cases Emit.append_ok h₁
    simp only [List.isEmpty_cons, Bool.false_eq_true, ↓reduceIte] at hrest
    obtain ⟨branches, d₂, h₂, -⟩ := Emit.bind_ok hrest
    exact emitGroupKeys_checked h₂ ht

/-- A sort key adds a mark and a name to what it sorts by, or it counts an item. -/
theorem sortKey_checked {items : List ProjectionItem} {key expr : Node} {direction : Direction}
    (h : sortKey items key = .ok (expr, direction)) (hexpr : Checked t expr) : Checked t key := by
  refine of_sortKey h hexpr ?_ .literal ?_
  · intro op name hop
    exact .naming name hop hexpr
  · intro op operand hoperand
    exact .call_one op hoperand

theorem emitSortKeys_checked {items : List ProjectionItem} {keys : List Node}
    (h : emitSortKeys table items keys d = (.ok (), d'))
    (ht : d.registry.table table = .ok t) : ∀ key ∈ keys, Checked t key := by
  induction keys generalizing d with
  | nil => nofun
  | cons key rest ih =>
    obtain ⟨expr, direction, value, d₁, d₂, hkey, -, h₁, h₂, hlast⟩ := emitSortKeys_cons_ok h
    cases Emit.append_ok h₂
    obtain ⟨_, -, -, -, hstage⟩ := emitValue_branch h₁
    rw [List.forall_mem_cons]
    exact ⟨sortKey_checked hkey (emitValue_branch_checked h₁ ht),
      ih hlast (hstage.table_ok ht)⟩

theorem emitOrderBy_checked {items : List ProjectionItem} {keys : List Node}
    (h : emitOrderBy table items keys d = (.ok (), d'))
    (ht : d.registry.table table = .ok t) : ∀ key ∈ keys, Checked t key := by
  cases keys with
  | nil => nofun
  | cons key rest =>
    obtain ⟨_, d₁, h₁, hlast⟩ := Emit.bind_ok h
    cases Emit.append_ok h₁
    exact emitSortKeys_checked hlast ht

theorem emitItems_checked {items : List ProjectionItem} (h : emitItems table items d = (.ok (), d'))
    (ht : d.registry.table table = .ok t) : ∀ item ∈ items, Checked t item.expr := by
  induction items generalizing d with
  | nil => nofun
  | cons item rest ih =>
    obtain ⟨value, d₁, h₁, hrest⟩ := Emit.bind_ok h
    obtain ⟨_, d₂, h₂, hlast⟩ := Emit.bind_ok hrest
    cases Emit.append_ok h₂
    obtain ⟨_, -, -, -, hstage⟩ := emitValue_branch h₁
    rw [List.forall_mem_cons]
    exact ⟨emitValue_branch_checked h₁ ht, ih hlast (hstage.table_ok ht)⟩

theorem emitProjection_checked {items : List ProjectionItem}
    (h : emitProjection table items d = (.ok (), d'))
    (ht : d.registry.table table = .ok t) : ∀ item ∈ items, Checked t item.expr := by
  obtain ⟨_, d₁, h₁, hlast⟩ := Emit.bind_ok h
  cases Emit.append_ok h₁
  exact emitItems_checked hlast ht

end

/-! ## The select list -/

section

variable {r : Registry} {table : TableId}

/-- An entry of the select list is a star, or it is the expression of an item. -/
theorem entry_isStar_or_item {selectList : List Node} {position : Nat}
    {items : List ProjectionItem} (h : itemsFrom r table position selectList = .ok items) :
    ∀ n ∈ selectList, n.isStar = true ∨ ∃ item ∈ items, item.expr = n := by
  induction selectList generalizing position items with
  | nil => nofun
  | cons n rest ih =>
    obtain ⟨first, hfirst, hrest⟩ := ok_of_bind h
    obtain ⟨more, hmore, hlast⟩ := ok_of_bind hrest
    cases hlast
    rw [List.forall_mem_cons]
    refine ⟨?_, fun m hm => (ih hmore m hm).imp_right ?_⟩
    · rcases entryItems_cases hfirst with ⟨hstar, -⟩ | ⟨-, name, rfl⟩
      · exact .inl hstar
      · exact .inr ⟨_, List.mem_append_left more List.mem_cons_self, rfl⟩
    · rintro ⟨item, hitem, rfl⟩
      exact ⟨item, List.mem_append_right first hitem, rfl⟩

/-- What stands before the star of an entry makes no difference. -/
theorem itemsFrom_star {id id' : Identifier} (hid : id.isStar = true) (hid' : id'.isStar = true)
    (before after : List Node) (position : Nat) :
    itemsFrom r table position (before ++ .identifier id :: after) =
      itemsFrom r table position (before ++ .identifier id' :: after) := by
  induction before generalizing position with
  | nil => simp only [List.nil_append, itemsFrom, entryItems, hid, hid', ↓reduceIte]
  | cons n rest ih => simp only [List.cons_append, itemsFrom, ih]

end

theorem compile_star {schema : Schema} {placement : FilterPlacement} {s : Select}
    {id id' : Identifier} (hid : id.isStar = true) (hid' : id'.isStar = true)
    (before after : List Node) :
    compile schema placement { s with selectList := before ++ .identifier id :: after } =
      compile schema placement { s with selectList := before ++ .identifier id' :: after } := by
  have hempty (id : Identifier) : (before ++ Node.identifier id :: after).isEmpty = false := by
    simp
  simp only [compile, hempty, projectionItems, itemsFrom_star hid hid']
  rfl

/-! ## The query -/

/-- Every tree of a select that is emitted is checked. -/
theorem StageDrafts.checked {table : TableId} {items : List ProjectionItem} {s : Select}
    {placement : FilterPlacement} {d d' : Draft} {t : RegisteredTable}
    (h : StageDrafts table items s placement d d') (ht : d.registry.table table = .ok t) :
    ∀ n ∈ s.trees items, Checked t n := by
  obtain ⟨_, hearly⟩ := emitPlaced_filters h.placedFirst
  obtain ⟨_, -, -, hgroup⟩ := emitGroupBy_bucketing h.groups
  obtain ⟨_, -, hsorting⟩ := emitOrderBy_stage h.orders
  obtain ⟨_, hhaving⟩ := emitHavingClause_filters h.having
  obtain ⟨_, hlate⟩ := emitPlaced_filters h.placedLast
  have hfiltered := hearly.toStage.table_ok ht
  have hgrouped := hgroup.table_ok hfiltered
  have hordered := hsorting.table_ok hgrouped
  have hkept := hhaving.toStage.table_ok hordered
  have hkeptAgain := hlate.toStage.table_ok hkept
  -- The WHERE clause stands in one of two places.
  have hfilter : ∀ n ∈ s.filter.toList, Checked t n := by
    cases placement with
    | beforeGrouping => exact emitPlaced_checked h.placedFirst ht
    | afterHaving => exact emitPlaced_checked h.placedLast hkept
  intro n hn
  simp only [Select.trees, List.mem_append, or_assoc] at hn
  rcases hn with hn | hn | hn | hn | hn
  · obtain ⟨item, hitem, rfl⟩ := List.mem_map.1 hn
    exact emitProjection_checked h.projects hkeptAgain item hitem
  · exact hfilter n hn
  · exact emitGroupBy_checked h.groups hfiltered n hn
  · exact emitHavingClause_checked h.having hordered n hn
  · exact emitOrderBy_checked h.orders hgrouped n hn

/-- The trees of a compiled select are checked against the table that it reads. -/
theorem CompileRun.checked {schema : Schema} {placement : FilterPlacement} {s : Select}
    {q : CompiledQuery} (run : CompileRun schema placement s q) :
    ∀ n ∈ s.trees run.items, Checked (run.table.registeredAs 0 run.source.name) n := by
  obtain ⟨drafts⟩ := emitStages_drafts run.emits
  obtain ⟨_, _, hdiscovery⟩ := emitDiscovery_stage run.discovers
  exact drafts.checked (hdiscovery.table_ok rfl)

/-- The trees of a select in which columns are referred to. -/
def Sql.Select.clauses (s : Select) : List Node :=
  s.selectList ++ s.filter.toList ++ keysOf s.groupBy ++ s.having.toList ++ keysOf s.orderBy

/-- A clause is emitted as it is, unless it is a star in the select list. -/
theorem mem_trees_of_mem_clauses {r : Registry} {table : TableId} {s : Select}
    {items : List ProjectionItem} (h : projectionItems r table s.selectList = .ok items) {n : Node}
    (hn : n ∈ s.clauses) : (n ∈ s.selectList ∧ n.isStar = true) ∨ n ∈ s.trees items := by
  obtain ⟨hlisted, -⟩ := projectionItems_ok h
  simp only [Select.clauses, List.mem_append, or_assoc] at hn
  rcases hn with hn | hn
  · rcases entry_isStar_or_item hlisted n hn with hstar | ⟨item, hitem, rfl⟩
    · exact .inl ⟨hn, hstar⟩
    · have hexpr : item.expr ∈ items.map ProjectionItem.expr := List.mem_map_of_mem hitem
      simp [Select.trees, hexpr]
  · right
    simp only [Select.trees, List.mem_append, or_assoc]
    exact .inr hn

/-- **All qualifiers are checked, but for those of stars.** In a select that compiles, every column
reference is qualified by the name or the label of its table, at whatever depth of whichever clause
it stands, unless it is a star that is aggregated or an entry of the select list. What qualifies a
star in the select list has no influence at all. -/
theorem qualifiers_checked_except_of_stars {schema : Schema} {placement : FilterPlacement}
    {s : Select} {q : CompiledQuery} (h : compile schema placement s = .ok q) :
    (∃ (source : SourceTable) (t : Table), SourceTable.ofClause s.source = .ok source ∧
      schema.table? source.label = some t ∧
      ∀ n ∈ s.clauses, ∀ id qualifier, n.Refers id → id.qualifier? = some qualifier →
        Text.eqIgnoringCase qualifier source.name = true ∨
          Text.eqIgnoringCase qualifier t.label = true ∨ n.AggregatesStar id ∨
            (id.isStar = true ∧ n = .identifier id ∧ n ∈ s.selectList)) ∧
    ∀ (before after : List Node) (id id' : Identifier), id.isStar = true → id'.isStar = true →
      s.selectList = before ++ .identifier id :: after →
      compile schema placement { s with selectList := before ++ .identifier id' :: after } =
        .ok q := by
  constructor
  · obtain ⟨run⟩ := compile_run h
    refine ⟨run.source, run.table, run.reads, run.found, fun n hn id qualifier hid hq => ?_⟩
    rcases mem_trees_of_mem_clauses run.lists hn with ⟨hlist, hstar⟩ | htree
    · obtain ⟨id', rfl, hid'⟩ := Node.eq_identifier_of_isStar hstar
      cases hid
      exact .inr (.inr (.inr ⟨hid', rfl, hlist⟩))
    · rcases (run.checked n htree).of_refers hid hq with (hname | hlabel) | hagg
      · -- A table that is given no name is called by its label.
        simp only [Table.registeredAs, Table.nameAs] at hname
        split at hname
        · exact .inr (.inl hname)
        · exact .inl hname
      · exact .inr (.inl hlabel)
      · exact .inr (.inr (.inl hagg))
  · intro before after id id' hid hid' hlist
    rw [compile_star hid' hid before after, ← hlist]
    exact h

/-- People with a name. -/
def nameSchema : Schema :=
  ⟨[⟨"person", .vertex, .string, [⟨"name", .string⟩], none⟩]⟩

/-- `SELECT q.*, COUNT(q.*) AS n FROM person AS p GROUP BY P.name`. -/
def strangeStars : Select where
  selectList := [.identifier ⟨["q", "*"]⟩,
    .as (.aggregate .count (.identifier ⟨["q", "*"]⟩)) "n"]
  source := some (.as (.identifier ⟨["person"]⟩) "p")
  filter := none
  groupBy := some [.identifier ⟨["P", "name"]⟩]
  having := none
  orderBy := none

theorem compile_strangeStars : ∃ q, compile nameSchema .beforeGrouping strangeStars = .ok q := by
  have hok : (compile nameSchema .beforeGrouping strangeStars).isOk = true := by cbv
  cases h : compile nameSchema .beforeGrouping strangeStars with
  | ok q => exact ⟨q, rfl⟩
  | error err =>
    rw [h] at hok
    cases hok

theorem qualifiers_checked_except_of_stars_strangeStars :
    ∃ q, compile nameSchema .beforeGrouping strangeStars = .ok q ∧
      (∃ (source : SourceTable) (t : Table),
        SourceTable.ofClause strangeStars.source = .ok source ∧
        nameSchema.table? source.label = some t ∧
        ∀ n ∈ strangeStars.clauses, ∀ id qualifier, n.Refers id → id.qualifier? = some qualifier →
          Text.eqIgnoringCase qualifier source.name = true ∨
            Text.eqIgnoringCase qualifier t.label = true ∨ n.AggregatesStar id ∨
              (id.isStar = true ∧ n = .identifier id ∧ n ∈ strangeStars.selectList)) ∧
      ∀ (before after : List Node) (id id' : Identifier), id.isStar = true → id'.isStar = true →
        strangeStars.selectList = before ++ .identifier id :: after →
        compile nameSchema .beforeGrouping
          { strangeStars with selectList := before ++ .identifier id' :: after } = .ok q := by
  obtain ⟨q, hq⟩ := compile_strangeStars
  exact ⟨q, hq, qualifiers_checked_except_of_stars hq⟩

/-- Both entries of a select list may refer to a table that is not there. -/
theorem stars_of_unknown_table :
    (∃ q, compile nameSchema .beforeGrouping strangeStars = .ok q) ∧
      SourceTable.ofClause strangeStars.source = .ok ⟨"person", "p"⟩ ∧
      (∀ n ∈ strangeStars.selectList, n.Refers ⟨["q", "*"]⟩) ∧
      Text.eqIgnoringCase "q" "p" = false ∧ Text.eqIgnoringCase "q" "person" = false := by
  refine ⟨compile_strangeStars, by cbv, ?_, by cbv, by cbv⟩
  have hcount : Node.Refers ⟨["q", "*"]⟩ (.aggregate .count (.identifier ⟨["q", "*"]⟩)) :=
    .operand (List.mem_singleton_self _) .here
  simp only [strangeStars, List.forall_mem_cons, List.not_mem_nil, false_implies, implies_true,
    and_true]
  exact ⟨.here, .operand (List.mem_cons_self ..) hcount⟩

end GraphSelect
