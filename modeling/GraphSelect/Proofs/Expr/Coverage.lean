import GraphSelect.Proofs.Expr.Emission

/-!
# Names that are given are bound

Whatever is emitted gives all its names to the registry: an expression that stands under a name is
emitted right after the name is bound, and nothing inside it is passed over. So the registry that a
success leaves behind `Covers` the tree, and where it was `Complete` before, which means that the
expressions of its aliases give no name that is not bound, it still is.

A complete registry that covers a tree has nothing to learn from it. Emitting the tree once more, in
whatever scope, adds no alias and changes none, and neither does the use of an alias. What a clause
does to a registry that all others have gone through is then known without looking at them.
-/

set_option autoImplicit false

namespace GraphSelect

open Sql

/-! ## Registries that know all names -/

/-- Every name that a tree gives is bound. -/
def Registry.Covers (r : Registry) (n : Node) : Prop :=
  ∀ (name : String) (expr : Node), n.Names name expr → (r.binding? name).isSome

/-- Every name that the expression of an alias gives is bound as well. -/
def Registry.Complete (r : Registry) : Prop :=
  r.Binds fun _ expr => r.Covers expr

/-- Two registries are the same, but perhaps for whether the query aggregates. -/
structure Registry.SameNames (r r' : Registry) : Prop where
  schema : r'.schema = r.schema
  tables : r'.tables = r.tables
  renames : r'.renames = r.renames
  outputs : r'.outputs = r.outputs
  renamed : r'.renamedColumns = r.renamedColumns
  aliases : r'.aliases = r.aliases

/-- A call gives a name itself, or one of its operands does. -/
theorem Sql.Node.Names.of_call {op : Operator} {operands : List Node} {name : String} {expr : Node}
    (h : (Node.call op operands).Names name expr) :
    (op.role? = some .naming ∧ operands = [expr, .identifier ⟨[name]⟩]) ∨
      ∃ n ∈ operands, n.Names name expr := by
  obtain ⟨op', hop, hwithin⟩ := h
  rcases Node.within_call.1 hwithin with heq | ⟨n, hn, hwithin⟩
  · cases heq
    exact .inl ⟨hop, rfl⟩
  · exact .inr ⟨n, hn, op', hop, hwithin⟩

namespace Registry

variable {r r' r'' : Registry} {n : Node}

theorem covers_identifier (r : Registry) (id : Identifier) : r.Covers (.identifier id) := by
  rintro name expr ⟨op, -, hwithin⟩
  cases Node.within_identifier.1 hwithin

theorem covers_literal (r : Registry) (l : Literal) : r.Covers (.literal l) := by
  rintro name expr ⟨op, -, hwithin⟩
  cases Node.within_literal.1 hwithin

/-- What covers the operands of a call covers the call, unless the call itself gives a name. -/
theorem covers_call {op : Operator} {operands : List Node} (hop : op.role? ≠ some .naming)
    (h : ∀ n ∈ operands, r.Covers n) : r.Covers (.call op operands) := by
  intro name expr hname
  rcases hname.of_call with ⟨hnaming, -⟩ | ⟨n, hn, hname⟩
  · exact absurd hnaming hop
  · exact h n hn name expr hname

theorem Covers.operand {op : Operator} {operands : List Node} (h : r.Covers (.call op operands))
    (hn : n ∈ operands) : r.Covers n :=
  fun name expr hname => h name expr (hname.within (.of_operand hn))

theorem Covers.grow (h : r.Covers n) (hg : r.Grows r') : r'.Covers n := by
  intro name expr hname
  obtain ⟨bound, hbound⟩ := Option.isSome_iff_exists.1 (h name expr hname)
  rw [hg.binding hbound]
  rfl

namespace SameNames

theorem refl (r : Registry) : r.SameNames r :=
  ⟨rfl, rfl, rfl, rfl, rfl, rfl⟩

theorem trans (h : r.SameNames r') (h' : r'.SameNames r'') : r.SameNames r'' :=
  ⟨h'.schema.trans h.schema, h'.tables.trans h.tables, h'.renames.trans h.renames,
    h'.outputs.trans h.outputs, h'.renamed.trans h.renamed, h'.aliases.trans h.aliases⟩

theorem markAggregate (r : Registry) : r.SameNames r.markAggregate :=
  ⟨rfl, rfl, rfl, rfl, rfl, rfl⟩

theorem binding? (h : r.SameNames r') (name : String) : r'.binding? name = r.binding? name := by
  rw [Registry.binding?, Registry.binding?, h.aliases]

theorem covers (h : r.SameNames r') (hn : r.Covers n) : r'.Covers n := by
  intro name expr hname
  rw [h.binding? name]
  exact hn name expr hname

theorem complete (h : r.SameNames r') (hr : r.Complete) : r'.Complete := by
  intro name expr hb
  rw [h.binding? name] at hb
  exact h.covers (hr hb)

/-- With the same to say about aggregates, they are the same. -/
theorem eq (h : r.SameNames r') (hagg : r'.hasAggregate = r.hasAggregate) : r' = r := by
  obtain ⟨schema, tables, renames, outputs, renamed, aliases⟩ := h
  cases r
  cases r'
  simp_all

end SameNames

/-- A name that has been given is bound, and giving it again changes nothing. -/
theorem bindAlias_isSome {name : String} {expr : Node} (h : r.bindAlias name expr = (.ok (), r')) :
    (r'.binding? name).isSome ∧ ((r.binding? name).isSome → r' = r) := by
  obtain ⟨rfl, bound, hb, -⟩ | ⟨hnone, rfl⟩ := bindAlias_ok h
  · exact ⟨by rw [hb]; rfl, fun _ => rfl⟩
  · refine ⟨by rw [binding?_bind, if_pos rfl]; rfl, fun hsome => ?_⟩
    rw [hnone] at hsome
    cases hsome

/-- What a tree brings about leaves a registry complete that covers the tree afterwards: an alias
that is new is named in the tree, or inside of one that was complete. -/
theorem Complete.learn (h : r.Complete) (hl : r.Learns n.Names r') (hn : r'.Covers n) :
    r'.Complete := by
  intro name expr hb name' expr' hname
  rcases hl.origin hb with hold | ⟨tree, rfl | ⟨other, hother⟩, htree⟩
  · exact (h hold).grow hl.toGrows name' expr' hname
  · exact hn name' expr' (hname.within htree.expr_within)
  · exact (h hother).grow hl.toGrows name' expr' (hname.within htree.expr_within)

end Registry

/-! ## Values -/

/-- What a success does with the names of some trees: it binds them all, in a registry that is
complete nothing is left open, and one that knows them already stays as it is. -/
structure Settles (trees : List Node) (d d' : Draft) : Prop where
  grows : d.registry.Grows d'.registry
  covers : ∀ n ∈ trees, d'.registry.Covers n
  complete : d.registry.Complete → d'.registry.Complete
  still : d.registry.Complete → (∀ n ∈ trees, d.registry.Covers n) →
    d.registry.SameNames d'.registry

namespace Settles

variable {trees trees' : List Node} {d d' d'' : Draft}

theorem refl (d : Draft) : Settles [] d d :=
  ⟨.refl _, fun _ hn => (by cases hn), id, fun _ _ => .refl _⟩

theorem trans (h : Settles trees d d') (h' : Settles trees' d' d'') :
    Settles (trees ++ trees') d d'' := by
  refine ⟨h.grows.trans h'.grows, ?_, fun hd => h'.complete (h.complete hd), ?_⟩
  · intro n hn
    rcases List.mem_append.1 hn with hn | hn
    · exact (h.covers n hn).grow h'.grows
    · exact h'.covers n hn
  · intro hd hn
    rw [List.forall_mem_append] at hn
    have hfirst := h.still hd hn.1
    exact hfirst.trans (h'.still (hfirst.complete hd) fun n hmem => hfirst.covers (hn.2 n hmem))

/-- Steps that are written have nothing to do with names. -/
theorem steps_left (h : Settles trees d d') {steps : List Step} :
    Settles trees ⟨d.registry, steps⟩ d' :=
  ⟨h.grows, h.covers, h.complete, h.still⟩

theorem steps_right (h : Settles trees d d') {steps : List Step} :
    Settles trees d ⟨d'.registry, steps⟩ :=
  ⟨h.grows, h.covers, h.complete, h.still⟩

theorem appendAll {steps : List Step} {u : Unit} (h : Emit.appendAll steps d = (.ok u, d')) :
    Settles [] d d' := by
  cases Emit.appendAll_ok h
  exact (refl d).steps_right

theorem append {s : Step} {u : Unit} (h : Emit.append s d = (.ok u, d')) : Settles [] d d' :=
  appendAll h

/-- A literal gives no names. -/
theorem literal (l : Literal) (d : Draft) : Settles [.literal l] d d := by
  refine ⟨.refl _, ?_, id, fun _ _ => .refl _⟩
  intro n hn
  rw [List.mem_singleton.1 hn]
  exact Registry.covers_literal _ l

/-- A call that gives no name itself is settled with its operands. -/
theorem call {op : Operator} {operands : List Node} (h : Settles operands d d')
    (hop : op.role? ≠ some .naming) : Settles [.call op operands] d d' := by
  refine ⟨h.grows, ?_, h.complete, fun hd hn => h.still hd fun n hmem => ?_⟩
  · intro n hn
    rw [List.mem_singleton.1 hn]
    exact Registry.covers_call hop h.covers
  · exact (hn _ (List.mem_singleton_self _)).operand hmem

end Settles

/-- What is done at an alias leaves a complete registry as it is that covers its expression. -/
def Expansion.Still (expand : Expansion) : Prop :=
  ∀ {scope : Scope} {name : String} {expr : Node} {d d' : Draft},
    expand scope name expr d = (.ok (), d') → d.registry.Complete → d.registry.Covers expr →
      d.registry.SameNames d'.registry

section

variable {table : TableId} {expand : Expansion} {scope : Scope} {d d' : Draft}

theorem openAggregate_sameNames {call : Node} {u : Unit}
    (h : openAggregate scope call d = (.ok u, d')) : d.registry.SameNames d'.registry := by
  unfold openAggregate at h
  split at h
  · obtain ⟨_, d₁, h₁, hlast⟩ := Emit.bind_ok h
    cases Emit.markAggregate_ok h₁
    cases Emit.append_ok hlast
    exact .markAggregate _
  · exact absurd h Emit.not_fail

theorem emitIdentifier_still (hexp : expand.Still) {id : Identifier}
    (h : emitIdentifier table expand scope id d = (.ok (), d')) (hd : d.registry.Complete) :
    d.registry.SameNames d'.registry := by
  unfold emitIdentifier at h
  split at h
  · exact absurd h Emit.not_fail
  · obtain ⟨res, d₁, h₁, hrest⟩ := Emit.bind_ok h
    obtain ⟨hres, rfl⟩ := Emit.ask_ok h₁
    cases res with
    | physical c =>
      cases emitColumn_ok hrest
      exact .refl _
    | named expr =>
      have ha : d₁.registry.HasAlias table id.simpleName expr := resolveIdentifier_ok hres
      exact hexp hrest hd (hd ha.2)

/-- Nothing in a tree is passed over: all names in it are bound in the end, and a registry that has
them all stays as it is. -/
theorem emitNode_covers (hsound : expand.Sound table) (hexp : expand.Still) {n : Node}
    (h : emitNode table expand scope n d = (.ok (), d')) :
    d'.registry.Covers n ∧
      (d.registry.Complete → d.registry.Covers n → d.registry.SameNames d'.registry) := by
  induction scope, n using emitNode.induct generalizing d d' with
  | case1 scope id hempty =>
    simp only [emitNode, hempty, ↓reduceIte] at h
    exact absurd h Emit.not_fail
  | case2 scope id hempty =>
    simp only [emitNode, hempty, Bool.false_eq_true, ↓reduceIte] at h
    exact ⟨Registry.covers_identifier _ id, fun hd _ => emitIdentifier_still hexp h hd⟩
  | case3 scope l =>
    simp only [emitNode] at h
    cases Emit.append_ok h
    exact ⟨Registry.covers_literal _ l, fun _ _ => .refl _⟩
  | case4 scope op inner name hop ih =>
    simp only [emitNode, hop] at h
    obtain ⟨_, d₁, h₁, hrest⟩ := Emit.bind_ok h
    obtain ⟨r, hr, rfl⟩ := Emit.bindAlias_ok h₁
    obtain ⟨hbound, hagain⟩ := Registry.bindAlias_isSome hr
    obtain ⟨hinner, hstill⟩ := ih hrest
    obtain ⟨m, hm⟩ := emitNode_emission hsound hrest
    refine ⟨?_, fun hd hn => ?_⟩
    · intro name' expr' hname
      rcases hname.of_call with ⟨-, heq⟩ | ⟨n, hn, hwithin⟩
      · cases heq
        obtain ⟨bound, hb⟩ := Option.isSome_iff_exists.1 hbound
        rw [hm.learns.binding hb]
        rfl
      · simp only [List.mem_cons, List.not_mem_nil, or_false] at hn
        rcases hn with rfl | rfl
        · exact hinner name' expr' hwithin
        · exact Registry.covers_identifier _ _ name' expr' hwithin
    -- The name is bound, so it meets its own expression, and then the same holds inside.
    · have hsame : r = d.registry := hagain (hn name inner ⟨op, hop, .refl _⟩)
      rw [hsame] at hstill
      exact hstill hd (hn.operand (by simp))
  | case5 scope op operand hop ih =>
    simp only [emitNode, hop] at h
    obtain ⟨hcovers, hstill⟩ := ih h
    refine ⟨Registry.covers_call (by simp [hop]) (by simpa using hcovers), fun hd hn => ?_⟩
    exact hstill hd (hn.operand (by simp))
  | case7 scope op hop =>
    simp only [emitNode, hop] at h
    obtain ⟨_, d₁, h₁, hlast⟩ := Emit.bind_ok h
    have hopen := openAggregate_sameNames h₁
    cases Emit.append_ok hlast
    exact ⟨Registry.covers_call (by simp [hop]) (by simp), fun _ _ => hopen⟩
  | case8 scope op f operand hop ih =>
    rw [emitNode.eq_def] at h
    simp only [hop] at h
    obtain ⟨_, d₁, h₁, hrest⟩ := Emit.bind_ok h
    have hopen := openAggregate_sameNames h₁
    cases hstar : operand.isStar with
    | false =>
      simp only [hstar, Bool.not_false, ↓reduceIte] at hrest
      obtain ⟨_, d₂, h₂, hlast⟩ := Emit.bind_ok hrest
      cases Emit.append_ok hlast
      obtain ⟨hcovers, hstill⟩ := ih h₂
      refine ⟨Registry.covers_call (by simp [hop]) (by simpa using hcovers), fun hd hn => ?_⟩
      exact hopen.trans (hstill (hopen.complete hd) (hopen.covers (hn.operand (by simp))))
    | true =>
      simp only [hstar, Bool.not_true, Bool.false_eq_true, ↓reduceIte] at hrest
      cases Emit.append_ok hrest
      obtain ⟨id, rfl, -⟩ := Node.eq_identifier_of_isStar hstar
      refine ⟨Registry.covers_call (by simp [hop]) ?_, fun _ _ => hopen⟩
      simpa using Registry.covers_identifier d₁.registry id
  | case6 _ _ _ _ _ hop | case9 _ _ _ _ _ hop | case10 _ _ _ hop =>
    rw [emitNode.eq_def] at h
    simp only [hop] at h
    exact absurd h Emit.not_fail
  | case11 scope op operands =>
    rw [emitNode.eq_def] at h
    simp only at h
    exact absurd h Emit.not_fail

theorem emitNode_settles (hsound : expand.Sound table) (hexp : expand.Still) {n : Node}
    (h : emitNode table expand scope n d = (.ok (), d')) : Settles [n] d d' := by
  obtain ⟨hcovers, hstill⟩ := emitNode_covers hsound hexp h
  obtain ⟨m, hm⟩ := emitNode_emission hsound h
  refine ⟨hm.learns.toGrows, by simpa using hcovers, fun hd => hd.learn hm.learns hcovers, ?_⟩
  intro hd hn
  exact hstill hd (hn n (List.mem_singleton_self n))

theorem emitWithin_still :
    ∀ {hops : Nat} {expanding : List String} {scope : Scope} {n : Node} {d d' : Draft},
      emitWithin table hops expanding scope n d = (.ok (), d') → d.registry.Complete →
        d.registry.Covers n → d.registry.SameNames d'.registry := by
  intro hops
  induction hops with
  | zero =>
    intro expanding scope n d d' h
    refine (emitNode_covers ?_ ?_ h).2
    · exact fun hfail => absurd hfail Emit.not_fail
    · exact fun hfail => absurd hfail Emit.not_fail
  | succ hops ih =>
    intro expanding scope n d d' h
    refine (emitNode_covers ?_ ?_ h).2
    · intro scope name expr d d' hexp
      dsimp only at hexp
      split at hexp
      · exact absurd hexp Emit.not_fail
      · exact emitWithin_emission hexp
    · intro scope name expr d d' hexp
      dsimp only at hexp
      split at hexp
      · exact absurd hexp Emit.not_fail
      · exact ih hexp

theorem expandAlias_still (table : TableId) : (expandAlias table).Still :=
  fun h => emitWithin_still h

theorem emitValue_settles {n : Node} (h : emitValue table scope n d = (.ok (), d')) :
    Settles [n] d d' :=
  emitNode_settles (expandAlias_sound table) (expandAlias_still table) h

theorem emitValue_branch_settles {n : Node} {t : Traversal}
    (h : Emit.branch (emitValue table scope n) d = (.ok t, d')) : Settles [n] d d' := by
  obtain ⟨inner, hinner, -, rfl⟩ := Emit.branch_ok h
  exact (emitValue_settles hinner).steps_left.steps_right

/-! ## Conditions -/

theorem emitIdentifier_settles (hsound : expand.Sound table) (hexp : expand.Still)
    {id : Identifier} (h : emitIdentifier table expand scope id d = (.ok (), d')) :
    Settles [.identifier id] d d' := by
  obtain ⟨m, hm⟩ := emitIdentifier_emission hsound h
  have hcovers : d'.registry.Covers (.identifier id) := Registry.covers_identifier _ id
  refine ⟨hm.learns.toGrows, by simpa using hcovers, fun hd => hd.learn hm.learns hcovers, ?_⟩
  intro hd _
  exact emitIdentifier_still hexp h hd

theorem emitBoolean_settles (hsound : expand.Sound table) (hexp : expand.Still) {id : Identifier}
    {b : Bool} (h : emitBoolean table expand scope id b d = (.ok (), d')) :
    Settles [.identifier id] d d' := by
  obtain ⟨_, d₁, h₁, hrest⟩ := Emit.bind_ok h
  obtain ⟨-, rfl⟩ := Emit.ask_ok h₁
  obtain ⟨_, d₂, h₂, hlast⟩ := Emit.bind_ok hrest
  exact (emitIdentifier_settles hsound hexp h₂).trans (.append hlast)

theorem emitComparison_settles (hsound : expand.Sound table) (hexp : expand.Still) {c : Compare}
    {left right : Node} (h : emitComparison table expand scope c left right d = (.ok (), d')) :
    Settles [left, right] d d' := by
  unfold emitComparison at h
  split at h
  · exact absurd h Emit.not_fail
  · obtain ⟨_, d₁, h₁, hlast⟩ := Emit.bind_ok h
    have hleft := (emitNode_settles hsound hexp h₁).trans (.append hlast)
    exact hleft.trans (.literal _ d')
  · obtain ⟨_, d₁, h₁, hlast⟩ := Emit.bind_ok h
    have hright := (emitNode_settles hsound hexp h₁).trans (.append hlast)
    exact (Settles.literal _ d).trans hright
  · exact absurd h Emit.not_fail

/-- Two conditions that become the branches of one step. -/
theorem emitBranches_settles {left right : Node} {join : List Traversal → Step}
    (hleft : ∀ {d d' : Draft}, emitCondition table expand scope left d = (.ok (), d') →
      Settles [left] d d')
    (hright : ∀ {d d' : Draft}, emitCondition table expand scope right d = (.ok (), d') →
      Settles [right] d d')
    (h : (do
      let a ← Emit.branch (emitCondition table expand scope left)
      let b ← Emit.branch (emitCondition table expand scope right)
      Emit.append (join [a, b]) : Emit Unit) d = (.ok (), d')) :
    Settles [left, right] d d' := by
  obtain ⟨_, d₁, h₁, hrest⟩ := Emit.bind_ok h
  obtain ⟨inner₁, hinner₁, rfl, rfl⟩ := Emit.branch_ok h₁
  obtain ⟨_, d₂, h₂, hlast⟩ := Emit.bind_ok hrest
  obtain ⟨inner₂, hinner₂, rfl, rfl⟩ := Emit.branch_ok h₂
  have hfirst : Settles [left] d ⟨inner₁.registry, d.steps⟩ :=
    (hleft hinner₁).steps_left.steps_right
  have hsecond : Settles [right] ⟨inner₁.registry, d.steps⟩ ⟨inner₂.registry, d.steps⟩ :=
    (hright hinner₂).steps_left.steps_right
  exact (hfirst.trans hsecond).trans (.append hlast)

theorem emitCondition_settles (hsound : expand.Sound table) (hexp : expand.Still) {n : Node}
    (h : emitCondition table expand scope n d = (.ok (), d')) : Settles [n] d d' := by
  induction n using emitCondition.induct generalizing d d' with
  | case1 id hempty =>
    simp only [emitCondition, hempty, ↓reduceIte] at h
    exact absurd h Emit.not_fail
  | case2 id hempty =>
    simp only [emitCondition, hempty, Bool.false_eq_true, ↓reduceIte] at h
    exact emitBoolean_settles hsound hexp h
  | case3 l =>
    simp only [emitCondition] at h
    exact absurd h Emit.not_fail
  | case4 op c left right hop =>
    rw [emitCondition.eq_def] at h
    simp only [hop] at h
    exact (emitComparison_settles hsound hexp h).call (by simp [hop])
  | case5 op left right hop ihl ihr | case6 op left right hop ihl ihr =>
    rw [emitCondition.eq_def] at h
    simp only [hop] at h
    exact (emitBranches_settles ihl ihr h).call (by simp [hop])
  | case7 op id hop =>
    rw [emitCondition.eq_def] at h
    simp only [hop] at h
    exact (emitBoolean_settles hsound hexp h).call (by simp [hop])
  | case8 _ _ _ hop | case9 _ _ _ hop | case10 _ _ _ hop | case11 _ hop | case12 _ _ _ hop =>
    rw [emitCondition.eq_def] at h
    simp only [hop] at h
    exact absurd h Emit.not_fail
  | case13 op operands =>
    rw [emitCondition.eq_def] at h
    simp only at h
    exact absurd h Emit.not_fail

theorem emitFilter_settles {n : Node} (h : emitFilter table scope n d = (.ok (), d')) :
    Settles [n] d d' :=
  emitCondition_settles (expandAlias_sound table) (expandAlias_still table) h

end

end GraphSelect
