import GraphSelect.Proofs.Expr.Context

/-!
# Aliases followed to their end

Aliases may be bound in a circle, to themselves or to each other, with names, sort marks and
aggregates in between. A `Chain` follows a name: a name that is no column of the table leads to the
expression that it is bound to, and from there the chain goes on beneath what stands around a name.
At each node there is at most one way to go. So a chain that comes to an end is the only one, all
others are parts of it, and it meets no alias twice.

Three computations follow names, each with a bound of its own: emission has the list of the aliases
that are being expanded, the type of an expression is looked for up to a depth, and the column
behind a name through a number of names. Whatever the bound, a success has followed a chain to its
end, but for the type of a count or an average, which does not depend on what stands beneath. Hence
none of them succeeds on a circle.
-/

set_option autoImplicit false

namespace GraphSelect

open Sql

/-! ## Chains -/

/-- What the value of a node is taken from: the expression that it names, marks or aggregates. Of a
star there is nothing to follow. -/
def Sql.Node.beneath? (n : Node) : Option Node :=
  match n.view with
  | .ok (.naming inner _) => some inner
  | .ok (.mark _ operand) => some operand
  | .ok (.aggregate _ (some operand)) => if operand.isStar then none else some operand
  | _ => none

/-- A count or an average, whose type is known without its operand. -/
def Sql.Node.FixesType (n : Node) : Prop :=
  ∃ (op : Operator) (f : Aggregate) (operand : Node), n = .call op [operand] ∧
    op.role? = some (.aggregate f) ∧ (f = .count ∨ f = .avg)

/-- A way from one node to another, with the aliases that are met on it, in order. Columns come
before aliases. -/
inductive Chain (r : Registry) (table : TableId) : Node → List String → Node → Prop where
  | here (n : Node) : Chain r table n [] n
  | beneath {n inner last : Node} {met : List String} :
      n.beneath? = some inner → Chain r table inner met last → Chain r table n met last
  | named {id : Identifier} {expr last : Node} {met : List String} :
      r.HasAlias table id.simpleName expr → Chain r table expr met last →
      Chain r table (.identifier id) (id.simpleName :: met) last

/-- Where a chain ends: at a column, a literal, or an aggregate of all elements, which has no
operand or a star. -/
inductive Ends (r : Registry) (table : TableId) : Node → Prop where
  | column {id : Identifier} {c : TableColumn} :
      r.HasColumn table id.simpleName c → Ends r table (.identifier id)
  | literal (l : Literal) : Ends r table (.literal l)
  | countAll {op : Operator} : op.role? = some (.aggregate .count) → Ends r table (.call op [])
  | star {op : Operator} {f : Aggregate} {id : Identifier} :
      op.role? = some (.aggregate f) → id.isStar = true → Ends r table (.call op [.identifier id])

/-- Following a node comes to an alias that it has met before. -/
def Circles (r : Registry) (table : TableId) (n : Node) : Prop :=
  ∃ met last, Chain r table n met last ∧ ¬ met.Nodup

section

variable {op : Operator}

theorem Sql.Node.beneath?_identifier (id : Identifier) : (Node.identifier id).beneath? = none := by
  simp only [beneath?, view]
  cases id.names.isEmpty <;> rfl

theorem Sql.Node.beneath?_naming (hop : op.role? = some .naming) (inner : Node) (name : String) :
    (Node.call op [inner, .identifier ⟨[name]⟩]).beneath? = some inner := by
  simp only [beneath?, view, hop]

theorem Sql.Node.beneath?_mark {m : SortMark} (hop : op.role? = some (.mark m)) (operand : Node) :
    (Node.call op [operand]).beneath? = some operand := by
  simp only [beneath?, view, hop]

theorem Sql.Node.beneath?_aggregate {f : Aggregate} (hop : op.role? = some (.aggregate f))
    (operand : Node) :
    (Node.call op [operand]).beneath? = if operand.isStar then none else some operand := by
  simp only [beneath?, view, hop]

end

section

variable {r r' : Registry} {table : TableId} {n last last' : Node} {met met' : List String}

theorem Ends.beneath?_eq_none (h : Ends r table n) : n.beneath? = none := by
  cases h with
  | column _ => exact Node.beneath?_identifier _
  | literal l => rfl
  | countAll hop => simp only [Node.beneath?, Node.view, hop]
  | @star op f id hop hstar =>
    have hoperand : (Node.identifier id).isStar = true := hstar
    rw [Node.beneath?_aggregate hop, if_pos hoperand]

theorem Ends.not_hasAlias {id : Identifier} {expr : Node} (h : Ends r table (.identifier id)) :
    ¬ r.HasAlias table id.simpleName expr := by
  intro ha
  cases h with
  | column hc => exact ha.not_column hc

/-- Every chain is the beginning of the one that comes to an end. -/
theorem Chain.completes (h' : Chain r table n met' last') (h : Chain r table n met last)
    (hend : Ends r table last) : ∃ rest, met = met' ++ rest ∧ Chain r table last' rest last := by
  induction h' generalizing met with
  | here n => exact ⟨met, rfl, h⟩
  | @beneath n inner _ _ hinner _ ih =>
    cases h with
    | here => cases hend.beneath?_eq_none.symm.trans hinner
    | beneath hinner' hrest =>
      cases hinner.symm.trans hinner'
      exact ih hrest
    | named _ _ => cases (Node.beneath?_identifier _).symm.trans hinner
  | named ha _ ih =>
    cases h with
    | here => exact absurd ha hend.not_hasAlias
    | beneath hinner' _ => cases (Node.beneath?_identifier _).symm.trans hinner'
    | named ha' hrest =>
      cases ha.unique ha'
      obtain ⟨rest, rfl, hlast⟩ := ih hrest
      exact ⟨rest, rfl, hlast⟩

/-- An alias that is met is left for its expression, and the chain goes on from there. -/
theorem Chain.split_of_mem {name : String} (h : Chain r table n met last) (hname : name ∈ met) :
    ∃ before after expr, met = before ++ name :: after ∧ r.HasAlias table name expr ∧
      Chain r table expr after last := by
  induction h with
  | here => cases hname
  | beneath _ _ ih => exact ih hname
  | @named id expr _ met ha hrest ih =>
    rcases List.mem_cons.1 hname with rfl | hin
    · exact ⟨[], met, expr, rfl, ha, hrest⟩
    · obtain ⟨before, after, expr', rfl, hrest'⟩ := ih hin
      exact ⟨_ :: before, after, expr', rfl, hrest'⟩

/-- **A chain that comes to an end meets no alias twice.** If one came again, the way from its
expression to the end would contain itself. -/
theorem Chain.nodup (h : Chain r table n met last) (hend : Ends r table last) : met.Nodup := by
  induction h with
  | here => exact List.nodup_nil
  | beneath _ _ ih => exact ih hend
  | @named id expr _ met ha hrest ih =>
    refine List.nodup_cons.2 ⟨?_, ih hend⟩
    intro hagain
    obtain ⟨before, after, expr', hmet, ha', hrest'⟩ := hrest.split_of_mem hagain
    cases ha.unique ha'
    obtain ⟨rest, hafter, -⟩ := hrest.completes hrest' hend
    have hlength := congrArg List.length hmet
    rw [List.length_append, List.length_cons] at hlength
    have hlength' := congrArg List.length hafter
    rw [List.length_append] at hlength'
    omega

theorem Chain.grow (h : Chain r table n met last) (hg : r.Grows r') :
    Chain r' table n met last := by
  induction h with
  | here n => exact .here n
  | beneath hinner _ ih => exact .beneath hinner ih
  | named ha _ ih => exact .named (hg.hasAlias ha) ih

theorem Circles.grow (h : Circles r table n) (hg : r.Grows r') : Circles r' table n := by
  obtain ⟨met, last, hchain, hagain⟩ := h
  exact ⟨met, last, hchain.grow hg, hagain⟩

end

/-! ## What a node leads to -/

/-- Following a node leads to another one of some kind, through a limited number of aliases. -/
def LeadsTo (r : Registry) (table : TableId) (limit : Nat) (n : Node) (P : Node → Prop) : Prop :=
  ∃ met last, Chain r table n met last ∧ P last ∧ met.length ≤ limit

namespace LeadsTo

variable {r : Registry} {table : TableId} {limit : Nat} {n : Node} {P : Node → Prop}

theorem here (h : P n) : LeadsTo r table limit n P :=
  ⟨[], n, .here n, h, Nat.zero_le _⟩

theorem beneath {inner : Node} (hinner : n.beneath? = some inner)
    (h : LeadsTo r table limit inner P) : LeadsTo r table limit n P := by
  obtain ⟨met, last, hchain, hlast, hlimit⟩ := h
  exact ⟨met, last, .beneath hinner hchain, hlast, hlimit⟩

theorem named {id : Identifier} {expr : Node} (ha : r.HasAlias table id.simpleName expr)
    (h : LeadsTo r table limit expr P) : LeadsTo r table (limit + 1) (.identifier id) P := by
  obtain ⟨met, last, hchain, hlast, hlimit⟩ := h
  exact ⟨_ :: met, last, .named ha hchain, hlast, Nat.succ_le_succ hlimit⟩

theorem mono {limit' : Nat} (h : LeadsTo r table limit n P) (hle : limit ≤ limit') :
    LeadsTo r table limit' n P := by
  obtain ⟨met, last, hchain, hlast, hlimit⟩ := h
  exact ⟨met, last, hchain, hlast, Nat.le_trans hlimit hle⟩

/-- What comes to an end does not go in a circle. -/
theorem not_circles (h : LeadsTo r table limit n (Ends r table)) : ¬ Circles r table n := by
  rintro ⟨met', last', hchain', hagain⟩
  obtain ⟨met, last, hchain, hend, -⟩ := h
  obtain ⟨rest, rfl, -⟩ := hchain'.completes hchain hend
  exact hagain (List.nodup_append.1 (hchain.nodup hend)).1

end LeadsTo

/-! ## Emission -/

section

variable {table : TableId} {expand : Expansion} {scope : Scope} {d d' : Draft} {room : Nat}

/-- A treatment of aliases that keeps to the frame of emission, and follows expressions to an end
through fewer aliases than there is room for. -/
structure Expansion.Follows (table : TableId) (room : Nat) (expand : Expansion) : Prop where
  frames : ∀ (scope : Scope) (name : String) (expr : Node), (expand scope name expr).Frames
  ends : ∀ {scope : Scope} {name : String} {expr : Node} {d d' : Draft},
    expand scope name expr d = (.ok (), d') →
      ∃ limit < room, LeadsTo d'.registry table limit expr (Ends d'.registry table)

theorem emitIdentifier_ends (hexp : expand.Follows table room) {id : Identifier}
    (h : emitIdentifier table expand scope id d = (.ok (), d')) :
    LeadsTo d'.registry table room (.identifier id) (Ends d'.registry table) := by
  have hgrows : d.registry.Grows d'.registry :=
    ((Emit.Frames.inherited.emitIdentifier hexp.frames id).extends h).toGrows
  obtain ⟨-, -, ⟨c, hc⟩ | ⟨expr, ha, hrest⟩⟩ := emitIdentifier_cases h
  · exact .here (.column (hgrows.hasColumn hc))
  · obtain ⟨limit, hlimit, hends⟩ := hexp.ends hrest
    exact (LeadsTo.named (hgrows.hasAlias ha) hends).mono hlimit

theorem emitNode_ends (hexp : expand.Follows table room) {n : Node}
    (h : emitNode table expand scope n d = (.ok (), d')) :
    LeadsTo d'.registry table room n (Ends d'.registry table) := by
  induction scope, n using emitNode.induct generalizing d d' with
  | case1 scope id hempty =>
    simp only [emitNode, hempty, ↓reduceIte] at h
    exact absurd h Emit.not_fail
  | case2 scope id hempty =>
    simp only [emitNode, hempty, Bool.false_eq_true, ↓reduceIte] at h
    exact emitIdentifier_ends hexp h
  | case3 scope l => exact .here (.literal l)
  | case4 scope op inner name hop ih =>
    simp only [emitNode, hop] at h
    obtain ⟨_, d₁, -, hrest⟩ := Emit.bind_ok h
    exact .beneath (Node.beneath?_naming hop inner name) (ih hrest)
  | case5 scope op operand hop ih =>
    simp only [emitNode, hop] at h
    exact .beneath (Node.beneath?_mark hop operand) (ih h)
  | case7 scope op hop => exact .here (.countAll hop)
  | case8 scope op f operand hop ih =>
    rw [emitNode.eq_def] at h
    simp only [hop] at h
    obtain ⟨_, d₁, -, hrest⟩ := Emit.bind_ok h
    have hbeneath := Node.beneath?_aggregate hop operand
    cases hstar : operand.isStar with
    | false =>
      simp only [hstar, Bool.not_false, ↓reduceIte] at hrest
      obtain ⟨_, d₂, h₂, hlast⟩ := Emit.bind_ok hrest
      cases Emit.append_ok hlast
      rw [hstar, if_neg Bool.false_ne_true] at hbeneath
      have hends := ih h₂
      exact .beneath hbeneath hends
    | true =>
      obtain ⟨id, rfl, hid⟩ := Node.eq_identifier_of_isStar hstar
      exact .here (.star hop hid)
  | case6 _ _ _ _ _ hop | case9 _ _ _ _ _ hop | case10 _ _ _ hop =>
    rw [emitNode.eq_def] at h
    simp only [hop] at h
    exact absurd h Emit.not_fail
  | case11 scope op operands =>
    rw [emitNode.eq_def] at h
    simp only at h
    exact absurd h Emit.not_fail

theorem emitWithin_ends :
    ∀ {hops : Nat} {expanding : List String} {scope : Scope} {n : Node} {d d' : Draft},
      emitWithin table hops expanding scope n d = (.ok (), d') →
        LeadsTo d'.registry table hops n (Ends d'.registry table) := by
  intro hops
  induction hops with
  | zero =>
    intro expanding scope n d d' h
    refine emitNode_ends ⟨fun _ _ _ => Emit.Frames.inherited.fail _, fun hfail => ?_⟩ h
    exact absurd hfail Emit.not_fail
  | succ hops ih =>
    intro expanding scope n d d' h
    refine emitNode_ends ⟨fun scope name expr => ?_, fun hexp => ?_⟩ h
    · split
      · exact Emit.Frames.inherited.fail _
      · exact Emit.Frames.inherited.emitWithin _ _ _ _
    · split at hexp
      · exact absurd hexp Emit.not_fail
      · exact ⟨hops, Nat.lt_succ_self hops, ih hexp⟩

theorem emitValue_frames (table : TableId) (scope : Scope) (n : Node) :
    (emitValue table scope n).Frames :=
  Emit.Frames.inherited.emitNode (fun _ _ _ => Emit.Frames.inherited.emitWithin _ _ _ _) n

/-- What is emitted has been followed to its end, through as many aliases as may be expanded. -/
theorem emitValue_ends {n : Node} (h : emitValue table scope n d = (.ok (), d')) :
    LeadsTo d'.registry table maxAliasDepth n (Ends d'.registry table) :=
  emitNode_ends ⟨fun _ _ _ => Emit.Frames.inherited.emitWithin _ _ _ _,
    fun hexp => ⟨maxAliasDepth - 1, by decide, emitWithin_ends hexp⟩⟩ h

end

/-! ## Types and columns -/

section

variable {r : Registry} {table : TableId}

/-- A type is found at the end of a chain, or at a count or an average on the way. -/
theorem typeWithin_leads : ∀ {depth : Nat} {n : Node} {type : ColumnType},
    typeWithin r table depth n = .ok type →
      LeadsTo r table depth n fun last => Ends r table last ∨ last.FixesType := by
  intro depth
  induction depth with
  | zero =>
    intro n type h
    obtain ⟨_, _, h⟩ := ok_of_bind h
    cases h
  | succ depth ih =>
    intro n type h
    obtain ⟨view, hview, h⟩ := ok_of_bind h
    cases view_cases hview with
    | identifier id =>
      obtain ⟨res, hres, h⟩ := ok_of_bind h
      cases res with
      | physical c => exact .here (.inl (.column (c := c) (resolveIdentifier_ok hres)))
      | named expr => exact .named (resolveIdentifier_ok hres) (ih h)
    | literal l => exact .here (.inl (.literal l))
    | naming inner name hop =>
      exact .beneath (Node.beneath?_naming hop inner name) ((ih h).mono (Nat.le_succ depth))
    | mark operand hop =>
      exact .beneath (Node.beneath?_mark hop operand) ((ih h).mono (Nat.le_succ depth))
    | binary => cases h
    | negation => cases h
    | countAll hop => exact .here (.inl (.countAll hop))
    | @aggregate op f operand hop =>
      have hbeneath := Node.beneath?_aggregate hop operand
      cases hstar : operand.isStar with
      | true =>
        obtain ⟨id, rfl, hid⟩ := Node.eq_identifier_of_isStar hstar
        exact .here (.inl (.star hop hid))
      | false =>
        rw [hstar, if_neg Bool.false_ne_true] at hbeneath
        cases f with
        | count => exact .here (.inr ⟨op, _, operand, rfl, hop, .inl rfl⟩)
        | avg => exact .here (.inr ⟨op, _, operand, rfl, hop, .inr rfl⟩)
        | sum | min | max => exact .beneath hbeneath ((ih h).mono (Nat.le_succ depth))

theorem sourceWithin_ends : ∀ {hops : Nat} {id : Identifier} {source : ColumnSource},
    sourceWithin r table hops id = .ok (some source) →
      LeadsTo r table hops (.identifier id) (Ends r table) := by
  intro hops
  induction hops with
  | zero =>
    intro id source h
    cases h
  | succ hops ih =>
    intro id source h
    obtain ⟨res, hres, h⟩ := ok_of_bind h
    cases res with
    | physical c => exact .here (.column (c := c) (resolveIdentifier_ok hres))
    | named expr =>
      refine .named (resolveIdentifier_ok hres) ?_
      obtain ⟨inner, hinner, hnext⟩ := ok_of_bind h
      cases inner with
      | literal l => cases hnext
      | call op operands => cases hnext
      | identifier next =>
        rcases unaliased_cases hinner with rfl | ⟨op, name, hop, rfl⟩
        · exact ih hnext
        · exact .beneath (Node.beneath?_naming hop _ name) (ih hnext)

end

/-! ## Circles -/

/-- **No name that goes in a circle is given a meaning.** For any aliases, a name in either scope:

* emission needs no bound but the list of the aliases being expanded: one emission alone unfolds
  under that list, and where nothing is being expanded yet it is the one that queries are compiled
  by;
* if the name is emitted, it has been followed to an end through at most sixteen aliases, none of
  them twice, in the registry as emission leaves it, and any other way from the name is a part of
  that one;
* a name that goes in a circle, before emission or after it, is not emitted, no column is behind it,
  and it has a type only if there is a count or an average on the way. -/
theorem circle_refused (d : Draft) (table : TableId) (scope : Scope) (id : Identifier) :
    (∃ emit : Node → Drafting Unit, (∀ emit', Drafting.Unfolds emit' ↔ emit' = emit) ∧
      emit (.identifier id) ⟨⟨table, scope, []⟩, d⟩ =
        ((emitValue table scope (.identifier id) d).1,
          ⟨⟨table, scope, []⟩, (emitValue table scope (.identifier id) d).2⟩)) ∧
    (∀ d', emitValue table scope (.identifier id) d = (.ok (), d') →
      ∃ met last, Chain d'.registry table (.identifier id) met last ∧
        Ends d'.registry table last ∧ met.Nodup ∧ met.length ≤ 16 ∧
        ∀ met' last', Chain d'.registry table (.identifier id) met' last' → met' <+: met) ∧
    (Circles (emitValue table scope (.identifier id) d).2.registry table (.identifier id) →
      ∃ e, (emitValue table scope (.identifier id) d).1 = .error e) ∧
    (Circles d.registry table (.identifier id) →
      (∃ e, (emitValue table scope (.identifier id) d).1 = .error e) ∧
      ((∃ e, physicalSource d.registry table id = .error e) ∨
        physicalSource d.registry table id = .ok none) ∧
      ((∃ e, columnType d.registry table (.identifier id) = .error e) ∨
        ∃ met call, Chain d.registry table (.identifier id) met call ∧ call.FixesType)) := by
  have hafter : Circles (emitValue table scope (.identifier id) d).2.registry table
      (.identifier id) → ∃ e, (emitValue table scope (.identifier id) d).1 = .error e := by
    intro hcircles
    cases hanswer : (emitValue table scope (.identifier id) d).1 with
    | error e => exact ⟨e, rfl⟩
    | ok _ => exact absurd hcircles (emitValue_ends (Prod.ext hanswer rfl)).not_circles
  refine ⟨⟨Drafting.emit, fun _ => Drafting.unfolds_iff, ?_⟩, ?_, hafter, ?_⟩
  · exact Drafting.emit_unfolds.does ⟨table, scope, []⟩ (.identifier id) d
  · intro d' hemitted
    obtain ⟨met, last, hchain, hend, hlimit⟩ := emitValue_ends hemitted
    refine ⟨met, last, hchain, hend, hchain.nodup hend, hlimit, fun met' last' hchain' => ?_⟩
    obtain ⟨rest, hmet, -⟩ := hchain'.completes hchain hend
    exact ⟨rest, hmet.symm⟩
  · intro hcircles
    have hgrows : d.registry.Grows (emitValue table scope (.identifier id) d).2.registry :=
      (emitValue_frames table scope (.identifier id) d).toGrows
    refine ⟨hafter (hcircles.grow hgrows), ?_, ?_⟩
    · cases hsource : physicalSource d.registry table id with
      | error e => exact .inl ⟨e, rfl⟩
      | ok source =>
        cases source with
        | none => exact .inr rfl
        | some source => exact absurd hcircles (sourceWithin_ends hsource).not_circles
    · cases htype : columnType d.registry table (.identifier id) with
      | error e => exact .inl ⟨e, rfl⟩
      | ok type =>
        obtain ⟨met, last, hchain, hend | hfixes, hlimit⟩ := typeWithin_leads htype
        · exact absurd hcircles (LeadsTo.not_circles ⟨met, last, hchain, hend, hlimit⟩)
        · exact .inr ⟨met, last, hchain, hfixes⟩

def knottedTable : Table :=
  ⟨"person", .vertex, .string, [⟨"age", .integer⟩], none⟩

/-- The alias `a` stands for `b DESC`, `b` for `MAX(a) AS x`, `c` for `COUNT(c)` and `n` for the
column `age`. -/
def knotted : Draft :=
  ⟨{ (Registry.empty ⟨[knottedTable]⟩).withTable knottedTable "p" with
    aliases := [("a", .desc (.identifier ⟨["b"]⟩)),
      ("b", .as (.aggregate .max (.identifier ⟨["a"]⟩)) "x"),
      ("c", .aggregate .count (.identifier ⟨["c"]⟩)), ("n", .identifier ⟨["age"]⟩)] }, []⟩

theorem knotted_hasAlias {name : String} {expr : Node} (hcolumn : knottedTable.column? name = none)
    (hbound : knotted.registry.binding? name = some expr) :
    knotted.registry.HasAlias 0 name expr :=
  ⟨⟨knottedTable, rfl, hcolumn⟩, hbound⟩

theorem knotted_circles_a : Circles knotted.registry 0 (.identifier ⟨["a"]⟩) := by
  refine ⟨["a", "b", "a"], .desc (.identifier ⟨["b"]⟩), ?_, by decide⟩
  refine .named (knotted_hasAlias rfl rfl) (.beneath rfl ?_)
  refine .named (knotted_hasAlias rfl rfl) (.beneath rfl (.beneath rfl ?_))
  exact .named (knotted_hasAlias rfl rfl) (.here _)

theorem knotted_circles_c : Circles knotted.registry 0 (.identifier ⟨["c"]⟩) := by
  refine ⟨["c", "c"], .aggregate .count (.identifier ⟨["c"]⟩), ?_, by decide⟩
  refine .named (knotted_hasAlias rfl rfl) (.beneath rfl ?_)
  exact .named (knotted_hasAlias rfl rfl) (.here _)

/-- From `a` the way leads back to `a`, and it has no type. From `c` it leads back to `c`, and the
type is that of a count. The name `n` is emitted. -/
theorem circle_refused_knotted :
    Circles knotted.registry 0 (.identifier ⟨["a"]⟩) ∧
      (∃ e, (emitValue 0 .bucket (.identifier ⟨["a"]⟩) knotted).1 = .error e) ∧
      columnType knotted.registry 0 (.identifier ⟨["a"]⟩) = .error (.shape .deepAliasChain) ∧
      Circles knotted.registry 0 (.identifier ⟨["c"]⟩) ∧
      (∃ e, (emitValue 0 .bucket (.identifier ⟨["c"]⟩) knotted).1 = .error e) ∧
      columnType knotted.registry 0 (.identifier ⟨["c"]⟩) = .ok .integer ∧
      (emitValue 0 .element (.identifier ⟨["n"]⟩) knotted).1 = .ok () ∧
      ∃ met last, Chain (emitValue 0 .element (.identifier ⟨["n"]⟩) knotted).2.registry 0
        (.identifier ⟨["n"]⟩) met last ∧
        Ends (emitValue 0 .element (.identifier ⟨["n"]⟩) knotted).2.registry 0 last ∧
        met.Nodup := by
  obtain ⟨met, last, hchain, hend, hnodup, -⟩ :=
    (circle_refused knotted 0 .element ⟨["n"]⟩).2.1 _ rfl
  exact ⟨knotted_circles_a,
    ((circle_refused knotted 0 .bucket ⟨["a"]⟩).2.2.2 knotted_circles_a).1, rfl, knotted_circles_c,
    ((circle_refused knotted 0 .bucket ⟨["c"]⟩).2.2.2 knotted_circles_c).1, rfl, rfl,
    met, last, hchain, hend, hnodup⟩

end GraphSelect
