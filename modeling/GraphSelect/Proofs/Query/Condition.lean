import GraphSelect.Proofs.Expr.Emission
import GraphSelect.Query.Filter
import GraphSelect.Sql.Build
import Mathlib

/-!
# Filters keep what satisfies their condition

`Holds` is what the tree of a WHERE clause says about an element, read off the tree: a comparison
needs a value to compare, a name has to be true, a negated name has to be false, and the two logical
operators are those of logic. The steps that are emitted for the tree go another way. They have no
literal on the left, they test truth by comparison with a constant, and where there is no value they
find nothing.

Between the two stands the `Condition` that a tree states, with its names followed and its
comparisons turned so that the constant is on the right. Emission writes the steps of the condition,
and these find something on an element exactly where the condition is true.
-/

set_option autoImplicit false

namespace GraphSelect

open Sql

/-! ## What a tree says -/

/-- An expression has a value on an element. -/
def HasValue (r : Registry) (table : TableId) (x : Element) (n : Node) (v : Scalar) : Prop :=
  ∃ a, Means r table n (.atom a) ∧ a.value x = some v

/-- A comparison between an expression and a literal, on either side, holds on an element. -/
def ComparisonHolds (e : Engine) (r : Registry) (table : TableId) (x : Element) (c : Compare) :
    Node → Node → Prop
  | .literal l, right => ∃ v, HasValue r table x right v ∧ e.compare c (.ofLiteral l) v = true
  | left, .literal l => ∃ v, HasValue r table x left v ∧ e.compare c v (.ofLiteral l) = true
  | _, _ => False

/-- A condition holds on an element. -/
def Holds (e : Engine) (r : Registry) (table : TableId) (x : Element) : Node → Prop
  | .identifier id => HasValue r table x (.identifier id) (.boolean true)
  | .call op [operand] =>
    op.role? = some .negation ∧ HasValue r table x operand (.boolean false)
  | .call op [left, right] =>
    match op.role? with
    | some (.binary .and) => Holds e r table x left ∧ Holds e r table x right
    | some (.binary .or) => Holds e r table x left ∨ Holds e r table x right
    | some (.binary (.compare c)) => ComparisonHolds e r table x c left right
    | _ => False
  | _ => False

/-! ## Conditions -/

/-- A condition with its names followed. -/
inductive Condition where
  -- There is a value, and it compares so with a constant.
  | is (m : Meaning) (c : Compare) (constant : Scalar)
  | and (left right : Condition)
  | or (left right : Condition)

namespace Condition

/-- The steps that find something where the condition is true. -/
def steps (scope : Scope) : Condition → List Step
  | .is m c constant => m.fragment scope ++ [.is c constant]
  | .and left right => [.and [.anonymous (left.steps scope), .anonymous (right.steps scope)]]
  | .or left right => [.or [.anonymous (left.steps scope), .anonymous (right.steps scope)]]

def hasAggregate : Condition → Bool
  | .is m _ _ => m.isAggregate
  | .and left right => left.hasAggregate || right.hasAggregate
  | .or left right => left.hasAggregate || right.hasAggregate

/-- Whether a condition without aggregates is true of an element. -/
def isTrue (e : Engine) (x : Element) : Condition → Bool
  | .is (.atom a) c constant => (a.value x).any fun v => e.compare c v constant
  | .is (.aggregate _ _) _ _ => false
  | .and left right => left.isTrue e x && right.isTrue e x
  | .or left right => left.isTrue e x || right.isTrue e x

end Condition

/-- The condition that a tree states. -/
inductive States (r : Registry) (table : TableId) : Node → Condition → Prop where
  | column {id : Identifier} {m : Meaning} :
      Means r table (.identifier id) m →
      States r table (.identifier id) (.is m .eq (.boolean true))
  | negation {op : Operator} {id : Identifier} {m : Meaning} :
      op.role? = some .negation → Means r table (.identifier id) m →
      States r table (.call op [.identifier id]) (.is m .eq (.boolean false))
  | literalRight {op : Operator} {c : Compare} {left : Node} {l : Literal} {m : Meaning} :
      op.role? = some (.binary (.compare c)) → (∀ l', left ≠ .literal l') → Means r table left m →
      States r table (.call op [left, .literal l]) (.is m c (.ofLiteral l))
  | literalLeft {op : Operator} {c : Compare} {l : Literal} {right : Node} {m : Meaning} :
      op.role? = some (.binary (.compare c)) → Means r table right m →
      States r table (.call op [.literal l, right]) (.is m c.flipped (.ofLiteral l))
  | and {op : Operator} {left right : Node} {p q : Condition} :
      op.role? = some (.binary .and) → States r table left p → States r table right q →
      States r table (.call op [left, right]) (.and p q)
  | or {op : Operator} {left right : Node} {p q : Condition} :
      op.role? = some (.binary .or) → States r table left p → States r table right q →
      States r table (.call op [left, right]) (.or p q)

theorem States.grow {r r' : Registry} {table : TableId} {n : Node} {p : Condition}
    (h : States r table n p) (hg : r.Grows r') : States r' table n p := by
  induction h with
  | column hm => exact .column (hm.grow hg)
  | negation hop hm => exact .negation hop (hm.grow hg)
  | literalRight hop hl hm => exact .literalRight hop hl (hm.grow hg)
  | literalLeft hop hm => exact .literalLeft hop (hm.grow hg)
  | and hop _ _ ihp ihq => exact .and hop ihp ihq
  | or hop _ _ ihp ihq => exact .or hop ihp ihq

/-- A tree states at most one condition. -/
theorem States.unique {r : Registry} {table : TableId} {n : Node} {p p' : Condition}
    (h : States r table n p) (h' : States r table n p') : p = p' := by
  induction h generalizing p' with
  | column hm =>
    cases h' with
    | column hm' => rw [hm.unique hm']
  | negation hop hm =>
    cases h' with
    | negation _ hm' => rw [hm.unique hm']
  | literalRight hop hl hm =>
    cases h' with
    | literalRight hop' _ hm' =>
      cases hop.symm.trans hop'
      rw [hm.unique hm']
    | literalLeft _ _ => exact absurd rfl (hl _)
    | and hop' _ _ => cases hop.symm.trans hop'
    | or hop' _ _ => cases hop.symm.trans hop'
  | literalLeft hop hm =>
    cases h' with
    | literalRight _ hl _ => exact absurd rfl (hl _)
    | literalLeft hop' hm' =>
      cases hop.symm.trans hop'
      rw [hm.unique hm']
    | and hop' _ _ => cases hop.symm.trans hop'
    | or hop' _ _ => cases hop.symm.trans hop'
  | and hop _ _ ihp ihq =>
    cases h' with
    | literalRight hop' _ _ => cases hop.symm.trans hop'
    | literalLeft hop' _ => cases hop.symm.trans hop'
    | and _ hp hq => rw [ihp hp, ihq hq]
    | or hop' _ _ => cases hop.symm.trans hop'
  | or hop _ _ ihp ihq =>
    cases h' with
    | literalRight hop' _ _ => cases hop.symm.trans hop'
    | literalLeft hop' _ => cases hop.symm.trans hop'
    | and hop' _ _ => cases hop.symm.trans hop'
    | or _ hp hq => rw [ihp hp, ihq hq]

section

variable {e : Engine} {r : Registry} {table : TableId} {x : Element}

/-- A value is found through the meaning of an expression, which is the only one. -/
theorem exists_hasValue_iff {n : Node} {a : Atom} (h : Means r table n (.atom a))
    (P : Scalar → Bool) :
    (∃ v, HasValue r table x n v ∧ P v = true) ↔ (a.value x).any P = true := by
  rw [Option.any_eq_true]
  constructor
  · rintro ⟨v, ⟨a', ha', hv⟩, hP⟩
    cases h.unique ha'
    exact ⟨v, hv, hP⟩
  · rintro ⟨v, hv, hP⟩
    exact ⟨v, ⟨a, h, hv⟩, hP⟩

theorem hasValue_boolean_iff {n : Node} {a : Atom} {b : Bool} (he : e.LawfulCompare)
    (h : Means r table n (.atom a)) :
    HasValue r table x n (.boolean b) ↔
      (a.value x).any (fun v => e.compare .eq v (.boolean b)) = true := by
  rw [← exists_hasValue_iff h]
  simp [he.eq_boolean]

theorem comparisonHolds_literalRight {c : Compare} {left : Node} {l : Literal}
    (h : ∀ l', left ≠ .literal l') :
    ComparisonHolds e r table x c left (.literal l) ↔
      ∃ v, HasValue r table x left v ∧ e.compare c v (.ofLiteral l) = true := by
  cases left with
  | literal l' => exact absurd rfl (h l')
  | identifier id => rfl
  | call op operands => rfl

theorem exists_atom_of_isAggregate {m : Meaning} (h : m.isAggregate = false) :
    ∃ a, m = .atom a := by
  cases m with
  | atom a => exact ⟨a, rfl⟩
  | aggregate f operand => cases h

/-- A tree says that the condition it states is true. -/
theorem States.holds_iff {n : Node} {p : Condition} (he : e.LawfulCompare)
    (h : States r table n p) (hp : p.hasAggregate = false) :
    Holds e r table x n ↔ p.isTrue e x = true := by
  induction h with
  | column hm =>
    obtain ⟨a, rfl⟩ := exists_atom_of_isAggregate hp
    exact hasValue_boolean_iff he hm
  | negation hop hm =>
    obtain ⟨a, rfl⟩ := exists_atom_of_isAggregate hp
    simp only [Holds, hop, true_and]
    exact hasValue_boolean_iff he hm
  | literalRight hop hl hm =>
    obtain ⟨a, rfl⟩ := exists_atom_of_isAggregate hp
    simp only [Holds, hop, comparisonHolds_literalRight hl]
    exact exists_hasValue_iff hm _
  | @literalLeft op c l right m hop hm =>
    -- The steps compare the value with the literal, and so the other way round.
    obtain ⟨a, rfl⟩ := exists_atom_of_isAggregate hp
    simp only [Holds, hop, ComparisonHolds, Condition.isTrue, ← exists_hasValue_iff hm, he.flipped]
  | and hop _ _ ihp ihq =>
    obtain ⟨hp, hq⟩ := Bool.or_eq_false_iff.1 hp
    simp only [Holds, hop, Condition.isTrue, Bool.and_eq_true, ihp hp, ihq hq]
  | or hop _ _ ihp ihq =>
    obtain ⟨hp, hq⟩ := Bool.or_eq_false_iff.1 hp
    simp only [Holds, hop, Condition.isTrue, Bool.or_eq_true, ihp hp, ihq hq]

theorem isEmpty_filter_singleton {α : Type} (p : α → Bool) (a : α) :
    ([a].filter p).isEmpty = !p a := by
  cases h : p a <;> simp [h]

theorem flow_and_isEmpty {g : Graph} (s t : List Step) (v : Value) :
    ((pipeline e g [.and [.anonymous s, .anonymous t]]).flow [v]).isEmpty =
      (((pipeline e g s).flow [v]).isEmpty || ((pipeline e g t).flow [v]).isEmpty) := by
  simp [pipeline, Step.apply, isEmpty_filter_singleton, runEach]

theorem flow_or_isEmpty {g : Graph} (s t : List Step) (v : Value) :
    ((pipeline e g [.or [.anonymous s, .anonymous t]]).flow [v]).isEmpty =
      (((pipeline e g s).flow [v]).isEmpty && ((pipeline e g t).flow [v]).isEmpty) := by
  simp [pipeline, Step.apply, isEmpty_filter_singleton, runEach]

theorem flow_is {g : Graph} (steps : List Step) (c : Compare) (constant : Scalar)
    (values : List Value) :
    (pipeline e g (steps ++ [.is c constant])).flow values =
      ((pipeline e g steps).flow values).filter (e.passes c constant) := by
  have his : (pipeline e g [.is c constant]).modifiers = [] := by simp [pipeline]
  rw [pipeline_append his]
  simp [pipeline, Step.apply]

/-- What is found for an atom passes a comparison if there is a value and it compares so. -/
theorem isEmpty_filter_passes (c : Compare) (constant : Scalar) (found : Option Scalar) :
    ((found.toList.map Value.scalar).filter (e.passes c constant)).isEmpty =
      !found.any fun v => e.compare c v constant := by
  cases found with
  | none => rfl
  | some v => simp [isEmpty_filter_singleton, Engine.passes]

/-- The steps of a condition without aggregates find something on an element if it is true of it. -/
theorem Condition.flow_isEmpty {g : Graph} (p : Condition) (hp : p.hasAggregate = false) :
    ((pipeline e g (p.steps .element)).flow [.element x]).isEmpty = !p.isTrue e x := by
  induction p with
  | is m c constant =>
    obtain ⟨a, rfl⟩ := exists_atom_of_isAggregate hp
    rw [steps, flow_is, Meaning.fragment, Atom.flow_element, isEmpty_filter_passes, isTrue]
  | and left right ihl ihr =>
    obtain ⟨hl, hr⟩ := Bool.or_eq_false_iff.1 hp
    rw [steps, flow_and_isEmpty, ihl hl, ihr hr, isTrue, Bool.not_and]
  | or left right ihl ihr =>
    obtain ⟨hl, hr⟩ := Bool.or_eq_false_iff.1 hp
    rw [steps, flow_or_isEmpty, ihl hl, ihr hr, isTrue, Bool.not_or]

end

/-! ## Emission -/

/-- What emitting a condition does to a draft. -/
structure ConditionEmission (table : TableId) (scope : Scope) (n : Node) (p : Condition)
    (d d' : Draft) : Prop extends Stage n.Names (p.steps scope) p.hasAggregate d d' where
  states : States d'.registry table n p
  element : scope = .element → p.hasAggregate = false

section

variable {table : TableId} {expand : Expansion} {scope : Scope} {d d' : Draft}

/-- A value that is emitted and then compared. -/
theorem Emission.compare {n : Node} {m : Meaning} {c : Compare} {constant : Scalar} {u : Unit}
    (h : Emission table scope n m d d') {d'' : Draft}
    (happ : Emit.append (.is c constant) d' = (.ok u, d'')) {n' : Node}
    (hstates : States d'.registry table n' (.is m c constant)) (hn : Node.Within n n') :
    ConditionEmission table scope n' (.is m c constant) d d'' := by
  have hvalue : Stage n'.Names (m.fragment scope) m.isAggregate d d' :=
    h.mono fun hname => hname.within hn
  have hstage := hvalue.trans (.append happ)
  cases Emit.append_ok happ
  refine ⟨by simpa [Condition.steps, Condition.hasAggregate] using hstage, hstates, fun hs => ?_⟩
  obtain ⟨a, rfl⟩ := h.element hs
  rfl

theorem emitBoolean_emission (hexp : expand.Sound table) {id : Identifier} {b : Bool}
    (h : emitBoolean table expand scope id b d = (.ok (), d')) {n : Node}
    (hstates : ∀ {r : Registry} {m : Meaning}, Means r table (.identifier id) m →
      States r table n (.is m .eq (.boolean b)))
    (hn : Node.Within (.identifier id) n) : ∃ p, ConditionEmission table scope n p d d' := by
  obtain ⟨_, d₁, h₁, hrest⟩ := Emit.bind_ok h
  obtain ⟨-, rfl⟩ := Emit.ask_ok h₁
  obtain ⟨_, d₂, h₂, hlast⟩ := Emit.bind_ok hrest
  obtain ⟨m, hm⟩ := emitIdentifier_emission hexp h₂
  exact ⟨_, hm.compare hlast (hstates hm.means) hn⟩

theorem emitComparison_emission (hexp : expand.Sound table) {op : Operator} {c : Compare}
    {left right : Node} (hop : op.role? = some (.binary (.compare c)))
    (h : emitComparison table expand scope c left right d = (.ok (), d')) :
    ∃ p, ConditionEmission table scope (.call op [left, right]) p d d' := by
  unfold emitComparison at h
  split at h
  · exact absurd h Emit.not_fail
  · rename_i l hl
    obtain ⟨_, d₁, h₁, h⟩ := Emit.bind_ok h
    obtain ⟨m, hm⟩ := emitNode_emission hexp h₁
    have hleft : ∀ l', left ≠ .literal l' := hl
    exact ⟨_, hm.compare h (.literalRight hop hleft hm.means) (.of_operand (by simp))⟩
  · obtain ⟨_, d₁, h₁, h⟩ := Emit.bind_ok h
    obtain ⟨m, hm⟩ := emitNode_emission hexp h₁
    exact ⟨_, hm.compare h (.literalLeft hop hm.means) (.of_operand (by simp))⟩
  · exact absurd h Emit.not_fail

/-- Two conditions that become the branches of one step. -/
theorem emitBranches_emission {op : Operator} {left right : Node} {join : List Traversal → Step}
    {combine : Condition → Condition → Condition}
    (hsteps : ∀ p q, (combine p q).steps scope =
      [join [.anonymous (p.steps scope), .anonymous (q.steps scope)]])
    (hagg : ∀ p q, (combine p q).hasAggregate = (p.hasAggregate || q.hasAggregate))
    (hstates : ∀ {r : Registry} {p q : Condition}, States r table left p → States r table right q →
      States r table (.call op [left, right]) (combine p q))
    (hleft : ∀ {d d' : Draft}, emitCondition table expand scope left d = (.ok (), d') →
      ∃ p, ConditionEmission table scope left p d d')
    (hright : ∀ {d d' : Draft}, emitCondition table expand scope right d = (.ok (), d') →
      ∃ q, ConditionEmission table scope right q d d')
    (h : (do
      let a ← Emit.branch (emitCondition table expand scope left)
      let b ← Emit.branch (emitCondition table expand scope right)
      Emit.append (join [a, b]) : Emit Unit) d = (.ok (), d')) :
    ∃ p, ConditionEmission table scope (.call op [left, right]) p d d' := by
  obtain ⟨_, d₁, h₁, hrest⟩ := Emit.bind_ok h
  obtain ⟨inner₁, hinner₁, rfl, rfl⟩ := Emit.branch_ok h₁
  obtain ⟨_, d₂, h₂, hlast⟩ := Emit.bind_ok hrest
  obtain ⟨inner₂, hinner₂, rfl, rfl⟩ := Emit.branch_ok h₂
  obtain ⟨p, hp⟩ := hleft hinner₁
  obtain ⟨q, hq⟩ := hright hinner₂
  have hsteps₁ : inner₁.steps = p.steps scope := hp.steps
  have hsteps₂ : inner₂.steps = q.steps scope := hq.steps
  have hl : Stage (Node.Names (.call op [left, right])) [] p.hasAggregate d
      ⟨inner₁.registry, d.steps⟩ := (hp.operand op (by simp)).ofBranch
  have hr : Stage (Node.Names (.call op [left, right])) [] q.hasAggregate
      ⟨inner₁.registry, d.steps⟩ ⟨inner₂.registry, d.steps⟩ := (hq.operand op (by simp)).ofBranch
  have hstage := (hl.trans hr).trans (.append hlast)
  cases Emit.append_ok hlast
  -- The right branch may give names too; what the left one states is not changed by them.
  refine ⟨combine p q, ?_, hstates (hp.states.grow hq.learns.toGrows) hq.states, fun hs => ?_⟩
  · simpa [hsteps, hagg, hsteps₁, hsteps₂] using hstage
  · rw [hagg, hp.element hs, hq.element hs]
    rfl

/-- **Emitting a condition.** -/
theorem emitCondition_emission (hexp : expand.Sound table) {n : Node}
    (h : emitCondition table expand scope n d = (.ok (), d')) :
    ∃ p, ConditionEmission table scope n p d d' := by
  induction n using emitCondition.induct generalizing d d' with
  | case1 id hempty =>
    simp only [emitCondition, hempty, ↓reduceIte] at h
    exact absurd h Emit.not_fail
  | case2 id hempty =>
    simp only [emitCondition, hempty, Bool.false_eq_true, ↓reduceIte] at h
    exact emitBoolean_emission hexp h .column (.refl _)
  | case3 l =>
    simp only [emitCondition] at h
    exact absurd h Emit.not_fail
  | case4 op c left right hop =>
    rw [emitCondition.eq_def] at h
    simp only [hop] at h
    exact emitComparison_emission hexp hop h
  | case5 op left right hop ihl ihr =>
    rw [emitCondition.eq_def] at h
    simp only [hop] at h
    exact emitBranches_emission (fun _ _ => rfl) (fun _ _ => rfl) (.and hop) ihl ihr h
  | case6 op left right hop ihl ihr =>
    rw [emitCondition.eq_def] at h
    simp only [hop] at h
    exact emitBranches_emission (fun _ _ => rfl) (fun _ _ => rfl) (.or hop) ihl ihr h
  | case7 op id hop =>
    rw [emitCondition.eq_def] at h
    simp only [hop] at h
    exact emitBoolean_emission hexp h (.negation hop) (.of_operand (by simp))
  -- Negations of anything but a name, and values: names given, sort marks, aggregates.
  | case8 _ _ _ hop | case9 _ _ _ hop | case10 _ _ _ hop | case11 _ hop | case12 _ _ _ hop =>
    rw [emitCondition.eq_def] at h
    simp only [hop] at h
    exact absurd h Emit.not_fail
  | case13 op operands =>
    rw [emitCondition.eq_def] at h
    simp only at h
    exact absurd h Emit.not_fail

theorem emitFilterStep_stage {n : Node} (h : emitFilterStep table scope n d = (.ok (), d')) :
    ∃ p, States d'.registry table n p ∧ (scope = .element → p.hasAggregate = false) ∧
      Stage n.Names [.filter (.anonymous (p.steps scope))] p.hasAggregate d d' := by
  obtain ⟨_, d₁, h₁, hlast⟩ := Emit.bind_ok h
  obtain ⟨inner, hinner, rfl, rfl⟩ := Emit.branch_ok h₁
  obtain ⟨p, hp⟩ := emitCondition_emission (expandAlias_sound table) hinner
  have hsteps : inner.steps = p.steps scope := hp.steps
  have hstage := hp.toStage.ofBranch.trans (.append hlast)
  cases Emit.append_ok hlast
  exact ⟨p, hp.states, hp.element, by simpa [hsteps] using hstage⟩

theorem emitWhere_ok {n : Node} (h : emitWhere table scope n d = (.ok (), d')) :
    emitFilterStep table scope n d = (.ok (), d') := by
  obtain ⟨_, d₁, h₁, hrest⟩ := Emit.bind_ok h
  obtain ⟨-, rfl⟩ := Emit.lift_ok h₁
  exact hrest

/-- **A WHERE clause keeps what its condition holds on.** The filter that is added for the clause
lets an element pass exactly if the condition holds on it. Its names stand for what they stand for
in the end, when the aliases that the clause gives itself are known beside the earlier ones. -/
theorem where_keeps_iff_holds {e : Engine} (he : e.LawfulCompare) (g : Graph) {n : Node}
    (h : emitWhere table .element n d = (.ok (), d')) :
    ∃ condition, d'.steps = d.steps ++ [.filter condition] ∧
      d.registry.Grows d'.registry ∧ d'.registry.Binds (d.registry.Offers n) ∧
      ∀ x : Element, (Step.filter condition).apply e g [] [.element x] = [.element x] ↔
        Holds e d'.registry table x n := by
  obtain ⟨p, hstates, helement, hstage⟩ := emitFilterStep_stage (emitWhere_ok h)
  refine ⟨_, hstage.steps, hstage.learns.toGrows, hstage.learns.origin, fun x => ?_⟩
  have hflow := Condition.flow_isEmpty (e := e) (g := g) (x := x) p (helement rfl)
  rw [hstates.holds_iff he (helement rfl)]
  simp only [Step.apply, Traversal.run_anonymous, List.filter_cons, hflow, Bool.not_not]
  cases p.isTrue e x <;> simp

end

/-- People, with `years` as another name for their age. -/
def peopleDraft : Draft :=
  ⟨⟨⟨[⟨"person", .vertex, .string,
      [⟨"age", .integer⟩, ⟨"name", .string⟩, ⟨"away", .boolean⟩], none⟩]⟩,
    [⟨0, "person", "p", .vertex⟩], [("p", "person")], [], [],
    [("years", .identifier ⟨["age"]⟩)], false⟩, []⟩

/-- `18 <= p.years AND NOT away OR (name AS called) = 'Ada'`. -/
def grownUps : Node :=
  .infixed .or
    (.infixed .and (.infixed .lessThanOrEqual (.int 18) (.identifier ⟨["p", "years"]⟩))
      (.not (.identifier ⟨["away"]⟩)))
    (.infixed .equals (.as (.identifier ⟨["name"]⟩) "called") (.string "Ada"))

theorem where_keeps_iff_holds_grownUps :
    Engine.plain.LawfulCompare ∧ (emitWhere 0 .element grownUps peopleDraft).1 = .ok () ∧
    ∃ condition, (emitWhere 0 .element grownUps peopleDraft).2.steps = [.filter condition] ∧
      ∀ x : Element,
        (Step.filter condition).apply .plain ⟨[], []⟩ [] [.element x] = [.element x] ↔
          Holds .plain (emitWhere 0 .element grownUps peopleDraft).2.registry 0 x grownUps := by
  have hok : (emitWhere 0 .element grownUps peopleDraft).1 = .ok () := by cbv
  obtain ⟨condition, hsteps, -, -, hkeeps⟩ :=
    where_keeps_iff_holds Engine.plain_lawfulCompare ⟨[], []⟩ (Prod.ext hok rfl)
  exact ⟨Engine.plain_lawfulCompare, hok, condition, hsteps, hkeeps⟩

end GraphSelect
