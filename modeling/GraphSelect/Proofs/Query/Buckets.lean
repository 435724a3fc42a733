import GraphSelect.Proofs.Expr.Scopes
import GraphSelect.Proofs.Query.Condition
import Mathlib

/-!
# Conditions on buckets

A WHERE clause that stands after HAVING filters buckets, and a bucket is meant to be kept when one
of its elements satisfies the condition. That is not what the steps do: the bucket is unfolded at
each comparison anew, so two comparisons that are joined by AND may be satisfied by two different
elements. `HoldsAmong` says what is tested, read off the tree. It follows from what is meant, and is
the same where no AND occurs, and on a bucket of one element.
-/

set_option autoImplicit false

namespace GraphSelect

open Sql

/-! ## What a tree says of a bucket -/

/-- Every comparison that a condition rests on holds on some element, not always on the same. -/
def HoldsAmong (e : Engine) (r : Registry) (table : TableId) (xs : List Element) : Node → Prop
  | .call op [left, right] =>
    match op.role? with
    | some (.binary .and) => HoldsAmong e r table xs left ∧ HoldsAmong e r table xs right
    | some (.binary .or) => HoldsAmong e r table xs left ∨ HoldsAmong e r table xs right
    | _ => ∃ x ∈ xs, Holds e r table x (.call op [left, right])
  | n => ∃ x ∈ xs, Holds e r table x n

/-- No AND occurs in a tree. -/
def Sql.Node.AndFree (n : Node) : Prop :=
  ∀ (op : Operator) (operands : List Node), Within (.call op operands) n →
    op.role? ≠ some (.binary .and)

theorem Sql.Node.AndFree.operand {n : Node} {op : Operator} {operands : List Node}
    (h : (Node.call op operands).AndFree) (hn : n ∈ operands) : n.AndFree :=
  fun op' operands' h' => h op' operands' (h'.trans (.of_operand hn))

section

variable {e : Engine} {r : Registry} {table : TableId} {xs : List Element}

/-- If a single element satisfies the whole condition, all comparisons find theirs. -/
theorem HoldsAmong.of_holds {x : Element} (hx : x ∈ xs) {n : Node} (h : Holds e r table x n) :
    HoldsAmong e r table xs n := by
  induction n using HoldsAmong.induct with
  | case1 op left right hop ihl ihr =>
    simp only [Holds, hop] at h
    simp only [HoldsAmong, hop]
    exact ⟨ihl h.1, ihr h.2⟩
  | case2 op left right hop ihl ihr =>
    simp only [Holds, hop] at h
    simp only [HoldsAmong, hop]
    exact h.imp ihl ihr
  | case3 op left right hand hor =>
    simp only [HoldsAmong]
    exact ⟨x, hx, h⟩
  | case4 n hn =>
    simp only [HoldsAmong]
    exact ⟨x, hx, h⟩

/-- Without AND, one comparison decides, and its element satisfies the whole condition. -/
theorem HoldsAmong.exists_of_andFree {n : Node} (hn : n.AndFree) (h : HoldsAmong e r table xs n) :
    ∃ x ∈ xs, Holds e r table x n := by
  induction n using HoldsAmong.induct with
  | case1 op left right hop ihl ihr => exact absurd hop (hn _ _ (.refl _))
  | case2 op left right hop ihl ihr =>
    simp only [HoldsAmong, hop] at h
    simp only [Holds, hop]
    rcases h with h | h
    · obtain ⟨x, hx, hl⟩ := ihl (hn.operand (by simp)) h
      exact ⟨x, hx, .inl hl⟩
    · obtain ⟨x, hx, hr⟩ := ihr (hn.operand (by simp)) h
      exact ⟨x, hx, .inr hr⟩
  | case3 op left right hand hor =>
    simp only [HoldsAmong] at h
    exact h
  | case4 n hn' =>
    simp only [HoldsAmong] at h
    exact h

theorem HoldsAmong.of_singleton {x : Element} {n : Node} (h : HoldsAmong e r table [x] n) :
    Holds e r table x n := by
  induction n using HoldsAmong.induct with
  | case1 op left right hop ihl ihr =>
    simp only [HoldsAmong, hop] at h
    simp only [Holds, hop]
    exact ⟨ihl h.1, ihr h.2⟩
  | case2 op left right hop ihl ihr =>
    simp only [HoldsAmong, hop] at h
    simp only [Holds, hop]
    exact h.imp ihl ihr
  | case3 op left right hand hor =>
    simp only [HoldsAmong] at h
    simpa using h
  | case4 n hn =>
    simp only [HoldsAmong] at h
    simpa using h

end

/-! ## What the steps find in a bucket -/

/-- The bucket of some elements. -/
def bucketOf (xs : List Element) : Value :=
  .list (xs.map .element)

/-- Each comparison of a condition is true of some element. -/
def Condition.isTrueAmong (e : Engine) (xs : List Element) : Condition → Bool
  | .is m c constant => xs.any fun x => (Condition.is m c constant).isTrue e x
  | .and left right => left.isTrueAmong e xs && right.isTrueAmong e xs
  | .or left right => left.isTrueAmong e xs || right.isTrueAmong e xs

section

variable {e : Engine} {g : Graph} {r : Registry} {table : TableId} {xs : List Element}

theorem States.holdsAmong_iff {n : Node} {p : Condition} (he : e.LawfulCompare)
    (h : States r table n p) (hp : p.hasAggregate = false) :
    HoldsAmong e r table xs n ↔ p.isTrueAmong e xs = true := by
  induction h with
  | column hm =>
    simp only [HoldsAmong, Condition.isTrueAmong, List.any_eq_true,
      (States.column hm).holds_iff he hp]
  | negation hop hm =>
    simp only [HoldsAmong, Condition.isTrueAmong, List.any_eq_true,
      (States.negation hop hm).holds_iff he hp]
  | literalRight hop hl hm =>
    simp only [HoldsAmong, hop, Condition.isTrueAmong, List.any_eq_true,
      (States.literalRight hop hl hm).holds_iff he hp]
  | literalLeft hop hm =>
    simp only [HoldsAmong, hop, Condition.isTrueAmong, List.any_eq_true,
      (States.literalLeft hop hm).holds_iff he hp]
  | and hop _ _ ihp ihq =>
    obtain ⟨hp, hq⟩ := Bool.or_eq_false_iff.1 hp
    simp only [HoldsAmong, hop, Condition.isTrueAmong, Bool.and_eq_true, ihp hp, ihq hq]
  | or hop _ _ ihp ihq =>
    obtain ⟨hp, hq⟩ := Bool.or_eq_false_iff.1 hp
    simp only [HoldsAmong, hop, Condition.isTrueAmong, Bool.or_eq_true, ihp hp, ihq hq]

theorem ColumnSource.flow_cons (s : ColumnSource) (v : Value) (values : List Value) :
    (pipeline e g s.steps).flow (v :: values) =
      (pipeline e g s.steps).flow [v] ++ (pipeline e g s.steps).flow values := by
  cases s <;> simp [steps, pipeline, Step.apply]

/-- The values of a column on several elements, one after the other. -/
theorem ColumnSource.flow_elements (s : ColumnSource) (xs : List Element) :
    (pipeline e g s.steps).flow (xs.map .element) =
      xs.flatMap fun x => (s.read x).toList.map .scalar := by
  induction xs with
  | nil => cases s <;> simp [steps, pipeline, Step.apply]
  | cons x rest ih => rw [List.map_cons, s.flow_cons, s.flow, ih, List.flatMap_cons]

/-- In bucket scope, a comparison finds something if it is true of some element. A constant is found
once, whatever elements there are, but there is at least one. -/
theorem Atom.flow_bucket_is (a : Atom) (c : Compare) (constant : Scalar) (hxs : xs ≠ []) :
    ((pipeline e g (a.fragment .bucket ++ [.is c constant])).flow [bucketOf xs]).isEmpty =
      !xs.any fun x => (a.value x).any fun v => e.compare c v constant := by
  rw [flow_is]
  cases a with
  | column col =>
    have hunfold : (pipeline e g (.unfold :: col.source.steps)).flow [bucketOf xs] =
        (pipeline e g col.source.steps).flow (xs.map .element) := by
      rw [pipeline_cons rfl]
      simp [Step.apply, bucketOf, Value.members]
    rw [fragment, hunfold, col.source.flow_elements, List.filter_flatMap, Bool.eq_iff_iff,
      List.isEmpty_iff, List.flatMap_eq_nil_iff, Bool.not_eq_true', List.any_eq_false]
    simp only [← List.isEmpty_iff, isEmpty_filter_passes, value, Bool.not_eq_true',
      Bool.not_eq_true]
  | constant l =>
    have hconstant : (pipeline e g [.constant (.ofLiteral l)]).flow [bucketOf xs] =
        (some (Scalar.ofLiteral l)).toList.map .scalar := by
      simp [pipeline, Step.apply]
    obtain ⟨x, rest, rfl⟩ := List.exists_cons_of_ne_nil hxs
    rw [fragment, hconstant, isEmpty_filter_passes]
    simp +contextual [value]

theorem Condition.flow_bucket_isEmpty (hxs : xs ≠ []) (p : Condition)
    (hp : p.hasAggregate = false) :
    ((pipeline e g (p.steps .bucket)).flow [bucketOf xs]).isEmpty = !p.isTrueAmong e xs := by
  induction p with
  | is m c constant =>
    obtain ⟨a, rfl⟩ := exists_atom_of_isAggregate hp
    exact a.flow_bucket_is c constant hxs
  | and left right ihl ihr =>
    obtain ⟨hl, hr⟩ := Bool.or_eq_false_iff.1 hp
    rw [steps, flow_and_isEmpty, ihl hl, ihr hr, isTrueAmong, Bool.not_and]
  | or left right ihl ihr =>
    obtain ⟨hl, hr⟩ := Bool.or_eq_false_iff.1 hp
    rw [steps, flow_or_isEmpty, ihl hl, ihr hr, isTrueAmong, Bool.not_or]

end

/-! ## The filter of a WHERE clause -/

/-- A filter with this condition lets a value pass. -/
def Traversal.Keeps (condition : Traversal) (e : Engine) (g : Graph) (v : Value) : Prop :=
  (Step.filter condition).apply e g [] [v] = [v]

section

variable {e : Engine} {g : Graph} {table : TableId} {d d' : Draft} {n : Node}

theorem Traversal.keeps_anonymous {steps : List Step} {v : Value} :
    (Traversal.anonymous steps).Keeps e g v ↔ ((pipeline e g steps).flow [v]).isEmpty = false := by
  cases h : ((pipeline e g steps).flow [v]).isEmpty <;> simp [Keeps, Step.apply, h]

theorem emitWhere_follows (n : Node) :
    (emitWhere table .bucket n).Follows (emitWhere table .element n) :=
  .bind (.lift _) fun _ _ => .bind (.branch (emitFilter_follows n)) fun _ _ => .append _ _

/-- A clause that is accepted for elements is accepted for buckets, and states the same. -/
theorem emitWhere_both (h : emitWhere table .element n d = (.ok (), d')) :
    ∃ p : Condition, States d'.registry table n p ∧ p.hasAggregate = false ∧
      d'.steps = d.steps ++ [.filter (.anonymous (p.steps .element))] ∧
      emitWhere table .bucket n d =
        (.ok (), ⟨d'.registry, d.steps ++ [.filter (.anonymous (p.steps .bucket))]⟩) := by
  obtain ⟨p, hstates, helement, hstage⟩ := emitFilterStep_stage (emitWhere_ok h)
  obtain ⟨_, steps', hbucket⟩ := emitWhere_follows n d.steps h
  obtain ⟨p', hstates', -, hstage'⟩ := emitFilterStep_stage (emitWhere_ok hbucket)
  cases hstates.unique hstates'
  have hsteps : steps' = d.steps ++ [.filter (.anonymous (p.steps .bucket))] := hstage'.steps
  exact ⟨p, hstates, helement rfl, hstage.steps, by rw [← hsteps]; exact hbucket⟩

/-- **A WHERE clause on buckets.** Whatever is accepted for elements is accepted for buckets. The
filter keeps a bucket if every comparison that the condition rests on holds on some element. So a
bucket is kept if some element is, and the converse is right exactly where the comparisons can be
met by one element: always without AND, and always in a bucket of one element. -/
theorem bucket_kept_iff_holds_among (he : e.LawfulCompare) (g : Graph)
    (h : emitWhere table .element n d = (.ok (), d')) :
    ∃ single bucket : Traversal,
      d'.steps = d.steps ++ [.filter single] ∧
      emitWhere table .bucket n d = (.ok (), ⟨d'.registry, d.steps ++ [.filter bucket]⟩) ∧
      ∀ xs : List Element, xs ≠ [] →
        (bucket.Keeps e g (bucketOf xs) ↔ HoldsAmong e d'.registry table xs n) ∧
        ((∃ x ∈ xs, single.Keeps e g (.element x)) → bucket.Keeps e g (bucketOf xs)) ∧
        ((bucket.Keeps e g (bucketOf xs) ↔ ∃ x ∈ xs, single.Keeps e g (.element x)) ↔
          (HoldsAmong e d'.registry table xs n → ∃ x ∈ xs, Holds e d'.registry table x n)) ∧
        (n.AndFree ∨ xs.length = 1 →
          (bucket.Keeps e g (bucketOf xs) ↔ ∃ x ∈ xs, single.Keeps e g (.element x))) := by
  obtain ⟨p, hstates, hp, hsteps, hbucket⟩ := emitWhere_both h
  refine ⟨_, _, hsteps, hbucket, fun xs hxs => ?_⟩
  have hkept : (Traversal.anonymous (p.steps .bucket)).Keeps e g (bucketOf xs) ↔
      HoldsAmong e d'.registry table xs n := by
    rw [Traversal.keeps_anonymous, p.flow_bucket_isEmpty hxs hp, hstates.holdsAmong_iff he hp,
      Bool.not_eq_false']
  have hsome : (∃ x ∈ xs, (Traversal.anonymous (p.steps .element)).Keeps e g (.element x)) ↔
      ∃ x ∈ xs, Holds e d'.registry table x n := by
    simp only [Traversal.keeps_anonymous, p.flow_isEmpty hp, hstates.holds_iff he hp,
      Bool.not_eq_false']
  have hany : (∃ x ∈ xs, Holds e d'.registry table x n) → HoldsAmong e d'.registry table xs n := by
    rintro ⟨x, hx, hholds⟩
    exact .of_holds hx hholds
  rw [hkept, hsome]
  refine ⟨Iff.rfl, hany, ⟨Iff.mp, fun hmeets => ⟨hmeets, hany⟩⟩, fun hcase => ?_⟩
  refine ⟨fun hamong => ?_, hany⟩
  rcases hcase with hfree | hlength
  · exact hamong.exists_of_andFree hfree
  · obtain ⟨x, rfl⟩ := List.length_eq_one_iff.1 hlength
    exact ⟨x, List.mem_singleton_self x, hamong.of_singleton⟩

end

/-- People who may have a department and a team. -/
def staffDraft : Draft :=
  ⟨⟨⟨[⟨"person", .vertex, .string, [⟨"dept", .string⟩, ⟨"team", .string⟩], none⟩]⟩,
    [⟨0, "person", "p", .vertex⟩], [("p", "person")], [], [], [], false⟩, []⟩

/-- `dept = 'x' AND team = 'y'`. -/
def inDeptAndTeam : Node :=
  .infixed .and (.infixed .equals (.identifier ⟨["dept"]⟩) (.string "x"))
    (.infixed .equals (.identifier ⟨["team"]⟩) (.string "y"))

/-- Somebody in the department and somebody in the team. -/
def colleagues : List Element :=
  [.vertex ⟨.string "1", "person", [("dept", .string "x")]⟩,
    .vertex ⟨.string "2", "person", [("team", .string "y")]⟩]

theorem bucket_kept_iff_holds_among_colleagues :
    Engine.plain.LawfulCompare ∧ (emitWhere 0 .element inDeptAndTeam staffDraft).1 = .ok () ∧
    colleagues ≠ [] ∧
    ∃ d' single bucket,
      emitWhere 0 .element inDeptAndTeam staffDraft = (.ok (), d') ∧ d'.steps = [.filter single] ∧
      emitWhere 0 .bucket inDeptAndTeam staffDraft = (.ok (), ⟨d'.registry, [.filter bucket]⟩) ∧
      (bucket.Keeps .plain ⟨[], []⟩ (bucketOf colleagues) ↔
        HoldsAmong .plain d'.registry 0 colleagues inDeptAndTeam) ∧
      ((bucket.Keeps .plain ⟨[], []⟩ (bucketOf colleagues) ↔
          ∃ x ∈ colleagues, single.Keeps .plain ⟨[], []⟩ (.element x)) ↔
        (HoldsAmong .plain d'.registry 0 colleagues inDeptAndTeam →
          ∃ x ∈ colleagues, Holds .plain d'.registry 0 x inDeptAndTeam)) := by
  have hok : (emitWhere 0 .element inDeptAndTeam staffDraft).1 = .ok () := by cbv
  have hne : colleagues ≠ [] := by simp [colleagues]
  obtain ⟨single, bucket, hsingle, hbucket, hkeeps⟩ :=
    bucket_kept_iff_holds_among Engine.plain_lawfulCompare ⟨[], []⟩ (Prod.ext hok rfl)
  obtain ⟨hkept, -, hexact, -⟩ := hkeeps colleagues hne
  exact ⟨Engine.plain_lawfulCompare, hok, hne, _, single, bucket, Prod.ext hok rfl, hsingle,
    hbucket, hkept, hexact⟩

/-- `inDeptAndTeam`, with its names followed. -/
def inDeptAndTeamCondition : Condition :=
  .and (.is (.atom (.column ⟨"dept", .string, .property "dept"⟩)) .eq (.string "x"))
    (.is (.atom (.column ⟨"team", .string, .property "team"⟩)) .eq (.string "y"))

/-- A bucket that is kept although none of its elements would be. -/
theorem bucket_kept_without_matching_element :
    ∃ d' single bucket,
      emitWhere 0 .element inDeptAndTeam staffDraft = (.ok (), d') ∧ d'.steps = [.filter single] ∧
      emitWhere 0 .bucket inDeptAndTeam staffDraft = (.ok (), ⟨d'.registry, [.filter bucket]⟩) ∧
      bucket.Keeps .plain ⟨[], []⟩ (bucketOf colleagues) ∧
      ¬ ∃ x ∈ colleagues, single.Keeps .plain ⟨[], []⟩ (.element x) := by
  refine ⟨⟨staffDraft.registry, [.filter (.anonymous (inDeptAndTeamCondition.steps .element))]⟩,
    .anonymous (inDeptAndTeamCondition.steps .element),
    .anonymous (inDeptAndTeamCondition.steps .bucket), by cbv, rfl, by cbv, ?_, ?_⟩
  · have hne : colleagues ≠ [] := by simp [colleagues]
    rw [Traversal.keeps_anonymous, inDeptAndTeamCondition.flow_bucket_isEmpty hne rfl]
    decide
  · simp only [Traversal.keeps_anonymous, inDeptAndTeamCondition.flow_isEmpty rfl]
    decide

end GraphSelect
