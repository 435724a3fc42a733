import GraphSelect.Proofs.Query.Outline
import GraphSelect.Sql.Build
import Mathlib

/-!
# Aggregates and the buckets that they see

A query without keys that aggregates is meant to have all elements in a single bucket. Whether it
aggregates is found out before the grouping is written, from the select list, HAVING and ORDER BY.
In the end the registry knows of every aggregate that the traversal holds, at whatever depth, but
the grouping does not: a WHERE clause that filters buckets may count them, and it is not looked at
beforehand. If nothing else aggregates, such a query has a bucket for each element, and the
aggregate sees one element at a time.
-/

set_option autoImplicit false

namespace GraphSelect

open Sql

/-! ## Steps at any depth -/

/-- The traversals inside a step. -/
def Step.branches : Step → List Traversal
  | .by key _ => [key]
  | .filter condition => [condition]
  | .union branches => branches
  | .and branches => branches
  | .or branches => branches
  | .coalesce branches => branches
  | _ => []

/-- A step stands among others, or inside one of them, at any depth. -/
inductive Step.Occurs (s : Step) : List Step → Prop where
  | here {steps : List Step} : s ∈ steps → Occurs s steps
  | inside {steps : List Step} {host : Step} {t : Traversal} :
      host ∈ steps → t ∈ host.branches → Occurs s t.steps → Occurs s steps

/-- The steps that make one value of everything that arrives. -/
def aggregateSteps : List Step :=
  [.count, .sum, .mean, .min, .max]

/-- An aggregate occurs among some steps, at any depth. -/
def Aggregates (steps : List Step) : Prop :=
  ∃ s ∈ aggregateSteps, s.Occurs steps

section

variable {s : Step} {steps steps' : List Step}

theorem Step.Occurs.mono (h : s.Occurs steps) (hsub : steps ⊆ steps') : s.Occurs steps' := by
  cases h with
  | here hs => exact .here (hsub hs)
  | inside hhost ht hs => exact .inside (hsub hhost) ht hs

@[simp] theorem Step.not_occurs_nil : ¬ s.Occurs [] := by
  rintro (hs | ⟨hhost, -, -⟩)
  · cases hs
  · cases hhost

@[simp] theorem Step.occurs_cons {t : Step} : s.Occurs (t :: steps) ↔
    s = t ∨ (∃ b ∈ t.branches, s.Occurs b.steps) ∨ s.Occurs steps := by
  constructor
  · rintro (hs | ⟨hhost, hb, hs⟩)
    · rcases List.mem_cons.1 hs with rfl | hs
      · exact .inl rfl
      · exact .inr (.inr (.here hs))
    · rcases List.mem_cons.1 hhost with rfl | hhost
      · exact .inr (.inl ⟨_, hb, hs⟩)
      · exact .inr (.inr (.inside hhost hb hs))
  · rintro (rfl | ⟨b, hb, hs⟩ | hs)
    · exact .here List.mem_cons_self
    · exact .inside List.mem_cons_self hb hs
    · exact hs.mono (List.subset_cons_self t steps)

@[simp] theorem Step.occurs_append :
    s.Occurs (steps ++ steps') ↔ s.Occurs steps ∨ s.Occurs steps' := by
  induction steps with
  | nil => simp
  | cons t rest ih => simp only [List.cons_append, Step.occurs_cons, ih, or_assoc]

@[simp] theorem aggregates_nil : ¬ Aggregates [] := by
  simp [Aggregates]

@[simp] theorem aggregates_cons : Aggregates (s :: steps) ↔
    s ∈ aggregateSteps ∨ (∃ t ∈ s.branches, Aggregates t.steps) ∨ Aggregates steps := by
  simp only [Aggregates, Step.occurs_cons]
  constructor
  · rintro ⟨a, ha, rfl | ⟨t, ht, hs⟩ | hs⟩
    · exact .inl ha
    · exact .inr (.inl ⟨t, ht, a, ha, hs⟩)
    · exact .inr (.inr ⟨a, ha, hs⟩)
  · rintro (hs | ⟨t, ht, a, ha, hs⟩ | ⟨a, ha, hs⟩)
    · exact ⟨s, hs, .inl rfl⟩
    · exact ⟨a, ha, .inr (.inl ⟨t, ht, hs⟩)⟩
    · exact ⟨a, ha, .inr (.inr hs)⟩

@[simp] theorem aggregates_append :
    Aggregates (steps ++ steps') ↔ Aggregates steps ∨ Aggregates steps' := by
  induction steps with
  | nil => simp
  | cons s rest ih => simp only [List.cons_append, aggregates_cons, ih, or_assoc]

@[simp] theorem aggregates_map {α : Type} (f : α → Step) (as : List α) :
    Aggregates (as.map f) ↔
      ∃ a ∈ as, f a ∈ aggregateSteps ∨ ∃ t ∈ (f a).branches, Aggregates t.steps := by
  induction as with
  | nil => simp
  | cons a rest ih =>
    simp only [List.map_cons, aggregates_cons, ih, List.exists_mem_cons_iff, or_assoc]

@[simp] theorem Traversal.steps_anonymous (steps : List Step) :
    (Traversal.anonymous steps).steps = steps :=
  rfl

@[simp] theorem Traversal.steps_root (steps : List Step) : (Traversal.root steps).steps = steps :=
  rfl

end

/-! ## Aggregates of an outline -/

section

theorem Aggregate.step_mem_aggregateSteps (f : Aggregate) : f.step ∈ aggregateSteps := by
  cases f <;> simp [Aggregate.step, aggregateSteps]

@[simp] theorem ColumnSource.not_aggregates_steps (c : ColumnSource) : ¬ Aggregates c.steps := by
  cases c <;> simp [ColumnSource.steps, aggregateSteps, Step.branches]

@[simp] theorem Atom.not_aggregates_fragment (a : Atom) (scope : Scope) :
    ¬ Aggregates (a.fragment scope) := by
  cases a with
  | constant l => cases scope <;> simp [Atom.fragment, aggregateSteps, Step.branches]
  | column c => cases scope <;> simp [Atom.fragment, aggregateSteps, Step.branches]

@[simp] theorem Meaning.aggregates_fragment (m : Meaning) (scope : Scope) :
    Aggregates (m.fragment scope) ↔ m.isAggregate = true := by
  cases m with
  | atom a => simp [Meaning.fragment, Meaning.isAggregate]
  | aggregate f operand =>
    cases operand <;> simp [Meaning.fragment, Meaning.isAggregate, f.step_mem_aggregateSteps]

@[simp] theorem Condition.aggregates_steps (p : Condition) (scope : Scope) :
    Aggregates (p.steps scope) ↔ p.hasAggregate = true := by
  induction p with
  | is m c constant =>
    simp [Condition.steps, Condition.hasAggregate, aggregateSteps, Step.branches]
  | and left right ihl ihr =>
    simp [Condition.steps, Condition.hasAggregate, aggregateSteps, Step.branches, ihl, ihr]
  | or left right ihl ihr =>
    simp [Condition.steps, Condition.hasAggregate, aggregateSteps, Step.branches, ihl, ihr]

@[simp] theorem aggregates_filterSteps (scope : Scope) (conditions : List Condition) :
    Aggregates (filterSteps scope conditions) ↔
      conditions.any Condition.hasAggregate = true := by
  simp [filterSteps, aggregateSteps, Step.branches]

@[simp] theorem aggregates_sortSteps (sorting : List (Meaning × Direction)) :
    Aggregates (sortSteps sorting) ↔ sorting.any (fun k => k.1.isAggregate) = true := by
  cases sorting with
  | nil => simp [sortSteps, aggregateSteps, Step.branches]
  | cons k rest => simp [sortSteps, sortModifiers, aggregateSteps, Step.branches]

@[simp] theorem aggregates_itemModifiers (meanings : List Meaning) :
    Aggregates (itemModifiers meanings) ↔ meanings.any Meaning.isAggregate = true := by
  simp [itemModifiers, orMarker, aggregateSteps, Step.branches]

@[simp] theorem not_aggregates_sourceSteps (t : RegisteredTable) :
    ¬ Aggregates (sourceSteps t) := by
  unfold sourceSteps
  cases t.kind <;> simp [aggregateSteps, Step.branches]

@[simp] theorem Bucketing.not_aggregates_modifiers (b : Bucketing) : ¬ Aggregates b.modifiers := by
  cases b <;> simp [Bucketing.modifiers, groupKey, aggregateSteps, Step.branches]

namespace Outline

variable (o : Outline)

@[simp] theorem aggregates_bucketSteps : Aggregates o.bucketSteps ↔
    o.sorting.any (fun k => k.1.isAggregate) = true ∨
      o.having.any Condition.hasAggregate = true := by
  simp only [bucketSteps, aggregates_append, aggregates_sortSteps, aggregates_filterSteps]

@[simp] theorem aggregates_projection :
    Aggregates o.projection ↔ o.columns.any (fun c => c.2.isAggregate) = true := by
  simp only [projection, aggregates_cons, aggregates_itemModifiers, List.any_map,
    Function.comp_def]
  simp [aggregateSteps, Step.branches]

/-- Outside of its late filters, an outline aggregates where this is found out beforehand. -/
theorem aggregates_found :
    Aggregates (o.bucketSteps ++ o.projection) ↔ o.discovers = true := by
  rw [aggregates_append, aggregates_bucketSteps, aggregates_projection, discovers,
    Bool.or_eq_true, Bool.or_eq_true]
  tauto

/-- The aggregates of an outline are those of its clauses. -/
theorem aggregates_steps (hearly : o.early.any Condition.hasAggregate = false) :
    Aggregates o.steps ↔ (o.discovers || o.late.any Condition.hasAggregate) = true := by
  have helements : ¬ Aggregates o.elementSteps := by
    rw [elementSteps, aggregates_append, aggregates_filterSteps, hearly]
    simp
  have hgroup : Aggregates o.steps ↔ Aggregates (o.bucketSteps ++ o.projection) ∨
      Aggregates (filterSteps .bucket o.late) := by
    simp only [steps, aggregates_append, aggregates_cons, helements, aggregateSteps,
      Step.branches, Bucketing.not_aggregates_modifiers]
    simp only [List.not_mem_nil, false_and, exists_false, false_or]
    tauto
  rw [hgroup, o.aggregates_found, aggregates_filterSteps, Bool.or_eq_true]

end Outline

end

/-! ## Compiled queries -/

/-- The modifier that puts all elements into a single bucket. -/
def singleBucket : Step :=
  .by (.anonymous [.constant (.boolean true)]) none

theorem Bucketing.modifiers_of_found (found : Bool) :
    (if found then Bucketing.single else .perElement).modifiers =
      if found then [singleBucket] else [] := by
  cases found <;> rfl

/-- **What is known of aggregates.** In the end the registry says whether an aggregate occurs in the
traversal. The grouping of a select without keys makes a single bucket if an aggregate occurs in the
ordering, in the filter of HAVING or in the projection. That is the same as an aggregate occurring
anywhere, unless the only ones stand in a WHERE filter after HAVING. -/
theorem single_bucket_iff_aggregate_outside_where {schema : Schema} {placement : FilterPlacement}
    {s : Select} {q : CompiledQuery} (h : compile schema placement s = .ok q) :
    (q.registry.hasAggregate = true ↔ Aggregates q.traversal.steps) ∧
    ∃ (before key middle projection : List Step) (late : List Condition),
      q.traversal = .root (before ++ .group :: (key ++ .unfold :: .selectValues ::
        (middle ++ (filterSteps .bucket late ++ projection)))) ∧
      List.Forall₂ (States q.registry 0) (s.filterAt placement .afterHaving) late ∧
      (keysOf s.groupBy = [] →
        (key = [singleBucket] ∨ key = []) ∧
        (key = [singleBucket] ↔ Aggregates (middle ++ projection)) ∧
        ((key = [singleBucket] ↔ Aggregates q.traversal.steps) ↔
          (Aggregates (filterSteps .bucket late) → Aggregates (middle ++ projection)))) := by
  obtain ⟨run⟩ := compile_run h
  obtain ⟨o, htraversal, ho⟩ := run.outline
  have hall : Aggregates q.traversal.steps ↔
      (o.discovers || o.late.any Condition.hasAggregate) = true := by
    rw [htraversal, Traversal.steps_root, o.aggregates_steps ho.earlyPlain]
  refine ⟨?_, o.elementSteps, o.bucketing.modifiers, o.bucketSteps, o.projection, o.late,
    htraversal, ho.late, fun hnil => ?_⟩
  · rw [ho.aggregate, hall, ← Bool.or_assoc, Bool.or_self]
  · have hkey : o.bucketing.modifiers = if o.discovers then [singleBucket] else [] := by
      rw [ho.noKeys hnil, Bucketing.modifiers_of_found]
    rw [hkey, o.aggregates_found, hall, aggregates_filterSteps]
    cases o.discovers with
    | true => simp
    | false => simp

/-- People who may have a department. -/
def departmentSchema : Schema :=
  ⟨[⟨"person", .vertex, .string, [⟨"dept", .string⟩], none⟩]⟩

/-- `SELECT dept FROM person AS p WHERE COUNT(*) > 1`. -/
def countedInWhere : Select where
  selectList := [.identifier ⟨["dept"]⟩]
  source := some (.as (.identifier ⟨["person"]⟩) "p")
  filter := some (.infixed .greaterThan .countStar (.int 1))
  groupBy := none
  having := none
  orderBy := none

def countedInWhereSteps : List Step :=
  [.vertices, .hasLabel "person", .group, .unfold, .selectValues, .order,
    .by (.anonymous [.unfold, .id]) none,
    .filter (.anonymous [.unfold, .count, .is .gt (.long 1)]), .project ["dept"],
    .by (orMarker (.anonymous [.unfold, .values "dept"])) none]

theorem compile_countedInWhere : ∃ q,
    compile departmentSchema .afterHaving countedInWhere = .ok q ∧
      q.traversal = .root countedInWhereSteps := by
  refine ⟨⟨.root countedInWhereSteps, [⟨"dept", .string⟩],
    ⟨departmentSchema, [⟨0, "person", "p", .vertex⟩], [("p", "person")],
      [(0, [⟨"dept", .string⟩])], ["dept"], [], true⟩⟩, ?_, rfl⟩
  cbv

theorem single_bucket_iff_aggregate_outside_where_countedInWhere :
    ∃ q, compile departmentSchema .afterHaving countedInWhere = .ok q ∧
      (q.registry.hasAggregate = true ↔ Aggregates q.traversal.steps) ∧
      ∃ (before key middle projection : List Step) (late : List Condition),
        q.traversal = .root (before ++ .group :: (key ++ .unfold :: .selectValues ::
          (middle ++ (filterSteps .bucket late ++ projection)))) ∧
        List.Forall₂ (States q.registry 0)
          (countedInWhere.filterAt .afterHaving .afterHaving) late ∧
        keysOf countedInWhere.groupBy = [] ∧
        (key = [singleBucket] ∨ key = []) ∧
        (key = [singleBucket] ↔ Aggregates (middle ++ projection)) ∧
        ((key = [singleBucket] ↔ Aggregates q.traversal.steps) ↔
          (Aggregates (filterSteps .bucket late) → Aggregates (middle ++ projection))) := by
  obtain ⟨q, hq, -⟩ := compile_countedInWhere
  have hnil : keysOf countedInWhere.groupBy = [] := rfl
  obtain ⟨hflag, before, key, middle, projection, late, hsteps, hlate, hkey⟩ :=
    single_bucket_iff_aggregate_outside_where hq
  exact ⟨q, hq, hflag, before, key, middle, projection, late, hsteps, hlate, hnil, hkey hnil⟩

/-- A select without keys whose only aggregate stands in a WHERE clause that filters buckets: it has
an aggregate, and a bucket for each element. -/
theorem ungrouped_aggregate_without_single_bucket :
    ∃ q after, compile departmentSchema .afterHaving countedInWhere = .ok q ∧
      keysOf countedInWhere.groupBy = [] ∧
      q.traversal = .root (.vertices :: .hasLabel "person" :: .group :: .unfold :: after) ∧
      Aggregates q.traversal.steps := by
  obtain ⟨q, hq, htraversal⟩ := compile_countedInWhere
  refine ⟨q, _, hq, rfl, htraversal, ?_⟩
  rw [htraversal]
  simp [countedInWhereSteps, aggregateSteps, Step.branches]

end GraphSelect
