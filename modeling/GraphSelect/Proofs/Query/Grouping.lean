import GraphSelect.Proofs.Query.Stages
import Mathlib

/-!
# What GROUP BY puts together

The key of a grouping is the list of the values of its columns. A column that an element does not
carry has no value, and leaves no gap in the list: the key holds the values that are present, in the
order of the columns, without saying which columns they are from. So two elements with the same
values come together, but so do two elements that have the same value in different columns and miss
the others. Elements are told apart column by column as long as they miss the same columns.
-/

set_option autoImplicit false

namespace GraphSelect

open Sql

/-- The values that an element has for several atoms, in order. -/
def presentValues (atoms : List Atom) (x : Element) : List Scalar :=
  atoms.filterMap (Atom.value x)

/-- The key of an element is the list of the values that are present. -/
theorem groupKey_run (e : Engine) (g : Graph) (atoms : List Atom) (x : Element) :
    (groupKey atoms).run e g [.element x] = [.list ((presentValues atoms x).map .scalar)] := by
  have hbranches : (atoms.map fun a => (a.value x).toList.map Value.scalar).flatten =
      (presentValues atoms x).map .scalar := by
    induction atoms with
    | nil => rfl
    | cons a rest ih =>
      cases hv : a.value x <;> simp_all [presentValues]
  simp [groupKey, pipeline, Step.apply, runEach_eq_map, Function.comp_def, Atom.flow_element,
    hbranches]

theorem sameKeys_scalars (xs ys : List Scalar) :
    Value.sameKeys (xs.map .scalar) (ys.map .scalar) = decide (xs = ys) := by
  induction xs generalizing ys with
  | nil => cases ys <;> simp [Value.sameKeys]
  | cons x xs ih =>
    cases ys with
    | nil => simp [Value.sameKeys]
    | cons y ys => simp [Value.sameKeys, Value.sameKey, ih, Bool.decide_and, beq_eq_decide]

theorem presentValues_congr {atoms : List Atom} {x y : Element}
    (h : ∀ a ∈ atoms, a.value x = a.value y) : presentValues atoms x = presentValues atoms y :=
  List.filterMap_congr h

/-- Elements that miss the same columns are told apart column by column. -/
theorem value_eq_of_presentValues_eq {atoms : List Atom} {x y : Element}
    (hpresent : ∀ a ∈ atoms, (a.value x).isSome = (a.value y).isSome)
    (h : presentValues atoms x = presentValues atoms y) :
    ∀ a ∈ atoms, a.value x = a.value y := by
  induction atoms with
  | nil => nofun
  | cons a rest ih =>
    rw [List.forall_mem_cons] at hpresent ⊢
    obtain ⟨ha, hrest⟩ := hpresent
    cases hx : a.value x with
    | none =>
      have hy : a.value y = none := by simpa [hx] using ha.symm
      exact ⟨hy.symm, ih hrest (by simpa [presentValues, hx, hy] using h)⟩
    | some v =>
      obtain ⟨w, hy⟩ := Option.isSome_iff_exists.1 (by simpa [hx] using ha.symm)
      obtain ⟨rfl, htail⟩ : v = w ∧ presentValues rest x = presentValues rest y := by
        simpa [presentValues, hx, hy] using h
      exact ⟨hy.symm, ih hrest htail⟩

/-- **Grouping is by the values that are present.** The keys of two elements are equal exactly if
the lists of the values that they have for the columns of the clause are. So the grouping is by the
tuple of values, a missing one included, for exactly those pairs of elements where equal lists mean
that the same columns are missing. -/
theorem grouping_is_by_tuple_iff {schema : Schema} {placement : FilterPlacement} {s : Select}
    {q : CompiledQuery} (h : compile schema placement s = .ok q) (hkeys : keysOf s.groupBy ≠ []) :
    ∃ (before after : List Step) (key : Traversal) (atoms : List Atom),
      q.traversal = .root (before ++ .group :: .by key none :: after) ∧
      List.Forall₂ (fun n a => Means q.registry 0 n (.atom a)) (keysOf s.groupBy) atoms ∧
      ∀ (e : Engine) (g : Graph) (x y : Element), ∃ kx ky,
        key.run e g [.element x] = [kx] ∧ key.run e g [.element y] = [ky] ∧
        (kx.sameKey ky = true ↔ presentValues atoms x = presentValues atoms y) ∧
        ((kx.sameKey ky = true ↔ ∀ a ∈ atoms, a.value x = a.value y) ↔
          (presentValues atoms x = presentValues atoms y →
            ∀ a ∈ atoms, (a.value x).isSome = (a.value y).isSome)) := by
  obtain ⟨run⟩ := compile_run h
  obtain ⟨drafts⟩ := emitStages_drafts run.emits
  obtain ⟨atoms, hms, hgroup⟩ := emitGroupBy_keys hkeys drafts.groups
  obtain ⟨after, _, hafter⟩ := drafts.afterGrouping
  obtain ⟨columns, -, -, hrecord⟩ := recordProjection_stage drafts.records
  have hend := hafter.trans hrecord
  have hsteps : run.final.steps =
      drafts.filtered.steps ++ .group :: .by (groupKey atoms) none :: .unfold :: after := by
    simp [hend.steps, hgroup.steps]
  have hgrows : drafts.grouped.registry.Grows q.registry := by
    rw [run.registry]
    exact hend.learns.toGrows
  refine ⟨drafts.filtered.steps, .unfold :: after, groupKey atoms, atoms, ?_,
    hms.imp fun _ _ hm => hm.grow hgrows, fun e g x y => ?_⟩
  · rw [run.traversal, hsteps]
  · refine ⟨_, _, groupKey_run e g atoms x, groupKey_run e g atoms y, ?_⟩
    have hsame : Value.sameKey (.list ((presentValues atoms x).map .scalar))
        (.list ((presentValues atoms y).map .scalar)) = true ↔
          presentValues atoms x = presentValues atoms y := by
      rw [Value.sameKey, sameKeys_scalars, decide_eq_true_iff]
    refine ⟨hsame, ?_⟩
    rw [hsame]
    constructor
    · intro htuple heq a ha
      rw [htuple.1 heq a ha]
    · intro hpresent
      exact ⟨fun heq => value_eq_of_presentValues_eq (hpresent heq) heq, presentValues_congr⟩

/-- People who may have a department and a team. -/
def staffSchema : Schema :=
  ⟨[⟨"person", .vertex, .string, [⟨"dept", .string⟩, ⟨"team", .string⟩], none⟩]⟩

/-- `SELECT dept, team FROM person AS p GROUP BY dept, team`. -/
def byDeptAndTeam : Select where
  selectList := [.identifier ⟨["dept"]⟩, .identifier ⟨["team"]⟩]
  source := some (.as (.identifier ⟨["person"]⟩) "p")
  filter := none
  groupBy := some [.identifier ⟨["dept"]⟩, .identifier ⟨["team"]⟩]
  having := none
  orderBy := none

def deptAndTeam : Traversal :=
  groupKey
    [.column ⟨"dept", .string, .property "dept"⟩, .column ⟨"team", .string, .property "team"⟩]

theorem compile_byDeptAndTeam : ∃ q after,
    compile staffSchema .beforeGrouping byDeptAndTeam = .ok q ∧ q.traversal =
      .root (.vertices :: .hasLabel "person" :: .group :: .by deptAndTeam none :: after) := by
  refine ⟨⟨.root (.vertices :: .hasLabel "person" :: .group :: .by deptAndTeam none ::
    [.unfold, .selectValues, .order, .by (.anonymous [.unfold, .id]) none,
      .project ["dept", "team"],
      .by (orMarker (.anonymous [.unfold, .values "dept"])) none,
      .by (orMarker (.anonymous [.unfold, .values "team"])) none]),
    [⟨"dept", .string⟩, ⟨"team", .string⟩],
    ⟨staffSchema, [⟨0, "person", "p", .vertex⟩], [("p", "person")],
      [(0, [⟨"dept", .string⟩, ⟨"team", .string⟩])], ["dept", "team"], [], false⟩⟩, _, ?_, rfl⟩
  cbv

theorem grouping_is_by_tuple_iff_byDeptAndTeam :
    ∃ q, compile staffSchema .beforeGrouping byDeptAndTeam = .ok q ∧
      keysOf byDeptAndTeam.groupBy ≠ [] ∧
      ∃ (before after : List Step) (key : Traversal) (atoms : List Atom),
        q.traversal = .root (before ++ .group :: .by key none :: after) ∧
        List.Forall₂ (fun n a => Means q.registry 0 n (.atom a)) (keysOf byDeptAndTeam.groupBy)
          atoms ∧
        ∀ (e : Engine) (g : Graph) (x y : Element), ∃ kx ky,
          key.run e g [.element x] = [kx] ∧ key.run e g [.element y] = [ky] ∧
          (kx.sameKey ky = true ↔ presentValues atoms x = presentValues atoms y) ∧
          ((kx.sameKey ky = true ↔ ∀ a ∈ atoms, a.value x = a.value y) ↔
            (presentValues atoms x = presentValues atoms y →
              ∀ a ∈ atoms, (a.value x).isSome = (a.value y).isSome)) := by
  obtain ⟨q, _, hq, -⟩ := compile_byDeptAndTeam
  have hkeys : keysOf byDeptAndTeam.groupBy ≠ [] := nofun
  exact ⟨q, hq, hkeys, grouping_is_by_tuple_iff hq hkeys⟩

/-- Grouped by department and team, somebody who only has a department and somebody who only has a
team of the same name share a key. -/
theorem grouping_merges_different_tuples :
    ∃ q key after, compile staffSchema .beforeGrouping byDeptAndTeam = .ok q ∧
      q.traversal = .root (.vertices :: .hasLabel "person" :: .group :: .by key none :: after) ∧
      ∃ x y : Element, x.label = "person" ∧ y.label = "person" ∧
        key.run .plain ⟨[], []⟩ [.element x] = key.run .plain ⟨[], []⟩ [.element y] ∧
        x.property? "dept" = some (.string "x") ∧ y.property? "dept" = none := by
  obtain ⟨q, after, hq, htraversal⟩ := compile_byDeptAndTeam
  refine ⟨q, deptAndTeam, after, hq, htraversal,
    .vertex ⟨.string "1", "person", [("dept", .string "x")]⟩,
    .vertex ⟨.string "2", "person", [("team", .string "x")]⟩, rfl, rfl, ?_, rfl, rfl⟩
  rw [deptAndTeam, groupKey_run, groupKey_run]
  rfl

end GraphSelect
