import GraphSelect.Proofs.Query.Aggregation
import Mathlib

/-!
# The grammar of fragments

What is emitted for a value is one fragment, and there are few of them. On a single element it is a
constant or a column. On a bucket it is a constant, a column of the unfolded elements, or an
aggregate of the elements or of a value of theirs. What is emitted for a condition is a fragment
that is then compared, or two conditions as the branches of one step. Names, marks and aliases leave
no trace, whatever the aliases are bound to and in whichever scope they were bound.

That rules out what would go wrong on the server. An aggregate or the unfolding of a list stands
nowhere where a single element arrives, nothing is unfolded twice, and no property is read off a
list.
-/

set_option autoImplicit false

namespace GraphSelect

open Sql

/-! ## The grammar -/

/-- The steps from an element to the value of one of its columns. -/
inductive ColumnRead : List Step → Prop where
  | property (key : String) : ColumnRead [.values key]
  | id : ColumnRead [.id]
  | inVertexId : ColumnRead [.inVertex, .id]
  | outVertexId : ColumnRead [.outVertex, .id]

/-- The steps of one value. -/
inductive Fragment : Scope → List Step → Prop where
  | constant (scope : Scope) (v : Scalar) : Fragment scope [.constant v]
  | column {p : List Step} : ColumnRead p → Fragment .element p
  | unfolded {p : List Step} : ColumnRead p → Fragment .bucket (.unfold :: p)
  | aggregate {a : Step} : a ∈ aggregateSteps → Fragment .bucket [.unfold, a]
  | aggregateOf {p : List Step} {a : Step} : a ∈ aggregateSteps → Fragment .element p →
      Fragment .bucket (.unfold :: (p ++ [a]))

/-- The steps of one condition, with fragments of the given kind. -/
inductive ConditionSteps (F : List Step → Prop) : List Step → Prop where
  | is {f : List Step} (c : Compare) (v : Scalar) : F f → ConditionSteps F (f ++ [.is c v])
  | and {left right : List Step} : ConditionSteps F left → ConditionSteps F right →
      ConditionSteps F [.and [.anonymous left, .anonymous right]]
  | or {left right : List Step} : ConditionSteps F left → ConditionSteps F right →
      ConditionSteps F [.or [.anonymous left, .anonymous right]]

/-- The steps that read something off an element. -/
inductive Step.Reads : Step → Prop where
  | values (key : String) : Reads (.values key)
  | id : Reads .id
  | inVertex : Reads .inVertex
  | outVertex : Reads .outVertex

/-- A step that asks for no more than one element. -/
def Step.Plain (s : Step) : Prop :=
  s ≠ .unfold ∧ s ∉ aggregateSteps

/-- What the steps of a value have to be like. -/
structure WellScoped (scope : Scope) (f : List Step) : Prop where
  fragment : Fragment scope f
  -- They are one fragment and not two of them.
  single : ∀ g h, f = g ++ h → Fragment scope g → ¬ Fragment scope h
  unfoldsOnce : ¬ [Step.unfold, .unfold].Sublist f
  plain : scope = .element → ∀ s : Step, s.Occurs f → s.Plain
  -- What is read off a bucket is read off its elements.
  readsUnfolded : scope = .bucket → ∀ before s after, f = before ++ s :: after → s.Reads →
    .unfold ∈ before

/-! ## What follows from the grammar -/

section

variable {scope : Scope} {f : List Step}

theorem ColumnRead.plain {p : List Step} (h : ColumnRead p) {s : Step} (hs : s.Occurs p) :
    s.Plain := by
  cases h <;> simp only [Step.occurs_cons, Step.branches, List.not_mem_nil, false_and, exists_false,
    Step.not_occurs_nil, false_or, or_false] at hs
  case inVertexId | outVertexId => rcases hs with rfl | rfl <;> simp [Step.Plain, aggregateSteps]
  all_goals subst hs; simp [Step.Plain, aggregateSteps]

theorem Fragment.plain (h : Fragment .element f) {s : Step} (hs : s.Occurs f) : s.Plain := by
  cases h with
  | constant _ v =>
    simp only [Step.occurs_cons, Step.branches, List.not_mem_nil, false_and, exists_false,
      Step.not_occurs_nil, or_false] at hs
    subst hs
    simp [Step.Plain, aggregateSteps]
  | column hp => exact hp.plain hs

theorem Fragment.ne_nil (h : Fragment scope f) : f ≠ [] := by
  cases h with
  | column hp => cases hp <;> simp
  | _ => simp

/-- On a bucket a fragment is a constant, or it unfolds the bucket, does so once and does not end in
a constant. -/
theorem Fragment.bucket_cases (h : Fragment .bucket f) :
    (∃ v, f = [.constant v]) ∨ ∃ rest last, f = .unfold :: rest ∧ .unfold ∉ rest ∧
      rest.getLast? = some last ∧ ∀ v, last ≠ .constant v := by
  cases h with
  | constant _ v => exact .inl ⟨v, rfl⟩
  | @unfolded p hp =>
    have hrest : .unfold ∉ p := by
      intro hmem
      exact (hp.plain (.here hmem)).1 rfl
    refine .inr ?_
    cases hp <;> exact ⟨_, _, rfl, hrest, rfl, by simp⟩
  | @aggregate a ha =>
    have hconstant : ∀ v, a ≠ .constant v := by
      rintro v rfl
      simp [aggregateSteps] at ha
    refine .inr ⟨[a], a, rfl, ?_, rfl, hconstant⟩
    rw [List.mem_singleton]
    rintro rfl
    simp [aggregateSteps] at ha
  | @aggregateOf p a ha hp =>
    have hconstant : ∀ v, a ≠ .constant v := by
      rintro v rfl
      simp [aggregateSteps] at ha
    refine .inr ⟨p ++ [a], a, rfl, ?_, List.getLast?_concat, hconstant⟩
    rw [List.mem_append, List.mem_singleton]
    rintro (hmem | rfl)
    · exact (hp.plain (.here hmem)).1 rfl
    · simp [aggregateSteps] at ha

/-- Two fragments in a row are no fragment. -/
theorem Fragment.not_append {g h : List Step} (hgh : Fragment scope (g ++ h))
    (hg : Fragment scope g) : ¬ Fragment scope h := by
  intro hh
  cases scope with
  | element =>
    -- Only the two ends of an edge take two steps, and the first of these is no fragment.
    obtain ⟨s, g, rfl⟩ := List.exists_cons_of_ne_nil hg.ne_nil
    obtain ⟨t, h, rfl⟩ := List.exists_cons_of_ne_nil hh.ne_nil
    generalize heq : (s :: g) ++ (t :: h) = f at hgh
    cases hgh with
    | constant _ v => simp at heq
    | column hp =>
      cases hp with
      | property key => simp at heq
      | id => simp at heq
      | inVertexId | outVertexId =>
        simp only [List.cons_append, List.cons.injEq, List.append_eq_singleton_iff] at heq
        obtain ⟨rfl, ⟨rfl, -⟩ | ⟨-, hnil⟩⟩ := heq
        · rcases hg with _ | hp
          cases hp
        · cases hnil
  | bucket =>
    rcases hg.bucket_cases with ⟨v, rfl⟩ | ⟨rest, last, rfl, -, -, -⟩
    · rcases hgh.bucket_cases with ⟨v', heq⟩ | ⟨rest', last', heq, -⟩
      · exact hh.ne_nil (by simpa using (List.cons.inj heq).2)
      · cases heq
    · rcases hgh.bucket_cases with ⟨v', heq⟩ | ⟨rest', last', heq, honce, hlast, hconstant⟩
      · cases heq
      · obtain ⟨-, rfl⟩ := List.cons.inj heq
        rcases hh.bucket_cases with ⟨v, rfl⟩ | ⟨rest'', last'', rfl, -⟩
        · exact hconstant v (by simpa using hlast.symm)
        · exact honce (by simp)

/-- **The grammar keeps apart what is for elements and what is for buckets.** -/
theorem Fragment.wellScoped (h : Fragment scope f) : WellScoped scope f where
  fragment := h
  single g k heq := by
    subst heq
    exact h.not_append
  unfoldsOnce := by
    intro htwice
    cases scope with
    | element => exact (h.plain (.here (htwice.subset List.mem_cons_self))).1 rfl
    | bucket =>
      rcases h.bucket_cases with ⟨v, rfl⟩ | ⟨rest, last, rfl, honce, -⟩
      · have hlength := htwice.length_le
        simp at hlength
      · exact honce (List.singleton_sublist.1 (List.cons_sublist_cons.1 htwice))
  plain := by
    rintro rfl s hs
    exact h.plain hs
  readsUnfolded := by
    rintro rfl before s after heq hreads
    rcases h.bucket_cases with ⟨v, rfl⟩ | ⟨rest, last, rfl, -⟩
    · cases before with
      | nil =>
        cases heq
        cases hreads
      | cons t before => simp at heq
    · cases before with
      | nil =>
        cases heq
        cases hreads
      | cons t before =>
        cases (List.cons.inj heq).1
        exact List.mem_cons_self

variable {F G : List Step → Prop} {steps : List Step}

theorem ConditionSteps.mono (h : ConditionSteps F steps) (hFG : ∀ f, F f → G f) :
    ConditionSteps G steps := by
  induction h with
  | is c v hf => exact .is c v (hFG _ hf)
  | and _ _ ihl ihr => exact .and ihl ihr
  | or _ _ ihl ihr => exact .or ihl ihr

/-- A condition compares and joins, and neither looks beyond one element. -/
theorem ConditionSteps.plain (h : ConditionSteps F steps)
    (hF : ∀ f, F f → ∀ s : Step, s.Occurs f → s.Plain) {s : Step} (hs : s.Occurs steps) :
    s.Plain := by
  induction h with
  | is c v hf =>
    rcases Step.occurs_append.1 hs with hs | hs
    · exact hF _ hf s hs
    · obtain rfl : s = .is c v := by simpa [Step.branches] using hs
      simp [Step.Plain, aggregateSteps]
  | and _ _ ihl ihr | or _ _ ihl ihr =>
    simp only [Step.occurs_cons, Step.branches, List.mem_cons, List.not_mem_nil, or_false,
      exists_eq_or_imp, exists_eq_left, Traversal.steps_anonymous, Step.not_occurs_nil] at hs
    rcases hs with rfl | hs | hs
    · simp [Step.Plain, aggregateSteps]
    · exact ihl hs
    · exact ihr hs

end

/-! ## What is emitted is in the grammar -/

section

variable {scope : Scope}

theorem ColumnSource.columnRead (c : ColumnSource) : ColumnRead c.steps := by
  cases c <;> constructor

theorem Atom.isFragment (a : Atom) (scope : Scope) : Fragment scope (a.fragment scope) := by
  cases a with
  | constant l => exact .constant scope _
  | column c =>
    cases scope with
    | element => exact .column c.source.columnRead
    | bucket => exact .unfolded c.source.columnRead

theorem Meaning.isFragment {m : Meaning} (h : scope = .element → ∃ a, m = .atom a) :
    Fragment scope (m.fragment scope) := by
  cases m with
  | atom a => exact a.isFragment scope
  | aggregate f operand =>
    cases scope with
    | element =>
      obtain ⟨a, ha⟩ := h rfl
      cases ha
    | bucket =>
      cases operand with
      | none => exact .aggregate f.step_mem_aggregateSteps
      | some a => exact .aggregateOf f.step_mem_aggregateSteps (a.isFragment .element)

theorem Condition.conditionSteps {p : Condition} (h : scope = .element → p.hasAggregate = false) :
    ConditionSteps (Fragment scope) (p.steps scope) := by
  induction p with
  | is m c constant =>
    refine .is c constant (Meaning.isFragment ?_)
    intro hs
    exact exists_atom_of_isAggregate (h hs)
  | and left right ihl ihr =>
    refine .and (ihl ?_) (ihr ?_)
    · intro hs
      exact (Bool.or_eq_false_iff.1 (h hs)).1
    · intro hs
      exact (Bool.or_eq_false_iff.1 (h hs)).2
  | or left right ihl ihr =>
    refine .or (ihl ?_) (ihr ?_)
    · intro hs
      exact (Bool.or_eq_false_iff.1 (h hs)).1
    · intro hs
      exact (Bool.or_eq_false_iff.1 (h hs)).2

variable {table : TableId} {n : Node} {d d' : Draft}

theorem Emission.wellScoped {m : Meaning} (h : Emission table scope n m d d') :
    ∃ f, d'.steps = d.steps ++ f ∧ WellScoped scope f :=
  ⟨_, h.steps, (Meaning.isFragment h.element).wellScoped⟩

/-- **Emitted fragments are well scoped.** Whatever the aliases are bound to, a value that is
emitted is one fragment for its scope, inside of any number of aliases and outside of them. A
condition is made of such fragments, and on single elements it has nothing in it, at any depth, that
is for buckets. -/
theorem emitted_wellScoped (table : TableId) (scope : Scope) (n : Node) (d d' : Draft) :
    (∀ hops expanding, emitWithin table hops expanding scope n d = (.ok (), d') →
      ∃ f, d'.steps = d.steps ++ f ∧ WellScoped scope f) ∧
    (emitValue table scope n d = (.ok (), d') →
      ∃ f, d'.steps = d.steps ++ f ∧ WellScoped scope f) ∧
    (emitFilter table scope n d = (.ok (), d') →
      ∃ p, d'.steps = d.steps ++ p ∧ ConditionSteps (WellScoped scope) p ∧
        (scope = .element → ∀ s : Step, s.Occurs p → s.Plain)) := by
  refine ⟨?_, ?_, ?_⟩
  · intro hops expanding h
    obtain ⟨m, hm⟩ := emitWithin_emission h
    exact hm.wellScoped
  · intro h
    obtain ⟨m, hm⟩ := emitValue_emission h
    exact hm.wellScoped
  · intro h
    obtain ⟨p, hp⟩ := emitCondition_emission (expandAlias_sound table) h
    have hsteps : ConditionSteps (WellScoped scope) (p.steps scope) := by
      refine (Condition.conditionSteps hp.element).mono ?_
      intro f hf
      exact hf.wellScoped
    refine ⟨_, hp.steps, hsteps, ?_⟩
    intro hscope s hs
    refine hsteps.plain ?_ hs
    intro f hf
    exact hf.plain hscope

end

/-- `(MAX(p.years) AS oldest) DESC`. -/
def oldestFirst : Node :=
  .desc (.as (.aggregate .max (.identifier ⟨["p", "years"]⟩)) "oldest")

/-- `60 < oldest OR NOT away`. -/
def elderlyOrHome : Node :=
  .infixed .or (.infixed .lessThan (.int 60) (.identifier ⟨["oldest"]⟩))
    (.not (.identifier ⟨["away"]⟩))

/-- What is known after the first of them, and so to the second. -/
def namedOldestDraft : Draft :=
  (emitValue 0 .bucket oldestFirst peopleDraft).2

theorem emitted_wellScoped_oldestFirst :
    (emitValue 0 .bucket oldestFirst peopleDraft).1 = .ok () ∧
    WellScoped .bucket namedOldestDraft.steps ∧
    (emitFilter 0 .bucket elderlyOrHome namedOldestDraft).1 = .ok () ∧
    (∃ p, (emitFilter 0 .bucket elderlyOrHome namedOldestDraft).2.steps =
        [.unfold, .values "age", .max] ++ p ∧ ConditionSteps (WellScoped .bucket) p) ∧
    (emitWithin 0 1 [] .element (.identifier ⟨["years"]⟩) peopleDraft).1 = .ok () ∧
    WellScoped .element
      (emitWithin 0 1 [] .element (.identifier ⟨["years"]⟩) peopleDraft).2.steps := by
  have hvalue : (emitValue 0 .bucket oldestFirst peopleDraft).1 = .ok () := by cbv
  have hdraft : emitValue 0 .bucket oldestFirst peopleDraft = (.ok (), namedOldestDraft) := by
    rw [namedOldestDraft, ← hvalue]
  have hsteps : namedOldestDraft.steps = [.unfold, .values "age", .max] := by cbv
  have hfilter : (emitFilter 0 .bucket elderlyOrHome namedOldestDraft).1 = .ok () := by cbv
  have hwithin :
      (emitWithin 0 1 [] .element (.identifier ⟨["years"]⟩) peopleDraft).1 = .ok () := by cbv
  obtain ⟨-, hemitted, -⟩ := emitted_wellScoped 0 .bucket oldestFirst peopleDraft namedOldestDraft
  obtain ⟨-, -, hfiltered⟩ := emitted_wellScoped 0 .bucket elderlyOrHome namedOldestDraft
    (emitFilter 0 .bucket elderlyOrHome namedOldestDraft).2
  obtain ⟨hexpanded, -⟩ := emitted_wellScoped 0 .element (.identifier ⟨["years"]⟩) peopleDraft
    (emitWithin 0 1 [] .element (.identifier ⟨["years"]⟩) peopleDraft).2
  obtain ⟨f, hf, hvalueScoped⟩ := hemitted hdraft
  obtain ⟨p, hp, hcondition, -⟩ := hfiltered (by rw [← hfilter])
  obtain ⟨g, hg, hexpandedScoped⟩ := hexpanded 1 [] (by rw [← hwithin])
  have hempty : peopleDraft.steps = [] := rfl
  rw [hempty, List.nil_append] at hf hg
  rw [hsteps] at hp
  rw [hf, hg]
  exact ⟨hvalue, hvalueScoped, hfilter, ⟨p, hp, hcondition⟩, hwithin, hexpandedScoped⟩

end GraphSelect
