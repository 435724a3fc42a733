import GraphSelect.Json.Basic
import GraphSelect.Proofs.Lists
import Mathlib

/-!
# The fields of an object

Readers look fields up by name, where the first of a name counts. In an object in which no name
stands twice that is the same as asking which fields there are. A reader of records passes over the
fields that it does not know, so it sees an object with such fields as one without them.
-/

set_option autoImplicit false

namespace GraphSelect

/-- A JSON value as programs hold it: an integer has 64 bits, any other number is a finite double,
and no name stands twice in an object. -/
inductive Json.WellFormed : Json → Prop where
  | null : WellFormed .null
  | bool (b : Bool) : WellFormed (.bool b)
  | int {i : Int} : -2 ^ 63 ≤ i → i < 2 ^ 64 → WellFormed (.int i)
  | float {x : Float} : x.isFinite = true → WellFormed (.float x)
  | str (s : String) : WellFormed (.str s)
  | arr {items : List Json} : (∀ v ∈ items, WellFormed v) → WellFormed (.arr items)
  | obj {fields : List (String × Json)} : (fields.map Prod.fst).Nodup →
      (∀ f ∈ fields, WellFormed f.2) → WellFormed (.obj fields)

theorem wellFormed_toInt (i : Int64) : (Json.int i.toInt).WellFormed := by
  have hlow := i.le_toInt
  have hhigh := i.toInt_lt
  exact .int hlow (by omega)

theorem int64?_toInt (i : Int64) : Json.int64? (.int i.toInt) = some i := by
  have hle : Int64.minValue.toInt ≤ i.toInt :=
    Int64.le_iff_toInt_le.1 (Int64.minValue_le i)
  have hge : i.toInt ≤ Int64.maxValue.toInt :=
    Int64.le_iff_toInt_le.1 (Int64.le_maxValue i)
  rw [Json.int64?, if_pos ⟨hle, hge⟩, Int64.ofInt_toInt]

/-! ## Lookups -/

theorem field?_of_mem {fields : List (String × Json)} (hnames : (fields.map Prod.fst).Nodup)
    {f : String × Json} (hf : f ∈ fields) : Json.field? f.1 fields = some f.2 :=
  (lookup_iff_mem hnames).2 hf

namespace Json

variable {fields : List (String × Json)} {name : String} {v : Json}

theorem field?_eq_some_iff (h : (fields.map Prod.fst).Nodup) :
    field? name fields = some v ↔ (name, v) ∈ fields :=
  lookup_iff_mem h

theorem field?_eq_none_iff : field? name fields = none ↔ name ∉ fields.map Prod.fst := by
  simp only [field?, List.lookup_eq_none_iff, List.mem_map, bne_iff_ne]
  constructor
  · rintro h ⟨f, hf, rfl⟩
    exact h f hf rfl
  · rintro h f hf rfl
    exact h ⟨f, hf, rfl⟩

/-- Fields of other names can be left out before one is looked up. -/
theorem field?_filter {names : List String} (h : name ∈ names) :
    field? name (fields.filter fun f => names.contains f.1) = field? name fields := by
  induction fields with
  | nil => rfl
  | cons f rest ih =>
    by_cases hf : names.contains f.1 = true
    · rw [List.filter_cons, if_pos hf, field?, field?, List.lookup_cons, List.lookup_cons]
      cases hname : name == f.1 with
      | true => rfl
      | false => exact ih
    · have hname : (name == f.1) = false := by
        rw [beq_eq_false_iff_ne]
        rintro rfl
        exact hf (List.contains_iff_mem.2 h)
      rw [List.filter_cons, if_neg hf, ih, field?, field?, List.lookup_cons, hname]

/-- A name that does not stand twice is the name of one field. -/
theorem filter_name_eq (h : (fields.map Prod.fst).Nodup) (hv : field? name fields = some v) :
    (fields.filter fun f => f.1 == name) = [(name, v)] := by
  induction fields with
  | nil => cases hv
  | cons f rest ih =>
    rw [List.map_cons, List.nodup_cons] at h
    rw [field?, List.lookup_cons] at hv
    by_cases hname : f.1 = name
    · subst hname
      rw [beq_self_eq_true] at hv
      cases hv
      rw [List.filter_cons_of_pos (by simp)]
      refine congrArg (List.cons f) (List.filter_eq_nil_iff.2 fun g hg heq => ?_)
      exact h.1 (eq_of_beq heq ▸ List.mem_map_of_mem hg)
    · have hskip : (name == f.1) = false := beq_eq_false_iff_ne.2 fun heq => hname heq.symm
      rw [hskip] at hv
      rw [List.filter_cons_of_neg (by simpa using hname)]
      exact ih h.2 hv

/-! ## Records -/

/-- What a reader of records sees of an object, if `seen` is what is left of it without the fields
of other names than the known ones. -/
theorem record?_obj {names known : List String} {seen : List (String × Json)}
    (hseen : (fields.filter fun f => known.contains f.1) = seen) (h : (seen.map Prod.fst).Nodup)
    (hnames : names ⊆ known) :
    ∃ read, record? names (.obj fields) = some read ∧
      ∀ name ∈ names, field? name read = field? name seen := by
  have hread : (fields.filter fun f => names.contains f.1) =
      seen.filter fun f => names.contains f.1 := by
    rw [← hseen, List.filter_filter]
    refine List.filter_congr fun f _ => ?_
    rw [Bool.eq_iff_iff, Bool.and_eq_true, List.contains_iff_mem, List.contains_iff_mem]
    exact ⟨fun hf => ⟨hf, hnames hf⟩, fun hf => hf.1⟩
  refine ⟨_, ?_, fun name hname => field?_filter hname⟩
  simp only [record?, hread]
  rw [if_pos]
  exact h.sublist (List.filter_sublist.map _)

end Json

end GraphSelect
