import Mathlib.Data.List.Forall2
import Mathlib.Data.List.Nodup

/-!
# Lists that go together, and looking for a member

Two lists go together if they are related member by member: items and their columns, definitions and
their tables. The other facts are about the member that a search finds, the first with a property,
the last, or the entry of a name.
-/

set_option autoImplicit false

namespace GraphSelect

section

variable {α β γ : Type} {R : α → β → Prop} {as : List α} {bs : List β}

theorem exists_of_mem_forall₂ (h : List.Forall₂ R as bs) {a : α} (ha : a ∈ as) :
    ∃ b ∈ bs, R a b := by
  induction h with
  | nil => cases ha
  | cons hab _ ih =>
    rcases List.mem_cons.1 ha with rfl | ha
    · exact ⟨_, List.mem_cons_self, hab⟩
    · obtain ⟨b, hb, hR⟩ := ih ha
      exact ⟨b, List.mem_cons_of_mem _ hb, hR⟩

theorem exists_forall₂ (h : ∀ a ∈ as, ∃ b, R a b) : ∃ bs, List.Forall₂ R as bs := by
  induction as with
  | nil => exact ⟨[], .nil⟩
  | cons a rest ih =>
    rw [List.forall_mem_cons] at h
    obtain ⟨⟨b, hb⟩, hrest⟩ := h
    obtain ⟨bs, hbs⟩ := ih hrest
    exact ⟨b :: bs, .cons hb hbs⟩

theorem forall₂_split {as' : List α} {a : α} (h : List.Forall₂ R (as ++ a :: as') bs) :
    ∃ us b vs, bs = us ++ b :: vs ∧ List.Forall₂ R as us ∧ R a b ∧ List.Forall₂ R as' vs := by
  induction as generalizing bs with
  | nil =>
    cases h with
    | cons ha has => exact ⟨[], _, _, rfl, .nil, ha, has⟩
  | cons a₀ rest ih =>
    cases h with
    | cons ha₀ hrest =>
      obtain ⟨us, b, vs, rfl, hus, hb, hvs⟩ := ih hrest
      exact ⟨_ :: us, b, vs, rfl, .cons ha₀ hus, hb, hvs⟩

theorem map_eq_map_of_forall₂ {f : α → γ} {g : β → γ}
    (h : List.Forall₂ (fun a b => f a = g b) as bs) : as.map f = bs.map g := by
  rw [← List.forall₂_eq_eq_eq, List.forall₂_map_left_iff, List.forall₂_map_right_iff]
  exact h

end

section

variable {α : Type} {p q : α → Bool} {l : List α} {a : α}

/-- The first member with a property is also the first with a narrower one that it has. -/
theorem find?_eq_some_of_imp (h : l.find? p = some a) (hq : q a = true)
    (himp : ∀ b, q b = true → p b = true) : l.find? q = some a := by
  induction l with
  | nil => cases h
  | cons b rest ih =>
    rw [List.find?_cons] at h ⊢
    cases hp : p b with
    | true =>
      rw [hp] at h
      cases h
      rw [hq]
    | false =>
      rw [hp] at h
      have hqb : q b = false := by
        rw [Bool.eq_false_iff]
        intro hqb
        cases hp.symm.trans (himp b hqb)
      rw [hqb]
      exact ih h

/-- The last member with a property is one after which no member has it. -/
theorem find?_reverse_eq_some (h : l.reverse.find? p = some a) :
    ∃ last : Nat, l[last]? = some a ∧
      ∀ (later : Nat) (b : α), last < later → l[later]? = some b → p b = false := by
  obtain ⟨-, after, before, hl, hafter⟩ := List.find?_eq_some_iff_append.1 h
  have hsplit : l = before.reverse ++ a :: after.reverse := by
    rw [← List.reverse_reverse l, hl]
    simp
  refine ⟨before.reverse.length, by rw [hsplit]; simp, ?_⟩
  intro later b hlater hb
  obtain ⟨k, rfl⟩ := Nat.exists_eq_add_of_lt hlater
  rw [hsplit, Nat.add_assoc, List.getElem?_append_right (Nat.le_add_right _ _),
    Nat.add_sub_cancel_left, List.getElem?_cons_succ] at hb
  have hmem : b ∈ after := List.mem_reverse.1 (List.mem_of_getElem? hb)
  simpa using hafter b hmem

/-- Where no key is repeated, looking for a key finds the member that has it. -/
theorem find?_key_iff {key : α → String} (h : (l.map key).Nodup) {k : String} :
    l.find? (fun b => key b == k) = some a ↔ a ∈ l ∧ key a = k := by
  constructor
  · intro hfind
    have hkey := List.find?_some hfind
    exact ⟨List.mem_of_find?_eq_some hfind, beq_iff_eq.1 hkey⟩
  · rintro ⟨ha, rfl⟩
    cases hfind : l.find? fun b => key b == key a with
    | none =>
      have hne := List.find?_eq_none.1 hfind a ha
      exact absurd (beq_self_eq_true (key a)) hne
    | some b =>
      have hkey := List.find?_some hfind
      rw [List.inj_on_of_nodup_map h (List.mem_of_find?_eq_some hfind) ha (beq_iff_eq.1 hkey)]

end

section

variable {β : Type} {entries : List (String × β)}

theorem lookup_entry (entry : String × β) (name : String) :
    (entry :: entries).lookup name =
      if name = entry.1 then some entry.2 else entries.lookup name := by
  rw [List.lookup_cons]
  by_cases h : name = entry.1
  · rw [beq_iff_eq.2 h, if_pos h]
  · rw [beq_eq_false_iff_ne.2 h, if_neg h]

/-- Where no name is repeated, looking a name up gives the entry that has it. -/
theorem lookup_iff_mem (h : (entries.map Prod.fst).Nodup) {name : String} {value : β} :
    entries.lookup name = some value ↔ (name, value) ∈ entries := by
  induction entries with
  | nil => simp
  | cons entry rest ih =>
    rw [List.map_cons, List.nodup_cons] at h
    rw [lookup_entry, List.mem_cons]
    by_cases hname : name = entry.1
    · subst hname
      have hrest : (entry.1, value) ∉ rest := fun hmem => h.1 (List.mem_map.2 ⟨_, hmem, rfl⟩)
      simp [hrest, Prod.ext_iff, eq_comm]
    · rw [if_neg hname, ih h.2]
      simp [Prod.ext_iff, hname]

end

end GraphSelect
