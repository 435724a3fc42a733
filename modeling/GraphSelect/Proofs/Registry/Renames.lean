import GraphSelect.Proofs.Registry.Runs

/-!
# From the name of a table back to its label

A query calls a table by a name, and the name leads back to a label. Tables are kept apart by label
and name together, but the map from names to labels has one entry for each name. So one name may be
given to several tables, and then it leads to the last one. This is the only way in which a table is
not found by its own name.

`Sound.renames` has tied the map to the list of tables, over all calls. What is left is to say in
places what the last table of a name is, and to see which label is found for a name that no table
has but for the case of its letters. Of the latter no more can be said than that it is behind one of
the names that fit, since the map may be gone through in any order.
-/

set_option autoImplicit false

namespace GraphSelect

/-- The order that starts with an entry, if the map has it. -/
def MapOrder.first (entry : String × String) : MapOrder where
  arrange entries := if entry ∈ entries then entry :: entries.erase entry else entries
  perm entries := by
    split
    · rename_i hmem
      exact (List.perm_cons_erase hmem).symm
    · exact .refl _

theorem MapOrder.arrange_first {entry : String × String} {entries : List (String × String)}
    (h : entry ∈ entries) : (first entry).arrange entries = entry :: entries.erase entry :=
  if_pos h

namespace Registry

variable {r : Registry} {id : TableId} {t : RegisteredTable}

/-- No table after this one has the same name. -/
def LastNamed (r : Registry) (id : TableId) (name : String) : Prop :=
  ∀ (later : TableId) (t : RegisteredTable), id < later → r.tables[later]? = some t →
    t.workingLabel ≠ name

/-- A name that is given to a table has a last table. -/
theorem lastNamed?_eq (h : r.tables[id]? = some t) :
    ∃ (last : TableId) (t' : RegisteredTable), id ≤ last ∧ r.tables[last]? = some t' ∧
      t'.workingLabel = t.workingLabel ∧ r.LastNamed last t.workingLabel ∧
      r.lastNamed? t.workingLabel = some t' := by
  cases hfind : r.lastNamed? t.workingLabel with
  | none =>
    have hno := List.find?_eq_none.1 hfind t (List.mem_reverse.2 (List.mem_of_getElem? h))
    exact absurd (beq_self_eq_true _) hno
  | some t' =>
    have hname := List.find?_some hfind
    obtain ⟨last, hlast, hlater⟩ := find?_reverse_eq_some hfind
    have hnamed : r.LastNamed last t.workingLabel := fun later b hlt hb =>
      beq_eq_false_iff_ne.1 (hlater later b hlt hb)
    refine ⟨last, t', ?_, hlast, beq_iff_eq.1 hname, hnamed, rfl⟩
    exact Nat.le_of_not_lt fun hlt => hnamed id t hlt h rfl

/-- A name that has an entry is looked for as it is spelled, and found. -/
theorem Sound.actualName?_eq (hr : r.Sound) {name : String} (order : MapOrder)
    (h : r.lastNamed? name = some t) : r.actualName? order name = some t.label := by
  rw [actualName?, hr.renames, h, Option.map_some, Option.some_or]

/-- **A name leads back to the last table that was given it.** In a registry after any calls, on
every schema, each registered table has a name, and the name leads to the label of the last table of
that name, in whatever order the map is gone through. So it leads to the table's own label exactly
if no later table has the same name. -/
theorem name_leads_back_iff_last (schema : Schema) (calls : List Call) (order : MapOrder)
    (h : ((empty schema).run calls).table id = .ok t) :
    ((empty schema).run calls).workingLabel id = .ok t.workingLabel ∧
      (∃ (last : TableId) (t' : RegisteredTable), id ≤ last ∧
        ((empty schema).run calls).table last = .ok t' ∧ t'.workingLabel = t.workingLabel ∧
        ((empty schema).run calls).LastNamed last t.workingLabel ∧
        ((empty schema).run calls).actualName? order t.workingLabel = some t'.label) ∧
      (((empty schema).run calls).actualName? order t.workingLabel = some t.label ↔
        ((empty schema).run calls).LastNamed id t.workingLabel) := by
  have hsound : ((empty schema).run calls).Sound := (Sound.empty schema).run calls
  have hat := table_ok_iff.1 h
  obtain ⟨last, t', hle, hlast, hname, hnamed, hfound⟩ := lastNamed?_eq hat
  have hactual := hsound.actualName?_eq order hfound
  refine ⟨by rw [workingLabel, h]; rfl,
    ⟨last, t', hle, table_ok_iff.2 hlast, hname, hnamed, hactual⟩, ?_⟩
  rw [hactual]
  constructor
  · intro hown
    rwa [← hsound.id_eq hat hlast (Option.some.inj hown) hname]
  · intro hid
    rcases Nat.eq_or_lt_of_le hle with rfl | hlt
    · cases hat.symm.trans hlast
      rfl
    · exact absurd hname (hid last t' hlt hlast)

/-- People and software. -/
def makersSchema : Schema :=
  ⟨[⟨"person", .vertex, .integer, [], none⟩, ⟨"software", .vertex, .integer, [], none⟩]⟩

/-- People are called `p` and `P`, and then software is called `p` as well. -/
def makersRegistry : Registry :=
  (empty makersSchema).run [.register "person" "p", .register "PERSON" "P",
    .register "software" "p"]

/-- No later table is called `P`; that `p` is given again does not matter. -/
theorem name_leads_back_iff_last_makers :
    makersRegistry.table 1 = .ok ⟨1, "person", "P", .vertex⟩ ∧
      makersRegistry.workingLabel 1 = .ok "P" ∧ makersRegistry.LastNamed 1 "P" ∧
      makersRegistry.actualName? .asKept "P" = some "person" := by
  have htable : makersRegistry.table 1 = .ok ⟨1, "person", "P", .vertex⟩ := rfl
  have hlast : makersRegistry.LastNamed 1 "P" := by
    intro later t hlt ht
    have hbound : later < 3 := (List.getElem?_eq_some_iff.1 ht).1
    obtain rfl : later = 2 := Nat.le_antisymm (Nat.le_of_lt_succ hbound) hlt
    cases ht
    decide
  obtain ⟨hname, -, hback⟩ := name_leads_back_iff_last _ _ .asKept htable
  exact ⟨htable, hname, hlast, hback.2 hlast⟩

/-- The name of the first table leads to the label of another one. -/
theorem name_leads_astray :
    makersRegistry.table 0 = .ok ⟨0, "person", "p", .vertex⟩ ∧
      makersRegistry.workingLabel 0 = .ok "p" ∧
      ∀ order : MapOrder, makersRegistry.actualName? order "p" = some "software" :=
  ⟨rfl, rfl, fun _ => rfl⟩

/-! ## Other spellings -/

/-- The entries of the map are the last tables of their names. -/
theorem Sound.mem_renames_iff (hr : r.Sound) {name label : String} :
    (name, label) ∈ r.renames ↔ ∃ t, r.lastNamed? name = some t ∧ t.label = label := by
  rw [← lookup_iff_mem hr.entries, hr.renames, Option.map_eq_some_iff]

/-- A name that no table has leads to the label behind one that differs in case only, and every such
label is found in some order. -/
theorem Sound.actualName?_other_spelling_iff (hr : r.Sound) {name label : String}
    (hnone : r.lastNamed? name = none) :
    (∃ order, r.actualName? order name = some label) ↔
      ∃ other t, Text.eqIgnoringCase other name = true ∧ r.lastNamed? other = some t ∧
        t.label = label := by
  have hlookup : r.renames.lookup name = none := by rw [hr.renames, hnone]; rfl
  simp only [actualName?, hlookup, Option.none_or, Option.map_eq_some_iff]
  constructor
  · rintro ⟨order, ⟨other, _⟩, hfind, rfl⟩
    have hsame := List.find?_some hfind
    have hmem := (order.perm r.renames).mem_iff.1 (List.mem_of_find?_eq_some hfind)
    obtain ⟨t, ht, hlabel⟩ := hr.mem_renames_iff.1 hmem
    exact ⟨other, t, hsame, ht, hlabel⟩
  · rintro ⟨other, t, hsame, ht, hlabel⟩
    have hmem : (other, label) ∈ r.renames := hr.mem_renames_iff.2 ⟨t, ht, hlabel⟩
    refine ⟨.first (other, label), (other, label), ?_, rfl⟩
    rw [MapOrder.arrange_first hmem]
    exact List.find?_cons_of_pos hsame

end Registry

end GraphSelect
