import GraphSelect.Proofs.Decimal.Finite
import GraphSelect.Proofs.Expr.Meaning
import GraphSelect.Proofs.Json.Fields
import GraphSelect.Sql.Build
import GraphSelect.Sql.Json
import Mathlib

/-!
# Select trees and their JSON

A select is written as JSON and read back as the same tree. Readers are more generous than the
writer: they pass over fields that they do not know, and they can do without an empty list of
operands or select items and without a clause that is null. `Loosened` says which values these
liberties allow in place of the written one, at any depth and all at once, and every one of them is
read as the tree that was written.

What an object knows depends on what it is, so the relation is told the place of a value.
-/

set_option autoImplicit false

namespace GraphSelect.Sql

/-! ## Liberties -/

/-- What stands at a place in the JSON of a select. -/
inductive Place where
  | select
  | node
  -- A list of nodes.
  | nodes
  | operator
  -- Anything else, which has to be as it was written.
  | fixed

/-- The names that an object knows at its place, each with the place of its value. A node knows the
names of its own kind only. -/
def Place.known? (fields : List (String × Json)) : Place → Option (List (String × Place))
  | .select =>
    some [("select_list", .nodes), ("from", .node), ("where", .node), ("group_by", .nodes),
      ("having", .node), ("order_by", .nodes)]
  | .node =>
    match Json.field? "node" fields with
    | some (.str "identifier") => some [("node", .fixed), ("names", .fixed)]
    | some (.str "literal") => some [("node", .fixed), ("type", .fixed), ("value", .fixed)]
    | some (.str "call") => some [("node", .fixed), ("operator", .operator), ("operands", .nodes)]
    | _ => none
  | .operator => some [("kind", .fixed), ("syntax", .fixed)]
  | _ => none

/-- Whether a field may be left out: an empty list of operands or select items, or a clause that is
null. -/
def Optional (name : String) (v : Json) : Prop :=
  (name = "operands" ∨ name = "select_list") ∧ v = .arr [] ∨
    name ∈ ["from", "where", "group_by", "having", "order_by"] ∧ v = .null

/-- The fields of an object, in the order in which their names are known, next to fields that may
stand in their place: a field is left out or has a related value. -/
inductive Trimmed (R : Place → Json → Json → Prop) :
    List (String × Place) → List (String × Json) → List (String × Json) → Prop where
  | nil : Trimmed R [] [] []
  | keep {known : List (String × Place)} {name : String} {place : Place} {v w : Json}
      {fields fields' : List (String × Json)} :
      R place v w → Trimmed R known fields fields' →
      Trimmed R ((name, place) :: known) ((name, v) :: fields) ((name, w) :: fields')
  | drop {known : List (String × Place)} {name : String} {place : Place} {v : Json}
      {fields fields' : List (String × Json)} :
      Optional name v → Trimmed R known fields fields' →
      Trimmed R ((name, place) :: known) ((name, v) :: fields) fields'
  -- The object has no field of this name.
  | absent {known : List (String × Place)} {name : String} {place : Place}
      {fields fields' : List (String × Json)} :
      Trimmed R known fields fields' → Trimmed R ((name, place) :: known) fields fields'

/-- A value that may stand in place of another one: fields with unknown names are added to selects,
nodes and operators, and optional fields are left out. -/
inductive Loosened : Place → Json → Json → Prop where
  | same (place : Place) (v : Json) : Loosened place v v
  | nodes {vs ws : List Json} : List.Forall₂ (Loosened .node) vs ws →
      Loosened .nodes (.arr vs) (.arr ws)
  | object {place : Place} {known : List (String × Place)} {fields fields' : List (String × Json)} :
      place.known? fields = some known →
      Trimmed Loosened known fields
        (fields'.filter fun f => (known.map Prod.fst).contains f.1) →
      Loosened place (.obj fields) (.obj fields')

namespace Trimmed

variable {R : Place → Json → Json → Prop} {known : List (String × Place)}
  {fields fields' : List (String × Json)}

theorem sublist (h : Trimmed R known fields fields') :
    (fields'.map Prod.fst).Sublist (fields.map Prod.fst) := by
  induction h with
  | nil => exact .slnil
  | keep _ _ ih => exact ih.cons_cons _
  | drop _ _ ih => exact ih.cons _
  | absent _ ih => exact ih

/-- What has become of a field: it is left out, or its value is related. -/
theorem field (h : Trimmed R known fields fields') (hnames : (fields.map Prod.fst).Nodup)
    {name : String} {v : Json} (hv : (name, v) ∈ fields) :
    (Optional name v ∧ Json.field? name fields' = none) ∨
      ∃ place w, (name, place) ∈ known ∧ R place v w ∧ Json.field? name fields' = some w := by
  induction h with
  | nil => cases hv
  | @keep known first place u w rest rest' hR htail ih =>
    rw [List.map_cons, List.nodup_cons] at hnames
    rw [Json.field?, List.lookup_cons]
    rcases List.mem_cons.1 hv with heq | hrest
    · cases heq
      exact .inr ⟨place, w, List.mem_cons_self, hR, by simp⟩
    · have hskip : (name == first) = false := by
        rw [beq_eq_false_iff_ne]
        rintro rfl
        have hmem : name ∈ rest.map Prod.fst := List.mem_map_of_mem hrest
        exact hnames.1 hmem
      rw [hskip]
      rcases ih hnames.2 hrest with hleft | ⟨place, w, hplace, hkept⟩
      · exact .inl hleft
      · exact .inr ⟨place, w, List.mem_cons_of_mem _ hplace, hkept⟩
  | @drop known first place u rest rest' hdrop htail ih =>
    rw [List.map_cons, List.nodup_cons] at hnames
    rcases List.mem_cons.1 hv with heq | hrest
    · cases heq
      refine .inl ⟨hdrop, Json.field?_eq_none_iff.2 fun hmem => ?_⟩
      exact hnames.1 (htail.sublist.subset hmem)
    · rcases ih hnames.2 hrest with hleft | ⟨place, w, hplace, hkept⟩
      · exact .inl hleft
      · exact .inr ⟨place, w, List.mem_cons_of_mem _ hplace, hkept⟩
  | absent _ ih =>
    rcases ih hnames hv with hleft | ⟨place, w, hplace, hkept⟩
    · exact .inl hleft
    · exact .inr ⟨place, w, List.mem_cons_of_mem _ hplace, hkept⟩

theorem refl (hR : ∀ place v, R place v v)
    (h : (fields.map Prod.fst).Sublist (known.map Prod.fst)) : Trimmed R known fields fields := by
  induction known generalizing fields with
  | nil =>
    cases fields with
    | nil => exact .nil
    | cons f rest => cases h
  | cons k rest ih =>
    cases fields with
    | nil => exact .absent (ih (List.nil_sublist _))
    | cons f more =>
      obtain ⟨name, place⟩ := k
      obtain ⟨name', v⟩ := f
      rw [List.map_cons, List.map_cons] at h
      cases h with
      | cons _ hrest => exact .absent (ih hrest)
      | cons_cons _ hrest => exact .keep (hR _ _) (ih hrest)

end Trimmed

theorem Loosened.of_fixed {v w : Json} (h : Loosened .fixed v w) : w = v := by
  cases h with
  | same => rfl
  | object hknown _ => cases hknown

theorem Loosened.of_nodes {vs : List Json} {w : Json} (h : Loosened .nodes (.arr vs) w) :
    ∃ ws, w = .arr ws ∧ List.Forall₂ (Loosened .node) vs ws := by
  cases h with
  | same => exact ⟨vs, rfl, List.forall₂_same.2 fun v _ => .same _ v⟩
  | nodes hall => exact ⟨_, rfl, hall⟩

/-- What a reader sees of an object that stands in place of another one: `seen` is what is left of
its fields without the unknown ones. -/
structure Sees (known : List (String × Place)) (fields fields' seen : List (String × Json)) :
    Prop where
  names : (fields.map Prod.fst).Nodup
  filter : (fields'.filter fun f => (known.map Prod.fst).contains f.1) = seen
  trimmed : Trimmed Loosened known fields seen

/-- What stands in place of an object is an object. -/
theorem Loosened.of_object {place : Place} {known : List (String × Place)}
    {fields : List (String × Json)} {w : Json} (h : Loosened place (.obj fields) w)
    (hknown : place.known? fields = some known)
    (hsub : (fields.map Prod.fst).Sublist (known.map Prod.fst))
    (hnames : (known.map Prod.fst).Nodup) :
    ∃ fields' seen, w = .obj fields' ∧ Sees known fields fields' seen := by
  cases h with
  | same =>
    have hall : (fields.filter fun f => (known.map Prod.fst).contains f.1) = fields := by
      refine List.filter_eq_self.2 fun f hf => ?_
      exact List.contains_iff_mem.2 (hsub.subset (List.mem_map_of_mem hf))
    exact ⟨fields, fields, rfl, hnames.sublist hsub, hall, .refl .same hsub⟩
  | object hknown' htrimmed =>
    cases hknown.symm.trans hknown'
    exact ⟨_, _, rfl, hnames.sublist hsub, rfl, htrimmed⟩

namespace Sees

variable {known : List (String × Place)} {fields fields' seen : List (String × Json)}
  {name : String} {v : Json}

theorem nodup (h : Sees known fields fields' seen) : (seen.map Prod.fst).Nodup :=
  h.names.sublist h.trimmed.sublist

/-- A reader of records finds the fields that are seen. -/
theorem record? (h : Sees known fields fields' seen) {names : List String}
    (hsub : names ⊆ known.map Prod.fst) :
    ∃ read, Json.record? names (.obj fields') = some read ∧
      ∀ name ∈ names, Json.field? name read = Json.field? name seen :=
  Json.record?_obj h.filter h.nodup hsub

theorem field?_eq (h : Sees known fields fields' seen) (hname : name ∈ known.map Prod.fst) :
    Json.field? name fields' = Json.field? name seen := by
  rw [← h.filter, Json.field?_filter hname]

/-- A field that is seen has a value that may stand at its place. -/
theorem field (h : Sees known fields fields' seen) (place : Place) (hv : (name, v) ∈ fields)
    (hplace : ∀ p, (name, p) ∈ known → p = place) :
    (Optional name v ∧ Json.field? name seen = none) ∨
      ∃ w, Loosened place v w ∧ Json.field? name seen = some w := by
  rcases h.trimmed.field h.names hv with hleft | ⟨p, w, hp, hw, hfield⟩
  · exact .inl hleft
  · cases hplace p hp
    exact .inr ⟨w, hw, hfield⟩

/-- A field that is not optional and whose value is fixed. -/
theorem fixed (h : Sees known fields fields' seen) (hv : (name, v) ∈ fields)
    (hplace : ∀ p, (name, p) ∈ known → p = .fixed) (hneeded : ¬ Optional name v) :
    Json.field? name seen = some v := by
  rcases h.field .fixed hv hplace with ⟨hoptional, -⟩ | ⟨w, hw, hfield⟩
  · exact absurd hoptional hneeded
  · rw [hfield, hw.of_fixed]

end Sees

/-! ## Operators -/

theorem OperatorKind.ofJson?_toJson (kind : OperatorKind) : ofJson? kind.toJson = some kind := by
  cases kind <;> rfl

theorem OperatorForm.ofJson?_word (form : OperatorForm) : ofJson? (.str form.word) = some form := by
  cases form <;> rfl

theorem Operator.ofJson?_loosened {op : Operator} {w : Json} (h : Loosened .operator op.toJson w) :
    ofJson? w = some op := by
  obtain ⟨fields, seen, rfl, hseen⟩ := h.of_object rfl (List.Sublist.refl _) (by decide)
  have hkind : Json.field? "kind" seen = some op.kind.toJson :=
    hseen.fixed (by simp) (by simp) (by simp [Optional])
  have hform : Json.field? "syntax" seen = some (.str op.form.word) :=
    hseen.fixed (by simp) (by simp) (by simp [Optional])
  obtain ⟨read, hread, hfield⟩ := hseen.record? (List.Subset.refl _)
  rw [← hfield "kind" (by simp)] at hkind
  rw [← hfield "syntax" (by simp)] at hform
  simp only [List.map_cons, List.map_nil] at hread
  simp only [ofJson?, hread, hkind, hform, OperatorKind.ofJson?_toJson, OperatorForm.ofJson?_word,
    Option.bind_eq_bind, Option.bind_some]
  rfl

/-! ## Identifiers and literals -/

theorem mapM_str? (names : List String) : (names.map Json.str).mapM Json.str? = some names := by
  induction names with
  | nil => rfl
  | cons name rest ih =>
    simp only [List.map_cons, List.mapM_cons, ih]
    rfl

theorem Identifier.ofJson?_seen {id : Identifier} {fields seen : List (String × Json)}
    (h : Sees [("node", .fixed), ("names", .fixed)]
      [("node", .str "identifier"), ("names", .arr (id.names.map .str))] fields seen) :
    ofJson? (.obj fields) = some id := by
  have hnames : Json.field? "names" seen = some (.arr (id.names.map .str)) :=
    h.fixed (by simp) (by simp) (by simp [Optional])
  obtain ⟨read, hread, hfield⟩ := h.record? (show ["names"] ⊆ _ by simp)
  rw [← hfield "names" (by simp)] at hnames
  simp only [ofJson?, hread, hnames, Json.list?, mapM_str?, Option.bind_eq_bind, Option.bind_some]
  rfl

/-- Whether a literal is finite, if it is a decimal. -/
def Literal.Finite : Literal → Prop
  | .decimal x => x.isFinite = true
  | _ => True

/-- A literal is read off its type and its value. -/
theorem Literal.ofJson?_eq {fields fields' seen : List (String × Json)} {type : String}
    (h : Sees [("node", .fixed), ("type", .fixed), ("value", .fixed)] fields fields' seen)
    (htype : Json.field? "type" seen = some (.str type)) :
    ofJson? (.obj fields') = ofParts? type (Json.field? "value" seen) := by
  obtain ⟨read, hread, hfield⟩ := h.record? (show ["type", "value"] ⊆ _ by simp)
  rw [← hfield "type" (by simp)] at htype
  simp only [ofJson?, hread, htype, hfield "value" (by simp), Option.bind_eq_bind,
    Option.bind_some]
  rfl

def Literal.typeName : Literal → String
  | .null => "null"
  | .boolean _ => "boolean"
  | .integer _ => "integer"
  | .decimal _ => "decimal"
  | .string _ => "string"

def Literal.value? : Literal → Option Json
  | .null => none
  | .boolean b => some (.bool b)
  | .integer i => some (.int i.toInt)
  | .decimal x => some (.ofDouble x)
  | .string s => some (.str s)

theorem Literal.toFields_eq (l : Literal) :
    l.toFields = ("type", .str l.typeName) :: l.value?.toList.map fun v => ("value", v) := by
  cases l <;> rfl

theorem Literal.ofParts?_value {l : Literal} (hl : l.Finite) :
    ofParts? l.typeName l.value? = some l := by
  cases l with
  | integer i => simp [ofParts?, typeName, value?, int64?_toInt]
  | decimal x =>
    have hx : Json.ofDouble x = .float x := if_pos hl
    simp [ofParts?, typeName, value?, hx, Json.double?]
  | _ => rfl

theorem Literal.ofJson?_seen {l : Literal} (hl : l.Finite) {fields seen : List (String × Json)}
    (h : Sees [("node", .fixed), ("type", .fixed), ("value", .fixed)]
      (("node", .str "literal") :: l.toFields) fields seen) :
    ofJson? (.obj fields) = some l := by
  rw [toFields_eq] at h
  have htype : Json.field? "type" seen = some (.str l.typeName) :=
    h.fixed (by simp) (by simp) (by simp [Optional])
  have hvalue : Json.field? "value" seen = l.value? := by
    cases hv : l.value? with
    | some v => exact h.fixed (by simp [hv]) (by simp) (by simp [Optional])
    | none =>
      refine Json.field?_eq_none_iff.2 fun hmem => ?_
      have hnot := h.trimmed.sublist.subset hmem
      simp [hv] at hnot
  rw [ofJson?_eq h htype, hvalue, ofParts?_value hl]

/-! ## Nodes -/

/-- Whether all decimals in a tree are finite. -/
def Node.Finite (n : Node) : Prop :=
  ∀ l, Within (.literal l) n → l.Finite

/-- The kind of a node is found among other fields. -/
theorem NodeTag.among?_seen {known : List (String × Place)}
    {fields fields' seen : List (String × Json)} {kind : String} (nested : Bool)
    (h : Sees known fields fields' seen) (hv : ("node", .str kind) ∈ fields)
    (hknown : "node" ∈ known.map Prod.fst) (hplace : ∀ p, ("node", p) ∈ known → p = .fixed) :
    among? nested fields' = ofJson? nested (.str kind) := by
  have hkind : Json.field? "node" seen = some (.str kind) :=
    h.fixed hv hplace (by simp [Optional])
  have hfilter : (fields'.filter fun f => f.1 == "node") = seen.filter fun f => f.1 == "node" := by
    rw [← h.filter, List.filter_filter]
    refine List.filter_congr fun f _ => ?_
    rw [Bool.eq_iff_iff, Bool.and_eq_true, beq_iff_eq, List.contains_iff_mem]
    exact ⟨fun hf => ⟨hf, hf ▸ hknown⟩, fun hf => hf.1⟩
  simp only [among?, hfilter, Json.filter_name_eq h.nodup hkind]

namespace Node

theorem Finite.of_operand {op : Operator} {operands : List Node} {n : Node}
    (h : Finite (.call op operands)) (hn : n ∈ operands) : n.Finite :=
  fun l hl => h l (.operand hn hl)

theorem operandsIn?_eq (fields : List (String × Json)) :
    operandsIn? fields = ((Json.field? "operands" fields).elim (some []) listOfJson?) := by
  induction fields with
  | nil => rfl
  | cons f rest ih =>
    rw [operandsIn?, Json.field?, List.lookup_cons, BEq.comm]
    cases "operands" == f.1 with
    | true => rfl
    | false => exact ih

theorem listOfJson?_arr (vs : List Json) : listOfJson? (.arr vs) = vs.mapM (ofJson? true) := by
  rw [listOfJson?]
  induction vs with
  | nil => rfl
  | cons v rest ih => rw [allOfJson?, ih, List.mapM_cons]

/-- What a call is read as, if its operator and its operands can be read. -/
theorem ofJson?_call {op : Operator} {operands : List Node} {vs : List Json} (nested : Bool)
    {fields seen : List (String × Json)}
    (h : Sees [("node", .fixed), ("operator", .operator), ("operands", .nodes)]
      [("node", .str "call"), ("operator", op.toJson), ("operands", .arr vs)] fields seen)
    (hoperands : ∀ w, Loosened .nodes (.arr vs) w → listOfJson? w = some operands) :
    ofJson? nested (.obj fields) = some (.call op operands) := by
  have htag : NodeTag.among? nested fields = NodeTag.ofJson? nested (.str "call") :=
    NodeTag.among?_seen nested h (by simp) (by simp) (by simp)
  have hop : Operator.ofCall? (.obj fields) = some op := by
    obtain ⟨read, hread, hfield⟩ := h.record? (show ["operator", "operands"] ⊆ _ by simp)
    rcases h.field .operator (show ("operator", op.toJson) ∈ _ by simp) (by simp) with
      ⟨hoptional, -⟩ | ⟨w, hw, hseen⟩
    · simp [Optional, Operator.toJson] at hoptional
    · rw [← hfield "operator" (by simp)] at hseen
      simp only [Operator.ofCall?, hread, hseen, Option.bind_eq_bind, Option.bind_some,
        Operator.ofJson?_loosened hw]
  have hargs : operandsIn? fields = some operands := by
    rw [operandsIn?_eq, h.field?_eq (by simp)]
    rcases h.field .nodes (show ("operands", .arr vs) ∈ _ by simp) (by simp) with
      ⟨hoptional, hseen⟩ | ⟨w, hw, hseen⟩
    · obtain rfl : vs = [] := by simpa [Optional] using hoptional
      rw [hseen, ← hoperands _ (.same _ _)]
      rfl
    · rw [hseen]
      exact hoperands w hw
  rw [ofJson?]
  simp only [htag, NodeTag.ofJson?, hop, hargs, Option.bind_eq_bind, Option.bind_some]
  rfl

mutual

/-- Whatever stands in place of a node is read as the node. -/
theorem ofJson?_loosened (nested : Bool) : ∀ {n : Node}, n.Finite → ∀ {w : Json},
    Loosened .node n.toJson w → ofJson? nested w = some n
  | .identifier id, _, w, h => by
    rw [toJson] at h
    obtain ⟨fields, seen, rfl, hseen⟩ := h.of_object rfl (List.Sublist.refl _) (by decide)
    have htag : NodeTag.among? nested fields = NodeTag.ofJson? nested (.str "identifier") :=
      NodeTag.among?_seen nested hseen (by simp) (by simp) (by simp)
    rw [ofJson?]
    simp only [htag, NodeTag.ofJson?, Option.bind_eq_bind, Option.bind_some,
      Identifier.ofJson?_seen hseen, Option.map_some]
  | .literal l, hn, w, h => by
    rw [toJson] at h
    have hsub : ((("node", .str "literal") :: l.toFields).map Prod.fst).Sublist
        ["node", "type", "value"] := by
      cases l <;> simp [Literal.toFields]
    obtain ⟨fields, seen, rfl, hseen⟩ := h.of_object rfl hsub (by decide)
    have htag : NodeTag.among? nested fields = NodeTag.ofJson? nested (.str "literal") :=
      NodeTag.among?_seen nested hseen (by simp) (by simp) (by simp)
    rw [ofJson?]
    simp only [htag, NodeTag.ofJson?, Option.bind_eq_bind, Option.bind_some,
      Literal.ofJson?_seen (hn l (.refl _)) hseen, Option.map_some]
  | .call op operands, hn, w, h => by
    rw [toJson] at h
    obtain ⟨fields, seen, rfl, hseen⟩ := h.of_object rfl (List.Sublist.refl _) (by decide)
    refine ofJson?_call nested hseen fun v hv => ?_
    obtain ⟨ws, rfl, hws⟩ := hv.of_nodes
    rw [listOfJson?_arr]
    exact mapM_ofJson?_loosened true (fun n hmem => hn.of_operand hmem) hws

theorem mapM_ofJson?_loosened (nested : Bool) : ∀ {ns : List Node}, (∀ n ∈ ns, n.Finite) →
    ∀ {ws : List Json}, List.Forall₂ (Loosened .node) (allToJson ns) ws →
      ws.mapM (ofJson? nested) = some ns
  | [], _, ws, h => by
    cases h
    rfl
  | n :: rest, hns, ws, h => by
    rw [allToJson] at h
    cases h with
    | cons hw hws =>
      have hn := ofJson?_loosened nested (hns n List.mem_cons_self) hw
      have hrest := mapM_ofJson?_loosened nested
        (fun m hm => hns m (List.mem_cons_of_mem _ hm)) hws
      rw [List.mapM_cons, hn, hrest]
      rfl

end

end Node

/-! ## Selects -/

theorem Loosened.null_of {place : Place} {v : Json} (h : Loosened place v .null) : v = .null := by
  cases h
  rfl

theorem Loosened.of_null {place : Place} {w : Json} (h : Loosened place .null w) : w = .null := by
  cases h
  rfl

section

variable {known : List (String × Place)} {fields fields' seen found : List (String × Json)}
  {name : String}

/-- A clause is read back, whether it is there or not. -/
theorem clause?_seen {α : Type} {read : Json → Option α} {write : α → Json} {c : Option α}
    {place : Place} (h : Sees known fields fields' seen)
    (hmem : (name, clauseToJson write c) ∈ fields) (hplace : ∀ p, (name, p) ∈ known → p = place)
    (hfound : Json.field? name found = Json.field? name seen)
    (hneeded : ∀ a, ¬ Optional name (write a)) (hnull : ∀ a, write a ≠ .null)
    (hread : ∀ a ∈ c, ∀ w, Loosened place (write a) w → read w = some a) :
    clause? read name found = some c := by
  rw [clause?, hfound]
  cases c with
  | none =>
    rcases h.field place hmem hplace with ⟨-, hseen⟩ | ⟨w, hw, hseen⟩
    · rw [hseen]
    · rw [hseen, hw.of_null]
  | some a =>
    rcases h.field place hmem hplace with ⟨hoptional, -⟩ | ⟨w, hw, hseen⟩
    · exact absurd hoptional (hneeded a)
    · rw [hseen]
      have hsome := hread a rfl w hw
      split
      · contradiction
      · next heq =>
        cases heq
        exact absurd hw.null_of (hnull a)
      · next heq =>
        cases heq
        rw [hsome, Option.map_some]

theorem Node.toJson_eq_obj (n : Node) : ∃ fields, n.toJson = .obj fields := by
  cases n <;> exact ⟨_, by rw [toJson]⟩

theorem clause?_node {c : Option Node} (h : Sees known fields fields' seen)
    (hmem : (name, clauseToJson Node.toJson c) ∈ fields)
    (hplace : ∀ p, (name, p) ∈ known → p = .node)
    (hfound : Json.field? name found = Json.field? name seen) (hc : ∀ n ∈ c, n.Finite) :
    clause? (Node.ofJson? false) name found = some c := by
  refine clause?_seen h hmem hplace hfound (fun n => ?_) (fun n => ?_) fun n hn w hw => ?_
  · obtain ⟨inner, heq⟩ := n.toJson_eq_obj
    simp [Optional, heq]
  · obtain ⟨inner, heq⟩ := n.toJson_eq_obj
    simp [heq]
  · exact Node.ofJson?_loosened false (hc n hn) hw

theorem list?_loosened {ns : List Node} (hns : ∀ n ∈ ns, n.Finite) {w : Json}
    (h : Loosened .nodes (.arr (Node.allToJson ns)) w) :
    Json.list? (Node.ofJson? false) w = some ns := by
  obtain ⟨ws, rfl, hws⟩ := h.of_nodes
  exact Node.mapM_ofJson?_loosened false hns hws

theorem clause?_nodes {c : Option (List Node)} (h : Sees known fields fields' seen)
    (hmem : (name, clauseToJson (fun ns => Json.arr (Node.allToJson ns)) c) ∈ fields)
    (hplace : ∀ p, (name, p) ∈ known → p = .nodes)
    (hfound : Json.field? name found = Json.field? name seen)
    (hname : name ≠ "operands" ∧ name ≠ "select_list") (hc : ∀ ns ∈ c, ∀ n ∈ ns, n.Finite) :
    clause? (Json.list? (Node.ofJson? false)) name found = some c := by
  refine clause?_seen h hmem hplace hfound (fun ns => ?_) (fun ns => ?_) fun ns hns w hw => ?_
  · simp [Optional, hname]
  · simp
  · exact list?_loosened (hc ns hns) hw

end

namespace Select

/-- Whether all decimals in a select are finite. -/
def Finite (s : Select) : Prop :=
  ∀ n ∈ s.selectList ++ s.source.toList ++ s.filter.toList ++ s.groupBy.getD [] ++ s.having.toList ++
    s.orderBy.getD [], n.Finite

/-- Whatever stands in place of a select is read as the select. -/
theorem ofJson?_loosened {s : Select} (hs : s.Finite) {v : Json}
    (h : Loosened .select s.toJson v) : ofJson? v = some s := by
  obtain ⟨fields, seen, rfl, hseen⟩ := h.of_object rfl (List.Sublist.refl _) (by decide)
  obtain ⟨found, hfound, hfield⟩ := hseen.record? (show fieldNames ⊆ _ from List.Subset.refl _)
  have hlist : (Json.field? "select_list" found).elim (some [])
      (Json.list? (Node.ofJson? false)) = some s.selectList := by
    rw [hfield "select_list" (by simp [fieldNames])]
    rcases hseen.field .nodes (show ("select_list", .arr (Node.allToJson s.selectList)) ∈ _ by simp)
      (by simp) with ⟨hoptional, hnone⟩ | ⟨w, hw, hsome⟩
    · have hempty : Node.allToJson s.selectList = [] := by simpa [Optional] using hoptional
      rw [hnone]
      cases hitems : s.selectList with
      | nil => rfl
      | cons n rest => simp [hitems, Node.allToJson] at hempty
    · rw [hsome]
      exact list?_loosened (fun n hn => hs n (by simp [hn])) hw
  have hsource : clause? (Node.ofJson? false) "from" found = some s.source :=
    clause?_node hseen (by simp) (by simp) (hfield _ (by simp [fieldNames]))
      fun n hn => hs n (by simp_all)
  have hfilter : clause? (Node.ofJson? false) "where" found = some s.filter :=
    clause?_node hseen (by simp) (by simp) (hfield _ (by simp [fieldNames]))
      fun n hn => hs n (by simp_all)
  have hgroup : clause? (Json.list? (Node.ofJson? false)) "group_by" found = some s.groupBy :=
    clause?_nodes hseen (by simp) (by simp) (hfield _ (by simp [fieldNames])) (by simp)
      fun ns hns n hn => hs n (by simp_all)
  have hhaving : clause? (Node.ofJson? false) "having" found = some s.having :=
    clause?_node hseen (by simp) (by simp) (hfield _ (by simp [fieldNames]))
      fun n hn => hs n (by simp_all)
  have horder : clause? (Json.list? (Node.ofJson? false)) "order_by" found = some s.orderBy :=
    clause?_nodes hseen (by simp) (by simp) (hfield _ (by simp [fieldNames])) (by simp)
      fun ns hns n hn => hs n (by simp_all)
  simp only [ofJson?, hfound, Option.bind_eq_bind, Option.bind_some, hsource, hfilter, hgroup,
    hhaving, horder]
  cases hfirst : Json.field? "select_list" found with
  | none =>
    rw [hfirst] at hlist
    cases s
    cases hlist
    rfl
  | some items =>
    rw [hfirst] at hlist
    simp only [Option.elim_some] at hlist
    simp only [hlist, Option.bind_some]
    rfl

/-- **A select survives JSON.** It is written so that it is read back. Fields with unknown names, in
any object of the written value, change nothing; nor does it change anything to leave out a list of
operands or select items that is empty or a clause that is null. -/
theorem select_survives_json {s : Select} (hs : s.Finite) :
    ofJson? s.toJson = some s ∧ ∀ v, Loosened .select s.toJson v → ofJson? v = some s :=
  ⟨ofJson?_loosened hs (.same _ _), fun _ hv => ofJson?_loosened hs hv⟩

/-- `SELECT NOW(), p.age + 2.0 FROM person GROUP BY` with an empty list of keys. -/
def nowAndThen : Select where
  selectList :=
    [.call ⟨.other "NOW", .function⟩ [],
      .call ⟨.plus, .binary⟩ [.identifier ⟨["p", "age"]⟩, .literal (.decimal (.ofInt 2))]]
  source := some (.identifier ⟨["person"]⟩)
  filter := none
  groupBy := some []
  having := none
  orderBy := none

/-- The same select with remarks of a parser in it, some of which have names that matter
elsewhere. -/
def nowAndThenRemarked : Json :=
  .obj [("dialect", .str "calcite"),
    ("select_list", .arr [
      .obj [("line", .int 1), ("node", .str "call"),
        ("operator", .obj [("kind", .obj [("other", .str "NOW")]), ("syntax", .str "function"),
          ("operands", .null)])],
      .obj [("node", .str "call"),
        ("operator", .obj [("kind", .str "plus"), ("syntax", .str "binary")]),
        ("operands", .arr [
          .obj [("node", .str "identifier"), ("value", .int 3),
            ("names", .arr [.str "p", .str "age"])],
          .obj [("node", .str "literal"), ("type", .str "decimal"), ("value", .float (.ofInt 2)),
            ("names", .null)]])]]),
    ("from", .obj [("node", .str "identifier"), ("names", .arr [.str "person"])]),
    ("group_by", .arr []), ("limit", .int 10)]

theorem nowAndThen_finite : nowAndThen.Finite := by
  simp [Finite, nowAndThen, Node.Finite, Literal.Finite, Decimal.isFinite_ofInt]

theorem nowAndThen_loosened : Loosened .select nowAndThen.toJson nowAndThenRemarked := by
  have hnull {name : String} (h : name ∈ ["from", "where", "group_by", "having", "order_by"]) :
      Optional name .null := .inr ⟨h, rfl⟩
  refine .object rfl (.keep (.nodes (.cons (.object rfl ?_) (.cons (.object rfl ?_) .nil)))
    (.keep (.same _ _) (.drop (hnull (by simp)) (.keep (.same _ _) (.drop (hnull (by simp))
      (.drop (hnull (by simp)) .nil))))))
  · -- `NOW()`: a line in the node, operands of the operator, and no list of operands.
    exact .keep (.same _ _) (.keep
      (.object rfl (.keep (.same _ _) (.keep (.same _ _) .nil)))
      (.drop (.inl ⟨.inl rfl, rfl⟩) .nil))
  · -- `p.age + 2.0`: a value of the identifier and names of the literal.
    exact .keep (.same _ _) (.keep (.same _ _) (.keep
      (.nodes (.cons (.object rfl (.keep (.same _ _) (.keep (.same _ _) .nil)))
        (.cons (.object rfl (.keep (.same _ _) (.keep (.same _ _) (.keep (.same _ _) .nil)))) .nil)))
      .nil))

theorem select_survives_json_nowAndThen :
    nowAndThen.Finite ∧ Loosened .select nowAndThen.toJson nowAndThenRemarked ∧
      ofJson? nowAndThen.toJson = some nowAndThen ∧ ofJson? nowAndThenRemarked = some nowAndThen :=
  have h := select_survives_json nowAndThen_finite
  ⟨nowAndThen_finite, nowAndThen_loosened, h.1, h.2 _ nowAndThen_loosened⟩

end Select

end GraphSelect.Sql
