import GraphSelect.Proofs.Expr.Meaning
import GraphSelect.Proofs.Json.Fields
import GraphSelect.Row.Decoder

/-!
# Cells on their way to a row

The value of a column leaves the server as JSON, or as the marker where there is none, and the
decoder turns it into a cell again. What JSON can carry of the value is not lost on the way if the
value has the type of the column and is not the marker itself.

The columns of a query are kept here as one list of names with their atoms. The fields of a raw
result, the names and types that the decoder goes by and the cells of the row are all read off it,
so that none of them can get out of step.
-/

set_option autoImplicit false

namespace GraphSelect

/-! ## Values and their JSON -/

/-- A value has a type. A point in time is a text; a null has no type. -/
def Scalar.HasType : Scalar → ColumnType → Prop
  | .boolean _, .boolean => True
  | .long _, .integer => True
  | .double _, .float => True
  | .string _, .string => True
  | .string _, .datetime => True
  | _, _ => False

theorem typedValue?_toJson {v : Scalar} {type : ColumnType} (h : v.HasType type) :
    RowDecoder.typedValue? type v.toJson = some v := by
  cases v <;> cases type <;> first
    | exact h.elim
    | simp [RowDecoder.typedValue?, Scalar.toJson, int64?_toInt, Json.double?, Json.bool?,
        Json.str?]

/-- A value survives being sent as a column of a type. -/
def Scalar.Sendable (v : Scalar) (type : ColumnType) : Prop :=
  v = .null ∨ v.HasType type ∧ v ≠ .string nullMarker

theorem decodeValue_toJson {v : Scalar} {type : ColumnType} (column : String)
    (h : v.Sendable type) : RowDecoder.decodeValue column type v.toJson = .ok v := by
  rcases h with rfl | ⟨htype, hmarker⟩
  · rfl
  · have hnull : RowDecoder.isNullValue v.toJson = false := by
      cases v with
      | null => exact htype.elim
      | string t => simpa [RowDecoder.isNullValue, Scalar.toJson] using hmarker
      | boolean b => rfl
      | long i => rfl
      | double x => rfl
    rw [RowDecoder.decodeValue, hnull, typedValue?_toJson htype]
    rfl

/-- What JSON can carry of a value. There is no number for a double that is not finite. -/
def Scalar.carried : Scalar → Scalar
  | .double x => if x.isFinite then .double x else .null
  | v => v

theorem Scalar.serialized_eq (v : Scalar) : v.serialized = v.carried.toJson := by
  cases v with
  | double x => cases hx : x.isFinite <;> simp [serialized, carried, Json.ofDouble, toJson, hx]
  | null | boolean | long | string => rfl

theorem Scalar.serialized_wellFormed (v : Scalar) : v.serialized.WellFormed := by
  cases v with
  | null => exact .null
  | boolean b => exact .bool b
  | long i => exact wellFormed_toInt i
  | double x =>
    rw [serialized, Json.ofDouble]
    split
    · exact .float ‹_›
    · exact .null
  | string s => exact .str s

theorem Scalar.Sendable.carried {v : Scalar} {type : ColumnType} (h : v.Sendable type) :
    v.carried.Sendable type := by
  cases v with
  | double x =>
    rw [Scalar.carried]
    split
    · exact h
    · exact .inl rfl
  | null | boolean | long | string => exact h

theorem decodeValue_serialized {v : Scalar} {type : ColumnType} (column : String)
    (h : v.Sendable type) : RowDecoder.decodeValue column type v.serialized = .ok v.carried := by
  rw [v.serialized_eq]
  exact decodeValue_toJson column h.carried

/-! ## Columns -/

/-- A column of a query: its name in the result and what it is read off. -/
structure NamedAtom where
  name : String
  atom : Atom

namespace NamedAtom

def output (c : NamedAtom) : OutputColumn :=
  ⟨c.name, c.atom.type⟩

/-- The value that is sent for an element: the marker where there is none. -/
def sent (x : Element) (c : NamedAtom) : Scalar :=
  (c.atom.value x).getD (.string nullMarker)

/-- The cell of an element: null where there is no value. -/
def cell (x : Element) (c : NamedAtom) : Scalar :=
  ((c.atom.value x).getD .null).carried

/-- The value of an element, if there is one, survives being sent. -/
def Sendable (x : Element) (c : NamedAtom) : Prop :=
  ∀ v, c.atom.value x = some v → v.Sendable c.atom.type

end NamedAtom

variable {x : Element}

theorem decodeValue_sent {c : NamedAtom} (h : c.Sendable x) :
    RowDecoder.decodeValue c.name c.atom.type (c.sent x).serialized = .ok (c.cell x) := by
  unfold NamedAtom.sent NamedAtom.cell
  cases hv : c.atom.value x with
  | none => rfl
  | some v => exact decodeValue_serialized c.name (h v hv)

/-- The fields of a raw result for an element. -/
def sentFields (x : Element) (columns : List NamedAtom) : List (String × Json) :=
  columns.map fun c => (c.name, (c.sent x).serialized)

theorem sentFields_names (x : Element) (columns : List NamedAtom) :
    (sentFields x columns).map Prod.fst = columns.map NamedAtom.name := by
  rw [sentFields, List.map_map]
  rfl

theorem sentFields_wellFormed {columns : List NamedAtom}
    (hnames : (columns.map NamedAtom.name).Nodup) :
    (Json.obj (sentFields x columns)).WellFormed := by
  refine .obj (sentFields_names x columns ▸ hnames) ?_
  intro f hf
  obtain ⟨c, -, rfl⟩ := List.mem_map.1 hf
  exact (c.sent x).serialized_wellFormed

theorem field?_sentFields {columns : List NamedAtom} (hnames : (columns.map NamedAtom.name).Nodup)
    {c : NamedAtom} (hc : c ∈ columns) :
    Json.field? c.name (sentFields x columns) = some (c.sent x).serialized :=
  field?_of_mem (sentFields_names x columns ▸ hnames) (List.mem_map_of_mem hc)

/-- Several columns are decoded from the fields of all of them. -/
theorem decodeColumns_sentFields {all : List NamedAtom} (hnames : (all.map NamedAtom.name).Nodup)
    (hsend : ∀ c ∈ all, c.Sendable x) {columns : List NamedAtom} (hsub : columns ⊆ all) :
    RowDecoder.decodeColumns (sentFields x all) (columns.map fun c => (c.name, c.atom.type)) =
      .ok (columns.map (NamedAtom.cell x)) := by
  induction columns with
  | nil => rfl
  | cons c rest ih =>
    have hc : c ∈ all := hsub List.mem_cons_self
    have hrest := ih fun b hb => hsub (List.mem_cons_of_mem c hb)
    have hvalue := decodeValue_sent (hsend c hc)
    simp only [List.map_cons, RowDecoder.decodeColumns, field?_sentFields hnames hc, bind,
      Except.bind, hvalue, hrest]
    rfl

def rowOf (columns : List NamedAtom) (x : Element) : Row :=
  ⟨columns.map NamedAtom.name, columns.map (NamedAtom.cell x)⟩

/-- **What is sent for an element is decoded to its row.** -/
theorem decode_sentFields {columns : List NamedAtom} (hnames : (columns.map NamedAtom.name).Nodup)
    (hsend : ∀ c ∈ columns, c.Sendable x) :
    RowDecoder.decode ⟨columns.map NamedAtom.name, columns.map fun c => c.atom.type⟩
      (.obj (sentFields x columns)) = .ok (rowOf columns x) := by
  have hzip : (columns.map NamedAtom.name).zip (columns.map fun c => c.atom.type) =
      columns.map fun c => (c.name, c.atom.type) := by
    simp [List.zip_eq_zipWith]
  have hlength : (sentFields x columns).length = (columns.map NamedAtom.name).length := by
    simp [sentFields]
  have hcells := decodeColumns_sentFields hnames hsend (List.Subset.refl columns)
  simp only [RowDecoder.decode, hlength, ne_eq, not_true_eq_false, ↓reduceIte, hzip, hcells, bind,
    Except.bind]
  rfl

end GraphSelect
