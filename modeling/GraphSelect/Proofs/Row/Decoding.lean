import GraphSelect.Proofs.Decimal.Finite
import GraphSelect.Proofs.Query.RowFormat
import Mathlib

/-!
# Which raw results are rows

A raw result is a row if it is an object that has the columns for its names, and every value can be
read as the type of its column. The decoder does not compare names: it counts the fields and then
looks up one column after the other. That this comes to the same rests on the columns being
different, and so does that the order of the fields cannot matter.

A row is written as an object again, and the decoder reads it back. What is read is never the
marker, and a double that comes from JSON is finite, so no cell is taken for another one.
-/

set_option autoImplicit false

namespace GraphSelect

namespace RowDecoder

/-! ## Values -/

/-- The cell that a value stands for in a column of a type. -/
inductive Reads : ColumnType → Json → Scalar → Prop where
  | null (type : ColumnType) : Reads type .null .null
  | marker (type : ColumnType) : Reads type (.str nullMarker) .null
  | integer (i : Int64) : Reads .integer (.int i.toInt) (.long i)
  | whole (i : Int) : Reads .float (.int i) (.double (Float.ofInt i))
  | float (x : Float) : Reads .float (.float x) (.double x)
  | boolean (b : Bool) : Reads .boolean (.bool b) (.boolean b)
  | string {s : String} : s ≠ nullMarker → Reads .string (.str s) (.string s)
  | datetime {s : String} : s ≠ nullMarker → Reads .datetime (.str s) (.string s)

/-- Whether a value can stand in a column of a type: a null, the marker, or a value of the type. -/
def Fits : ColumnType → Json → Prop
  | _, .null => True
  | type, .str s => s = nullMarker ∨ type = .string ∨ type = .datetime
  | .integer, .int i => -2 ^ 63 ≤ i ∧ i < 2 ^ 63
  | .float, .int _ => True
  | .float, .float _ => True
  | .boolean, .bool _ => True
  | _, _ => False

theorem Reads.fits {type : ColumnType} {v : Json} {cell : Scalar} (h : Reads type v cell) :
    Fits type v := by
  cases h with
  | integer i => exact ⟨i.le_toInt, i.toInt_lt⟩
  | _ => simp [Fits]

/-- A value has at most one reading. -/
theorem Reads.unique {type : ColumnType} {v : Json} {cell cell' : Scalar} (h : Reads type v cell)
    (h' : Reads type v cell') : cell = cell' := by
  generalize hv : v = w at h'
  cases h with
  | integer i =>
    cases h' with
    | integer j =>
      rw [Int64.toInt_inj.1 (Json.int.inj hv)]
    | _ => cases hv
  | marker =>
    cases h' with
    | string hs => exact absurd (Json.str.inj hv).symm hs
    | datetime hs => exact absurd (Json.str.inj hv).symm hs
    | marker => rfl
    | _ => cases hv
  | string hs =>
    cases h' with
    | marker => exact absurd (Json.str.inj hv) hs
    | string => cases hv; rfl
    | _ => cases hv
  | datetime hs =>
    cases h' with
    | marker => exact absurd (Json.str.inj hv) hs
    | datetime => cases hv; rfl
    | _ => cases hv
  | _ =>
    cases h' <;> cases hv
    rfl

theorem Reads.hasType {type : ColumnType} {v : Json} {cell : Scalar} (h : Reads type v cell) :
    cell = .null ∨ cell.HasType type := by
  cases h with
  | null => exact .inl rfl
  | marker => exact .inl rfl
  | _ => exact .inr trivial

/-- **Decoding a value.** It is read, or it does not fit and the fault quotes it. -/
theorem decodeValue_cases (column : String) (type : ColumnType) (v : Json) :
    (∃ cell, Reads type v cell ∧ decodeValue column type v = .ok cell) ∨
      ¬ Fits type v ∧
        decodeValue column type v = .error (.typeMismatch column type (quotation v)) := by
  cases v with
  | null => exact .inl ⟨_, .null type, rfl⟩
  | bool b =>
    cases type with
    | boolean => exact .inl ⟨_, .boolean b, rfl⟩
    | _ => exact .inr ⟨id, rfl⟩
  | int i =>
    cases type with
    | integer =>
      by_cases hi : -2 ^ 63 ≤ i ∧ i < 2 ^ 63
      · obtain ⟨j, rfl⟩ : ∃ j : Int64, j.toInt = i :=
          ⟨.ofInt i, Int64.toInt_ofInt_of_le hi.1 hi.2⟩
        refine .inl ⟨_, .integer j, ?_⟩
        simp [decodeValue, isNullValue, typedValue?, int64?_toInt]
      · refine .inr ⟨hi, ?_⟩
        have hnone : Json.int64? (.int i) = none := by
          rw [Json.int64?, if_neg]
          rintro ⟨hlow, hhigh⟩
          exact hi ⟨hlow, Int.lt_add_one_of_le hhigh⟩
        simp [decodeValue, isNullValue, typedValue?, hnone]
    | float => exact .inl ⟨_, .whole i, rfl⟩
    | _ => exact .inr ⟨id, rfl⟩
  | float x =>
    cases type with
    | float => exact .inl ⟨_, .float x, rfl⟩
    | _ => exact .inr ⟨id, rfl⟩
  | str s =>
    by_cases hs : s = nullMarker
    · subst hs
      exact .inl ⟨_, .marker type, by simp [decodeValue, isNullValue]⟩
    · cases type with
      | string => exact .inl ⟨_, .string hs, by simp [decodeValue, isNullValue, hs, typedValue?,
          Json.str?]⟩
      | datetime => exact .inl ⟨_, .datetime hs, by simp [decodeValue, isNullValue, hs, typedValue?,
          Json.str?]⟩
      | _ => exact .inr ⟨by simp [Fits, hs], by simp [decodeValue, isNullValue, hs, typedValue?,
          Json.int64?, Json.double?, Json.bool?]⟩
  | arr items => cases type <;> exact .inr ⟨id, rfl⟩
  | obj fields => cases type <;> exact .inr ⟨id, rfl⟩

theorem decodeValue_eq_ok_iff {column : String} {type : ColumnType} {v : Json} {cell : Scalar} :
    decodeValue column type v = .ok cell ↔ Reads type v cell := by
  rcases decodeValue_cases column type v with ⟨found, hreads, hvalue⟩ | ⟨hfits, hvalue⟩
  · rw [hvalue, Except.ok.injEq]
    constructor
    · rintro rfl
      exact hreads
    · exact hreads.unique
  · rw [hvalue]
    simp only [reduceCtorEq, false_iff]
    exact fun h => hfits h.fits

theorem decodeValue_eq_error_iff {column : String} {type : ColumnType} {v : Json} {fault : Fault} :
    decodeValue column type v = .error fault ↔
      ¬ Fits type v ∧ fault = .typeMismatch column type (quotation v) := by
  rcases decodeValue_cases column type v with ⟨found, hreads, hvalue⟩ | ⟨hfits, hvalue⟩
  · rw [hvalue]
    simp [hreads.fits]
  · rw [hvalue, Except.error.injEq]
    simp [hfits, eq_comm]

theorem Fits.reads {type : ColumnType} {v : Json} (h : Fits type v) : ∃ cell, Reads type v cell := by
  rcases decodeValue_cases "" type v with ⟨cell, hreads, -⟩ | ⟨hfits, -⟩
  · exact ⟨cell, hreads⟩
  · exact absurd h hfits

/-! ## Columns -/

variable {fields fields' : List (String × Json)} {columns : List (String × ColumnType)}

theorem decodes_iff (h : (fields.map Prod.fst).Nodup) {column : String × ColumnType}
    {cell : Scalar} :
    Decodes fields column cell ↔ ∃ v, (column.1, v) ∈ fields ∧ Reads column.2 v cell := by
  simp only [Decodes, Json.field?_eq_some_iff h, decodeValue_eq_ok_iff]

/-- What is wrong with a column: it has no field, or a value that does not fit. -/
inductive Offends (fields : List (String × Json)) : String × ColumnType → Fault → Prop where
  | missing {column : String × ColumnType} : column.1 ∉ fields.map Prod.fst →
      Offends fields column (.missingColumn column.1)
  | mistyped {column : String × ColumnType} {v : Json} : (column.1, v) ∈ fields →
      ¬ Fits column.2 v → Offends fields column (.typeMismatch column.1 column.2 (quotation v))

/-- The fault of the first column that has one: every column before it has a value that fits. -/
def FirstOffends (fields : List (String × Json)) (columns : List (String × ColumnType))
    (fault : Fault) : Prop :=
  ∃ before column after, columns = before ++ column :: after ∧
    (∀ c ∈ before, ∃ v, (c.1, v) ∈ fields ∧ Fits c.2 v) ∧ Offends fields column fault

theorem decodeColumns_cons_of_decodes {column : String × ColumnType} {cell : Scalar}
    {rest : List (String × ColumnType)} (h : Decodes fields column cell) :
    decodeColumns fields (column :: rest) =
      (decodeColumns fields rest).map (cell :: ·) := by
  obtain ⟨v, hv, hvalue⟩ := h
  simp only [decodeColumns, hv, hvalue, bind, Except.bind]
  cases decodeColumns fields rest <;> rfl

theorem decodeColumns_cons_of_offends (hkeys : (fields.map Prod.fst).Nodup)
    {column : String × ColumnType} {fault : Fault} {rest : List (String × ColumnType)}
    (h : Offends fields column fault) : decodeColumns fields (column :: rest) = .error fault := by
  cases h with
  | missing hmissing =>
    simp only [decodeColumns, Json.field?_eq_none_iff.2 hmissing, bind, Except.bind]
  | @mistyped v hv hfits =>
    have hvalue : decodeValue column.1 column.2 v = .error _ :=
      decodeValue_eq_error_iff.2 ⟨hfits, rfl⟩
    simp only [decodeColumns, field?_of_mem hkeys hv, hvalue, bind, Except.bind]

/-- A column is decoded or it has a fault. -/
theorem decodes_or_offends (hkeys : (fields.map Prod.fst).Nodup) (column : String × ColumnType) :
    (∃ cell, Decodes fields column cell) ∨ ∃ fault, Offends fields column fault := by
  cases hv : Json.field? column.1 fields with
  | none => exact .inr ⟨_, .missing (Json.field?_eq_none_iff.1 hv)⟩
  | some v =>
    by_cases hfits : Fits column.2 v
    · obtain ⟨cell, hreads⟩ := hfits.reads
      exact .inl ⟨cell, v, hv, decodeValue_eq_ok_iff.2 hreads⟩
    · exact .inr ⟨_, .mistyped ((Json.field?_eq_some_iff hkeys).1 hv) hfits⟩

/-- The columns before a fault do not hide it, and those after it are not looked at. -/
theorem decodeColumns_of_firstOffends (hkeys : (fields.map Prod.fst).Nodup) {fault : Fault}
    (h : FirstOffends fields columns fault) : decodeColumns fields columns = .error fault := by
  obtain ⟨before, column, after, rfl, hbefore, hfault⟩ := h
  induction before with
  | nil => exact decodeColumns_cons_of_offends hkeys hfault
  | cons first rest ih =>
    rw [List.forall_mem_cons] at hbefore
    obtain ⟨v, hv, hfits⟩ := hbefore.1
    obtain ⟨cell, hreads⟩ := hfits.reads
    have hfirst : Decodes fields first cell := (decodes_iff hkeys).2 ⟨v, hv, hreads⟩
    rw [List.cons_append, decodeColumns_cons_of_decodes hfirst, ih hbefore.2]
    rfl

/-- **Decoding the columns.** All of them are decoded, or there is a first one with a fault. -/
theorem decodeColumns_outcome (hkeys : (fields.map Prod.fst).Nodup)
    (columns : List (String × ColumnType)) :
    (∃ cells, decodeColumns fields columns = .ok cells ∧
      List.Forall₂ (Decodes fields) columns cells) ∨
    ∃ fault, FirstOffends fields columns fault := by
  induction columns with
  | nil => exact .inl ⟨[], rfl, .nil⟩
  | cons column rest ih =>
    rcases decodes_or_offends hkeys column with ⟨cell, hcell⟩ | ⟨fault, hfault⟩
    · rcases ih with ⟨cells, hcells, hall⟩ | ⟨fault, before, other, after, rfl, hbefore, hfault⟩
      · refine .inl ⟨cell :: cells, ?_, .cons hcell hall⟩
        rw [decodeColumns_cons_of_decodes hcell, hcells]
        rfl
      · obtain ⟨v, hv, hreads⟩ := (decodes_iff hkeys).1 hcell
        refine .inr ⟨fault, column :: before, other, after, rfl, ?_, hfault⟩
        exact List.forall_mem_cons.2 ⟨⟨v, hv, hreads.fits⟩, hbefore⟩
    · exact .inr ⟨fault, [], column, rest, rfl, by simp, hfault⟩

theorem decodeColumns_eq_ok_iff (hkeys : (fields.map Prod.fst).Nodup) {cells : List Scalar} :
    decodeColumns fields columns = .ok cells ↔ List.Forall₂ (Decodes fields) columns cells := by
  constructor
  · intro h
    rcases decodeColumns_outcome hkeys columns with ⟨found, hfound, hall⟩ | ⟨fault, hfault⟩
    · cases hfound.symm.trans h
      exact hall
    · cases (decodeColumns_of_firstOffends hkeys hfault).symm.trans h
  · intro h
    induction h with
    | nil => rfl
    | cons hcell _ ih =>
      rw [decodeColumns_cons_of_decodes hcell, ih]
      rfl

theorem decodeColumns_eq_error_iff (hkeys : (fields.map Prod.fst).Nodup) {fault : Fault} :
    decodeColumns fields columns = .error fault ↔ FirstOffends fields columns fault := by
  constructor
  · intro h
    rcases decodeColumns_outcome hkeys columns with ⟨cells, hcells, -⟩ | ⟨found, hfound⟩
    · cases hcells.symm.trans h
    · cases (decodeColumns_of_firstOffends hkeys hfound).symm.trans h
      exact hfound
  · exact decodeColumns_of_firstOffends hkeys

/-- Decoding goes by the names of the fields and not by their places. -/
theorem decodeColumns_congr (h : ∀ name, Json.field? name fields' = Json.field? name fields) :
    decodeColumns fields' columns = decodeColumns fields columns := by
  induction columns with
  | nil => rfl
  | cons column rest ih => simp only [decodeColumns, h, ih]

/-! ## Rows -/

/-- Whether a raw result is a row: its names are the columns, and their values fit. -/
def Accepts (d : RowDecoder) : Json → Prop
  | .obj fields =>
    (∀ name, name ∈ fields.map Prod.fst ↔ name ∈ d.columns) ∧
      ∀ column ∈ d.columns.zip d.types, ∀ v, (column.1, v) ∈ fields → Fits column.2 v
  | _ => False

/-- Why a raw result is no row. -/
inductive Rejects (d : RowDecoder) : Json → Fault → Prop where
  | notARow {raw : Json} : raw.obj? = none → Rejects d raw (.notARow (quotation raw))
  | count {fields : List (String × Json)} : fields.length ≠ d.columns.length →
      Rejects d (.obj fields) (.decodeMismatch d.columns.length fields.length)
  | column {fields : List (String × Json)} {fault : Fault} :
      fields.length = d.columns.length → FirstOffends fields (d.columns.zip d.types) fault →
      Rejects d (.obj fields) fault

/-- The cell of a column: what its value stands for, and what the row has under its name. -/
def CellOf (fields : List (String × Json)) (row : Row) (column : String × ColumnType)
    (cell : Scalar) : Prop :=
  row.get? column.1 = some cell ∧ (cell = .null ∨ cell.HasType column.2) ∧
    ∃ v, (column.1, v) ∈ fields ∧ Reads column.2 v cell

variable {d : RowDecoder}

theorem decode_obj (h : fields.length = d.columns.length) :
    d.decode (.obj fields) =
      (decodeColumns fields (d.columns.zip d.types)).map fun cells => ⟨d.columns, cells⟩ := by
  simp only [decode, h, ne_eq, not_true_eq_false, ↓reduceIte, bind, Except.bind]
  cases decodeColumns fields (d.columns.zip d.types) <;> rfl

theorem decode_obj_of_length_ne (h : fields.length ≠ d.columns.length) :
    d.decode (.obj fields) = .error (.decodeMismatch d.columns.length fields.length) := by
  simp only [decode, ne_eq, h, not_false_eq_true, ↓reduceIte]

theorem decode_of_obj?_eq_none {raw : Json} (h : raw.obj? = none) :
    d.decode raw = .error (.notARow (quotation raw)) := by
  cases raw with
  | obj fields => cases h
  | _ => rfl

/-- A row comes from an object with as many fields as there are columns. -/
theorem decode_ok {raw : Json} {row : Row} (h : d.decode raw = .ok row) :
    ∃ fields, raw = .obj fields ∧ fields.length = d.columns.length ∧ row.columns = d.columns ∧
      decodeColumns fields (d.columns.zip d.types) = .ok row.values := by
  cases raw with
  | obj fields =>
    by_cases hcount : fields.length = d.columns.length
    · rw [decode_obj hcount] at h
      cases hcells : decodeColumns fields (d.columns.zip d.types) with
      | ok cells =>
        rw [hcells] at h
        cases h
        exact ⟨fields, rfl, hcount, rfl, hcells⟩
      | error fault =>
        rw [hcells] at h
        cases h
    · rw [decode_obj_of_length_ne hcount] at h
      cases h
  | _ => cases h

/-- With as many names as columns, no two columns alike and a name for each column, there is no
other name: the pigeonhole principle. -/
theorem mem_names_iff {names columns : List String} (hcolumns : columns.Nodup)
    (hcount : names.length = columns.length) (hsub : columns ⊆ names) (name : String) :
    name ∈ names ↔ name ∈ columns :=
  ((hcolumns.subperm hsub).perm_of_length_le hcount.le).mem_iff.symm

theorem length_eq_of_mem_iff {names columns : List String} (hnames : names.Nodup)
    (hcolumns : columns.Nodup) (h : ∀ name, name ∈ names ↔ name ∈ columns) :
    names.length = columns.length :=
  ((List.perm_ext_iff_of_nodup hnames hcolumns).2 h).length_eq

theorem mem_zip_of_mem_zip_zip {columns : List String} {types : List ColumnType}
    {cells : List Scalar} {column : String × ColumnType} {cell : Scalar}
    (h : (column, cell) ∈ (columns.zip types).zip cells) : (column.1, cell) ∈ columns.zip cells := by
  obtain ⟨i, hi⟩ := List.mem_iff_getElem?.1 h
  rw [List.getElem?_zip_eq_some] at hi
  obtain ⟨hcolumn, hcell⟩ := hi
  rw [List.getElem?_zip_eq_some] at hcolumn
  exact List.mem_iff_getElem?.2 ⟨i, List.getElem?_zip_eq_some.2 ⟨hcolumn.1, hcell⟩⟩

end RowDecoder

/-- The cell under the name of a column, where no two columns are alike. -/
theorem Row.get?_of_mem_zip {columns : List String} {cells : List Scalar} {name : String}
    {cell : Scalar} (hcolumns : columns.Nodup) (h : (name, cell) ∈ columns.zip cells) :
    Row.get? ⟨columns, cells⟩ name = some cell := by
  obtain ⟨i, hi⟩ := List.mem_iff_getElem?.1 h
  obtain ⟨hname, hcell⟩ := List.getElem?_zip_eq_some.1 hi
  have hlt : i < columns.length := (List.getElem?_eq_some_iff.1 hname).1
  have hfind : (columns.findIdx? fun c => c == name) = some i := by
    refine List.findIdx?_eq_some_iff_getElem.2 ⟨hlt, ?_, fun j hj heq => ?_⟩
    · simpa using (List.getElem?_eq_some_iff.1 hname).2
    · have hsame : columns[j]? = columns[i]? := by
        rw [hname, List.getElem?_eq_getElem (hj.trans hlt), eq_of_beq heq]
      exact hj.ne ((List.getElem?_inj (hj.trans hlt) hcolumns).1 hsame)
  simp only [Row.get?, hfind, hcell]

namespace RowDecoder

variable {d : RowDecoder} {fields fields' : List (String × Json)}

/-- Every column is looked at if there is a type for each. -/
theorem mem_columns_iff (htypes : d.types.length = d.columns.length) {name : String} :
    name ∈ d.columns ↔ ∃ column ∈ d.columns.zip d.types, column.1 = name := by
  rw [← List.mem_map, List.map_fst_zip htypes.ge]

theorem accepts_of_decode_ok (hcolumns : d.columns.Nodup)
    (htypes : d.types.length = d.columns.length) (hkeys : (fields.map Prod.fst).Nodup)
    {cells : List Scalar} (hcount : fields.length = d.columns.length)
    (h : decodeColumns fields (d.columns.zip d.types) = .ok cells) : d.Accepts (.obj fields) := by
  have hread : ∀ column ∈ d.columns.zip d.types, ∃ v, (column.1, v) ∈ fields ∧ Fits column.2 v := by
    intro column hcolumn
    obtain ⟨cell, -, hcell⟩ := exists_of_mem_forall₂ ((decodeColumns_eq_ok_iff hkeys).1 h) hcolumn
    obtain ⟨v, hv, hreads⟩ := (decodes_iff hkeys).1 hcell
    exact ⟨v, hv, hreads.fits⟩
  have hsub : d.columns ⊆ fields.map Prod.fst := by
    intro name hname
    obtain ⟨column, hcolumn, rfl⟩ := (mem_columns_iff htypes).1 hname
    obtain ⟨v, hv, -⟩ := hread column hcolumn
    exact List.mem_map_of_mem hv
  refine ⟨mem_names_iff hcolumns (by rw [List.length_map, hcount]) hsub, ?_⟩
  intro column hcolumn v hv
  obtain ⟨w, hw, hfits⟩ := hread column hcolumn
  have hv' := (Json.field?_eq_some_iff hkeys).2 hv
  have hw' := (Json.field?_eq_some_iff hkeys).2 hw
  cases hv'.symm.trans hw'
  exact hfits

theorem decode_ok_of_accepts (hcolumns : d.columns.Nodup)
    (htypes : d.types.length = d.columns.length) (hkeys : (fields.map Prod.fst).Nodup)
    (h : d.Accepts (.obj fields)) : ∃ row, d.decode (.obj fields) = .ok row := by
  obtain ⟨hnames, hfits⟩ := h
  have hcount : fields.length = d.columns.length := by
    rw [← length_eq_of_mem_iff hkeys hcolumns hnames, List.length_map]
  rw [decode_obj hcount]
  rcases decodeColumns_outcome hkeys (d.columns.zip d.types) with
    ⟨cells, hcells, -⟩ | ⟨fault, before, column, after, hsplit, -, hfault⟩
  · exact ⟨⟨d.columns, cells⟩, by rw [hcells]; rfl⟩
  · have hcolumn : column ∈ d.columns.zip d.types := by simp [hsplit]
    cases hfault with
    | missing hmissing =>
      exact absurd ((hnames _).2 ((mem_columns_iff htypes).2 ⟨column, hcolumn, rfl⟩)) hmissing
    | mistyped hv hnot => exact absurd (hfits column hcolumn _ hv) hnot

/-- The cells of a decoded row, one for each column. -/
theorem cells_of_decode_ok (hcolumns : d.columns.Nodup)
    (hkeys : (fields.map Prod.fst).Nodup) {row : Row} (hrow : row.columns = d.columns)
    (h : decodeColumns fields (d.columns.zip d.types) = .ok row.values) :
    List.Forall₂ (CellOf fields row) (d.columns.zip d.types) row.values := by
  have hall := List.forall₂_iff_zip.1 ((decodeColumns_eq_ok_iff hkeys).1 h)
  refine List.forall₂_iff_zip.2 ⟨hall.1, fun {column cell} hcell => ?_⟩
  obtain ⟨v, hv, hreads⟩ := (decodes_iff hkeys).1 (hall.2 hcell)
  refine ⟨?_, hreads.hasType, v, hv, hreads⟩
  have hget := Row.get?_of_mem_zip hcolumns (mem_zip_of_mem_zip_zip hcell)
  rwa [← hrow] at hget

theorem rejects_of_decode_error {raw : Json} (hraw : raw.WellFormed) {fault : Fault}
    (h : d.decode raw = .error fault) : Rejects d raw fault := by
  cases hraw with
  | @obj fields hkeys _ =>
    by_cases hcount : fields.length = d.columns.length
    · rw [decode_obj hcount] at h
      cases hcells : decodeColumns fields (d.columns.zip d.types) with
      | ok cells =>
        rw [hcells] at h
        cases h
      | error found =>
        rw [hcells] at h
        cases h
        exact .column hcount ((decodeColumns_eq_error_iff hkeys).1 hcells)
    · rw [decode_obj_of_length_ne hcount] at h
      cases h
      exact .count hcount
  | _ =>
    cases h
    exact .notARow rfl

theorem decode_error_of_rejects {raw : Json} (hraw : raw.WellFormed) {fault : Fault}
    (h : Rejects d raw fault) : d.decode raw = .error fault := by
  cases h with
  | notARow hraw => exact decode_of_obj?_eq_none hraw
  | count hcount => exact decode_obj_of_length_ne hcount
  | column hcount hfirst =>
    cases hraw with
    | obj hkeys _ =>
      rw [decode_obj hcount, (decodeColumns_eq_error_iff hkeys).2 hfirst]
      rfl

theorem decode_obj_perm (hkeys : (fields.map Prod.fst).Nodup) (h : fields'.Perm fields) :
    d.decode (.obj fields') = d.decode (.obj fields) := by
  have hkeys' : (fields'.map Prod.fst).Nodup := (h.map Prod.fst).nodup_iff.2 hkeys
  have hfield : ∀ name, Json.field? name fields' = Json.field? name fields := by
    intro name
    apply Option.ext
    intro v
    rw [Json.field?_eq_some_iff hkeys, Json.field?_eq_some_iff hkeys', h.mem_iff]
  by_cases hcount : fields.length = d.columns.length
  · rw [decode_obj hcount, decode_obj (h.length_eq.trans hcount), decodeColumns_congr hfield]
  · have hcount' : fields'.length ≠ d.columns.length := fun heq =>
      hcount (h.length_eq.symm.trans heq)
    rw [decode_obj_of_length_ne hcount, decode_obj_of_length_ne hcount', h.length_eq]

/-- **Decoding accepts exactly the well-typed rows.** For a decoder with different columns and a
type for each: a raw result is decoded iff its names are the columns and their values fit. A decoded
row has one cell for each column, in their order, which is what the value under that name stands
for, and a null or of the column's type; and it is found under that name. A raw result is refused
for not being an object, or for the number of its fields, or else for the first column that has no
field or a value that does not fit. The order of the fields changes nothing, not even the fault. -/
theorem decode_accepts_exactly (hcolumns : d.columns.Nodup)
    (htypes : d.types.length = d.columns.length) {raw : Json} (hraw : raw.WellFormed) :
    ((∃ row, d.decode raw = .ok row) ↔ d.Accepts raw) ∧
    (∀ row, d.decode raw = .ok row → ∃ fields, raw = .obj fields ∧ row.columns = d.columns ∧
      row.values.length = d.columns.length ∧
      List.Forall₂ (CellOf fields row) (d.columns.zip d.types) row.values) ∧
    (∀ fault, d.decode raw = .error fault ↔ Rejects d raw fault) ∧
    ∀ fields fields', raw = .obj fields → fields'.Perm fields →
      d.decode (.obj fields') = d.decode raw := by
  have hkeys : ∀ fields, raw = .obj fields → (fields.map Prod.fst).Nodup := by
    rintro fields rfl
    cases hraw with
    | obj hkeys _ => exact hkeys
  refine ⟨⟨?_, fun h => ?_⟩, fun row h => ?_, fun fault => ?_, ?_⟩
  · rintro ⟨row, h⟩
    obtain ⟨fields, rfl, hcount, -, hcells⟩ := decode_ok h
    exact accepts_of_decode_ok hcolumns htypes (hkeys fields rfl) hcount hcells
  · cases raw with
    | obj fields => exact decode_ok_of_accepts hcolumns htypes (hkeys fields rfl) h
    | _ => exact h.elim
  · obtain ⟨fields, rfl, -, hrow, hcells⟩ := decode_ok h
    have hall := cells_of_decode_ok hcolumns (hkeys fields rfl) hrow hcells
    refine ⟨fields, rfl, hrow, ?_, hall⟩
    rw [← hall.length_eq, List.length_zip, htypes, Nat.min_self]
  · exact ⟨rejects_of_decode_error hraw, decode_error_of_rejects hraw⟩
  · rintro fields fields' rfl hperm
    exact decode_obj_perm (hkeys fields rfl) hperm

def nameAgeScore : RowDecoder :=
  ⟨["name", "age", "score"], [.string, .integer, .float]⟩

theorem wellFormed_intsAndText {a b c text : String} {i j : Int} (hnames : [a, b, c].Nodup)
    (hi : (Json.int i).WellFormed) (hj : (Json.int j).WellFormed) :
    (Json.obj [(a, .int i), (b, .int j), (c, .str text)]).WellFormed := by
  refine .obj hnames fun f hf => ?_
  simp only [List.mem_cons, List.not_mem_nil, or_false] at hf
  rcases hf with rfl | rfl | rfl
  · exact hi
  · exact hj
  · exact .str text

/-- A row, in another order than the columns, with a marker and a whole number for a double. -/
def unnamed : List (String × Json) :=
  [("score", .int 2), ("age", .int 41), ("name", .str nullMarker)]

theorem unnamed_wellFormed : (Json.obj unnamed).WellFormed :=
  wellFormed_intsAndText (by decide) (.int (by decide) (by decide)) (.int (by decide) (by decide))

/-- As many fields as columns, an age that is one too large and, later, no score. -/
def tooOld : List (String × Json) :=
  [("age", .int (2 ^ 63)), ("rank", .int 1), ("name", .str "marko")]

theorem tooOld_wellFormed : (Json.obj tooOld).WellFormed :=
  wellFormed_intsAndText (by decide) (.int (by decide) (by decide)) (.int (by decide) (by decide))

theorem decode_accepts_exactly_nameAgeScore :
    nameAgeScore.columns.Nodup ∧ nameAgeScore.types.length = nameAgeScore.columns.length ∧
    (Json.obj unnamed).WellFormed ∧ (Json.obj tooOld).WellFormed ∧
    ((∃ row, nameAgeScore.decode (.obj unnamed) = .ok row) ↔
      nameAgeScore.Accepts (.obj unnamed)) ∧
    (∀ row, nameAgeScore.decode (.obj unnamed) = .ok row →
      ∃ fields, Json.obj unnamed = .obj fields ∧ row.columns = ["name", "age", "score"] ∧
        row.values.length = 3 ∧
        List.Forall₂ (CellOf fields row) [("name", .string), ("age", .integer), ("score", .float)]
          row.values) ∧
    nameAgeScore.decode (.obj unnamed.reverse) = nameAgeScore.decode (.obj unnamed) ∧
    nameAgeScore.decode (.obj tooOld) =
      .error (.typeMismatch "age" .integer (quotation (.int (2 ^ 63)))) := by
  have hcolumns : nameAgeScore.columns.Nodup := by decide
  obtain ⟨haccepts, hrow, -, horder⟩ := decode_accepts_exactly hcolumns rfl unnamed_wellFormed
  obtain ⟨-, -, hfault, -⟩ := decode_accepts_exactly hcolumns rfl tooOld_wellFormed
  refine ⟨hcolumns, rfl, unnamed_wellFormed, tooOld_wellFormed, haccepts, hrow,
    horder _ _ rfl (List.reverse_perm _), (hfault _).2 (.column rfl ?_)⟩
  refine ⟨[("name", .string)], ("age", .integer), [("score", .float)], rfl, ?_, ?_⟩
  · simp only [List.forall_mem_singleton]
    exact ⟨.str "marko", by simp [tooOld], by simp [Fits]⟩
  · exact .mistyped (by simp [tooOld]) (by simp [Fits])

/-! ## Writing a row -/

/-- A cell that was read survives being sent: it is not the marker. -/
theorem Reads.sendable {type : ColumnType} {v : Json} {cell : Scalar} (h : Reads type v cell) :
    cell.Sendable type := by
  cases h with
  | null => exact .inl rfl
  | marker => exact .inl rfl
  | string hs => exact .inr ⟨trivial, by simpa using hs⟩
  | datetime hs => exact .inr ⟨trivial, by simpa using hs⟩
  | _ => exact .inr ⟨trivial, by simp⟩

/-- A cell that was read off JSON is serialized as it is: its double is finite. -/
theorem Reads.serialized_eq {type : ColumnType} {v : Json} {cell : Scalar} (h : Reads type v cell)
    (hv : v.WellFormed) : cell.serialized = cell.toJson := by
  cases h with
  | whole i =>
    cases hv with
    | int hlow hhigh =>
      simp [Scalar.serialized, Scalar.toJson, Json.ofDouble, Decimal.isFinite_ofInt hlow hhigh]
  | float x =>
    cases hv with
    | float hx => simp [Scalar.serialized, Scalar.toJson, Json.ofDouble, hx]
  | _ => rfl

/-- **A serialized row is decoded to itself.** A row that was decoded is written as an object with
the columns for its names, in their order. Integers are written as integers and doubles as doubles,
none of which becomes a null, and decoding the object gives the row again. -/
theorem serialized_row_decodes (hcolumns : d.columns.Nodup)
    (htypes : d.types.length = d.columns.length) {raw : Json} (hraw : raw.WellFormed) {row : Row}
    (h : d.decode raw = .ok row) :
    ∃ fields, row.toJson = .obj fields ∧ fields.map Prod.fst = d.columns ∧
      fields.map Prod.snd = row.values.map Scalar.toJson ∧ d.decode row.toJson = .ok row := by
  obtain ⟨fields, rfl, hcount, hrow, hcells⟩ := decode_ok h
  cases hraw with
  | obj hkeys hvalues =>
    have hall := cells_of_decode_ok hcolumns hkeys hrow hcells
    have hlength : row.values.length = d.columns.length := by
      rw [← hall.length_eq, List.length_zip, htypes, Nat.min_self]
    have hserialized : row.values.map Scalar.serialized = row.values.map Scalar.toJson := by
      refine List.map_congr_left fun cell hcell => ?_
      obtain ⟨column, -, -, -, v, hv, hreads⟩ := exists_of_mem_forall₂ hall.flip hcell
      exact hreads.serialized_eq (hvalues _ hv)
    have hjson : row.toJson = .obj (d.columns.zip (row.values.map Scalar.toJson)) := by
      rw [Row.toJson, hserialized, hrow]
    have hnames : (d.columns.zip (row.values.map Scalar.toJson)).map Prod.fst = d.columns :=
      List.map_fst_zip (by rw [List.length_map, hlength])
    have hwritten : List.Forall₂ (Decodes (d.columns.zip (row.values.map Scalar.toJson)))
        (d.columns.zip d.types) row.values := by
      obtain ⟨hlen, hpairs⟩ := List.forall₂_iff_zip.1 hall
      refine List.forall₂_iff_zip.2 ⟨hlen, fun {column cell} hcell => ?_⟩
      obtain ⟨-, -, v, -, hreads⟩ := hpairs hcell
      have hfield : (column.1, cell.toJson) ∈ d.columns.zip (row.values.map Scalar.toJson) := by
        rw [List.zip_map_right]
        exact List.mem_map_of_mem (mem_zip_of_mem_zip_zip hcell)
      exact ⟨cell.toJson, field?_of_mem (by rw [hnames]; exact hcolumns) hfield,
        decodeValue_toJson column.1 hreads.sendable⟩
    refine ⟨_, hjson, hnames, List.map_snd_zip (by rw [List.length_map, hlength]), ?_⟩
    have hwritten := (decodeColumns_eq_ok_iff (by rw [hnames]; exact hcolumns)).2 hwritten
    rw [hjson, decode_obj (by simp [hlength]), hwritten, ← hrow]
    rfl

theorem serialized_row_decodes_nameAgeScore :
    ∃ row, nameAgeScore.decode (.obj unnamed) = .ok row ∧
      row = ⟨["name", "age", "score"], [.null, .long 41, .double (.ofInt 2)]⟩ ∧
      ∃ fields, row.toJson = .obj fields ∧ fields.map Prod.fst = ["name", "age", "score"] ∧
        fields.map Prod.snd = [.null, .int 41, .float (.ofInt 2)] ∧
        nameAgeScore.decode row.toJson = .ok row := by
  have hcolumns : nameAgeScore.columns.Nodup := by decide
  have hdecode : nameAgeScore.decode (.obj unnamed) =
      .ok ⟨["name", "age", "score"], [.null, .long 41, .double (.ofInt 2)]⟩ := by rfl
  exact ⟨_, hdecode, rfl, serialized_row_decodes hcolumns rfl unnamed_wellFormed hdecode⟩

end RowDecoder

end GraphSelect
