/-!
# Cutting long texts

A fault quotes the value that caused it. The quotation is bounded in bytes, since that is what a log
line is measured in, but it never splits a character: the cut goes back to the last boundary.

Going back one byte more is possible only behind the front of the text. The search says so in its
type; that it never gets stuck is proved here, since a cut relies on it.
-/

set_option autoImplicit false

namespace GraphSelect.Text

/-- The boundary between characters that is met first on the way back from byte `offset`, if one is
met before the text has no more bytes to go back over. -/
def boundary? (s : String) (offset : Nat) : Option s.Pos :=
  if h : String.Pos.Raw.IsValid s ⟨offset⟩ then some (s.pos ⟨offset⟩ h)
  else match offset with
    | 0 => none
    | back + 1 => boundary? s back

/-- Inside a character, the last boundary is also the last one for the byte before. -/
theorem posLE_succ {s : String} {back : Nat} (h : ¬ String.Pos.Raw.IsValid s ⟨back + 1⟩) :
    s.posLE ⟨back + 1⟩ = s.posLE ⟨back⟩ := by
  rw [String.posLE_eq_iff]
  constructor
  · have hle : (s.posLE ⟨back⟩).offset.byteIdx ≤ back :=
      String.Pos.Raw.le_iff.mp String.offset_posLE_le
    exact String.Pos.Raw.le_iff.mpr (Nat.le_succ_of_le hle)
  · intro p hp
    have hle : p.offset.byteIdx ≤ back + 1 := String.Pos.Raw.le_iff.mp hp
    have hne : p.offset.byteIdx ≠ back + 1 := fun heq => h (String.Pos.Raw.ext heq ▸ p.isValid)
    have hback : p.offset.byteIdx ≤ back := by omega
    exact String.le_posLE_iff.mpr (String.Pos.Raw.le_iff.mpr hback)

/-- The search ends at the last boundary up to `offset`, at the latest in front of the text. -/
theorem boundary?_eq_some (s : String) (offset : Nat) :
    boundary? s offset = some (s.posLE ⟨offset⟩) := by
  induction offset with
  | zero =>
    have hfront : String.Pos.Raw.IsValid s ⟨0⟩ := String.Pos.Raw.isValid_zero
    rw [boundary?, dif_pos hfront, String.posLE_eq_pos hfront]
  | succ back ih =>
    rw [boundary?]
    by_cases h : String.Pos.Raw.IsValid s ⟨back + 1⟩
    · rw [dif_pos h, String.posLE_eq_pos h]
    · rw [dif_neg h, posLE_succ h]
      exact ih

theorem boundary?_isSome (s : String) (offset : Nat) : (boundary? s offset).isSome := by
  rw [boundary?_eq_some, Option.isSome_some]

/-- A text of at most `limit` bytes as it is; a longer one up to its last boundary within `limit`
bytes, with `...` after it. -/
def cut (limit : Nat) (s : String) : String :=
  if s.utf8ByteSize ≤ limit then s
  else (s.sliceTo ((boundary? s limit).get (boundary?_isSome s limit))).copy ++ "..."

end GraphSelect.Text
