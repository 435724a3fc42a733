import Mathlib
import GraphSelect.Row.Decoder

/-!
# What a fault quotes

A fault quotes a value of at most eighty bytes in full. Of a longer one it quotes as many characters
as fit into eighty bytes. The cut is found from behind, by bytes, while what it has to keep is said
from the front, in characters: the two meet in the boundaries of the text, since the beginnings of a
text are what stands before its boundaries.

A character has at most four bytes. So there is a boundary among any four bytes in a row, and the
way back from the limit is at most three bytes long.
-/

set_option autoImplicit false

namespace GraphSelect.Text

/-- The longest beginning of a text, in whole characters, that takes at most `limit` bytes. -/
structure LongestFitting (limit : Nat) (s kept : String) : Prop where
  begins : kept.toList <+: s.toList
  fits : kept.utf8ByteSize ≤ limit
  longest : ∀ t : String, t.toList <+: s.toList → t.utf8ByteSize ≤ limit →
    t.toList <+: kept.toList

/-- Every beginning of a text ends at one of its boundaries. -/
theorem exists_splits_of_begins {s t : String} (h : t.toList <+: s.toList) :
    ∃ (p : s.Pos) (rest : String), p.Splits t rest := by
  obtain ⟨rest, hrest⟩ := h
  have hs : s = t ++ String.ofList rest := by
    rw [← String.toList_inj, String.toList_append, String.toList_ofList, hrest]
  have hvalid : t.rawEndPos.IsValid s :=
    String.Pos.Raw.isValid_iff_exists_append.mpr ⟨t, String.ofList rest, hs, rfl⟩
  exact ⟨s.pos t.rawEndPos hvalid, String.ofList rest, hs, String.offset_pos⟩

theorem byteIdx_posLE_le (limit : Nat) (s : String) :
    (s.posLE ⟨limit⟩).offset.byteIdx ≤ limit :=
  String.Pos.Raw.le_iff.mp String.offset_posLE_le

/-- The last boundary within the limit leaves nothing out that would still fit. -/
theorem longestFitting_posLE (limit : Nat) (s : String) :
    LongestFitting limit s (s.sliceTo (s.posLE ⟨limit⟩)).copy where
  begins := by
    refine ⟨(s.sliceFrom (s.posLE ⟨limit⟩)).copy.toList, ?_⟩
    rw [← String.toList_append, String.sliceTo_append_sliceFrom]
  fits := by
    rw [String.Slice.utf8ByteSize_copy, String.utf8ByteSize_sliceTo]
    exact byteIdx_posLE_le limit s
  longest := by
    intro t hbegins hfits
    obtain ⟨p, rest, hp⟩ := exists_splits_of_begins hbegins
    have hle : p ≤ s.posLE ⟨limit⟩ := by
      rw [String.le_posLE_iff, hp.offset_eq_rawEndPos, String.Pos.Raw.le_iff]
      exact hfits
    obtain ⟨more, hmore, -⟩ := (hp.le_iff_exists_eq_append (String.Pos.splits _)).mp hle
    exact ⟨more.toList, by rw [hmore, String.toList_append]⟩

/-- In a text that goes on behind the limit, the last boundary within it is near: the character that
starts there reaches beyond the limit. -/
theorem lt_byteIdx_posLE_add_four {limit : Nat} {s : String} (h : limit < s.utf8ByteSize) :
    limit < (s.posLE ⟨limit⟩).offset.byteIdx + 4 := by
  have hend : s.posLE ⟨limit⟩ ≠ s.endPos := by
    intro heq
    have hle := byteIdx_posLE_le limit s
    rw [heq, String.offset_endPos, String.byteIdx_rawEndPos] at hle
    omega
  have hbeyond : ¬ ((s.posLE ⟨limit⟩).next hend).offset.byteIdx ≤ limit := by
    intro hwithin
    have hback : (s.posLE ⟨limit⟩).next hend ≤ s.posLE ⟨limit⟩ :=
      String.le_posLE_iff.mpr (String.Pos.Raw.le_iff.mpr hwithin)
    exact Std.not_lt.mpr hback String.Pos.lt_next
  rw [String.Pos.byteIdx_offset_next] at hbeyond
  have hsize := ((s.posLE ⟨limit⟩).get hend).utf8Size_le_four
  omega

theorem cut_of_le {limit : Nat} {s : String} (h : s.utf8ByteSize ≤ limit) : cut limit s = s := by
  rw [cut, if_pos h]

theorem cut_of_lt {limit : Nat} {s : String} (h : limit < s.utf8ByteSize) :
    cut limit s = (s.sliceTo (s.posLE ⟨limit⟩)).copy ++ "..." := by
  rw [cut, if_neg (Nat.not_le.mpr h)]
  simp only [boundary?_eq_some, Option.get_some]

end GraphSelect.Text

namespace GraphSelect

/-- A text of at most eighty bytes is quoted as it is. In a longer one the way back from byte eighty
ends at a boundary, at byte 77 or later; what stands before it is the longest beginning that fits,
and that is what is quoted, with `...` after it. -/
theorem fault_quotes_longest_fitting (s : String) :
    (s.utf8ByteSize ≤ 80 → Text.cut quotationLimit s = s) ∧
    (80 < s.utf8ByteSize →
      ∃ b : s.Pos, Text.boundary? s quotationLimit = some b ∧
        77 ≤ b.offset.byteIdx ∧
        Text.LongestFitting 80 s (s.sliceTo b).copy ∧
        Text.cut quotationLimit s = (s.sliceTo b).copy ++ "...") := by
  constructor
  · intro hshort
    exact Text.cut_of_le hshort
  · intro hlong
    have hnear : 80 < (s.posLE ⟨80⟩).offset.byteIdx + 4 := Text.lt_byteIdx_posLE_add_four hlong
    exact ⟨s.posLE ⟨80⟩, Text.boundary?_eq_some s 80, by omega, Text.longestFitting_posLE 80 s,
      Text.cut_of_lt hlong⟩

/-- Characters of one to four bytes that fill the eighty bytes. -/
def brimful : String := String.join (List.replicate 8 "aé€😀")

/-- The same with a character across the limit that starts as early as it can, at byte 77. -/
def overfull : String := "seventh" ++ String.join (List.replicate 7 "aé€😀") ++ "😀"

theorem fault_quotes_longest_fitting_overfull :
    (brimful.utf8ByteSize ≤ 80 ∧ Text.cut quotationLimit brimful = brimful) ∧
    (80 < overfull.utf8ByteSize ∧
      ∃ b : overfull.Pos, Text.boundary? overfull quotationLimit = some b ∧
        77 ≤ b.offset.byteIdx ∧
        Text.LongestFitting 80 overfull (overfull.sliceTo b).copy ∧
        Text.cut quotationLimit overfull = (overfull.sliceTo b).copy ++ "...") := by
  have hbrimful : brimful.utf8ByteSize ≤ 80 := by decide +kernel
  have hoverfull : 80 < overfull.utf8ByteSize := by decide +kernel
  exact ⟨⟨hbrimful, (fault_quotes_longest_fitting brimful).1 hbrimful⟩,
    hoverfull, (fault_quotes_longest_fitting overfull).2 hoverfull⟩

example : (Text.boundary? overfull quotationLimit).map (fun b => b.offset.byteIdx) = some 77 := by
  decide +kernel

end GraphSelect
