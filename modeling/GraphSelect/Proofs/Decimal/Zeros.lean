import Mathlib

/-!
# Doubles that are equal as numbers

Two doubles that compare as equal are the same, unless they are the two zeros. A number is read off
its parts, and the parts can be read off the number: where the mantissa has its leading one the
exponent is the one that is stored, and where it has none there is only one exponent.
-/

set_option autoImplicit false

namespace GraphSelect.Decimal

open Float.Model (Format UnpackedFloat)
open Float.Model.UnpackedFloat

/-! ## Parts -/

theorem unpackMantissa_toNat (b : BitVec 64) :
    (@unpackMantissa .binary64 b).toNat = b.toNat % 2 ^ 52 := by
  simp [unpackMantissa, Format.binary64, BitVec.extractLsb, BitVec.extractLsb']

theorem unpackExponent_toNat (b : BitVec 64) :
    (@unpackExponent .binary64 b).toNat = b.toNat / 2 ^ 52 % 2 ^ 11 := by
  simp [unpackExponent, Format.binary64, BitVec.extractLsb, BitVec.extractLsb',
    Nat.shiftRight_eq_div_pow]

theorem unpackSign_toNat (b : BitVec 64) :
    (@unpackSign .binary64 b).toNat = b.toNat / 2 ^ 63 % 2 := by
  simp [unpackSign, Format.binary64, BitVec.extractLsb, BitVec.extractLsb',
    Nat.shiftRight_eq_div_pow]

theorem sign_ofBitVec_injective : Function.Injective Sign.ofBitVec := by
  intro b c h
  have hb := BitVec.eq_zero_or_eq_one b
  have hc := BitVec.eq_zero_or_eq_one c
  rcases hb with rfl | rfl <;> rcases hc with rfl | rfl <;> simp_all [Sign.ofBitVec]

/-- The bits of a double are the bits of its parts. -/
theorem bits_eq_of_parts {b c : BitVec 64}
    (hmantissa : (@unpackMantissa .binary64 b).toNat = (@unpackMantissa .binary64 c).toNat)
    (hexponent : (@unpackExponent .binary64 b).toNat = (@unpackExponent .binary64 c).toNat)
    (hsign : Sign.ofBitVec (@unpackSign .binary64 b) = Sign.ofBitVec (@unpackSign .binary64 c)) :
    b = c := by
  have hsign := congrArg BitVec.toNat (sign_ofBitVec_injective hsign)
  rw [unpackMantissa_toNat, unpackMantissa_toNat] at hmantissa
  rw [unpackExponent_toNat, unpackExponent_toNat] at hexponent
  rw [unpackSign_toNat, unpackSign_toNat] at hsign
  have hb := b.isLt
  have hc := c.isLt
  exact BitVec.eq_of_toNat_eq (by omega)

/-- A number is read off a sign, a stored exponent and a stored mantissa. -/
inductive ReadOff (sign : Sign) (exponent mantissa : Nat) : UnpackedFloat → Prop where
  | nan : ReadOff sign exponent mantissa .notANumber
  | infinity : exponent = 2047 → mantissa = 0 → ReadOff sign exponent mantissa (.infinity sign)
  | zero : exponent = 0 → mantissa = 0 → ReadOff sign exponent mantissa (.zero sign)
  | subnormal (hm : 0 < mantissa) : exponent = 0 →
      ReadOff sign exponent mantissa (.finite sign mantissa (-1074) hm)
  | normal {m : Nat} (hm : 0 < m) {e : Int} : exponent ≠ 0 → exponent = e + 1075 →
      m = 2 ^ 52 + mantissa → ReadOff sign exponent mantissa (.finite sign m e hm)

/-- The parts can be read off the number. -/
theorem ReadOff.unique {s s' : Sign} {e e' m m' : Nat} {u : UnpackedFloat} (h : ReadOff s e m u)
    (h' : ReadOff s' e' m' u) (hm : m < 2 ^ 52) (hm' : m' < 2 ^ 52) (hnan : u ≠ .notANumber) :
    s = s' ∧ e = e' ∧ m = m' := by
  cases h with
  | nan => exact absurd rfl hnan
  | infinity he hzero =>
    cases h' with
    | infinity he' hzero' => exact ⟨rfl, he.trans he'.symm, hzero.trans hzero'.symm⟩
  | zero he hzero =>
    cases h' with
    | zero he' hzero' => exact ⟨rfl, he.trans he'.symm, hzero.trans hzero'.symm⟩
  | subnormal _ he =>
    cases h' with
    | subnormal _ he' => exact ⟨rfl, he.trans he'.symm, rfl⟩
    | normal _ _ _ hmantissa => omega
  | normal _ _ he hmantissa =>
    cases h' with
    | subnormal _ _ => omega
    | normal _ _ he' hmantissa' => exact ⟨rfl, by omega, by omega⟩

theorem toNat_leading_one (m : BitVec 52) : (1#1 ++ m).toNat = 2 ^ 52 + m.toNat := by
  rw [BitVec.toNat_append, ← Nat.shiftLeft_add_eq_or_of_lt m.isLt]
  simp [Nat.shiftLeft_eq]

theorem readOff_unpack (b : BitVec 64) :
    ReadOff (.ofBitVec (@unpackSign .binary64 b)) (@unpackExponent .binary64 b).toNat
      (@unpackMantissa .binary64 b).toNat (unpack .binary64 b) := by
  simp only [unpack]
  split
  · rename_i hexponent
    split
    · rename_i hmantissa
      exact .infinity (by rw [hexponent]; rfl) (by rw [hmantissa]; rfl)
    · exact .nan
  · split
    · rename_i hexponent
      have hzero : (@unpackExponent .binary64 b).toNat = 0 := by rw [hexponent]; rfl
      split
      · rename_i hmantissa
        exact .zero hzero (by rw [hmantissa]; rfl)
      · rw [hzero]
        exact .subnormal _ rfl
    · rename_i hexponent
      refine .normal _ (fun hzero => hexponent (BitVec.eq_of_toNat_eq hzero)) ?_
        (toNat_leading_one _)
      change ((@unpackExponent .binary64 b).toNat : Int) =
        (@unpackExponent .binary64 b).toNat - 1075 + 1075
      omega

/-- The number says which double it was, unless it is none. -/
theorem unpack_injective {b c : BitVec 64} (h : unpack .binary64 b = unpack .binary64 c)
    (hnan : unpack .binary64 b ≠ .notANumber) : b = c := by
  have hc := readOff_unpack c
  rw [← h] at hc
  obtain ⟨hsign, hexponent, hmantissa⟩ :=
    (readOff_unpack b).unique hc (@unpackMantissa .binary64 b).isLt
      (@unpackMantissa .binary64 c).isLt hnan
  exact bits_eq_of_parts hmantissa hexponent hsign

/-! ## Equality -/

/-- Numbers that compare as equal are the same, or they are zeros. -/
theorem eq_or_zeros_of_beq {u v : UnpackedFloat} (h : u.beq v = true) :
    u = v ∨ ∃ s t, u = .zero s ∧ v = .zero t := by
  cases u with
  | notANumber => cases v <;> simp [UnpackedFloat.beq, UnpackedFloat.compare] at h
  | zero s =>
    cases v with
    | zero t => exact .inr ⟨s, t, rfl, rfl⟩
    | notANumber => simp [UnpackedFloat.beq, UnpackedFloat.compare] at h
    | infinity t => cases t <;> simp [UnpackedFloat.beq, UnpackedFloat.compare] at h
    | finite t m e hm => cases t <;> simp [UnpackedFloat.beq, UnpackedFloat.compare] at h
  | infinity s =>
    cases v with
    | infinity t => cases s <;> cases t <;> simp [UnpackedFloat.beq, UnpackedFloat.compare] at h ⊢
    | _ => cases s <;> simp [UnpackedFloat.beq, UnpackedFloat.compare] at h
  | finite s m e hm =>
    cases v with
    | finite t m' e' hm' =>
      cases s <;> cases t <;>
        simp [UnpackedFloat.beq, UnpackedFloat.compare, Ordering.then_eq_eq] at h ⊢
      · exact ⟨h.2, h.1⟩
      · exact ⟨h.2, h.1⟩
    | infinity t => cases s <;> cases t <;> simp [UnpackedFloat.beq, UnpackedFloat.compare] at h
    | _ => cases s <;> simp [UnpackedFloat.beq, UnpackedFloat.compare] at h

theorem eq_of_unpack_eq {x y : Float} (h : x.toModel.unpack = y.toModel.unpack)
    (hnan : x.toModel.unpack ≠ .notANumber) : x = y := by
  obtain ⟨⟨bits, hbits⟩⟩ := x
  obtain ⟨⟨bits', hbits'⟩⟩ := y
  obtain rfl : bits = bits' := UInt64.toBitVec_inj.1 (unpack_injective h hnan)
  rfl

theorem eq_of_unpack_zero {x : Float} {s : Sign} (h : x.toModel.unpack = .zero s) :
    x = 0.0 ∨ x = -0.0 := by
  have hnan : x.toModel.unpack ≠ .notANumber := by simp [h]
  have hpositive : (0.0 : Float).toModel.unpack = .zero .positive := rfl
  have hnegative : (-0.0 : Float).toModel.unpack = .zero .negative := rfl
  cases s with
  | positive => exact .inl (eq_of_unpack_eq (h.trans hpositive.symm) hnan)
  | negative => exact .inr (eq_of_unpack_eq (h.trans hnegative.symm) hnan)

/-- Two zeros with different signs. -/
def OppositeZeros (x y : Float) : Prop :=
  x = 0.0 ∧ y = -0.0 ∨ x = -0.0 ∧ y = 0.0

theorem OppositeZeros.ne {x y : Float} (h : OppositeZeros x y) : x ≠ y := by
  rcases h with ⟨rfl, rfl⟩ | ⟨rfl, rfl⟩
  · decide
  · decide

/-- **Doubles that compare as equal are the same, or they are the two zeros.** -/
theorem eq_or_oppositeZeros {x y : Float} (h : (x == y) = true) : x = y ∨ OppositeZeros x y := by
  rcases eq_or_zeros_of_beq h with heq | ⟨s, t, hx, hy⟩
  · refine .inl (eq_of_unpack_eq heq fun hnan => ?_)
    have hself : x.toModel.unpack.beq y.toModel.unpack = true := h
    rw [← heq, hnan] at hself
    cases hself
  · rcases eq_of_unpack_zero hx with rfl | rfl <;> rcases eq_of_unpack_zero hy with rfl | rfl
    · exact .inl rfl
    · exact .inr (.inl ⟨rfl, rfl⟩)
    · exact .inr (.inr ⟨rfl, rfl⟩)
    · exact .inl rfl

end GraphSelect.Decimal
