import Mathlib

/-!
# Integers as doubles

An integer that JSON can write in 64 bits is far below the greatest double, so its double is finite.
The bounds here are rough. They only have to keep the exponent, through two roundings and a change
of sign, below the one that stands for infinity.
-/

set_option autoImplicit false

namespace GraphSelect.Decimal

open Float.Model (Format UnpackedFloat)
open Float.Model.UnpackedFloat

/-- A number that is finite, with an exponent of at most `b`. -/
def Bounded (b : Int) : UnpackedFloat → Prop
  | .zero _ => True
  | .finite _ _ e _ => e ≤ b
  | _ => False

theorem Bounded.isFinite {b : Int} {f : UnpackedFloat} (h : Bounded b f) : f.isFinite = true := by
  cases f with
  | infinity => exact h.elim
  | notANumber => exact h.elim
  | zero => rfl
  | finite => rfl

theorem Bounded.neg {b : Int} {f : UnpackedFloat} (h : Bounded b f) : Bounded b f.neg := by
  cases f with
  | infinity => exact h.elim
  | notANumber => exact h.elim
  | zero => trivial
  | finite => exact h

/-! ## Rounding -/

theorem shiftRight_mantissa_le (em : ExtendedMantissa) (n : Nat) :
    (em >>> n).mantissa ≤ em.mantissa := by
  induction n with
  | zero => exact Nat.le_refl _
  | succ n ih => exact (Nat.div_le_self _ 2).trans ih

theorem roundedMantissa_le (em : ExtendedMantissa) :
    em.roundedMantissa ≤ em.mantissa + 1 := by
  obtain ⟨mantissa, roundBit, stickyBit⟩ := em
  cases roundBit <;> cases stickyBit <;>
    simp [ExtendedMantissa.roundedMantissa, ExtendedMantissa.accuracy, Accuracy.roundToNearestEven]
  omega

theorem log2_le_of_le_two_pow {m k : Nat} (h : m ≤ 2 ^ k) : m.log2 ≤ k := by
  by_cases hm : m = 0
  · simp [hm]
  · exact Nat.lt_succ_iff.1 ((Nat.log2_lt hm).2 (h.trans_lt (Nat.pow_lt_pow_succ (by decide))))

/-- Moving a number to its own exponent drops digits, and raises the exponent by as many as there
are in front of the 53 that are kept. -/
theorem shiftToTargetExponent_le {m k : Nat} {e b : Int} (accuracy : Accuracy) (hm : m ≤ 2 ^ k)
    (he : e ≤ b) (hk : k + e - 52 ≤ b) (hb : -1074 ≤ b) :
    (shiftToTargetExponent .binary64 m e accuracy).1.mantissa ≤ m ∧
      (shiftToTargetExponent .binary64 m e accuracy).2 ≤ b := by
  constructor
  · refine (shiftRight_mantissa_le _ _).trans ?_
    cases accuracy with
    | exact => exact Nat.le_refl m
    | inexact o => cases o <;> exact Nat.le_refl m
  · have hlog := log2_le_of_le_two_pow hm
    have hbits : Format.binary64.mantissaBits = 53 := rfl
    have hmin : Format.binary64.minExponent = -1074 := rfl
    simp only [shiftToTargetExponent, shiftToExponent, Format.targetExponent, hbits, hmin,
      Float.Model.totalExponent]
    omega

/-- A number is moved twice: to 53 digits, and once more if rounding them made one too many. -/
theorem bounded_roundWithAccuracy {m k : Nat} {e c b : Int} (sign : Sign) (accuracy : Accuracy)
    (hm : m < 2 ^ k) (he : e ≤ c) (hk : k + e - 52 ≤ c) (hc : -1074 ≤ c) (hcb : c ≤ b)
    (hb : k + c - 52 ≤ b) : Bounded b (roundWithAccuracy .binary64 sign m e accuracy) := by
  obtain ⟨hmantissa, hexponent⟩ := shiftToTargetExponent_le accuracy hm.le he hk hc
  unfold roundWithAccuracy
  generalize shiftToTargetExponent .binary64 m e accuracy = first at hmantissa hexponent
  obtain ⟨em, e₁⟩ := first
  dsimp only at hmantissa hexponent ⊢
  have hrounded : em.roundedMantissa ≤ 2 ^ k := by
    have := roundedMantissa_le em
    omega
  have he₁ : e₁ ≤ b := by omega
  have hk₁ : k + e₁ - 52 ≤ b := by omega
  have hsecond := (shiftToTargetExponent_le .exact hrounded he₁ hk₁ (hc.trans hcb)).2
  split
  · trivial
  · exact hsecond

/-! ## Packing -/

/-- The exponent of a bounded number fits into the bits of a double. -/
theorem bounded_unpack_pack {f : UnpackedFloat} {b : Int} (h : Bounded b f) (hb : -1074 ≤ b)
    (hb' : b ≤ 970) : Bounded b (unpack .binary64 (pack .binary64 f)) := by
  have hbias : (Format.binary64.exponentBias : Int) = 1023 := rfl
  have hmantissa : (Format.binary64.mantissaBitsWithoutImplicit : Int) = 52 := rfl
  cases f with
  | infinity => exact h.elim
  | notANumber => exact h.elim
  | zero s => cases s <;> trivial
  | finite s m e hm =>
    have he : e ≤ b := h
    have hfits : ¬ 2 ^ Format.binary64.exponentBits ≤
        (e + Format.binary64.exponentBias +
          Format.binary64.mantissaBitsWithoutImplicit).toNat + 1 := by
      rw [hbias, hmantissa]
      change ¬ 2048 ≤ _
      omega
    simp only [pack, if_neg hfits]
    split
    · -- A number with its leading digit: the exponent is kept.
      simp only [unpack, unpackMantissa_packComponents, unpackExponent_packComponents, hbias,
        hmantissa]
      have hexponent : (BitVec.ofNat Format.binary64.exponentBits
          (e + 1023 + 52).toNat).toNat = (e + 1023 + 52).toNat := by
        rw [BitVec.toNat_ofNat]
        change _ % 2048 = _
        omega
      have hfinite : BitVec.ofNat Format.binary64.exponentBits (e + 1023 + 52).toNat ≠ -1#_ := by
        intro heq
        have htop := congrArg BitVec.toNat heq
        rw [hexponent] at htop
        change _ = 2047 at htop
        omega
      rw [if_neg hfinite]
      split
      · rename_i hzero
        have hlow := congrArg BitVec.toNat hzero
        rw [hexponent] at hlow
        change _ = 0 at hlow
        split
        · trivial
        · simp only [Bounded, hexponent]
          omega
      · simp only [Bounded, hexponent]
        omega
    · simp only [unpack, unpackMantissa_packComponents, unpackExponent_packComponents, hbias,
        hmantissa]
      rw [if_neg (by decide), if_pos trivial]
      split
      · trivial
      · simp only [Bounded]
        change 0 - _ + 1 ≤ b
        omega

theorem unpack_mantissa_lt {bits : BitVec Format.binary64.numBits} {s : Sign} {m : Nat} {e : Int}
    {hm : 0 < m} (h : unpack .binary64 bits = .finite s m e hm) : m < 2 ^ 53 := by
  have hlt : (unpackMantissa bits).toNat < 2 ^ 52 := (unpackMantissa bits).isLt
  unfold unpack at h
  dsimp only at h
  split at h
  · split at h <;> cases h
  · split at h
    · split at h
      · cases h
      · cases h
        omega
    · cases h
      rw [BitVec.toNat_append, ← Nat.shiftLeft_add_eq_or_of_lt hlt]
      simp [Nat.shiftLeft_eq]
      omega

/-! ## Integers -/

theorem bounded_round {m : Nat} (sign : Sign) (hm : m < 2 ^ 64) :
    Bounded 128 (round .binary64 sign m 0) := by
  -- An integer of few digits is moved to the left first, by at most 52.
  have hshift : (0 - Format.binary64.targetExponent (Float.Model.totalExponent m 0)).toNat ≤ 52 := by
    have hbits : Format.binary64.mantissaBits = 53 := rfl
    have hmin : Format.binary64.minExponent = -1074 := rfl
    simp only [Format.targetExponent, hbits, hmin, Float.Model.totalExponent]
    omega
  have hwide : m <<< (0 - Format.binary64.targetExponent
      (Float.Model.totalExponent m 0)).toNat < 2 ^ 116 := by
    rw [Nat.shiftLeft_eq]
    calc m * 2 ^ _ < 2 ^ 64 * 2 ^ _ := Nat.mul_lt_mul_of_pos_right hm (Nat.two_pow_pos _)
      _ ≤ 2 ^ 64 * 2 ^ 52 := Nat.mul_le_mul_left _ (Nat.pow_le_pow_right (by decide) hshift)
  have hlow : (0 : Int) - (0 - Format.binary64.targetExponent
      (Float.Model.totalExponent m 0)).toNat ≤ 0 := by
    omega
  exact bounded_roundWithAccuracy (c := 64) sign .exact hwide (by omega) (by omega) (by decide)
    (by decide) (by decide)

theorem bounded_ofUInt64 (n : UInt64) : Bounded 128 (Float.Model.ofUInt64 n).unpack := by
  refine bounded_unpack_pack ?_ (by decide) (by decide)
  change Bounded 128 (UnpackedFloat.normalize .binary64 n.toNat 0 .positive)
  unfold UnpackedFloat.normalize
  split
  · exact bounded_round .negative (by have := n.toNat_lt; omega)
  · trivial
  · exact bounded_round .positive (by have := n.toNat_lt; omega)

theorem mul_finite (s s' : Sign) (m m' : Nat) (e e' : Int) (hm : 0 < m) (hm' : 0 < m') :
    UnpackedFloat.mul .binary64 (.finite s m e hm) (.finite s' m' e' hm') =
      roundWithAccuracy .binary64 (s * s') (m * m') (e + e') .exact :=
  rfl

/-- A product with one is rounded again. -/
theorem bounded_mul_one {x y : Float.Model} (hx : Bounded 128 x.unpack)
    (hy : y.unpack = .finite .positive (2 ^ 52) (-52) (by decide)) :
    Bounded 200 (Float.Model.mul x y).unpack := by
  refine bounded_unpack_pack ?_ (by decide) (by decide)
  rw [hy]
  cases hu : x.unpack with
  | infinity => rw [hu] at hx; exact hx.elim
  | notANumber => rw [hu] at hx; exact hx.elim
  | zero => trivial
  | finite s m e hm =>
    rw [hu] at hx
    have he : e ≤ 128 := hx
    have hproduct : m * 2 ^ 52 < 2 ^ 105 := by
      have := unpack_mantissa_lt hu
      omega
    exact bounded_roundWithAccuracy (c := 129) _ .exact hproduct (by omega) (by omega) (by decide)
      (by decide) (by decide)

theorem bounded_ofScientific {n : Nat} (hn : n < 2 ^ 64) :
    Bounded 200 (Float.Model.ofScientific n 0).unpack := by
  refine bounded_unpack_pack ?_ (by decide) (by decide)
  unfold Float.Model.UnpackedFloat.ofScientific
  split
  · trivial
  · have hbits : Format.binary64.mantissaBits = 53 := rfl
    have hrange : ¬ (0 : Int) < -((2 ^ Format.binary64.exponentBits : Int) + n.log2) := by
      change ¬ (0 : Int) < -(2048 + n.log2)
      omega
    rw [if_neg (by decide), if_neg hrange, if_pos (by decide), mul_finite]
    refine bounded_roundWithAccuracy (k := 117) (c := 12) _ .exact ?_ ?_ ?_ ?_ ?_ ?_
    · rw [hbits, Nat.shiftLeft_eq, Int.toNat_zero, Nat.pow_zero]
      omega
    all_goals decide

/-- The double of a natural number of 64 bits: the rounded number times one if it has at most 53
digits, and otherwise a product that is rounded once. -/
theorem bounded_ofNat {n : Nat} (hn : n < 2 ^ 64) :
    Bounded 200 (Float.ofNat n).toModel.unpack := by
  change Bounded 200 (Float.ofScientific n false 0).toModel.unpack
  unfold Float.ofScientific
  split
  · have hone : (Float.Model.ofBits 0x3FF0000000000000).unpack =
        .finite .positive (2 ^ 52) (-52) (by decide) := by rfl
    exact bounded_mul_one (bounded_ofUInt64 n.toUInt64) hone
  · exact bounded_ofScientific hn

/-- **An integer that JSON can write has a finite double.** -/
theorem isFinite_ofInt {i : Int} (hlow : -2 ^ 63 ≤ i) (hhigh : i < 2 ^ 64) :
    (Float.ofInt i).isFinite = true := by
  cases i with
  | ofNat n => exact (bounded_ofNat (Int.ofNat_lt.1 hhigh)).isFinite
  | negSucc n =>
    have hn : Bounded 200 (Float.ofNat n.succ).toModel.unpack := bounded_ofNat (by omega)
    exact (bounded_unpack_pack hn.neg (by decide) (by decide)).isFinite

end GraphSelect.Decimal
