import GraphSelect.Decimal.Shortest
import Mathlib

/-!
# A decimal rounds to one double

The search for the shortest decimal stays inside the interval of the numbers that round to the
double: what it finds on a grid is either the double itself or has been tested, and the expansion
behind it is exact. The intervals of two doubles do not meet. Where one ends and the next begins at
the same number, only one of the two contains it, since of two neighbours one has an odd `m`.

So the shortest decimals of doubles are in the order of the doubles, and different doubles have
different ones.
-/

set_option autoImplicit false

namespace GraphSelect.Decimal

/-- The number that a coefficient and an exponent stand for. -/
def Scaled.value (s : Scaled) : ℚ :=
  s.coefficient * 10 ^ s.exponent

/-- Whether a number rounds to the double. -/
def Rounding.Contains (r : Rounding) (v : ℚ) : Prop :=
  if r.closed then r.low ≤ v * r.denominator ∧ v * r.denominator ≤ r.high
  else r.low < v * r.denominator ∧ v * r.denominator < r.high

/-! ## The search stays inside the interval -/

/-- A power with any exponent, as a quotient of two powers with natural ones. -/
theorem zpow_mul_pow_neg {b : ℚ} (hb : b ≠ 0) (g : ℤ) :
    b ^ g * b ^ (-g).toNat = b ^ g.toNat := by
  rcases Int.le_total 0 g with hg | hg
  · have hneg : (-g).toNat = 0 := by omega
    rw [hneg, pow_zero, mul_one, ← zpow_natCast, Int.toNat_of_nonneg hg]
  · have hpos : g.toNat = 0 := by omega
    rw [hpos, ← zpow_natCast, Int.toNat_of_nonneg (by omega), ← zpow_add₀ hb]
    simp

section

variable {r : Rounding} {tie : Tie} {d : Nat} {g : Int} {v : ℚ}

/-- The test of the search, which is made on whole numbers. -/
theorem Rounding.holds_iff : r.holds d g = true ↔ r.Contains (d * 10 ^ g) := by
  have hunit : (0 : ℚ) < 10 ^ (-g).toNat := by positivity
  -- Both sides of each comparison are scaled by a power of ten, so that the grid is whole.
  have hpoint : (d * 10 ^ g.toNat * r.denominator : ℚ) =
      d * 10 ^ g * r.denominator * 10 ^ (-g).toNat := by
    rw [← zpow_mul_pow_neg (by norm_num : (10 : ℚ) ≠ 0) g]
    ring
  have hle (n n' : Nat) : n ≤ n' ↔ (n : ℚ) ≤ n' := by norm_cast
  have hlt (n n' : Nat) : n < n' ↔ (n : ℚ) < n' := by norm_cast
  unfold Rounding.holds Rounding.Contains
  cases r.closed with
  | true =>
    simp only [if_true, Bool.and_eq_true, decide_eq_true_eq, Nat.pow_eq]
    rw [hle, hle]
    push_cast
    rw [hpoint, mul_le_mul_iff_left₀ hunit, mul_le_mul_iff_left₀ hunit]
  | false =>
    simp only [Bool.false_eq_true, if_false, Bool.and_eq_true, decide_eq_true_eq, Nat.pow_eq]
    rw [hlt, hlt]
    push_cast
    rw [hpoint, mul_lt_mul_iff_left₀ hunit, mul_lt_mul_iff_left₀ hunit]

/-- The interval goes around its double. -/
structure Rounding.Proper (r : Rounding) : Prop where
  low_lt : r.low < r.value
  lt_high : r.value < r.high

theorem Rounding.Proper.contains (hr : r.Proper) (hv : v * r.denominator = r.value) :
    r.Contains v := by
  have hlow : (r.low : ℚ) < r.value := by exact_mod_cast hr.low_lt
  have hhigh : (r.value : ℚ) < r.high := by exact_mod_cast hr.lt_high
  unfold Rounding.Contains
  rw [hv]
  cases r.closed with
  | true => exact ⟨hlow.le, hhigh.le⟩
  | false => exact ⟨hlow, hhigh⟩

/-- **What is found on a grid rounds to the double.** -/
theorem Rounding.Proper.nearest (hr : r.Proper) (h : r.nearest? tie g = some d) :
    r.Contains (d * 10 ^ g) := by
  unfold Rounding.nearest? at h
  dsimp only at h
  by_cases hrest : r.value * Nat.pow 10 (-g).toNat % (Nat.pow 10 g.toNat * r.denominator) = 0
  · -- The double is on the grid.
    rw [if_pos hrest] at h
    have hexact : r.value * 10 ^ (-g).toNat = d * (10 ^ g.toNat * r.denominator) := by
      cases h
      exact (Nat.div_mul_cancel (Nat.dvd_of_mod_eq_zero hrest)).symm
    have hunit : (10 : ℚ) ^ (-g).toNat ≠ 0 := by positivity
    apply hr.contains
    apply mul_right_cancel₀ hunit
    calc (d * 10 ^ g * r.denominator * 10 ^ (-g).toNat : ℚ)
        = d * (10 ^ g.toNat * r.denominator) := by
          rw [← zpow_mul_pow_neg (by norm_num : (10 : ℚ) ≠ 0) g]
          ring
      _ = r.value * 10 ^ (-g).toNat := by exact_mod_cast hexact.symm
  · rw [if_neg hrest] at h
    generalize r.value * Nat.pow 10 (-g).toNat / (Nat.pow 10 g.toNat * r.denominator) = below at h
    apply Rounding.holds_iff.1
    -- One of the two neighbours has been tested, and is the answer.
    cases hb : r.holds below g <;> cases ha : r.holds (below + 1) g <;>
      simp only [hb, ha, reduceCtorEq, Option.some.injEq] at h
    · exact h ▸ ha
    · exact h ▸ hb
    · have hd : d = below ∨ d = below + 1 := by
        cases tie <;> simp only at h <;> grind
      rcases hd with rfl | rfl
      · exact hb
      · exact ha

end

/-! ## The shortest decimal -/

theorem Scaled.strip_value (fuel : Nat) (s : Scaled) : (s.strip fuel).value = s.value := by
  induction fuel generalizing s with
  | zero => rfl
  | succ fuel ih =>
    unfold Scaled.strip
    by_cases hs : s.coefficient % 10 = 0
    · split
      · rw [ih]
        have hten : s.coefficient = s.coefficient / 10 * 10 := by omega
        have hcast : (s.coefficient : ℚ) = (s.coefficient / 10 : ℕ) * 10 := by exact_mod_cast hten
        rw [Scaled.value, Scaled.value, hcast, zpow_add_one₀ (by norm_num : (10 : ℚ) ≠ 0)]
        ring
      · rfl
    · simp [hs]

section

variable {tie : Tie} {m : Nat} {q : Int} {powerOfTwo : Bool}

theorem Rounding.around_proper (hm : 0 < m) : (Rounding.around m q powerOfTwo).Proper := by
  have hfactor : 0 < Nat.pow 2 (q - 2).toNat := Nat.pow_pos (by norm_num)
  refine ⟨?_, ?_⟩
  · apply Nat.mul_lt_mul_of_pos_right _ hfactor
    split <;> omega
  · exact Nat.mul_lt_mul_of_pos_right (by omega) hfactor

/-- The denominator turns the scale of the ends into a power of two. -/
theorem Rounding.around_factor (q : Int) :
    ((Nat.pow 2 (q - 2).toNat : ℕ) : ℚ) = 2 ^ (q - 2) * (Nat.pow 2 (-(q - 2)).toNat : ℕ) := by
  simp only [Nat.pow_eq]
  push_cast
  exact (zpow_mul_pow_neg (by norm_num) _).symm

/-- The expansion of all digits is exact. -/
theorem expansion_value (m : Nat) (q : Int) :
    (Scaled.mk (m * Nat.pow 2 q.toNat * Nat.pow 5 (-q).toNat) (min q 0)).value = m * 2 ^ q := by
  unfold Scaled.value
  simp only [Nat.pow_eq]
  push_cast
  rcases Int.le_total 0 q with hq | hq
  · have hneg : (-q).toNat = 0 := by omega
    rw [min_eq_right hq, hneg, ← zpow_mul_pow_neg (by norm_num : (2 : ℚ) ≠ 0) q, hneg]
    ring
  · have hpos : q.toNat = 0 := by omega
    have hten : (10 : ℚ) ^ q = 2 ^ q * 5 ^ q := by
      rw [← mul_zpow]
      norm_num
    have hfive : (5 : ℚ) ^ q * 5 ^ (-q).toNat = 1 := by
      rw [zpow_mul_pow_neg (by norm_num : (5 : ℚ) ≠ 0) q, hpos, pow_zero]
    rw [min_eq_left hq, hpos, hten]
    calc (m * 2 ^ 0 * 5 ^ (-q).toNat * (2 ^ q * 5 ^ q) : ℚ)
        = m * 2 ^ q * (5 ^ q * 5 ^ (-q).toNat) := by ring
      _ = m * 2 ^ q := by rw [hfive, mul_one]

theorem Rounding.around_contains_double (hm : 0 < m) :
    (Rounding.around m q powerOfTwo).Contains (m * 2 ^ q) := by
  apply (Rounding.around_proper hm).contains
  unfold Rounding.around
  dsimp only
  rw [Nat.cast_mul, Rounding.around_factor, zpow_sub₀ (by norm_num : (2 : ℚ) ≠ 0)]
  push_cast
  ring

/-- **The shortest decimal of a double rounds to it.** -/
theorem shortest_contains (tie : Tie) (hm : 0 < m) :
    (Rounding.around m q powerOfTwo).Contains (shortest tie m q powerOfTwo).value := by
  unfold shortest
  dsimp only
  rw [Scaled.strip_value]
  cases hfound : (List.range 17).findSome? fun i =>
      ((Rounding.around m q powerOfTwo).nearest? tie
        ((Rounding.around m q powerOfTwo).magnitude - (i + 1 : Nat))).map fun d =>
          Scaled.mk d ((Rounding.around m q powerOfTwo).magnitude - (i + 1 : Nat)) with
  | some s =>
    obtain ⟨i, -, hi⟩ := List.exists_of_findSome?_eq_some hfound
    obtain ⟨d, hd, rfl⟩ := Option.map_eq_some_iff.1 hi
    exact (Rounding.around_proper hm).nearest hd
  | none =>
    rw [Option.getD_none, expansion_value]
    exact Rounding.around_contains_double hm

end

/-! ## Intervals do not meet -/

/-- The lower end of the interval around `m · 2^q`, scaled by four. -/
def lowEnd (m : Nat) (powerOfTwo : Bool) : Nat :=
  if powerOfTwo then 4 * m - 1 else 4 * m - 2

section

variable {m m' : Nat} {q q' : Int} {powerOfTwo powerOfTwo' : Bool} {v v' : ℚ}

theorem Rounding.around_contains_iff :
    (Rounding.around m q powerOfTwo).Contains v ↔
      if m % 2 = 0 then
        lowEnd m powerOfTwo * 2 ^ (q - 2) ≤ v ∧ v ≤ (4 * m + 2 : ℕ) * 2 ^ (q - 2)
      else lowEnd m powerOfTwo * 2 ^ (q - 2) < v ∧ v < (4 * m + 2 : ℕ) * 2 ^ (q - 2) := by
  have hden : (0 : ℚ) < (Nat.pow 2 (-(q - 2)).toNat : ℕ) := by
    simp only [Nat.pow_eq]
    positivity
  have hend (n : Nat) : ((n * Nat.pow 2 (q - 2).toNat : ℕ) : ℚ) =
      n * 2 ^ (q - 2) * (Nat.pow 2 (-(q - 2)).toNat : ℕ) := by
    rw [Nat.cast_mul, Rounding.around_factor, mul_assoc]
  unfold Rounding.Contains Rounding.around lowEnd
  simp only [beq_iff_eq, hend, mul_le_mul_iff_left₀ hden, mul_lt_mul_iff_left₀ hden]

theorem Rounding.Contains.le_high (h : (Rounding.around m q powerOfTwo).Contains v) :
    v ≤ (4 * m + 2 : ℕ) * 2 ^ (q - 2) := by
  rw [Rounding.around_contains_iff] at h
  split at h
  · exact h.2
  · exact h.2.le

theorem Rounding.Contains.low_le (h : (Rounding.around m q powerOfTwo).Contains v) :
    lowEnd m powerOfTwo * 2 ^ (q - 2) ≤ v := by
  rw [Rounding.around_contains_iff] at h
  split at h
  · exact h.1
  · exact h.1.le

/-- The ends themselves do not round to a double with an odd `m`. -/
theorem Rounding.Contains.of_odd (h : (Rounding.around m q powerOfTwo).Contains v)
    (hm : m % 2 ≠ 0) :
    lowEnd m powerOfTwo * 2 ^ (q - 2) < v ∧ v < (4 * m + 2 : ℕ) * 2 ^ (q - 2) := by
  rw [Rounding.around_contains_iff, if_neg hm] at h
  exact h

/-- The numbers `m · 2^q` that positive doubles are, in the form that is read off their bits. -/
structure IsDouble (m : Nat) (q : Int) (powerOfTwo : Bool) : Prop where
  pos : 0 < m
  lt : m < 2 ^ 53
  least : -1074 ≤ q
  -- The first bit is left out only where there is no smaller exponent.
  normal : -1074 < q → 2 ^ 52 ≤ m
  power : powerOfTwo = true ↔ m = 2 ^ 52 ∧ -1074 < q

/-- Neighbours with one exponent share an end, and only one of them contains it. -/
theorem contains_lt_of_same_exponent (hm : m < m')
    (hv : (Rounding.around m q powerOfTwo).Contains v)
    (hv' : (Rounding.around m' q powerOfTwo').Contains v') : v < v' := by
  have hw : (0 : ℚ) < 2 ^ (q - 2) := by positivity
  by_cases hnext : 4 * m + 2 < lowEnd m' powerOfTwo'
  · calc v ≤ (4 * m + 2 : ℕ) * 2 ^ (q - 2) := hv.le_high
      _ < lowEnd m' powerOfTwo' * 2 ^ (q - 2) := by
        apply mul_lt_mul_of_pos_right _ hw
        exact_mod_cast hnext
      _ ≤ v' := hv'.low_le
  · have hshared : lowEnd m' powerOfTwo' = 4 * m + 2 ∧ m' = m + 1 := by
      unfold lowEnd at hnext ⊢
      by_cases hp : powerOfTwo' = true
      · rw [if_pos hp] at hnext
        omega
      · rw [if_neg hp] at hnext ⊢
        omega
    obtain ⟨hlow, hnext⟩ := hshared
    have hlow' := hv'.low_le
    rw [hlow] at hlow'
    by_cases hodd : m % 2 = 0
    · have hlt := (hv'.of_odd (by omega)).1
      rw [hlow] at hlt
      exact hv.le_high.trans_lt hlt
    · exact (hv.of_odd hodd).2.trans_le hlow'

theorem two_mul_zpow_le (hq : q < q') : (2 : ℚ) * 2 ^ (q - 2) ≤ 2 ^ (q' - 2) := by
  rw [← zpow_one_add₀ (by norm_num : (2 : ℚ) ≠ 0)]
  exact zpow_le_zpow_right₀ (by norm_num) (by omega)

/-- With a larger exponent the interval begins above the last one with the smaller exponent. -/
theorem contains_lt_of_lt_exponent (h : IsDouble m q powerOfTwo)
    (h' : IsDouble m' q' powerOfTwo') (hq : q < q')
    (hv : (Rounding.around m q powerOfTwo).Contains v)
    (hv' : (Rounding.around m' q' powerOfTwo').Contains v') : v < v' := by
  have hw : (0 : ℚ) < 2 ^ (q - 2) := by positivity
  have hlow : 2 ^ 54 - 1 ≤ lowEnd m' powerOfTwo' := by
    have hq' : -1074 < q' := lt_of_le_of_lt h.least hq
    have hnormal := h'.normal hq'
    have hpower : powerOfTwo' = true ↔ m' = 2 ^ 52 := by
      rw [h'.power, and_iff_left hq']
    unfold lowEnd
    by_cases hp : powerOfTwo' = true
    · rw [if_pos hp, hpower.1 hp]
      norm_num
    · have hne : m' ≠ 2 ^ 52 := fun hm => hp (hpower.2 hm)
      rw [if_neg hp]
      omega
  have hbegin : (2 ^ 55 - 2 : ℕ) * 2 ^ (q - 2) ≤ v' := by
    calc ((2 ^ 55 - 2 : ℕ) : ℚ) * 2 ^ (q - 2) = (2 ^ 54 - 1 : ℕ) * (2 * 2 ^ (q - 2)) := by
          push_cast
          ring
      _ ≤ lowEnd m' powerOfTwo' * 2 ^ (q' - 2) := by
        apply mul_le_mul _ (two_mul_zpow_le hq) (by positivity) (by positivity)
        exact_mod_cast hlow
      _ ≤ v' := hv'.low_le
  have hbound := h.lt
  by_cases hlast : m = 2 ^ 53 - 1
  · -- The two intervals meet, but this `m` is odd, so its interval is open.
    refine lt_of_lt_of_le ?_ hbegin
    have hodd := (hv.of_odd (by omega)).2
    rw [hlast] at hodd
    exact_mod_cast hodd
  · calc v ≤ (4 * m + 2 : ℕ) * 2 ^ (q - 2) := hv.le_high
      _ < (2 ^ 55 - 2 : ℕ) * 2 ^ (q - 2) := by
        apply mul_lt_mul_of_pos_right _ hw
        have : 4 * m + 2 < 2 ^ 55 - 2 := by omega
        exact_mod_cast this
      _ ≤ v' := hbegin

/-- **Different doubles have different shortest decimals.** -/
theorem shortest_value_inj {tie tie' : Tie} (h : IsDouble m q powerOfTwo)
    (h' : IsDouble m' q' powerOfTwo')
    (hv : (shortest tie m q powerOfTwo).value = (shortest tie' m' q' powerOfTwo').value) :
    m = m' ∧ q = q' := by
  have hin : (Rounding.around m q powerOfTwo).Contains (shortest tie m q powerOfTwo).value :=
    shortest_contains tie h.pos
  have hin' : (Rounding.around m' q' powerOfTwo').Contains
      (shortest tie' m' q' powerOfTwo').value := shortest_contains tie' h'.pos
  rcases lt_trichotomy q q' with hq | rfl | hq
  · exact absurd hv (contains_lt_of_lt_exponent h h' hq hin hin').ne
  · refine ⟨?_, rfl⟩
    rcases lt_trichotomy m m' with hm | rfl | hm
    · exact absurd hv (contains_lt_of_same_exponent hm hin hin').ne
    · rfl
    · exact absurd hv (contains_lt_of_same_exponent hm hin' hin).ne'
  · exact absurd hv (contains_lt_of_lt_exponent h' h hq hin' hin).ne'

theorem shortest_value_pos {tie : Tie} (hm : 0 < m) :
    0 < (shortest tie m q powerOfTwo).value := by
  have hin : (Rounding.around m q powerOfTwo).Contains (shortest tie m q powerOfTwo).value :=
    shortest_contains tie hm
  have hpos : 0 < lowEnd m powerOfTwo := by
    unfold lowEnd
    split <;> omega
  refine lt_of_lt_of_le ?_ hin.low_le
  have : (0 : ℚ) < lowEnd m powerOfTwo := by exact_mod_cast hpos
  positivity

end

end GraphSelect.Decimal
