import GraphSelect.Decimal.Format
import GraphSelect.Proofs.Decimal.Rounding

/-!
# The text of a double determines it

A text of digits, with a point among them or an exponent after them, can be read as a number
(`numberValue`), and the text that is written for a decimal reads as that decimal. Since different
doubles have different shortest decimals, they have different texts. What is left are the sign, the
infinities and the one NaN, which are told apart by their first characters.
-/

set_option autoImplicit false

namespace GraphSelect.Decimal

/-! ## The bits of a double -/

def signBit (negative : Bool) : Nat :=
  if negative then 2 ^ 63 else 0

/-- The bits that a reading was read off. -/
def Reading.bits : Reading → Nat
  | .nan => 0x7FF8000000000000
  | .infinite negative => signBit negative + 2047 * 2 ^ 52
  | .finite negative m q _ =>
    signBit negative + if m < 2 ^ 52 then m else (q + 1075).toNat * 2 ^ 52 + (m - 2 ^ 52)

/-- There is only one NaN. -/
theorem toBits_of_nan {x : Float} (he : x.toBits.toNat / 2 ^ 52 % 2 ^ 11 = 2047)
    (hf : x.toBits.toNat % 2 ^ 52 ≠ 0) : x.toBits.toNat = 0x7FF8000000000000 := by
  have hnan : x.toModel.toBits.toBitVec =
      Float.Model.UnpackedFloat.packedNaN Float.Model.Format.binary64 := by
    apply x.toModel.valid.eq_packedNaN
    · apply BitVec.eq_of_toNat_eq
      rw [← Nat.shiftRight_eq_div_pow] at he
      simpa [Float.Model.UnpackedFloat.unpackExponent, Float.toBits] using he
    · intro hzero
      apply hf
      have hbits := congrArg BitVec.toNat hzero
      simpa [Float.Model.UnpackedFloat.unpackMantissa, Float.toBits] using hbits
  exact congrArg BitVec.toNat hnan

theorem signBit_eq (b : Nat) (hb : b < 2 ^ 64) :
    signBit (b / 2 ^ 63 % 2 == 1) = b / 2 ^ 63 * 2 ^ 63 := by
  unfold signBit
  by_cases h : b / 2 ^ 63 % 2 = 1
  · simp only [h, beq_self_eq_true, if_true]
    omega
  · simp only [beq_iff_eq, h, if_false]
    omega

/-- **A reading keeps all bits of a double.** -/
theorem read_bits (x : Float) : (read x).bits = x.toBits.toNat := by
  have hlt : x.toBits.toNat < 2 ^ 64 := x.toBits.toNat_lt
  have hsign := signBit_eq x.toBits.toNat hlt
  unfold read
  simp only [Nat.pow_eq]
  by_cases he : x.toBits.toNat / 2 ^ 52 % 2 ^ 11 = 2047
  · rw [if_pos he]
    by_cases hf : x.toBits.toNat % 2 ^ 52 = 0
    · rw [if_pos hf, Reading.bits, hsign]
      omega
    · rw [if_neg hf, Reading.bits, toBits_of_nan he hf]
  · rw [if_neg he]
    by_cases hzero : x.toBits.toNat / 2 ^ 52 % 2 ^ 11 = 0
    · rw [if_pos hzero, Reading.bits, hsign, if_pos (by omega)]
      omega
    · rw [if_neg hzero, Reading.bits, hsign, if_neg (by omega)]
      omega

theorem read_inj {x y : Float} (h : read x = read y) : x = y := by
  have hbits : x.toBits = y.toBits := by
    apply UInt64.toNat_inj.1
    rw [← read_bits, ← read_bits, h]
  cases x with
  | ofModel model =>
    cases y with
    | ofModel model' =>
      cases model
      cases model'
      cases hbits
      rfl

/-- A finite double is zero or one of the numbers that have an interval around them. -/
theorem read_finite {x : Float} {negative powerOfTwo : Bool} {m : Nat} {q : Int}
    (h : read x = .finite negative m q powerOfTwo) :
    m = 0 ∧ q = -1074 ∧ powerOfTwo = false ∨ IsDouble m q powerOfTwo := by
  unfold read at h
  simp only [Nat.pow_eq] at h
  by_cases he : x.toBits.toNat / 2 ^ 52 % 2 ^ 11 = 2047
  · rw [if_pos he] at h
    split at h <;> cases h
  · rw [if_neg he] at h
    by_cases hzero : x.toBits.toNat / 2 ^ 52 % 2 ^ 11 = 0
    · rw [if_pos hzero] at h
      cases h
      by_cases hm : x.toBits.toNat % 2 ^ 52 = 0
      · exact .inl ⟨hm, rfl, rfl⟩
      · exact .inr ⟨by omega, by omega, by omega, by omega, by simp⟩
    · rw [if_neg hzero] at h
      cases h
      refine .inr ⟨by omega, by omega, by omega, by omega, ?_⟩
      simp only [Bool.and_eq_true, beq_iff_eq, decide_eq_true_eq]
      omega

/-! ## Reading a text -/

def intValue : List Char → Int
  | '-' :: digits => -(Nat.ofDigitChars 10 digits 0 : Int)
  | digits => Nat.ofDigitChars 10 digits 0

/-- The number that digits with a point among them stand for. -/
def pointValue (cs : List Char) : ℚ :=
  Nat.ofDigitChars 10 (cs.filter (· ≠ '.')) 0 / 10 ^ ((cs.dropWhile (· ≠ '.')).drop 1).length

/-- The number that a text without a sign stands for. -/
def numberValue (cs : List Char) : ℚ :=
  pointValue (cs.takeWhile (· ≠ 'e')) * 10 ^ intValue ((cs.dropWhile (· ≠ 'e')).drop 1)

theorem isDigit_of_mem {n : Nat} {c : Char} (h : c ∈ Nat.toDigits 10 n) : c.isDigit = true :=
  Nat.isDigit_of_mem_toDigits (by norm_num) (by norm_num) h

theorem not_mem_toDigits {n : Nat} {c : Char} (hc : c.isDigit = false) : c ∉ Nat.toDigits 10 n := by
  intro h
  rw [isDigit_of_mem h] at hc
  cases hc

theorem intValue_intDigits (i : Int) : intValue (intDigits i) = i := by
  unfold intDigits
  by_cases hi : i < 0
  · rw [if_pos hi, intValue, Nat.ofDigitChars_toDigits (by simp) (by simp)]
    omega
  · rw [if_neg hi, intValue, Nat.ofDigitChars_toDigits (by simp) (by simp)]
    · omega
    · intro digits hminus
      apply not_mem_toDigits (c := '-') (n := i.natAbs) rfl
      rw [hminus]
      exact List.mem_cons_self

theorem forall_ne_of_not_mem {a : Char} {cs : List Char} (h : a ∉ cs) :
    ∀ c ∈ cs, decide (c ≠ a) = true := by
  intro c hc
  apply decide_eq_true
  rintro rfl
  exact h hc

theorem pointValue_of_not_mem {cs : List Char} (h : '.' ∉ cs) :
    pointValue cs = Nat.ofDigitChars 10 cs 0 := by
  have hall := forall_ne_of_not_mem h
  rw [pointValue, List.filter_eq_self.2 hall, List.dropWhile_eq_nil_iff.2 hall]
  simp

theorem pointValue_append {whole fraction : List Char} (hw : '.' ∉ whole) (hf : '.' ∉ fraction) :
    pointValue (whole ++ '.' :: fraction) =
      Nat.ofDigitChars 10 (whole ++ fraction) 0 / 10 ^ fraction.length := by
  have hwhole := forall_ne_of_not_mem hw
  rw [pointValue, List.dropWhile_append_of_pos hwhole, List.filter_append,
    List.filter_eq_self.2 hwhole, List.filter_cons_of_neg (by simp),
    List.filter_eq_self.2 (forall_ne_of_not_mem hf), List.dropWhile_cons_of_neg (by simp)]
  simp

theorem numberValue_of_not_mem {cs : List Char} (h : 'e' ∉ cs) :
    numberValue cs = pointValue cs := by
  have hall := forall_ne_of_not_mem h
  rw [numberValue, List.takeWhile_eq_self_iff.2 hall, List.dropWhile_eq_nil_iff.2 hall]
  simp [intValue, Nat.ofDigitChars]

theorem numberValue_exponent {mantissa : List Char} (h : 'e' ∉ mantissa) (i : Int) :
    numberValue (mantissa ++ 'e' :: intDigits i) = pointValue mantissa * 10 ^ i := by
  have hall := forall_ne_of_not_mem h
  rw [numberValue, List.takeWhile_append_of_pos hall, List.dropWhile_append_of_pos hall,
    List.takeWhile_cons_of_neg (by simp), List.dropWhile_cons_of_neg (by simp)]
  simp [intValue_intDigits]

/-! ## The layouts keep the number -/

/-- A layout that marks whole numbers as doubles and puts no sign before an exponent from zero
upwards. -/
structure NumberFormat.Marked (f : NumberFormat) : Prop where
  wholeMark : f.wholeMark = ['.', '0']
  exponentPlus : f.exponentPlus = []

section

variable {f : NumberFormat} {n : Nat} {point : Int}

/-- Moving the point by whole numbers of digits. -/
theorem div_pow_eq (n : Nat) {k : Nat} {e : Int} (he : e = -k) : (n / 10 ^ k : ℚ) = n * 10 ^ e := by
  rw [he, zpow_neg, zpow_natCast, div_eq_mul_inv]

theorem positional_value (hf : f.Marked) :
    numberValue (f.positional (Nat.toDigits 10 n) point) =
      n * 10 ^ (point - (Nat.toDigits 10 n).length) := by
  have hpoint : '.' ∉ Nat.toDigits 10 n := not_mem_toDigits rfl
  have he : 'e' ∉ Nat.toDigits 10 n := not_mem_toDigits rfl
  unfold NumberFormat.positional
  by_cases hneg : point ≤ 0
  · -- Zeros between the point and the digits.
    have hshape : ['0', '.'] ++ List.replicate (-point).toNat '0' ++ Nat.toDigits 10 n =
        ['0'] ++ '.' :: (List.replicate (-point).toNat '0' ++ Nat.toDigits 10 n) := by simp
    rw [if_pos hneg, hshape, numberValue_of_not_mem (by simp [he, List.mem_replicate]),
      pointValue_append (by simp) (by simp [hpoint, List.mem_replicate])]
    rw [List.singleton_append, Nat.ofDigitChars_cons, Nat.ofDigitChars_append,
      Nat.ofDigitChars_replicate_zero, List.length_append, List.length_replicate]
    rw [Nat.sub_self, Nat.mul_zero, Nat.ofDigitChars_toDigits (by simp) (by simp)]
    exact div_pow_eq n (by omega)
  · rw [if_neg hneg]
    dsimp only
    by_cases hlen : (Nat.toDigits 10 n).length ≤ point.toNat
    · -- Zeros between the digits and the point.
      have hshape : ∀ zeros : List Char, Nat.toDigits 10 n ++ zeros ++ ['.', '0'] =
          Nat.toDigits 10 n ++ zeros ++ '.' :: ['0'] := fun _ => rfl
      rw [if_pos hlen, hf.wholeMark, hshape,
        numberValue_of_not_mem (by simp [he, List.mem_replicate]),
        pointValue_append (by simp [hpoint, List.mem_replicate]) (by simp)]
      rw [Nat.ofDigitChars_append, Nat.ofDigitChars_append,
        Nat.ofDigitChars_toDigits (by simp) (by simp), Nat.ofDigitChars_replicate_zero]
      have hexponent : point - (Nat.toDigits 10 n).length =
          ((point.toNat - (Nat.toDigits 10 n).length : ℕ) : ℤ) := by omega
      rw [hexponent, zpow_natCast]
      simp only [Nat.ofDigitChars_cons, Nat.ofDigitChars_nil, Nat.sub_self, List.length_singleton]
      push_cast
      ring
    · -- The point among the digits.
      rw [if_neg hlen, numberValue_of_not_mem, pointValue_append, List.take_append_drop,
        Nat.ofDigitChars_toDigits (by simp) (by simp), List.length_drop]
      · exact div_pow_eq n (by omega)
      · exact fun h => hpoint (List.mem_of_mem_take h)
      · exact fun h => hpoint (List.mem_of_mem_drop h)
      · intro h
        rcases List.mem_append.1 h with h | h
        · exact he (List.mem_of_mem_take h)
        · rcases List.mem_cons.1 h with h | h
          · exact absurd h (by decide)
          · exact he (List.mem_of_mem_drop h)

theorem scientific_value (hf : f.Marked) :
    numberValue (f.scientific (Nat.toDigits 10 n) point) =
      n * 10 ^ (point - (Nat.toDigits 10 n).length) := by
  have hpoint : '.' ∉ Nat.toDigits 10 n := not_mem_toDigits rfl
  have he : 'e' ∉ Nat.toDigits 10 n := not_mem_toDigits rfl
  have hn : Nat.ofDigitChars 10 (Nat.toDigits 10 n) 0 = n :=
    Nat.ofDigitChars_toDigits (by simp) (by simp)
  unfold NumberFormat.scientific
  simp only [hf.exponentPlus, ite_self, List.nil_append]
  cases hdigits : Nat.toDigits 10 n with
  | nil => exact absurd hdigits Nat.toDigits_ne_nil
  | cons d rest =>
    rw [hdigits] at hpoint he hn
    cases rest with
    | nil =>
      rw [numberValue_exponent he, pointValue_of_not_mem hpoint, hn]
      simp
    | cons d' rest =>
      simp only [List.mem_cons, not_or] at hpoint he
      show numberValue (([d] ++ '.' :: d' :: rest) ++ 'e' :: intDigits (point - 1)) = _
      rw [numberValue_exponent (by simp [he]), pointValue_append (by simp [hpoint])
        (by simp [hpoint]), List.singleton_append, hn, div_pow_eq n rfl, mul_assoc,
        ← zpow_add₀ (by norm_num : (10 : ℚ) ≠ 0)]
      congr 2
      simp only [List.length_cons]
      push_cast
      ring

/-- **The text of a decimal reads as the decimal.** -/
theorem magnitude_value (hf : f.Marked) (s : Scaled) : numberValue (f.magnitude s) = s.value := by
  unfold NumberFormat.magnitude Scaled.value
  dsimp only
  by_cases hzero : s.coefficient = 0
  · rw [if_pos hzero, positional_value hf, hzero]
    simp
  · have hpoint : (Nat.toDigits 10 s.coefficient).length + s.exponent -
        (Nat.toDigits 10 s.coefficient).length = s.exponent := by ring
    rw [if_neg hzero]
    split
    · rw [positional_value hf, hpoint]
    · rw [scientific_value hf, hpoint]

end

/-! ## Signs and marks -/

section

variable {f : NumberFormat}

theorem head_toDigits (n : Nat) : ∃ c rest, Nat.toDigits 10 n = c :: rest ∧ c.isDigit = true := by
  cases h : Nat.toDigits 10 n with
  | nil => exact absurd h Nat.toDigits_ne_nil
  | cons c rest =>
    have hc : c ∈ Nat.toDigits 10 n := by
      rw [h]
      exact List.mem_cons_self
    exact ⟨c, rest, rfl, isDigit_of_mem hc⟩

theorem head_positional {c : Char} (hc : c.isDigit = true) (rest : List Char) (point : Int) :
    ∃ d rest', f.positional (c :: rest) point = d :: rest' ∧ d.isDigit = true := by
  unfold NumberFormat.positional
  by_cases hneg : point ≤ 0
  · rw [if_pos hneg]
    exact ⟨'0', _, rfl, rfl⟩
  · rw [if_neg hneg]
    dsimp only
    split
    · exact ⟨c, _, rfl, hc⟩
    · obtain ⟨k, hk⟩ : ∃ k, point.toNat = k + 1 := ⟨point.toNat - 1, by omega⟩
      rw [hk, List.take_succ_cons]
      exact ⟨c, _, rfl, hc⟩

/-- A number begins with a digit. -/
theorem head_magnitude (f : NumberFormat) (s : Scaled) :
    ∃ c rest, f.magnitude s = c :: rest ∧ c.isDigit = true := by
  obtain ⟨c, rest, hdigits, hc⟩ := head_toDigits s.coefficient
  unfold NumberFormat.magnitude
  simp only [hdigits]
  split
  · exact head_positional hc rest 1
  · split
    · exact head_positional hc rest _
    · unfold NumberFormat.scientific
      cases rest <;> exact ⟨c, _, rfl, hc⟩

/-- The text of a reading without its sign. -/
def NumberFormat.body (f : NumberFormat) : Reading → List Char
  | .nan => ['N', 'a', 'N']
  | .infinite _ => ['i', 'n', 'f']
  | .finite _ m q powerOfTwo =>
    f.magnitude (if m = 0 then ⟨0, 0⟩ else shortest f.tie m q powerOfTwo)

def Reading.isNegative : Reading → Bool
  | .nan => false
  | .infinite negative => negative
  | .finite negative _ _ _ => negative

theorem chars_eq (f : NumberFormat) (x : Float) :
    f.chars x = (if (read x).isNegative then ['-'] else []) ++ f.body (read x) := by
  unfold NumberFormat.chars
  cases read x <;> rfl

inductive Kind where
  | nan
  | infinite
  | finite

def Reading.kind : Reading → Kind
  | .nan => .nan
  | .infinite _ => .infinite
  | .finite _ _ _ _ => .finite

/-- What kind of number a text stands for that begins so. -/
def kindOf (c : Char) : Kind :=
  if c = 'N' then .nan else if c = 'i' then .infinite else .finite

theorem head_body (f : NumberFormat) (r : Reading) :
    ∃ c rest, f.body r = c :: rest ∧ c ≠ '-' ∧ kindOf c = r.kind := by
  cases r with
  | nan => exact ⟨_, _, rfl, by decide, rfl⟩
  | infinite negative => exact ⟨_, _, rfl, by decide, rfl⟩
  | finite negative m q powerOfTwo =>
    obtain ⟨c, rest, hbody, hc⟩ :=
      head_magnitude f (if m = 0 then ⟨0, 0⟩ else shortest f.tie m q powerOfTwo)
    have hne (a : Char) (ha : a.isDigit = false) : c ≠ a := by
      rintro rfl
      rw [hc] at ha
      cases ha
    refine ⟨c, rest, hbody, hne '-' rfl, ?_⟩
    rw [kindOf, if_neg (hne 'N' rfl), if_neg (hne 'i' rfl)]
    rfl

/-- The sign and the rest of a text are determined by it. -/
theorem signed_inj {negative negative' : Bool} {c c' : Char} {rest rest' : List Char}
    (hc : c ≠ '-') (hc' : c' ≠ '-')
    (h : (if negative then ['-'] else []) ++ c :: rest =
      (if negative' then ['-'] else []) ++ c' :: rest') :
    negative = negative' ∧ c = c' ∧ rest = rest' := by
  cases negative <;> cases negative' <;>
    simp only [if_true, if_false, Bool.false_eq_true, List.nil_append, List.cons_append,
      List.cons.injEq] at h
  · exact ⟨rfl, h⟩
  · exact absurd h.1 hc
  · exact absurd h.1.symm hc'
  · exact ⟨rfl, h.2⟩

theorem shortest_or_zero_inj {m m' : Nat} {q q' : Int} {p p' : Bool}
    (h : m = 0 ∧ q = -1074 ∧ p = false ∨ IsDouble m q p)
    (h' : m' = 0 ∧ q' = -1074 ∧ p' = false ∨ IsDouble m' q' p')
    (hv : (if m = 0 then Scaled.mk 0 0 else shortest f.tie m q p).value =
      (if m' = 0 then Scaled.mk 0 0 else shortest f.tie m' q' p').value) :
    m = m' ∧ q = q' ∧ p = p' := by
  have hzero : (Scaled.mk 0 0).value = 0 := by simp [Scaled.value]
  rcases h with ⟨rfl, rfl, rfl⟩ | h <;> rcases h' with ⟨rfl, rfl, rfl⟩ | h'
  · exact ⟨rfl, rfl, rfl⟩
  · rw [if_pos rfl, if_neg h'.pos.ne', hzero] at hv
    exact absurd hv (shortest_value_pos h'.pos).ne
  · rw [if_pos rfl, if_neg h.pos.ne', hzero] at hv
    exact absurd hv (shortest_value_pos h.pos).ne'
  · rw [if_neg h.pos.ne', if_neg h'.pos.ne'] at hv
    obtain ⟨rfl, rfl⟩ := shortest_value_inj h h' hv
    exact ⟨rfl, rfl, Bool.eq_iff_iff.2 (h.power.trans h'.power.symm)⟩

/-- **Different doubles have different texts.** -/
theorem chars_injective (hf : f.Marked) : Function.Injective f.chars := by
  intro x y hchars
  apply read_inj
  obtain ⟨c, rest, hx, hc, hkind⟩ := head_body f (read x)
  obtain ⟨c', rest', hy, hc', hkind'⟩ := head_body f (read y)
  rw [chars_eq, chars_eq, hx, hy] at hchars
  obtain ⟨hsign, rfl, rfl⟩ := signed_inj hc hc' hchars
  have hbody : f.body (read x) = f.body (read y) := hx.trans hy.symm
  have hkinds : (read x).kind = (read y).kind := hkind.symm.trans hkind'
  cases hrx : read x with
  | nan =>
    cases hry : read y with
    | nan => rfl
    | infinite _ | finite _ _ _ _ =>
      rw [hrx, hry] at hkinds
      cases hkinds
  | infinite negative =>
    cases hry : read y with
    | infinite negative' =>
      rw [hrx, hry] at hsign
      exact congrArg Reading.infinite hsign
    | nan | finite _ _ _ _ =>
      rw [hrx, hry] at hkinds
      cases hkinds
  | finite negative m q p =>
    cases hry : read y with
    | finite negative' m' q' p' =>
      rw [hrx, hry] at hsign hbody
      -- The only case where digits are compared, and it is their value that decides.
      have hvalue := congrArg numberValue hbody
      unfold NumberFormat.body at hvalue
      rw [magnitude_value hf, magnitude_value hf] at hvalue
      obtain ⟨rfl, rfl, rfl⟩ := shortest_or_zero_inj (read_finite hrx) (read_finite hry) hvalue
      rw [show negative = negative' from hsign]
    | nan | infinite _ =>
      rw [hrx, hry] at hkinds
      cases hkinds

end

/-! ## The characters of a text -/

/-- The characters that numbers are made of. -/
def isNumberChar (c : Char) : Bool :=
  c.isDigit || ['.', '-', 'e', 'i', 'n', 'f', 'N', 'a'].contains c

section

variable {f : NumberFormat} {digits : List Char}

theorem isNumberChar_toDigits (n : Nat) : ∀ c ∈ Nat.toDigits 10 n, isNumberChar c = true := by
  intro c hc
  simp [isNumberChar, isDigit_of_mem hc]

theorem isNumberChar_intDigits (i : Int) : ∀ c ∈ intDigits i, isNumberChar c = true := by
  intro c hc
  unfold intDigits at hc
  split at hc
  · rcases List.mem_cons.1 hc with rfl | hc
    · rfl
    · exact isNumberChar_toDigits _ c hc
  · exact isNumberChar_toDigits _ c hc

theorem isNumberChar_positional (hf : f.Marked) (hd : ∀ c ∈ digits, isNumberChar c = true)
    (point : Int) : ∀ c ∈ f.positional digits point, isNumberChar c = true := by
  intro c hc
  unfold NumberFormat.positional at hc
  dsimp only at hc
  split at hc
  · simp only [List.cons_append, List.nil_append, List.mem_cons, List.mem_append,
      List.mem_replicate] at hc
    rcases hc with rfl | rfl | ⟨-, rfl⟩ | hc
    · rfl
    · rfl
    · rfl
    · exact hd c hc
  · split at hc
    · simp only [hf.wholeMark, List.mem_cons, List.mem_append, List.mem_replicate,
        List.not_mem_nil, or_false] at hc
      rcases hc with (hc | ⟨-, rfl⟩) | rfl | rfl
      · exact hd c hc
      · rfl
      · rfl
      · rfl
    · rcases List.mem_append.1 hc with hc | hc
      · exact hd c (List.mem_of_mem_take hc)
      · rcases List.mem_cons.1 hc with rfl | hc
        · rfl
        · exact hd c (List.mem_of_mem_drop hc)

theorem isNumberChar_scientific (hf : f.Marked) (hd : ∀ c ∈ digits, isNumberChar c = true)
    (point : Int) : ∀ c ∈ f.scientific digits point, isNumberChar c = true := by
  intro c hc
  unfold NumberFormat.scientific at hc
  simp only [hf.exponentPlus, ite_self, List.nil_append] at hc
  rcases List.mem_append.1 hc with hc | hc
  · cases digits with
    | nil => cases hc
    | cons d rest =>
      cases rest with
      | nil => exact hd c hc
      | cons d' rest =>
        change c ∈ d :: '.' :: d' :: rest at hc
        rcases List.mem_cons.1 hc with rfl | hc
        · exact hd c List.mem_cons_self
        · rcases List.mem_cons.1 hc with rfl | hc
          · rfl
          · exact hd c (.tail _ hc)
  · rcases List.mem_cons.1 hc with rfl | hc
    · rfl
    · exact isNumberChar_intDigits _ c hc

theorem isNumberChar_magnitude (hf : f.Marked) (s : Scaled) :
    ∀ c ∈ f.magnitude s, isNumberChar c = true := by
  have hdigits := isNumberChar_toDigits s.coefficient
  unfold NumberFormat.magnitude
  dsimp only
  split
  · exact isNumberChar_positional hf hdigits _
  · split
    · exact isNumberChar_positional hf hdigits _
    · exact isNumberChar_scientific hf hdigits _

/-- **The text of a double is made of characters of numbers only.** -/
theorem isNumberChar_chars (hf : f.Marked) (x : Float) : ∀ c ∈ f.chars x, isNumberChar c = true := by
  intro c hc
  rw [chars_eq] at hc
  rcases List.mem_append.1 hc with hc | hc
  · split at hc
    · rw [List.mem_singleton.1 hc]
      rfl
    · cases hc
  · cases hr : read x with
    | nan =>
      have hnan : ∀ c ∈ ['N', 'a', 'N'], isNumberChar c = true := by simp [isNumberChar]
      rw [hr] at hc
      exact hnan c hc
    | infinite negative =>
      have hinf : ∀ c ∈ ['i', 'n', 'f'], isNumberChar c = true := by simp [isNumberChar]
      rw [hr] at hc
      exact hinf c hc
    | finite negative m q p =>
      rw [hr] at hc
      exact isNumberChar_magnitude hf _ c hc

end

end GraphSelect.Decimal
