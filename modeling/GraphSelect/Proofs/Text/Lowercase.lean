import GraphSelect.Text.Lowercase

/-!
# Lowercasing forgets the case of ASCII letters

Unicode lowercasing maps some characters to several, and a capital sigma by what stands around it.
Still the case of an ASCII letter never shows: such a letter is mapped on its own, it is cased
whatever its case is, it is never passed over, and it is no sigma. So a text may be lowercased as
far as ASCII goes before it is lowercased, and texts that are equal up to the case of ASCII letters
have the same lowercase form.
-/

set_option autoImplicit false

namespace GraphSelect.Text

/-- What holds of the ASCII characters, and of no case at all beyond them, holds of every character.
-/
theorem toLower_induction {P : Char → Char → Prop}
    (hascii : ∀ n < 128, P (Char.ofNat n).toLower (Char.ofNat n)) (hother : ∀ c, P c c) (c : Char) :
    P c.toLower c := by
  by_cases hc : c.toNat < 128
  · have h := hascii c.toNat hc
    rwa [Char.ofNat_toNat] at h
  · have hlower : c.toLower = c := by
      unfold Char.toLower
      rw [dif_neg]
      rintro ⟨-, hz⟩
      have hn : c.toNat ≤ 90 := hz
      omega
    rw [hlower]
    exact hother c

theorem isCased_toLower (c : Char) : isCased c.toLower = isCased c :=
  toLower_induction (P := fun d c => isCased d = isCased c) (by decide) (fun _ => rfl) c

theorem isCaseIgnorable_toLower (c : Char) : isCaseIgnorable c.toLower = isCaseIgnorable c :=
  toLower_induction (P := fun d c => isCaseIgnorable d = isCaseIgnorable c) (by decide)
    (fun _ => rfl) c

theorem lowerChar_toLower (c : Char) : lowerChar c.toLower = lowerChar c :=
  toLower_induction (P := fun d c => lowerChar d = lowerChar c) (by decide) (fun _ => rfl) c

theorem isSigma_toLower (c : Char) : (c.toLower == 'Σ') = (c == 'Σ') :=
  toLower_induction (P := fun d c => (d == 'Σ') = (c == 'Σ')) (by decide) (fun _ => rfl) c

theorem startsCased_map_toLower (cs : List Char) :
    startsCased (cs.map Char.toLower) = startsCased cs := by
  have hpassed : isCaseIgnorable ∘ Char.toLower = isCaseIgnorable := funext isCaseIgnorable_toLower
  unfold startsCased
  rw [List.dropWhile_map, hpassed]
  cases cs.dropWhile isCaseIgnorable with
  | nil => rfl
  | cons c rest => exact isCased_toLower c

/-- What stands before a character counts only for a sigma, and not its case. -/
theorem lowerFrom_map_toLower (before cs : List Char) :
    lowerFrom (before.map Char.toLower) (cs.map Char.toLower) = lowerFrom before cs := by
  induction cs generalizing before with
  | nil => rfl
  | cons c rest ih =>
    have hrest := ih (c :: before)
    rw [List.map_cons] at hrest
    simp only [List.map_cons, lowerFrom, isSigma_toLower, startsCased_map_toLower,
      lowerChar_toLower, hrest]

theorem eqIgnoringCase_iff {a b : String} :
    eqIgnoringCase a b = true ↔ a.toList.map Char.toLower = b.toList.map Char.toLower := by
  rw [eqIgnoringCase, beq_iff_eq]

/-- **Texts that are equal up to the case of ASCII letters have the same lowercase form.** -/
theorem lower_eq_of_eqIgnoringCase {a b : String} (h : eqIgnoringCase a b = true) :
    lower a = lower b := by
  have hlower (s : String) : lower s = String.ofList (lowerFrom [] (s.toList.map Char.toLower)) :=
    congrArg String.ofList (lowerFrom_map_toLower [] s.toList).symm
  rw [hlower a, hlower b, eqIgnoringCase_iff.1 h]

end GraphSelect.Text
