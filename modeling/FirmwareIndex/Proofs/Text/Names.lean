import FirmwareIndex.Text.Basic
import Mathlib

/-!
# Names in any case

Names are compared whatever the case of their ASCII letters, which is to compare their capitals
(`Text.sameName_iff`). A text that is the same name as one of letters alone has letters alone, so
it has no blanks and no punctuation (`Text.letters_of_sameName`).
-/

set_option autoImplicit false

namespace FirmwareIndex

namespace Text

/-- A name of letters alone is one in whatever case. -/
theorem isAlpha_of_sameName {a b : Text} (h : sameName a b) (hb : b.all Char.isAlpha) :
    ∀ c ∈ a, c.isAlpha := by
  have hlower : lower a = lower b := of_decide_eq_true h
  intro c hc
  have hmem : c.toLower ∈ lower b := hlower ▸ List.mem_map_of_mem hc
  obtain ⟨d, hd, heq⟩ := List.mem_map.1 hmem
  rw [← Char.isAlpha_toLower_eq_isAlpha, ← heq, Char.isAlpha_toLower_eq_isAlpha]
  exact List.all_eq_true.1 hb d hd

/-- A letter is no blank. -/
theorem isBlank_of_isAlpha {c : Char} (h : c.isAlpha) : isBlank c = false := by
  have hletter : 65 ≤ c.toNat ∧ c.toNat ≤ 90 ∨ 97 ≤ c.toNat ∧ c.toNat ≤ 122 := by
    simpa [Char.isAlpha, Char.isUpper, Char.isLower, UInt32.le_iff_toNat_le] using h
  simp only [isBlank, inRanges, blankRanges, List.any_cons, List.any_nil, Bool.or_false,
    Bool.or_eq_false_iff, Bool.and_eq_false_iff, decide_eq_false_iff_not]
  omega

/-- A name of letters alone has no blanks and no punctuation, in whatever case it is written. -/
theorem letters_of_sameName {a b : Text} (h : sameName a b) (hb : b.all Char.isAlpha) :
    (∀ c ∈ a, isBlank c = false) ∧ ∀ c : Char, c.isAlpha = false → c ∉ a := by
  have halpha := isAlpha_of_sameName h hb
  refine ⟨fun c hc => isBlank_of_isAlpha (halpha c hc), fun c hc hmem => ?_⟩
  rw [halpha c hmem] at hc
  cases hc

/-- Capitals made first do not matter to small letters. -/
@[simp]
theorem lower_upper (t : Text) : lower (upper t) = lower t := by
  simp only [lower, upper, List.map_map, Function.comp_def, Char.toLower_toUpper_eq_toLower]

/-- Small letters made first do not matter to capitals. -/
@[simp]
theorem upper_lower (t : Text) : upper (lower t) = upper t := by
  simp only [lower, upper, List.map_map, Function.comp_def, Char.toUpper_toLower_eq_toUpper]

/-- A text in capitals stays as it is. -/
@[simp]
theorem upper_upper (t : Text) : upper (upper t) = upper t := by
  simp only [upper, List.map_map, Function.comp_def, Char.toUpper_toUpper_eq_toUpper]

/-- Texts are the same name just if they have the same capitals. -/
theorem sameName_iff {a b : Text} : sameName a b = true ↔ upper a = upper b := by
  rw [sameName, decide_eq_true_eq]
  refine ⟨fun h => ?_, fun h => ?_⟩
  · rw [← upper_lower a, h, upper_lower]
  · rw [← lower_upper a, h, lower_upper]

/-- Only the empty name is the name of nothing. -/
theorem sameName_nil {b : Text} (h : sameName [] b) : b = [] := by
  have hlower : lower [] = lower b := of_decide_eq_true h
  exact List.map_eq_nil_iff.1 hlower.symm

end Text

end FirmwareIndex
