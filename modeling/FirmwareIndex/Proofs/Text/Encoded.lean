import FirmwareIndex.Text.Utf8
import Mathlib.Data.List.Basic
import Mathlib.Data.List.Induction

/-!
# Texts as bytes

The bytes of a character are one that can be the first and others that cannot, and no two characters
have the same bytes. So characters are told apart in bytes also when these are read from the end:
the bytes of a text end with those of another one just if the text ends with the other one
(`Utf8.encode_suffix_iff`).
-/

set_option autoImplicit false

namespace FirmwareIndex.Utf8

variable {s t : Text} {c d : Char}

/-- Texts one after the other are encoded one after the other. -/
@[simp]
theorem encode_append (s t : Text) : encode (s ++ t) = encode s ++ encode t :=
  List.flatMap_append

/-- A text of one character is encoded as that character. -/
@[simp]
theorem encode_singleton (c : Char) : encode [c] = String.utf8EncodeChar c :=
  List.flatMap_singleton ..

/-- Only the empty text has no bytes. -/
@[simp]
theorem encode_eq_nil_iff : encode t = [] ↔ t = [] := by
  cases t with
  | nil => exact iff_of_true rfl rfl
  | cons c t => simp [encode, String.utf8EncodeChar_ne_nil]

/-- Different characters have different bytes. -/
theorem encodeChar_injective : Function.Injective String.utf8EncodeChar := by
  intro c d h
  have hread : ∀ c : Char,
      ((String.utf8EncodeChar c).toByteArray ++ ByteArray.empty).utf8DecodeChar? 0 = some c :=
    fun _ => ByteArray.utf8DecodeChar?_utf8EncodeChar_append
  exact Option.some.inj ((hread c).symm.trans (h ▸ hread d))

/-- The bytes of a character end with those of no other character. -/
theorem eq_of_encodeChar_suffix (h : String.utf8EncodeChar c <:+ String.utf8EncodeChar d) :
    c = d := by
  obtain ⟨front, hfront⟩ := h
  cases front with
  | nil => exact encodeChar_injective hfront
  | cons b front =>
    -- a byte that can be the first would stand behind the first one
    have hpos : 0 < (String.utf8EncodeChar c).length :=
      List.length_pos_iff.2 String.utf8EncodeChar_ne_nil
    have hlength : front.length + 1 < (String.utf8EncodeChar d).length := by
      rw [← hfront, List.length_append, List.length_cons]
      omega
    have hbyte : (String.utf8EncodeChar d)[front.length + 1] = (String.utf8EncodeChar c)[0] := by
      simp [← hfront]
    have hfirst : (String.utf8EncodeChar d)[front.length + 1].IsUTF8FirstByte :=
      hbyte ▸ UInt8.isUTF8FirstByte_getElem_zero_utf8EncodeChar
    exact absurd (UInt8.isUTF8FirstByte_getElem_utf8EncodeChar.1 hfirst) (Nat.succ_ne_zero _)

/-- The bytes of a text end with those of another one just if the text ends with the other one. -/
theorem encode_suffix_iff : encode s <:+ encode t ↔ s <:+ t := by
  refine ⟨fun h => ?_, fun ⟨front, hfront⟩ => ⟨encode front, by rw [← encode_append, hfront]⟩⟩
  induction s using List.reverseRecOn generalizing t with
  | nil => exact List.nil_suffix
  | append_singleton s c ih =>
    rcases List.eq_nil_or_concat' t with rfl | ⟨t, d, rfl⟩
    · have hnil : encode (s ++ [c]) = [] := List.suffix_nil.1 h
      simp at hnil
    · rw [encode_append, encode_append, encode_singleton, encode_singleton] at h
      have hlast : c = d := by
        rcases List.suffix_or_suffix_of_suffix ((List.suffix_append _ _).trans h)
          (List.suffix_append (encode t) (String.utf8EncodeChar d)) with hcd | hdc
        · exact eq_of_encodeChar_suffix hcd
        · exact (eq_of_encodeChar_suffix hdc).symm
      subst hlast
      exact List.suffix_append_self_iff.2 (ih (List.suffix_append_self_iff.1 h))

end FirmwareIndex.Utf8
