import FirmwareIndex.Path.Reference
import FirmwareIndex.Proofs.Text.Encoded
import FirmwareIndex.Proofs.Text.Pieces

/-!
# How a path ends

A path ends with a reference if its text does so where a piece begins. This is a statement about
lists of pieces: those of the reference are the last ones of the path (`Path.ends_with_pieces`). It
can be read off the bytes of both texts, too. There the byte in front of the ending is looked up by
its place, which is always one in the text (`Utf8.endsWhole?_append`).
-/

set_option autoImplicit false

namespace FirmwareIndex

namespace Utf8

/-- Whether a text ends with another one where a piece begins, seen in their bytes. There is no
answer if the ending is longer than the text, or if the place in front of the ending, counted in
bytes, is not one in the text. -/
def endsWhole? (bytes ending : List UInt8) : Option Bool :=
  if ending.isSuffixOf bytes then
    if bytes.length < ending.length then none
    else
      match bytes.length - ending.length with
      | 0 => some true
      | place + 1 => bytes[place]?.map fun byte => byte = 0x2F
  else some false

/-- The last byte of a text is that of a slash just if the text ends with a slash. -/
theorem getLast?_encode_eq_iff {t : Text} :
    (encode t).getLast? = some 0x2F ↔ t.getLast? = some '/' := by
  have hslash : encode ['/'] = [0x2F] := rfl
  have hends : ∀ {α : Type} (l : List α) (a : α), l.getLast? = some a ↔ [a] <:+ l := by
    intro α l a
    rw [List.getLast?_eq_some_iff]
    exact exists_congr fun front => eq_comm
  rw [hends, hends, ← hslash, encode_suffix_iff]

/-- The byte in front of an ending is the last one of what stands there. -/
theorem getElem?_encode_append {front : Text} {place : Nat}
    (h : (encode front).length = place + 1) (ending : Text) :
    (encode (front ++ ending))[place]? = (encode front).getLast? := by
  rw [encode_append, List.getElem?_append_left (by omega), List.getLast?_eq_getElem?, h,
    Nat.succ_sub_one]

/-- The place in front of an ending is one in the text, and what stands there is a slash just if it
is one in the text. -/
theorem endsWhole?_append (front ending : Text) :
    endsWhole? (encode (front ++ ending)) (encode ending) =
      some (front = [] || front.getLast? = some '/') := by
  have hsuffix : (encode ending).isSuffixOf (encode (front ++ ending)) = true :=
    List.isSuffixOf_iff_suffix.2 (encode_suffix_iff.2 (List.suffix_append front ending))
  have hlength : (encode (front ++ ending)).length - (encode ending).length =
      (encode front).length := by
    rw [encode_append, List.length_append, Nat.add_sub_cancel]
  have hlonger : ¬ (encode (front ++ ending)).length < (encode ending).length := by
    rw [encode_append, List.length_append]
    omega
  rw [endsWhole?, if_pos hsuffix, if_neg hlonger, hlength]
  split
  · rename_i hzero
    simp [encode_eq_nil_iff.1 (List.eq_nil_of_length_eq_zero hzero)]
  · rename_i place hplace
    have hne : front ≠ [] := by
      rintro rfl
      cases hplace
    obtain ⟨byte, hlast⟩ : ∃ byte, (encode front).getLast? = some byte :=
      Option.isSome_iff_exists.1 (List.getLast?_isSome.2 (mt encode_eq_nil_iff.1 hne))
    have hiff := getLast?_encode_eq_iff (t := front)
    rw [hlast, Option.some.injEq] at hiff
    rw [getElem?_encode_append hplace, hlast, Option.map_some]
    simp [hne, hiff]

/-- Where the text does not end with the other one, its bytes do not either. -/
theorem endsWhole?_of_not_suffix {t ending : Text} (h : ¬ ending <:+ t) :
    endsWhole? (encode t) (encode ending) = some false := by
  have hsuffix : ¬ (encode ending).isSuffixOf (encode t) = true :=
    fun hends => h (encode_suffix_iff.1 (List.isSuffixOf_iff_suffix.1 hends))
  rw [endsWhole?, if_neg hsuffix]

end Utf8

namespace Path

variable {p : Path} {ending front : Text}

/-- What the text of a path has to end with in order to end with a reference: the trimmed reference
with slashes alone, and without those at its start. -/
def wanted (ending : Text) : Text :=
  (Text.slashed (Text.trim ending)).dropWhile (· = '/')

/-- No path ends with a reference that has nothing but slashes and blanks. -/
theorem hasEnding_of_wanted_eq_nil (h : wanted ending = []) : p.hasEnding ending = false := by
  have hwanted : (Text.slashed (Text.trim ending)).dropWhile (· = '/') = [] := h
  rw [hasEnding, hwanted]

/-- With something wanted, the answer is in the character in front of it. -/
theorem hasEnding_of_wanted_ne_nil (h : wanted ending ≠ []) :
    p.hasEnding ending = match (wanted ending).reverse.isPrefixOf? p.normalized.reverse with
      | none => false
      | some [] => true
      | some (c :: _) => c = '/' := by
  unfold hasEnding
  split
  · rename_i hnil
    exact absurd hnil h
  · rfl

/-- The text of a path that ends with what is wanted does so where a piece begins if nothing or a
slash is in front of it. -/
theorem hasEnding_of_eq_append (hne : wanted ending ≠ [])
    (h : p.normalized = front ++ wanted ending) :
    p.hasEnding ending = (front = [] || front.getLast? = some '/') := by
  have hbehind : (wanted ending).reverse.isPrefixOf? p.normalized.reverse = some front.reverse := by
    rw [List.isPrefixOf?_eq_some_iff_append_eq, h, List.reverse_append]
  rw [hasEnding_of_wanted_ne_nil hne, hbehind]
  rcases List.eq_nil_or_concat' front with rfl | ⟨start, c, rfl⟩
  · rfl
  · simp

/-- A path whose text does not end with what is wanted does not end with the reference. -/
theorem hasEnding_of_not_suffix (hne : wanted ending ≠ []) (h : ¬ wanted ending <:+ p.normalized) :
    p.hasEnding ending = false := by
  have hbehind : (wanted ending).reverse.isPrefixOf? p.normalized.reverse = none := by
    rw [Option.eq_none_iff_forall_ne_some]
    intro rest hrest
    rw [List.isPrefixOf?_eq_some_iff_append_eq] at hrest
    exact h (List.reverse_prefix.1 ⟨rest, hrest⟩)
  rw [hasEnding_of_wanted_ne_nil hne, hbehind]

/-- A path ends with a reference if something is wanted, and stands at the end of its text where a
piece begins. -/
theorem hasEnding_eq_true_iff : p.hasEnding ending = true ↔ wanted ending ≠ [] ∧
    ∃ front, p.normalized = front ++ wanted ending ∧ (front = [] ∨ front.getLast? = some '/') := by
  by_cases hne : wanted ending = []
  · simp [hne, hasEnding_of_wanted_eq_nil hne]
  by_cases hsuffix : wanted ending <:+ p.normalized
  · obtain ⟨front, hfront⟩ := hsuffix
    have hfront := hfront.symm
    have hunique : ∀ start, p.normalized = start ++ wanted ending → start = front :=
      fun start hstart => List.append_cancel_right (hstart.symm.trans hfront)
    rw [hasEnding_of_eq_append hne hfront, Bool.or_eq_true, decide_eq_true_iff, decide_eq_true_iff]
    refine ⟨fun h => ⟨hne, front, hfront, h⟩, ?_⟩
    rintro ⟨_, start, hstart, h⟩
    rwa [hunique start hstart] at h
  · rw [hasEnding_of_not_suffix hne hsuffix]
    refine iff_of_false nofun ?_
    rintro ⟨_, start, hstart, _⟩
    exact hsuffix ⟨start, hstart.symm⟩

/-- Whether the path ends with a reference, seen in the bytes of the texts. -/
def hasEndingBytes? (p : Path) (ending : Text) : Option Bool :=
  if wanted ending = [] then some false
  else Utf8.endsWhole? (Utf8.encode p.normalized) (Utf8.encode (wanted ending))

/-- The bytes of a path and of a reference give the answer that their characters give. -/
theorem hasEndingBytes?_eq (p : Path) (ending : Text) :
    p.hasEndingBytes? ending = some (p.hasEnding ending) := by
  unfold hasEndingBytes?
  split
  · rename_i hnil
    rw [hasEnding_of_wanted_eq_nil hnil]
  · rename_i hne
    by_cases hsuffix : wanted ending <:+ p.normalized
    · obtain ⟨front, hfront⟩ := hsuffix
      rw [hasEnding_of_eq_append hne hfront.symm, ← hfront, Utf8.endsWhole?_append]
    · rw [hasEnding_of_not_suffix hne hsuffix, Utf8.endsWhole?_of_not_suffix hsuffix]

/-- What it means that a path ends with a reference. -/
structure EndsWithPieces (p : Path) (ending : Text) : Prop where
  /-- The pieces of what is wanted are the last pieces of the path. -/
  pieces : p.hasEnding ending = true ↔
    wanted ending ≠ [] ∧ (wanted ending).splitOn '/' <:+ p.normalized.splitOn '/'
  /-- The bytes tell it as well, and no place is looked up that is not in the text. -/
  bytes : p.hasEndingBytes? ending = some (p.hasEnding ending)

/-- A path ends with a reference just if the pieces of the reference are its last ones. -/
theorem ends_with_pieces (p : Path) (ending : Text) : EndsWithPieces p ending where
  pieces := by rw [hasEnding_eq_true_iff, Text.splitOn_suffix_splitOn_iff]
  bytes := hasEndingBytes?_eq p ending

example : hasEnding ⟨"/é/Lib//b.inf"⟩ "\\Lib//b.inf " = true ∧
    hasEnding ⟨"/é/Lib//b.inf"⟩ "ib//b.inf" = false ∧
    hasEnding ⟨"/é/Lib//b.inf"⟩ "Lib/b.inf" = false := by
  decide +kernel

end Path

end FirmwareIndex
