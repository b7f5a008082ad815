import FirmwareIndex.Text.Basic
import Mathlib.Data.List.TakeWhile

/-!
# Pieces of a text

A text is cut at a character into pieces, and joined at it again. The pieces occur in the text, the
character itself is in none of them, and the text ends in its last piece. A text that is cut in two
is cut where the character first stands (`Text.cut?_eq_some_iff`). The position of a text that occurs
in another one is that of its first occurrence (`Text.exists_indexOf?_eq`).
-/

set_option autoImplicit false

namespace FirmwareIndex.Text

variable {c : Char} {t start piece part : Text}

/-- The pieces of a text hold not the character it is cut at, and no others than the text. -/
theorem mem_splitOn (hpiece : piece ∈ t.splitOn c) : c ∉ piece ∧ ∀ d ∈ piece, d ∈ t := by
  induction t generalizing piece with
  | nil => simp_all
  | cons e t ih =>
    rw [List.splitOn_cons_eq_if_modifyHead] at hpiece
    obtain ⟨first, rest, hsplit⟩ := List.exists_cons_of_ne_nil (List.splitOn_ne_nil c t)
    rw [hsplit] at hpiece ih
    split at hpiece
    · rcases List.mem_cons.1 hpiece with rfl | hpiece
      · simp
      · exact ⟨(ih hpiece).1, fun d hd => List.mem_cons_of_mem _ ((ih hpiece).2 d hd)⟩
    · rename_i he
      have hne : e ≠ c := by simpa using he
      rcases List.mem_cons.1 hpiece with rfl | hpiece
      · obtain ⟨hfirst, hchars⟩ := ih List.mem_cons_self
        refine ⟨by simp [hfirst, Ne.symm hne], ?_⟩
        intro d hd
        rcases List.mem_cons.1 hd with rfl | hd
        · exact List.mem_cons_self
        · exact List.mem_cons_of_mem _ (hchars d hd)
      · have hin := ih (List.mem_cons_of_mem _ hpiece)
        exact ⟨hin.1, fun d hd => List.mem_cons_of_mem _ (hin.2 d hd)⟩

/-- A start that is not cut goes to the first piece. -/
theorem splitOn_append_of_not_mem (h : c ∉ start) (rest : Text) :
    (start ++ rest).splitOn c = (rest.splitOn c).modifyHead (start ++ ·) := by
  induction start with
  | nil =>
    rw [List.nil_append]
    cases rest.splitOn c <;> rfl
  | cons d start ih =>
    obtain ⟨hd, hstart⟩ : c ≠ d ∧ c ∉ start := by simpa using h
    rw [List.cons_append, List.splitOn_cons_eq_if_modifyHead, if_neg (by simpa using Ne.symm hd),
      ih hstart]
    cases rest.splitOn c <;> rfl

/-- A further piece is put after one more of the character. -/
theorem intercalate_concat {pieces : List Text} (hne : pieces ≠ []) (piece : Text) :
    [c].intercalate (pieces ++ [piece]) = [c].intercalate pieces ++ c :: piece := by
  induction pieces with
  | nil => contradiction
  | cons first rest ih =>
    by_cases hrest : rest = []
    · simp [hrest, List.intercalate_cons_cons]
    · rw [List.cons_append, List.intercalate_cons_of_ne_nil (by simp), ih hrest,
        List.intercalate_cons_of_ne_nil hrest]
      simp only [List.append_assoc]

/-- A text is determined by its pieces. -/
theorem splitOn_inj {other : Text} : t.splitOn c = other.splitOn c ↔ t = other := by
  refine ⟨fun h => ?_, fun h => h ▸ rfl⟩
  have hjoin : ∀ t : Text, [c].intercalate (t.splitOn c) = t := fun _ => List.intercalate_splitOn c
  rw [← hjoin t, h, hjoin]

/-- The last pieces of a text are those of another one just if the text ends with the other one
where a piece begins. -/
theorem splitOn_suffix_splitOn_iff {ending : Text} : ending.splitOn c <:+ t.splitOn c ↔
    ∃ front, t = front ++ ending ∧ (front = [] ∨ front.getLast? = some c) := by
  constructor
  · rintro ⟨pieces, hpieces⟩
    by_cases hnil : pieces = []
    · refine ⟨[], ?_, .inl rfl⟩
      rw [hnil, List.nil_append, splitOn_inj] at hpieces
      rw [hpieces, List.nil_append]
    · have hcut : ∀ piece ∈ pieces, c ∉ piece := fun piece hpiece =>
        (mem_splitOn (hpieces ▸ List.mem_append_left _ hpiece)).1
      refine ⟨[c].intercalate pieces ++ [c], ?_, .inr (List.getLast?_concat ..)⟩
      rw [← splitOn_inj, List.append_assoc, List.singleton_append, List.splitOn_append_cons_self,
        List.splitOn_intercalate c hcut hnil, hpieces]
  · rintro ⟨front, rfl, rfl | hlast⟩
    · exact List.suffix_rfl
    · obtain ⟨start, rfl⟩ := List.getLast?_eq_some_iff.1 hlast
      rw [List.append_assoc, List.singleton_append, List.splitOn_append_cons_self]
      exact List.suffix_append _ _

/-- A text made of pieces ends with the last one. -/
theorem suffix_intercalate {pieces : List Text} (h : pieces.getLast? = some piece) :
    piece <:+ [c].intercalate pieces := by
  induction pieces with
  | nil => cases h
  | cons first pieces ih =>
    cases pieces with
    | nil =>
      obtain rfl : first = piece := by simpa using h
      exact List.intercalate_singleton ▸ List.suffix_rfl
    | cons next pieces =>
      rw [List.getLast?_cons_cons] at h
      rw [List.intercalate_cons_cons]
      exact (ih h).trans (List.suffix_append _ _)

/-- A text ends in its last piece. -/
theorem suffix_of_getLast?_splitOn (h : (t.splitOn c).getLast? = some piece) : piece <:+ t := by
  simpa only [List.intercalate_splitOn] using suffix_intercalate (c := c) h

/-- Every piece stands in the text that is made of them. -/
theorem infix_intercalate {pieces : List Text} (h : piece ∈ pieces) :
    piece <:+: [c].intercalate pieces := by
  induction pieces with
  | nil => cases h
  | cons first pieces ih =>
    cases pieces with
    | nil =>
      obtain rfl := List.mem_singleton.1 h
      exact List.intercalate_singleton ▸ List.infix_rfl
    | cons next pieces =>
      rw [List.intercalate_cons_cons]
      rcases List.mem_cons.1 h with rfl | h
      · rw [List.append_assoc]
        exact (List.prefix_append _ _).isInfix
      · exact (ih h).trans (List.suffix_append _ _).isInfix

/-- The pieces of a text occur in it. -/
theorem infix_of_mem_splitOn (h : piece ∈ t.splitOn c) : piece <:+: t := by
  simpa only [List.intercalate_splitOn] using infix_intercalate (c := c) h

/-- A text that occurs in another one has a position, and does not occur before it. -/
theorem exists_indexOf?_eq (h : part <:+: t) :
    ∃ front back, t = front ++ part ++ back ∧ indexOf? part t = some front.length ∧
      ∀ start rest, t = start ++ part ++ rest → front.length ≤ start.length := by
  induction t with
  | nil =>
    obtain rfl := List.infix_nil.1 h
    exact ⟨[], [], rfl, rfl, fun _ _ _ => Nat.zero_le _⟩
  | cons c t ih =>
    by_cases hstart : part <+: c :: t
    · obtain ⟨back, hback⟩ := hstart
      refine ⟨[], back, hback.symm, ?_, fun _ _ _ => Nat.zero_le _⟩
      rw [indexOf?, if_pos (List.isPrefixOf_iff_prefix.2 ⟨back, hback⟩)]
      rfl
    · obtain ⟨front, back, ht, hindex, hfirst⟩ :=
        ih ((List.infix_cons_iff.1 h).resolve_left hstart)
      refine ⟨c :: front, back, by rw [ht]; rfl, ?_, ?_⟩
      · rw [indexOf?, if_neg (mt List.isPrefixOf_iff_prefix.1 hstart), hindex]
        rfl
      · intro start rest heq
        cases start with
        | nil => exact absurd ⟨rest, heq.symm⟩ hstart
        | cons d start => exact Nat.succ_le_succ (hfirst start rest (List.cons.inj heq).2)

/-- A text is cut at the first place where the character stands. -/
theorem cut?_eq_some_iff {sep : Char} {t front back : Text} :
    cut? sep t = some (front, back) ↔ t = front ++ sep :: back ∧ sep ∉ front := by
  induction t generalizing front with
  | nil => simp [cut?]
  | cons c t ih =>
    unfold cut?
    split
    · rename_i hc
      subst hc
      cases front with
      | nil => simp [eq_comm]
      | cons d front =>
        refine ⟨fun h => by simp at h, ?_⟩
        rintro ⟨heq, hmem⟩
        exact absurd (List.mem_cons.2 (.inl (List.cons.inj heq).1)) hmem
    · rename_i hc
      cases front with
      | nil => simp [hc]
      | cons d front =>
        have hmap : (cut? sep t).map (fun p => (c :: p.1, p.2)) = some (d :: front, back) ↔
            c = d ∧ cut? sep t = some (front, back) := by
          cases cut? sep t with
          | none => simp
          | some p =>
            simp only [Option.map_some, Option.some.injEq, Prod.ext_iff, List.cons.injEq, and_assoc]
        rw [hmap, ih]
        simp only [List.cons_append, List.cons.injEq, List.mem_cons, not_or, and_assoc]
        exact ⟨fun ⟨heq, ht, hfront⟩ => ⟨heq, ht, fun hd => hc (hd ▸ heq), hfront⟩,
          fun ⟨heq, ht, _, hfront⟩ => ⟨heq, ht, hfront⟩⟩

/-- A text without the character is not cut before it. -/
theorem before_eq_self (h : c ∉ t) : before c t = t :=
  List.takeWhile_eq_self_iff.2 fun _ hd => bne_iff_ne.2 fun heq => h (heq ▸ hd)

/-- A text without a character is not cut at it. -/
theorem cut?_eq_none_iff {sep : Char} {t : Text} : cut? sep t = none ↔ sep ∉ t := by
  constructor
  · intro h hmem
    obtain ⟨front, back, ht, hfront⟩ := List.eq_append_cons_of_mem hmem
    rw [cut?_eq_some_iff.2 ⟨ht, hfront⟩] at h
    cases h
  · intro h
    cases hcut : cut? sep t with
    | none => rfl
    | some sides =>
      refine absurd ?_ h
      rw [(cut?_eq_some_iff.1 hcut).1]
      exact List.mem_append_right _ List.mem_cons_self

/-- What stands before the first separator is the first side of a cut. -/
theorem before_append_cons {sep : Char} {front : Text} (h : sep ∉ front) (back : Text) :
    before sep (front ++ sep :: back) = front := by
  have hpositive : ∀ c ∈ front, (c != sep) = true := fun c hc =>
    bne_iff_ne.2 fun heq => h (heq ▸ hc)
  rw [before, List.takeWhile_append_of_pos hpositive, List.takeWhile_cons_of_neg (by simp),
    List.append_nil]

/-- What is left by trimming was there before. -/
theorem mem_of_mem_trim (h : c ∈ trim t) : c ∈ t := by
  have hstart : (trim t).Sublist (trimStart t) :=
    List.reverse_sublist.1 (List.reverse_reverse _ ▸ List.dropWhile_sublist isBlank)
  exact (hstart.trans (List.dropWhile_sublist isBlank)).subset h

/-- A text without backslashes stays as it is. -/
theorem slashed_eq_self (h : '\\' ∉ t) : slashed t = t := by
  refine (List.map_congr_left fun c hc => ?_).trans (List.map_id t)
  exact if_neg fun (heq : c = '\\') => h (heq ▸ hc)

/-- A text whose backslashes are turned into slashes has none left. -/
theorem slashed_slashed (t : Text) : slashed (slashed t) = slashed t := by
  simp only [slashed, List.map_map]
  refine List.map_congr_left fun c _ => ?_
  by_cases hc : c = '\\' <;> simp [hc]

end FirmwareIndex.Text
