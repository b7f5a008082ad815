import FirmwareIndex.Proofs.Text.Pieces
import Mathlib.Data.List.Basic
import Mathlib.Data.List.TakeWhile

/-!
# Trimmed texts

A text is trimmed when it neither begins nor ends with a blank. Trimming takes blanks off both ends
(`Text.exists_eq_trim`) and leaves a trimmed text (`Text.trimmed_trim`), which it does not change
again (`Text.trim_trim`). When a text is cut at a character that is no blank and its pieces are
trimmed, it does not matter whether the text was trimmed before (`Text.map_trim_splitOn_trim`).
-/

set_option autoImplicit false

namespace FirmwareIndex.Text

/-- The text neither begins nor ends with a blank. -/
structure Trimmed (t : Text) : Prop where
  head : ∀ c ∈ t.head?, isBlank c = false
  last : ∀ c ∈ t.getLast?, isBlank c = false

/-- Whether a text is trimmed shows in its first and its last character. -/
theorem trimmed_iff {t : Text} : Trimmed t ↔
    t.head?.all (fun c => !isBlank c) = true ∧ t.getLast?.all (fun c => !isBlank c) = true := by
  simp only [Option.all_eq_true, Bool.not_eq_true']
  exact ⟨fun h => ⟨h.head, h.last⟩, fun ⟨hhead, hlast⟩ => ⟨hhead, hlast⟩⟩

instance (t : Text) : Decidable (Trimmed t) :=
  decidable_of_iff _ trimmed_iff.symm

/-- All characters of the text are blanks. -/
def Blank (t : Text) : Prop :=
  ∀ c ∈ t, isBlank c = true

variable {t lead trail : Text} {sep : Char}

/-- Blanks in front do not matter to what is left without them. -/
theorem trimStart_append (h : Blank lead) (t : Text) : trimStart (lead ++ t) = trimStart t := by
  rw [trimStart, List.dropWhile_append_of_pos h, trimStart]

/-- Blanks behind do not matter to what is left without them. -/
theorem trimEnd_append (h : Blank trail) (t : Text) : trimEnd (t ++ trail) = trimEnd t := by
  have hreverse : ∀ c ∈ trail.reverse, isBlank c = true := fun c hc => h c (List.mem_reverse.1 hc)
  rw [trimEnd, List.reverse_append, List.dropWhile_append_of_pos hreverse, trimEnd]

/-- What is taken off the start of a text is blank. -/
theorem exists_eq_trimStart (t : Text) : ∃ lead, t = lead ++ trimStart t ∧ Blank lead :=
  ⟨t.takeWhile isBlank, List.takeWhile_append_dropWhile.symm, fun _ => List.mem_takeWhile_imp⟩

/-- What is taken off the end of a text is blank. -/
theorem exists_eq_trimEnd (t : Text) : ∃ trail, t = trimEnd t ++ trail ∧ Blank trail := by
  refine ⟨(t.reverse.takeWhile isBlank).reverse, ?_, fun c hc =>
    List.mem_takeWhile_imp (List.mem_reverse.1 hc)⟩
  rw [trimEnd, ← List.reverse_append, List.takeWhile_append_dropWhile, List.reverse_reverse]

/-- Trimming takes blanks off the ends. -/
theorem exists_eq_trim (t : Text) :
    ∃ lead trail, t = lead ++ (trim t ++ trail) ∧ Blank lead ∧ Blank trail := by
  obtain ⟨lead, hstart, hlead⟩ := exists_eq_trimStart t
  obtain ⟨trail, hend, htrail⟩ := exists_eq_trimEnd (trimStart t)
  exact ⟨lead, trail, by rw [trim, ← hend, ← hstart], hlead, htrail⟩

/-- A trimmed text stands in the text it comes from. -/
theorem infix_trim (t : Text) : trim t <:+: t := by
  obtain ⟨lead, trail, ht, _⟩ := exists_eq_trim t
  exact ⟨lead, trail, by rw [List.append_assoc]; exact ht.symm⟩

/-- No blank is left at the start. -/
theorem head?_trimStart (t : Text) : ∀ c ∈ (trimStart t).head?, isBlank c = false := by
  intro c hc
  have hhead := List.head?_dropWhile_not isBlank t
  rw [trimStart] at hc
  rwa [Option.mem_def.1 hc] at hhead

/-- No blank is left at the end. -/
theorem getLast?_trimEnd (t : Text) : ∀ c ∈ (trimEnd t).getLast?, isBlank c = false := by
  intro c hc
  rw [trimEnd, List.getLast?_reverse] at hc
  exact head?_trimStart t.reverse c hc

/-- What is left by trimming is trimmed. -/
theorem trimmed_trim (t : Text) : Trimmed (trim t) := by
  refine ⟨fun c hc => head?_trimStart t c ?_, getLast?_trimEnd _⟩
  obtain ⟨trail, hend, _⟩ := exists_eq_trimEnd (trimStart t)
  rw [hend, Option.mem_def, List.head?_append]
  simp only [trim, Option.mem_def] at hc
  rw [hc, Option.some_or]

/-- A trimmed text is not trimmed further. -/
theorem Trimmed.trim_eq (h : Trimmed t) : trim t = t := by
  have hdrop : ∀ t : Text, (∀ c ∈ t.head?, isBlank c = false) → t.dropWhile isBlank = t := by
    intro t ht
    cases t with
    | nil => rfl
    | cons c t => simp [ht c rfl]
  have hreverse : ∀ c ∈ t.reverse.head?, isBlank c = false := by
    rw [List.head?_reverse]
    exact h.last
  rw [trim, trimStart, hdrop t h.head, trimEnd, hdrop t.reverse hreverse, List.reverse_reverse]

/-- A text without blanks is trimmed. -/
theorem trimmed_of_forall (h : ∀ c ∈ t, isBlank c = false) : Trimmed t :=
  ⟨fun c hc => h c (List.mem_of_mem_head? hc), fun c hc => h c (List.mem_of_getLast? hc)⟩

/-- A text without blanks is not trimmed. -/
theorem trim_eq_self (h : ∀ c ∈ t, isBlank c = false) : trim t = t :=
  (trimmed_of_forall h).trim_eq

/-- A part of a trimmed text can be exchanged for another one that is trimmed and not empty. -/
theorem Trimmed.exchange {front old new back : Text} (h : Trimmed (front ++ old ++ back))
    (hnew : Trimmed new) (hne : new ≠ []) : Trimmed (front ++ new ++ back) := by
  constructor
  · intro c hc
    cases front with
    | nil =>
      rw [List.nil_append, Option.mem_def, List.head?_append_of_ne_nil _ hne] at hc
      exact hnew.head c hc
    | cons d front => exact h.head c hc
  · intro c hc
    by_cases hback : back = []
    · rw [hback, List.append_nil, Option.mem_def, List.getLast?_append_of_ne_nil _ hne] at hc
      exact hnew.last c hc
    · rw [Option.mem_def, List.getLast?_append_of_ne_nil _ hback] at hc
      refine h.last c ?_
      rwa [Option.mem_def, List.getLast?_append_of_ne_nil _ hback]

/-- Trimming once is enough. -/
@[simp]
theorem trim_trim (t : Text) : trim (trim t) = trim t :=
  (trimmed_trim t).trim_eq

/-- Blanks in front are trimmed away. -/
theorem trim_append_left (h : Blank lead) (t : Text) : trim (lead ++ t) = trim t := by
  rw [trim, trimStart_append h, trim]

/-- Blanks behind a text do not survive trimming, even if nothing else is there. -/
theorem trim_append_right (h : Blank trail) (t : Text) : trim (t ++ trail) = trim t := by
  obtain ⟨lead, hstart, hlead⟩ := exists_eq_trimStart t
  rw [hstart, List.append_assoc, trim_append_left hlead, trim_append_left hlead]
  cases hrest : trimStart t with
  | nil =>
    have hblank := trim_append_left h []
    rwa [List.append_nil] at hblank
  | cons c rest =>
    have hc : isBlank c = false := head?_trimStart t c (by rw [hrest]; rfl)
    have hkept : ∀ rest : Text, trimStart (c :: rest) = c :: rest := by
      intro rest
      simp [trimStart, hc]
    rw [trim, List.cons_append, hkept, ← List.cons_append, trimEnd_append h, trim, hkept]

/-- An end that is not cut goes to the last piece. -/
theorem exists_splitOn_append (h : sep ∉ trail) (t : Text) :
    ∃ front last, t.splitOn sep = front ++ [last] ∧
      (t ++ trail).splitOn sep = front ++ [last ++ trail] := by
  induction t with
  | nil => exact ⟨[], [], by simp, by simp [List.splitOn_eq_singleton h]⟩
  | cons c t ih =>
    obtain ⟨front, last, hpieces, happended⟩ := ih
    rw [List.cons_append, List.splitOn_cons_eq_if_modifyHead, List.splitOn_cons_eq_if_modifyHead,
      hpieces, happended]
    split
    · exact ⟨[] :: front, last, rfl, rfl⟩
    · cases front with
      | nil => exact ⟨[], c :: last, rfl, rfl⟩
      | cons first front => exact ⟨(c :: first) :: front, last, rfl, rfl⟩

/-- A space is a blank text. -/
theorem blank_space : Blank [' '] :=
  List.forall_mem_singleton.2 (by decide)

/-- A blank text has no character that is no blank. -/
theorem Blank.not_mem (h : Blank t) (hsep : isBlank sep = false) : sep ∉ t := by
  intro hmem
  rw [h sep hmem] at hsep
  cases hsep

/-- Trimming a text before it is cut does not change its trimmed pieces. -/
theorem map_trim_splitOn_trim (hsep : isBlank sep = false) (t : Text) :
    ((trim t).splitOn sep).map trim = (t.splitOn sep).map trim := by
  obtain ⟨lead, trail, ht, hlead, htrail⟩ := exists_eq_trim t
  obtain ⟨front, last, hpieces, happended⟩ :=
    exists_splitOn_append (htrail.not_mem hsep) (trim t)
  have hfirst : ∀ pieces : List Text, (pieces.modifyHead (lead ++ ·)).map trim = pieces.map trim := by
    intro pieces
    cases pieces with
    | nil => rfl
    | cons first rest => simp [trim_append_left hlead]
  calc
    ((trim t).splitOn sep).map trim = (front ++ [last ++ trail]).map trim := by
      rw [hpieces, List.map_append, List.map_append, List.map_singleton, List.map_singleton,
        trim_append_right htrail]
    _ = ((lead ++ (trim t ++ trail)).splitOn sep).map trim := by
      rw [splitOn_append_of_not_mem (hlead.not_mem hsep), hfirst, happended]
    _ = (t.splitOn sep).map trim := congrArg (fun u => (u.splitOn sep).map trim) ht.symm

/-- The first piece of a text goes to the character at which it is cut. -/
theorem headD_splitOn (sep : Char) (t : Text) : (t.splitOn sep).headD [] = before sep t := by
  induction t with
  | nil => rfl
  | cons c t ih =>
    rw [List.splitOn_cons_eq_if_modifyHead, before, List.takeWhile_cons]
    by_cases hc : c = sep
    · simp [hc]
    · obtain ⟨first, rest, hsplit⟩ := List.exists_cons_of_ne_nil (List.splitOn_ne_nil sep t)
      rw [hsplit] at ih ⊢
      simp only [List.headD_cons] at ih
      simp [hc, ih, before]

end FirmwareIndex.Text
