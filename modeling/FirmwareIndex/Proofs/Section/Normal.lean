import FirmwareIndex.Proofs.Text.Trimmed
import FirmwareIndex.Section.Line
import Mathlib.Data.List.Chain

/-!
# The normal form of a line

A normal line has no comment, no blanks at its ends, and nowhere two spaces or tabs side by side.
Normalizing leads to such a line (`Line.normal_normalize`) and changes no line that is one already
(`Line.normalize_eq_self_iff`). No character comes in but the space that a run is written as.
-/

set_option autoImplicit false

namespace FirmwareIndex.Line

open Text (isGap Trimmed)

/-- At most one of two characters that stand side by side is a space or a tab. -/
def Apart (c d : Char) : Prop :=
  ¬ (isGap c = true ∧ isGap d = true)

/-- The text is in normal form: no comment, no blanks at its ends, no runs of spaces and tabs. -/
structure Normal (t : Text) : Prop where
  comment : '#' ∉ t
  trimmed : t.Trimmed
  apart : t.IsChain Apart

variable {t run gap : Text} {c : Char}

/-- A run of spaces and tabs is written as one character at most. -/
theorem length_writeRun_le (run : Text) : (writeRun run).length ≤ 1 := by
  unfold writeRun
  split <;> simp

/-- A run of one character is written as it is. -/
theorem writeRun_eq_self (h : run.length ≤ 1) : writeRun run = run := by
  match run with
  | [] => rfl
  | [_] => rfl
  | _ :: _ :: _ => simp at h

/-- Of fewer than two characters, no two stand side by side. -/
theorem isChain_of_length_le_one (h : t.length ≤ 1) : t.IsChain Apart := by
  match t with
  | [] => exact .nil
  | [c] => exact .singleton c
  | _ :: _ :: _ => simp at h

/-- A run is written as at most one character, and the characters around it are no gaps. -/
theorem isChain_collapseFrom (run t : Text) : (collapseFrom run t).IsChain Apart := by
  fun_induction collapseFrom run t with
  | case1 run => exact isChain_of_length_le_one (length_writeRun_le run)
  | case2 run c t hgap ih => exact ih
  | case3 run c t hgap ih =>
    refine (isChain_of_length_le_one (length_writeRun_le run)).append
      (ih.cons fun _ _ hboth => hgap hboth.1) ?_
    rintro _ _ _ hnext hboth
    obtain rfl := Option.some.inj hnext
    exact hgap hboth.2

/-- What a run is written as is a space or stands in the run. -/
theorem mem_of_mem_writeRun (h : c ∈ writeRun run) : c = ' ' ∨ c ∈ run := by
  match run with
  | [] => exact .inr h
  | [_] => exact .inr h
  | _ :: _ :: _ => exact .inl (List.mem_singleton.1 h)

/-- Collapsing brings in nothing but spaces. -/
theorem mem_of_mem_collapseFrom (h : c ∈ collapseFrom run t) : c = ' ' ∨ c ∈ run ∨ c ∈ t := by
  fun_induction collapseFrom run t with
  | case1 run => exact (mem_of_mem_writeRun h).imp_right .inl
  | case2 run d t _ ih =>
    rcases ih h with hspace | hrun | ht
    · exact .inl hspace
    · rcases List.mem_cons.1 hrun with rfl | hrun
      · exact .inr (.inr List.mem_cons_self)
      · exact .inr (.inl hrun)
    · exact .inr (.inr (List.mem_cons_of_mem d ht))
  | case3 run d t _ ih =>
    rcases List.mem_append.1 h with hrun | hrest
    · exact (mem_of_mem_writeRun hrun).imp_right .inl
    · rcases List.mem_cons.1 hrest with rfl | hrest
      · exact .inr (.inr List.mem_cons_self)
      · rcases ih hrest with hspace | hnil | ht
        · exact .inl hspace
        · cases hnil
        · exact .inr (.inr (List.mem_cons_of_mem d ht))

/-- The characters of the normal form are those of the line before its comment, and spaces. -/
theorem mem_of_mem_normalize (h : c ∈ normalize t) : c = ' ' ∨ c ∈ t ∧ c ≠ '#' := by
  refine (mem_of_mem_collapseFrom (Text.mem_of_mem_trim h)).imp_right ?_
  rintro (hnil | hbefore)
  · cases hnil
  · exact ⟨(List.takeWhile_sublist _).subset hbefore, by simpa using List.mem_takeWhile_imp hbefore⟩

/-- The normal form of a line is normal. -/
theorem normal_normalize (t : Text) : Normal (normalize t) where
  comment hmem := by
    rcases mem_of_mem_normalize hmem with hspace | ⟨_, hne⟩
    · exact absurd hspace (by decide)
    · exact hne rfl
  trimmed := Text.trimmed_trim _
  apart := by
    obtain ⟨lead, trail, heq, _⟩ := Text.exists_eq_trim (collapse (Text.before '#' t))
    have hcollapse : (collapse (Text.before '#' t)).IsChain Apart := isChain_collapseFrom [] _
    rw [heq] at hcollapse
    exact hcollapse.right_of_append.left_of_append

/-- Where no two gaps stand side by side there are no runs to be written as one space. -/
theorem collapseFrom_eq_append (h : (run ++ t).IsChain Apart) (hrun : ∀ c ∈ run, isGap c = true)
    (hlength : run.length ≤ 1) : collapseFrom run t = run ++ t := by
  fun_induction collapseFrom run t with
  | case1 run => rw [writeRun_eq_self hlength, List.append_nil]
  | case2 run c t hgap ih =>
    match run with
    | [] => exact ih h (by simpa using hgap) (by simp)
    | [d] =>
      have hapart : Apart d c := (List.isChain_cons_cons.1 h).1
      exact absurd ⟨hrun d (by simp), hgap⟩ hapart
    | _ :: _ :: _ => simp at hlength
  | case3 run c t hgap ih =>
    have hrest : (c :: t).IsChain Apart := h.suffix (List.suffix_append run (c :: t))
    rw [writeRun_eq_self hlength, ih (List.isChain_cons.1 hrest).2 (by simp) (by simp),
      List.nil_append]

/-- The normal lines are those that normalizing does not change. -/
theorem normalize_eq_self_iff : normalize t = t ↔ Normal t := by
  constructor
  · intro heq
    exact heq ▸ normal_normalize t
  · intro h
    have hcollapse : collapse t = t := collapseFrom_eq_append h.apart (by simp) (by simp)
    rw [normalize, Text.before_eq_self h.comment, hcollapse, h.trimmed.trim_eq]

/-- What is no blank is neither a space nor a tab. -/
theorem isGap_of_not_isBlank (h : Text.isBlank c = false) : isGap c = false := by
  by_contra hgap
  rcases Bool.or_eq_true _ _ ▸ Bool.not_eq_false _ ▸ hgap with hspace | htab
  · rw [of_decide_eq_true hspace] at h
    exact absurd h (by decide)
  · rw [of_decide_eq_true htab] at h
    exact absurd h (by decide)

/-- A run of two or more is written as a space. -/
theorem writeRun_of_two_le (h : 2 ≤ run.length) : writeRun run = [' '] := by
  match run with
  | [] => simp at h
  | [_] => simp at h
  | _ :: _ :: _ => rfl

/-- A run is written in the same way from either end. -/
theorem writeRun_reverse (run : Text) : writeRun run.reverse = writeRun run := by
  by_cases hlength : 2 ≤ run.length
  · rw [writeRun_of_two_le hlength, writeRun_of_two_le (by simpa using hlength)]
  · match run with
    | [] => rfl
    | [_] => rfl
    | _ :: _ :: _ => simp at hlength

/-- Spaces and tabs are held back as one run. -/
theorem collapseFrom_append (hgap : ∀ c ∈ gap, isGap c = true) (t : Text) :
    collapseFrom run (gap ++ t) = collapseFrom (gap.reverse ++ run) t := by
  induction gap generalizing run with
  | nil => rfl
  | cons c gap ih =>
    obtain ⟨hc, hrest⟩ := List.forall_mem_cons.1 hgap
    rw [List.cons_append, collapseFrom, if_pos hc, ih hrest]
    simp

/-- A run before another character is written as a run. -/
theorem collapse_append_cons (hgap : ∀ c ∈ gap, isGap c = true) (hc : isGap c = false) (t : Text) :
    collapse (gap ++ c :: t) = writeRun gap ++ c :: collapse t := by
  rw [collapse, collapseFrom_append hgap, collapseFrom, if_neg (by simp [hc]), List.append_nil,
    writeRun_reverse]
  rfl

/-- A character that is neither a space nor a tab is kept. -/
theorem collapse_cons (hc : isGap c = false) (t : Text) : collapse (c :: t) = c :: collapse t :=
  collapse_append_cons (List.forall_mem_nil _) hc t

/-- What has no spaces and tabs stays as it is in front of a text. -/
theorem collapse_append_of_not_gap (h : ∀ c ∈ t, isGap c = false) (rest : Text) :
    collapse (t ++ rest) = t ++ collapse rest := by
  induction t with
  | nil => rfl
  | cons c t ih =>
    obtain ⟨hc, ht⟩ := List.forall_mem_cons.1 h
    rw [List.cons_append, collapse_cons hc, ih ht, List.cons_append]

/-- The last character stays where it is, unless it is a space or a tab. -/
theorem exists_collapseFrom_concat (hc : isGap c = false) (run t : Text) :
    ∃ front, collapseFrom run (t ++ [c]) = front ++ [c] := by
  induction t generalizing run with
  | nil => exact ⟨writeRun run, by simp [collapseFrom, hc, writeRun]⟩
  | cons d t ih =>
    rw [List.cons_append, collapseFrom]
    split
    · exact ih _
    · obtain ⟨front, hfront⟩ := ih []
      exact ⟨writeRun run ++ d :: front, by rw [hfront]; simp⟩

/-- Writing runs as spaces leaves a text trimmed. -/
theorem trimmed_collapse (h : Trimmed t) : Trimmed (collapse t) := by
  refine ⟨?_, ?_⟩
  · cases t with
    | nil => exact fun _ hc => nomatch hc
    | cons c t =>
      have hc : Text.isBlank c = false := h.head c rfl
      rw [collapse_cons (isGap_of_not_isBlank hc)]
      exact fun d hd => Option.some.inj hd ▸ hc
  · rcases List.eq_nil_or_concat t with rfl | ⟨front, c, rfl⟩
    · exact fun _ hc => nomatch hc
    · have hc : Text.isBlank c = false := h.last c (by simp)
      obtain ⟨start, hstart⟩ := exists_collapseFrom_concat (isGap_of_not_isBlank hc) [] front
      rw [List.concat_eq_append, collapse, hstart]
      simpa using hc

/-- In a trimmed text without a comment only the runs are written in another way. -/
theorem normalize_eq_collapse (hcomment : '#' ∉ t) (h : Trimmed t) : normalize t = collapse t := by
  rw [normalize, Text.before_eq_self hcomment, (trimmed_collapse h).trim_eq]

end FirmwareIndex.Line
