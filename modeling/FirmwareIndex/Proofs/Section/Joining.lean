import FirmwareIndex.Proofs.Section.Runs
import FirmwareIndex.Proofs.Text.Pieces
import FirmwareIndex.Section.Table

/-!
# Joining continued lines

Continued lines are joined in two ways. The sections of a build file come from a text in which the
line breaks behind backslashes have been taken out, and the logical lines come from the physical
lines one after the other. When the text has line breaks of one kind and does not end in a
backslash, both ways lead to the same lines, so the sections are those that the logical lines give
when they are walked in order (`Sections.ofText_eq_walk`).
-/

set_option autoImplicit false

namespace FirmwareIndex

namespace Text

/-- The text with a carriage return before every line feed. -/
def withReturns (t : Text) : Text :=
  t.flatMap fun c => if c = '\n' then ['\r', '\n'] else [c]

/-- The line breaks of the text are of one kind, line feeds or carriage returns followed by line
feeds, and it has no other carriage returns. -/
def Uniform (t : Text) : Prop :=
  ∃ u : Text, '\r' ∉ u ∧ (t = u ∨ t = u.withReturns)

end Text

namespace Sections

/-- The sections of lines that are walked in order, from the sections so far and the header that
the next line stands under. A line under no header is left out. -/
def walk (s : Sections) (current : Option Header) : List Text → Sections
  | [] => s
  | line :: rest =>
    if line.head? = some '[' then
      walk (s.addHeader (Header.ofLine line)) (some (Header.ofLine line)) rest
    else walk (current.elim s fun h => s.addLine h line) current rest

/-- Reading lines is walking those that are not empty. -/
theorem sections_foldl_line (lines : List Text) (s : Sections) (current : Option Header) :
    (lines.foldl Reading.line ⟨s, current⟩).sections = walk s current (lines.filter (· ≠ [])) := by
  induction lines generalizing s current with
  | nil => rfl
  | cons line rest ih =>
    rw [List.foldl_cons]
    match line with
    | [] => exact ih s current
    | c :: t =>
      rw [List.filter_cons_of_pos (by simp), walk, List.head?_cons]
      by_cases hc : c = '['
      · subst hc
        rw [if_pos rfl]
        exact ih _ _
      · have hline : Reading.line ⟨s, current⟩ (c :: t) =
            ⟨current.elim s fun h => s.addLine h (c :: t), current⟩ := by
          cases current <;> simp [Reading.line, hc]
        rw [if_neg fun heq => hc (Option.some.inj heq), hline]
        exact ih _ _

section Breaks

variable {t u : Text}

/-- A text without carriage returns has no wide line breaks to join. -/
theorem joinWide_eq_self (h : '\r' ∉ t) : joinWide t = t := by
  fun_induction joinWide t with
  | case1 t ih => simp at h
  | case2 c t _ ih => rw [ih fun hmem => h (List.mem_cons_of_mem c hmem)]
  | case3 => rfl

/-- A text without carriage returns keeps its line breaks. -/
theorem unifyBreaks_eq_self (h : '\r' ∉ t) : unifyBreaks t = t := by
  fun_induction unifyBreaks t with
  | case1 t ih => simp at h
  | case2 t _ ih => simp at h
  | case3 c t _ _ ih => rw [ih fun hmem => h (List.mem_cons_of_mem c hmem)]
  | case4 => rfl

/-- Joining lines brings in no character. -/
theorem not_mem_joinNarrow {c : Char} (h : c ∉ t) : c ∉ joinNarrow t := by
  fun_induction joinNarrow t with
  | case1 t ih => exact ih fun hmem => h (by simp [hmem])
  | case2 d t _ ih =>
    have hd : c ≠ d := fun heq => h (by simp [heq])
    simpa [hd] using ih fun hmem => h (by simp [hmem])
  | case3 => exact h

/-- A character that is no backslash is kept. -/
theorem joinWide_cons {c : Char} (hc : c ≠ '\\') (t : Text) :
    joinWide (c :: t) = c :: joinWide t := by
  rw [joinWide]
  exact fun _ heq _ => hc heq

/-- A character is kept unless it is a backslash in front of a line feed. -/
theorem joinNarrow_cons {c : Char} {t : Text} (hc : c = '\\' → t.head? ≠ some '\n') :
    joinNarrow (c :: t) = c :: joinNarrow t := by
  rw [joinNarrow]
  rintro rest rfl rfl
  exact hc rfl rfl

/-- A line feed gets a carriage return in front of it. -/
theorem withReturns_feed (t : Text) :
    Text.withReturns ('\n' :: t) = '\r' :: '\n' :: Text.withReturns t :=
  rfl

/-- Every other character stays as it is. -/
theorem withReturns_cons {c : Char} (hc : c ≠ '\n') (t : Text) :
    Text.withReturns (c :: t) = c :: Text.withReturns t := by
  simp [Text.withReturns, hc]

/-- A text with returns begins with a line feed nowhere, and with a return only before one. -/
theorem withReturns_eq_cons {c : Char} {rest : Text} (h : '\r' ∉ t)
    (heq : t.withReturns = c :: rest) : c ≠ '\n' ∧ (c = '\r' → ∃ t', t = '\n' :: t') := by
  cases t with
  | nil => cases heq
  | cons d t =>
    by_cases hd : d = '\n'
    · subst hd
      rw [withReturns_feed] at heq
      obtain ⟨rfl, _⟩ := List.cons.inj heq
      exact ⟨by decide, fun _ => ⟨t, rfl⟩⟩
    · rw [withReturns_cons hd] at heq
      obtain ⟨rfl, _⟩ := List.cons.inj heq
      exact ⟨hd, fun hreturn => absurd (hreturn ▸ List.mem_cons_self) h⟩

/-- Taking out the wide breaks behind backslashes of a text with returns is taking out the narrow
ones of the text without them. -/
theorem joinWide_withReturns (h : '\r' ∉ u) :
    joinWide u.withReturns = (joinNarrow u).withReturns := by
  fun_induction joinNarrow u with
  | case1 t ih => exact ih fun hmem => h (by simp [hmem])
  | case2 c t hc ih =>
    have ht : '\r' ∉ t := fun hmem => h (List.mem_cons_of_mem c hmem)
    by_cases hfeed : c = '\n'
    · subst hfeed
      rw [withReturns_feed, withReturns_feed, joinWide_cons (by decide), joinWide_cons (by decide),
        ih ht]
    · rw [withReturns_cons hfeed, withReturns_cons hfeed, joinWide, ih ht]
      rintro rest rfl hrest
      obtain ⟨t', rfl⟩ := (withReturns_eq_cons ht hrest).2 rfl
      exact hc t' rfl rfl
  | case3 => rfl

/-- A text with returns has no narrow breaks. -/
theorem joinNarrow_withReturns (h : '\r' ∉ u) : joinNarrow u.withReturns = u.withReturns := by
  induction u with
  | nil => rfl
  | cons c t ih =>
    have ht : '\r' ∉ t := fun hmem => h (List.mem_cons_of_mem c hmem)
    by_cases hfeed : c = '\n'
    · subst hfeed
      rw [withReturns_feed, joinNarrow_cons (by simp), joinNarrow_cons (by simp), ih ht]
    · rw [withReturns_cons hfeed, joinNarrow_cons, ih ht]
      intro _ hhead
      obtain ⟨rest, hrest⟩ := List.head?_eq_some_iff.1 hhead
      exact (withReturns_eq_cons ht hrest).1 rfl

/-- Carriage returns that were put before the line feeds are taken out again. -/
theorem unifyBreaks_withReturns (h : '\r' ∉ u) : unifyBreaks u.withReturns = u := by
  induction u with
  | nil => rfl
  | cons c t ih =>
    have ht : '\r' ∉ t := fun hmem => h (List.mem_cons_of_mem c hmem)
    have hc : c ≠ '\r' := fun heq => h (heq ▸ List.mem_cons_self)
    by_cases hfeed : c = '\n'
    · subst hfeed
      rw [withReturns_feed, unifyBreaks, ih ht]
    · rw [withReturns_cons hfeed, unifyBreaks, ih ht]
      · exact fun _ heq _ => hc heq
      · exact hc

/-- The lines of a text do not depend on the kind of its line breaks. -/
theorem linesOf_withReturns (h : '\r' ∉ u) : linesOf u.withReturns = linesOf u := by
  have hjoined : '\r' ∉ joinNarrow u := not_mem_joinNarrow h
  rw [linesOf, linesOf, joinWide_withReturns h, joinNarrow_withReturns hjoined,
    unifyBreaks_withReturns hjoined, joinWide_eq_self h, unifyBreaks_eq_self hjoined]

/-- Only the carriage return at the end of a piece is taken off. -/
theorem chomp_cons {c : Char} (hc : c ≠ '\r') (piece : Text) :
    Line.chomp (c :: piece) = c :: Line.chomp piece := by
  unfold Line.chomp Line.stripLast?
  cases piece with
  | nil => simp [hc]
  | cons d piece =>
    rw [List.getLast?_cons_cons]
    split <;> rfl

/-- The physical lines of a text do not depend on the kind of its line breaks. -/
theorem physical_withReturns (h : '\r' ∉ u) :
    Line.physical u.withReturns = Line.physical u := by
  induction u with
  | nil => rfl
  | cons c t ih =>
    have ht : '\r' ∉ t := fun hmem => h (List.mem_cons_of_mem c hmem)
    have hc : c ≠ '\r' := fun heq => h (heq ▸ List.mem_cons_self)
    by_cases hfeed : c = '\n'
    · subst hfeed
      have hphysical : ∀ t : Text, Line.physical ('\n' :: t) = [] :: Line.physical t := by
        intro t
        simp [Line.physical, List.splitOn_cons_eq_if_modifyHead, Line.stripLast?]
      have hreturn : ∀ t : Text, Line.physical ('\r' :: '\n' :: t) = [] :: Line.physical t := by
        intro t
        simp [Line.physical, List.splitOn_cons_eq_if_modifyHead, Line.stripLast?]
      rw [withReturns_feed, hphysical, hreturn, ih ht]
    · have hphysical : ∀ t : Text,
          Line.physical (c :: t) = (Line.physical t).modifyHead (c :: ·) := by
        intro t
        rw [Line.physical_eq_map_chomp, Line.physical_eq_map_chomp,
          List.splitOn_cons_eq_if_modifyHead, if_neg (by simpa using hfeed)]
        cases t.splitOn '\n' with
        | nil => rfl
        | cons piece pieces => simp [chomp_cons hc]
      rw [withReturns_cons hfeed, hphysical, hphysical, ih ht]

end Breaks

section Runs

variable {u : Text}

/-- A piece without a line feed has nothing to join. -/
theorem joinNarrow_eq_self {piece : Text} (h : '\n' ∉ piece) : joinNarrow piece = piece := by
  fun_induction joinNarrow piece with
  | case1 t ih => simp at h
  | case2 c t _ ih => rw [ih fun hmem => h (List.mem_cons_of_mem c hmem)]
  | case3 => rfl

/-- A line that goes on loses its backslash and its line feed. -/
theorem joinNarrow_append_feed {piece : Text} (h : '\n' ∉ piece) (rest : Text) :
    joinNarrow (piece ++ '\n' :: rest) =
      match Line.stripLast? '\\' piece with
      | some start => start ++ joinNarrow rest
      | none => piece ++ '\n' :: joinNarrow rest := by
  induction piece with
  | nil => exact joinNarrow_cons (by simp)
  | cons c piece ih =>
    obtain ⟨hc, hpiece⟩ : '\n' ≠ c ∧ '\n' ∉ piece := by simpa using h
    cases piece with
    | nil =>
      by_cases hslash : c = '\\'
      · subst hslash
        simp [joinNarrow, Line.stripLast?]
      · rw [List.singleton_append, joinNarrow_cons (fun heq => absurd heq hslash),
          joinNarrow_cons (by simp)]
        simp [Line.stripLast?, hslash]
    | cons d piece =>
      have hd : d ≠ '\n' := fun heq => hpiece (heq ▸ List.mem_cons_self)
      have hstrip : Line.stripLast? '\\' (c :: d :: piece) =
          (Line.stripLast? '\\' (d :: piece)).map (c :: ·) := by
        simp only [Line.stripLast?, List.getLast?_cons_cons]
        split <;> rfl
      rw [List.cons_append, joinNarrow_cons (by simpa using fun _ => hd), ih hpiece, hstrip]
      cases Line.stripLast? '\\' (d :: piece) <;> rfl

/-- A run of one line that does not go on is joined to that line. -/
theorem joined_singleton {line : Text} (h : Line.stripLast? '\\' line = none) :
    Line.joined [line] = line := by
  simp [Line.joined, h]

/-- Taking out the line feeds behind backslashes joins the runs of lines, if the last line does not
go on. -/
theorem splitOn_joinNarrow {lines : List Text} (hne : lines ≠ [])
    (hfeed : ∀ line ∈ lines, '\n' ∉ line)
    (hlast : ∀ line, lines.getLast? = some line → Line.stripLast? '\\' line = none) :
    (joinNarrow (['\n'].intercalate lines)).splitOn '\n' = (Line.runs lines).map Line.joined := by
  induction lines with
  | nil => contradiction
  | cons line rest ih =>
    have hline : '\n' ∉ line := hfeed line (by simp)
    cases rest with
    | nil =>
      have hends := hlast line rfl
      rw [List.intercalate_singleton, joinNarrow_eq_self hline, List.splitOn_eq_singleton hline,
        Line.runs_cons_of_eq_none hends, List.map_cons, joined_singleton hends]
      rfl
    | cons next rest =>
      have hrest := ih (by simp) (fun l hl => hfeed l (by simp [hl]))
        fun l hl => hlast l (by rwa [List.getLast?_cons_cons])
      rw [List.intercalate_cons_cons, List.append_assoc, List.singleton_append,
        joinNarrow_append_feed hline]
      cases hstrip : Line.stripLast? '\\' line with
      | none =>
        dsimp only
        rw [List.splitOn_append_cons_self, List.splitOn_eq_singleton hline, hrest,
          Line.runs_cons_of_eq_none hstrip, List.map_cons, joined_singleton hstrip,
          List.singleton_append]
      | some start =>
        obtain rfl := Line.stripLast?_eq_some_iff.1 hstrip
        have hstart : '\n' ∉ start := fun hmem => hline (by simp [hmem])
        dsimp only
        rw [Text.splitOn_append_of_not_mem hstart, hrest, Line.runs_cons_of_eq_some hstrip]
        cases hothers : Line.runs (next :: rest) with
        | nil => exact absurd hrest (by simp [hothers])
        | cons run others => simp [Line.extend, hstrip]

/-- Without carriage returns, the physical lines are the pieces between the line feeds. -/
theorem physical_eq_splitOn (h : '\r' ∉ u) : Line.physical u = u.splitOn '\n' := by
  refine (List.map_congr_left fun piece hpiece => ?_).trans (List.map_id (u.splitOn '\n'))
  have hnone : Line.stripLast? '\r' piece = none := by
    rw [Line.stripLast?_eq_none_iff]
    exact fun hlast => h ((Text.mem_splitOn hpiece).2 _ (List.mem_of_getLast? hlast))
  rw [hnone, Option.getD_none, id]

/-- A backslash at the end stays at the end. -/
theorem getLast?_withReturns (h : u.getLast? = some '\\') :
    u.withReturns.getLast? = some '\\' := by
  obtain ⟨front, rfl⟩ := List.getLast?_eq_some_iff.1 h
  simp [Text.withReturns]

/-- The last line of a text that does not end in a backslash does not go on. -/
theorem stripLast?_eq_none_of_last (h : u.getLast? ≠ some '\\') {line : Text}
    (hline : (u.splitOn '\n').getLast? = some line) : Line.stripLast? '\\' line = none := by
  have hsuffix : line <:+ u := Text.suffix_of_getLast?_splitOn hline
  rw [Line.stripLast?_eq_none_iff]
  intro hslash
  obtain ⟨front, rfl⟩ := List.getLast?_eq_some_iff.1 hslash
  obtain ⟨before, rfl⟩ := hsuffix
  exact h (by simp)

end Runs

/-- The sections of a text whose line breaks are of one kind, and which does not end in a backslash,
are those that its logical lines give when they are walked in order. -/
theorem ofText_eq_walk {t : Text} (hbreaks : t.Uniform) (hlast : t.getLast? ≠ some '\\') :
    ofText t = walk empty none ((Line.ofText t).map Line.text) := by
  obtain ⟨u, hu, ht⟩ := hbreaks
  -- the text may be taken to have line feeds alone
  obtain ⟨hlines, hphysical, hends⟩ : linesOf t = linesOf u ∧ Line.physical t = Line.physical u ∧
      u.getLast? ≠ some '\\' := by
    rcases ht with rfl | rfl
    · exact ⟨rfl, rfl, hlast⟩
    · exact ⟨linesOf_withReturns hu, physical_withReturns hu,
        fun heq => hlast (getLast?_withReturns heq)⟩
  have hnarrow : linesOf u = ((joinNarrow u).splitOn '\n').map Line.normalize := by
    rw [linesOf, joinWide_eq_self hu, unifyBreaks_eq_self (not_mem_joinNarrow hu)]
  have hruns : (joinNarrow u).splitOn '\n' = (Line.runs (Line.physical u)).map Line.joined := by
    have hsplit := splitOn_joinNarrow (List.splitOn_ne_nil '\n' u)
      (fun _ hpiece => (Text.mem_splitOn hpiece).1)
      fun _ hline => stripLast?_eq_none_of_last hends hline
    rwa [List.intercalate_splitOn, ← physical_eq_splitOn hu] at hsplit
  rw [ofText, sections_foldl_line, hlines, hnarrow, hruns, Line.ofText, hphysical,
    Line.gather_eq_ofRuns, Line.map_text_ofRuns, List.map_map]
  rfl

/-- A text with carriage returns before its line feeds, with a line before the first header, a
doubled backslash at the end of a line, and a continued line that is otherwise empty. -/
def crossedText : Text :=
  "a\\\r\nb # c\r\n[Defines]\r\n x = \\\\\r\n1\r\n[Sources.X64]\r\n\\\r\n a.c"

/-- The sections of the crossed text are those of its logical lines, walked in order. -/
theorem ofText_crossedText :
    crossedText.Uniform ∧ crossedText.getLast? ≠ some '\\' ∧
      ofText crossedText =
        walk empty none ["ab", "[Defines]", "x = \\1", "[Sources.X64]", "a.c"] := by
  have hbreaks : crossedText.Uniform :=
    ⟨"a\\\nb # c\n[Defines]\n x = \\\\\n1\n[Sources.X64]\n\\\n a.c".toList, by decide, .inr rfl⟩
  have hlast : crossedText.getLast? ≠ some '\\' := by decide
  exact ⟨hbreaks, hlast, ofText_eq_walk hbreaks hlast⟩

end Sections

end FirmwareIndex
