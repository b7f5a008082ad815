import FirmwareIndex.Proofs.Section.Lines
import FirmwareIndex.Proofs.Section.Runs

/-!
# Logical lines written out again

The texts of logical lines are canonical: normal, not empty and on one line each
(`Line.canonical_of_mem_ofText`). Written one below the other, canonical lines of which none goes on
are read back one by one, each from its own physical line (`Line.ofText_written`). So reading the
lines of a text again changes nothing but where they stand (`Line.ofText_written_ofText`).
-/

set_option autoImplicit false

namespace FirmwareIndex.Line

/-- The lines one below the other. -/
def written (texts : List Text) : Text :=
  ['\n'].intercalate texts

/-- A line that stands for itself: normal, not empty, and without a line break. -/
structure Canonical (t : Text) : Prop where
  normal : Normal t
  ne_nil : t ≠ []
  unbroken : '\n' ∉ t

/-- The line `t` as it is read from the physical line `n`, where it stands as it is. -/
def standing (n : Nat) (t : Text) : Line :=
  ⟨n, t, t⟩

variable {t : Text}

/-- A carriage return at the end of a line would be a blank there. -/
theorem Canonical.chomp_eq (h : Canonical t) : chomp t = t := by
  have hnone : stripLast? '\r' t = none := by
    rw [stripLast?_eq_none_iff]
    intro hlast
    exact absurd (h.normal.trimmed.last _ hlast) (by decide)
  rw [chomp, hnone, Option.getD_none]

/-- The physical lines of canonical lines are the lines themselves. -/
theorem physical_written {texts : List Text} (hne : texts ≠ [])
    (h : ∀ t ∈ texts, Canonical t) : physical (written texts) = texts := by
  have hsplit : (written texts).splitOn '\n' = texts :=
    List.splitOn_intercalate '\n' (fun t ht => (h t ht).unbroken) hne
  rw [physical_eq_map_chomp, hsplit]
  exact (List.map_congr_left fun t ht => (h t ht).chomp_eq).trans (List.map_id texts)

/-- Each physical line that is canonical and does not go on is a logical line. -/
theorem gather_eq_mapIdx {texts : List Text} (h : ∀ t ∈ texts, Canonical t)
    (hends : ∀ t ∈ texts, t.getLast? ≠ some '\\') (n : Nat) :
    gather n none texts = texts.mapIdx fun i t => standing (n + i) t := by
  induction texts generalizing n with
  | nil => rfl
  | cons t rest ih =>
    obtain ⟨ht, hrest⟩ := List.forall_mem_cons.1 h
    obtain ⟨htends, hrestends⟩ := List.forall_mem_cons.1 hends
    have hclose : (⟨n, t, t⟩ : Open).close = [standing n t] := by
      rw [Open.close, normalize_eq_self_iff.2 ht.normal, if_neg ht.ne_nil, standing]
    have hshift : (fun i t => standing (n + 1 + i) t) = fun i t => standing (n + (i + 1)) t := by
      funext i t
      rw [Nat.add_assoc, Nat.add_comm 1]
    rw [gather, stripLast?_eq_none_iff.2 htends, ih hrest hrestends (n + 1), List.mapIdx_cons,
      hshift]
    simp only [Option.getD_none, List.nil_append, hclose, List.singleton_append, Nat.add_zero]

/-- Canonical lines that do not go on are read back as they were written. -/
theorem ofText_written {texts : List Text} (h : ∀ t ∈ texts, Canonical t)
    (hends : ∀ t ∈ texts, t.getLast? ≠ some '\\') :
    ofText (written texts) = texts.mapIdx standing := by
  by_cases hne : texts = []
  · rw [hne]
    exact ofText_nil
  · rw [ofText, physical_written hne h, gather_eq_mapIdx h hends]
    simp only [Nat.zero_add]

/-- A physical line has no line feed in it. -/
theorem not_mem_of_mem_physical {line : Text} (h : line ∈ physical t) : '\n' ∉ line := by
  rw [physical_eq_map_chomp, List.mem_map] at h
  obtain ⟨piece, hpiece, rfl⟩ := h
  have hbroken := (Text.mem_splitOn hpiece).1
  rw [chomp]
  cases hstrip : stripLast? '\r' piece with
  | none => exact hbroken
  | some start =>
    obtain rfl := stripLast?_eq_some_iff.1 hstrip
    exact fun hmem => hbroken (List.mem_append_left _ hmem)

/-- Joining lines brings in no line break. -/
theorem not_mem_joined {run : List Text} (h : ∀ line ∈ run, '\n' ∉ line) : '\n' ∉ joined run := by
  rw [joined, List.mem_flatMap]
  rintro ⟨line, hline, hmem⟩
  cases hstrip : stripLast? '\\' line with
  | none =>
    rw [hstrip] at hmem
    exact h line hline hmem
  | some start =>
    obtain rfl := stripLast?_eq_some_iff.1 hstrip
    rw [hstrip] at hmem
    exact h _ hline (List.mem_append_left _ hmem)

/-- The text of a logical line is the normal form of a run of physical lines. -/
theorem exists_run_of_mem_ofText {l : Line} (h : l ∈ ofText t) :
    ∃ run ∈ runs (physical t), l.text = normalize (joined run) ∧ l.text ≠ [] := by
  have htext : l.text ∈ (ofText t).map Line.text := List.mem_map_of_mem h
  rw [ofText, gather_eq_ofRuns, map_text_ofRuns, List.mem_filter, List.mem_map] at htext
  obtain ⟨⟨run, hrun, heq⟩, hne⟩ := htext
  exact ⟨run, hrun, heq.symm, of_decide_eq_true hne⟩

/-- The text of a logical line is canonical. -/
theorem canonical_of_mem_ofText {l : Line} (h : l ∈ ofText t) : Canonical l.text := by
  obtain ⟨run, hrun, htext, hne⟩ := exists_run_of_mem_ofText h
  refine ⟨htext ▸ normal_normalize _, hne, fun hbreak => ?_⟩
  have hflatten : (runs (physical t)).flatten = physical t := flatten_runsBy _
  have hlines : ∀ line ∈ run, '\n' ∉ line := fun line hline =>
    not_mem_of_mem_physical (hflatten ▸ List.mem_flatten_of_mem hrun hline)
  rcases mem_of_mem_normalize (htext ▸ hbreak) with hspace | ⟨hjoined, _⟩
  · exact absurd hspace (by decide)
  · exact not_mem_joined hlines hjoined

/-- The logical lines of a text, of which none ends in a backslash, are read back from where they
are written one below the other: they are the same texts in the same order, each on the physical
line of its number and as it stands there. Lines are counted without a bound, see `Line.number`. -/
theorem ofText_written_ofText (t : Text)
    (h : ∀ l ∈ ofText t, l.text.getLast? ≠ some '\\') :
    ofText (written ((ofText t).map Line.text)) = ((ofText t).map Line.text).mapIdx standing := by
  refine ofText_written ?_ ?_
  · intro s hs
    obtain ⟨l, hl, rfl⟩ := List.mem_map.1 hs
    exact canonical_of_mem_ofText hl
  · intro s hs
    obtain ⟨l, hl, rfl⟩ := List.mem_map.1 hs
    exact h l hl

/-- A text with a comment, runs of blanks, both kinds of line breaks, a blank line that goes on, and
a no-break space at the end of a continued line. -/
def scatteredText : Text :=
  "a \t b # c\r\n\\\n\n [x]\\\r\n\t #y\n\\\\ z\\\n w\u00a0\r\n"

/-- The scattered text is read as three lines, and read again from where these are written out. -/
theorem ofText_written_scatteredText :
    ofText scatteredText =
        [⟨0, "a b", "a \t b # c"⟩, ⟨3, "[x]", " [x]\\"⟩, ⟨5, "\\\\ z w", "\\\\ z\\"⟩] ∧
      (∀ l ∈ ofText scatteredText, l.text.getLast? ≠ some '\\') ∧
      ofText "a b\n[x]\n\\\\ z w".toList =
        [⟨0, "a b", "a b"⟩, ⟨1, "[x]", "[x]"⟩, ⟨2, "\\\\ z w", "\\\\ z w"⟩] := by
  have hread : ofText scatteredText =
      [⟨0, "a b", "a \t b # c"⟩, ⟨3, "[x]", " [x]\\"⟩, ⟨5, "\\\\ z w", "\\\\ z\\"⟩] := by
    decide +kernel
  have hends : ∀ l ∈ ofText scatteredText, l.text.getLast? ≠ some '\\' := by
    rw [hread]
    decide
  have hagain := ofText_written_ofText scatteredText hends
  rw [hread] at hagain
  exact ⟨hread, hends, hagain⟩

end FirmwareIndex.Line
