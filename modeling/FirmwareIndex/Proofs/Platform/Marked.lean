import FirmwareIndex.Proofs.Platform.Positions
import FirmwareIndex.Proofs.Section.Partition

/-!
# Marked texts

A problem that is noted on a line quotes a text that occurs in it. When the line stands in its file
as it is read, without blanks that were merged, comments that were cut out or lines that were joined
to it, the quoted text occurs in the physical line too, and it is what an editor marks there, at its
first occurrence (`Document.marked_ofText`). Only the problem of a block that is open at the end is
noted on no line.
-/

set_option autoImplicit false

namespace FirmwareIndex

/-- The diagnostic marks a text in a line, where it first occurs. Characters are counted, whatever
number of bytes they have. -/
structure Diagnostic.Marks (d : Diagnostic) (part line : Text) : Prop where
  ordered : d.start ≤ d.stop
  inside : d.stop ≤ line.length
  marked : line.extract d.start d.stop = part
  first : ∀ front back, line = front ++ part ++ back → d.start ≤ front.length

/-- A text that a problem quotes of its line is marked there. -/
theorem Problem.marks_diagnostic {p : Problem} (hcolumn : p.location.column = none)
    (hne : p.offending ≠ []) (h : p.offending <:+: p.lineText) :
    p.diagnostic.Marks p.offending p.lineText := by
  obtain ⟨front, back, hline, hindex, hfirst⟩ := Text.exists_indexOf?_eq h
  have hstart : p.diagnostic.start = front.length := by
    simp [diagnostic, Report.diagnostic, Report.start, report, hcolumn, hne, hindex]
  have hstop : p.diagnostic.stop = front.length + p.offending.length := by
    rw [← hstart]
    simp [diagnostic, Report.diagnostic, Report.width, report, hne]
  constructor
  · rw [hstart, hstop]
    exact Nat.le_add_right _ _
  · rw [hstop, hline]
    simp
  · rw [hstart, hstop, hline]
    simp [List.extract_eq_take_drop]
  · intro start rest heq
    rw [hstart]
    exact hfirst start rest heq

/-- The physical line of a file, counted from zero, when a platform file with a given text is
read. -/
def Setting.physicalLine? (s : Setting) (root : Path) (text : Text) (file : Path) (n : Nat) :
    Option Text :=
  (s.textOf? root text file).bind fun t => (Line.physical t)[n]?

namespace Document

section Reach

variable {d : Document} {s : Setting} {text : Text} {here other : Place}

/-- The physical line of a place is found again in its file. -/
theorem Reaches.physicalLine? (h : d.Reaches s d.file text here) :
    s.physicalLine? d.file text here.file here.line.number = some here.line.raw := by
  obtain ⟨t, htext, hline⟩ := h.exists_textOf?
  rw [Setting.physicalLine?, htext]
  exact (Line.partitions_ofText t).raw _ hline

/-- A document reaches at most one line at a location: its file has one text, whose logical lines
begin at different physical lines. -/
theorem Reaches.eq_of_isOn {l : Location} (h : d.Reaches s d.file text here)
    (h' : d.Reaches s d.file text other) (hl : l.IsOn here) (hl' : l.IsOn other) :
    here = other := by
  obtain ⟨file, line⟩ := here
  obtain ⟨file', line'⟩ := other
  obtain ⟨t, htext, hline⟩ := h.exists_textOf?
  obtain ⟨t', htext', hline'⟩ := h'.exists_textOf?
  obtain rfl : file = file' := hl.1.symm.trans hl'.1
  obtain rfl : t = t' := Option.some.inj (htext.symm.trans htext')
  have hnumber : line.number = line'.number := hl.2.symm.trans hl'.2
  by_contra hne
  have hlines := Line.rel_or_rel (Line.partitions_ofText t).increasing hline hline'
    fun heq => hne (congrArg (Place.mk file) heq)
  dsimp only at hlines
  omega

end Reach

/-- The problems in the document of a platform file with a given text are marked at what they
quote. -/
structure Marked (d : Document) (s : Setting) (text : Text) : Prop where
  /-- A problem that is noted while the files are read is noted on one line of theirs. -/
  noted : ∀ p ∈ (Machine.readingOf s d.file text).document.problems,
    ∃! here, d.Reaches s d.file text here ∧ p.location.IsOn here
  /-- When the line stands as it is read in the physical line, an editor marks the text that the
  problem quotes, on this physical line. -/
  marks : ∀ p ∈ (Machine.readingOf s d.file text).document.problems, ∀ here,
    d.Reaches s d.file text here → p.location.IsOn here → here.line.text <:+: here.line.raw →
    p.offending ≠ [] →
    p.diagnostic.line = p.location.line ∧
    s.physicalLine? d.file text p.location.file p.diagnostic.line = some here.line.raw ∧
    p.diagnostic.Marks p.offending here.line.raw
  /-- Only the problem of a block that is open at the end is added to those. -/
  unclosed : d.problems = (Machine.readingOf s d.file text).document.problems ++
    ((Machine.readingOf s d.file text).block.map fun b =>
      ⟨⟨b.location.file, b.location.line, none, (Machine.readingOf s d.file text).context⟩,
        .openBlock b.path, b.path, b.path⟩).toList

/-- Whatever a platform file includes, every problem that is noted on a line is marked at the first
occurrence of the text that it quotes, if the line stands in its file as it is read. Lines and
columns are counted without a bound, see `Line.number` and `Report.start`. -/
theorem marked_ofText (s : Setting) (file : Path) (text : Text) :
    (ofText s file text).Marked s text := by
  have hquoted : ∀ p ∈ (Machine.readingOf s (ofText s file text).file text).document.problems,
      ∃ here, (ofText s file text).Reaches s (ofText s file text).file text here ∧
        p.Quotes here := by
    rw [file_ofText]
    intro p hp
    obtain ⟨here, hreaches, hquotes⟩ := (Machine.placed_readingOf s file text).quoted p hp
    have hincluded : (ofText s file text).included =
        (Machine.readingOf s file text).document.included := Reading.included_finish _
    exact ⟨here, hreaches.mono fun _ hp => hincluded ▸ hp, hquotes⟩
  constructor
  · intro p hp
    obtain ⟨here, hreaches, hquotes⟩ := hquoted p hp
    exact ⟨here, ⟨hreaches, hquotes.isOn.1⟩, fun other hother =>
      hother.1.eq_of_isOn hreaches hother.2 hquotes.isOn.1⟩
  · intro p hp here hreaches hon hliteral hne
    obtain ⟨place, hplace, hquotes⟩ := hquoted p hp
    obtain rfl := hreaches.eq_of_isOn hplace hon hquotes.isOn.1
    have hraw : p.lineText = here.line.raw := hquotes.isOn.2
    refine ⟨rfl, ?_, ?_⟩
    · have hphysical := hreaches.physicalLine?
      rwa [← hon.1, ← hon.2] at hphysical
    · rw [← hraw]
      exact Problem.marks_diagnostic hquotes.column hne
        (hquotes.offending.trans (hraw ▸ hliteral))
  · rw [file_ofText]
    exact Reading.problems_finish _

/-- A header that names no section is marked at the names, the second of which differs from the
first. -/
example : (ofText ⟨FileSet.empty.sources, none⟩ ⟨"/ws/P.dsc"⟩ "  [Ä, Börse]\n").problems.map
    (fun p => (p.offending, p.diagnostic.start, p.diagnostic.stop)) =
      [("Börse".toList, 6, 11), ("Ä".toList, 3, 4), ("Börse".toList, 6, 11)] := by
  decide +kernel

end Document

end FirmwareIndex
