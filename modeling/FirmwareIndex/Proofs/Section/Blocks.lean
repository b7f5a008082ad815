import FirmwareIndex.Module.Record
import FirmwareIndex.Proofs.Section.Placed

/-!
# Blocks of a build file

A block is a header with its lines. The lines of a text made of blocks are those of the blocks, one
block after the other (`Sections.entries_textOf`), so that a section has the lines of the blocks of
its key in their order (`Sections.get_ofText_textOf`). What a record says depends on nothing else:
blocks of different sections can be exchanged, and headers can be given other qualifiers
(`ModuleRecord.unordered`).
-/

set_option autoImplicit false

namespace FirmwareIndex

namespace Sections

/-- The lines of a text that are not empty. -/
def entries (t : Text) : List Text :=
  (linesOf t).filter (· ≠ [])

/-- A header and its lines, with comments and blank lines anywhere between them. -/
structure Block where
  text : Text
  header : Text
  lines : List Text
  entries_eq : entries text = header :: lines
  isHeader : header.head? = some '['
  notHeaders : ∀ line ∈ lines, line.head? ≠ some '['
  /-- The text ends in a line break that is not taken out to continue a line. -/
  ends : LineBegins text
  /-- Nothing of the line break before the block stands at its beginning. -/
  begins : text.head? ≠ some '\n'

/-- The key of the section that a block has lines of. -/
def Block.key (b : Block) : Text :=
  (Header.ofLine b.header).key

/-- The text made of blocks. -/
def textOf (blocks : List Block) : Text :=
  blocks.flatMap Block.text

/-- The headers are the same up to what follows the name in them: nothing, or qualifiers behind a
dot or a comma. -/
def Requalified (header other : Text) : Prop :=
  ∃ name qualifiers others : Text,
    Header.body header = name ++ qualifiers ∧ Header.body other = name ++ others ∧
      (∀ c ∈ qualifiers.head?, c = '.' ∨ c = ',') ∧ ∀ c ∈ others.head?, c = '.' ∨ c = ','

section Entries

variable {front back t : Text}

/-- The lines that are not empty of a text without line breaks but line feeds. -/
def nonempty (t : Text) : List Text :=
  ((t.splitOn '\n').map Line.normalize).filter (· ≠ [])

/-- The entries of a text are the lines of its unfolded text that are not empty. -/
theorem entries_eq_nonempty (t : Text) : entries t = nonempty (unfolded t) :=
  rfl

/-- The lines on both sides of a line feed are those of the whole text. -/
theorem nonempty_append_feed (front back : Text) :
    nonempty (front ++ '\n' :: back) = nonempty front ++ nonempty back := by
  rw [nonempty, List.splitOn_append_cons_self, List.map_append, List.filter_append, nonempty,
    nonempty]

/-- The empty text has no lines that are not empty. -/
@[simp]
theorem nonempty_nil : nonempty [] = [] := by
  have hnil : Line.normalize [] = [] := rfl
  simp [nonempty, hnil]

/-- A line feed in front adds an empty line, which does not count. -/
theorem nonempty_feed (t : Text) : nonempty ('\n' :: t) = nonempty t :=
  nonempty_append_feed [] t

/-- Behind a line feed the lines start anew. -/
theorem nonempty_append (hfront : front = [] ∨ front.getLast? = some '\n') (back : Text) :
    nonempty (front ++ back) = nonempty front ++ nonempty back := by
  rcases hfront with rfl | hlast
  · rw [nonempty_nil, List.nil_append, List.nil_append]
  · obtain ⟨t, rfl⟩ := List.getLast?_eq_some_iff.1 hlast
    rw [List.append_assoc, List.singleton_append, nonempty_append_feed, nonempty_append_feed,
      nonempty_nil, List.append_nil]

/-- A backslash at the end of a text is not taken out. -/
theorem joinWide_concat (t : Text) : joinWide (t ++ ['\\']) = joinWide t ++ ['\\'] :=
  joinWide_append (by simp) (by simp)

/-- A backslash at the end of a text joins nothing in front of it. -/
theorem unifyBreaks_joinNarrow_concat (t : Text) :
    unifyBreaks (joinNarrow (t ++ ['\\'])) = unifyBreaks (joinNarrow t) ++ ['\\'] := by
  have hnarrow : joinNarrow (t ++ ['\\']) = joinNarrow t ++ ['\\'] := joinNarrow_append (by simp)
  rw [hnarrow]
  exact unifyBreaks_append (by simp)

/-- A text behind which a line begins has no backslash at its end, neither before nor after the wide
breaks have been taken out. -/
theorem LineBegins.getLast?_ne (h : LineBegins front) :
    front.getLast? ≠ some '\\' ∧ (joinWide front).getLast? ≠ some '\\' := by
  have hends : ∀ t : Text, unfolded front ≠ t ++ ['\\'] := by
    intro t heq
    rcases h with hnil | hlast
    · simp [hnil] at heq
    · simp [heq] at hlast
  refine ⟨fun hlast => ?_, fun hlast => ?_⟩
  · obtain ⟨t, rfl⟩ := List.getLast?_eq_some_iff.1 hlast
    exact hends _ (by rw [unfolded, joinWide_concat, unifyBreaks_joinNarrow_concat])
  · obtain ⟨t, heq⟩ := List.getLast?_eq_some_iff.1 hlast
    exact hends _ (by rw [unfolded, heq, unifyBreaks_joinNarrow_concat])

/-- Line breaks that meet may become one, which makes a difference for blank lines alone. -/
theorem nonempty_unifyBreaks_append (hfront : unifyBreaks front = [] ∨
      (unifyBreaks front).getLast? = some '\n') (back : Text) :
    nonempty (unifyBreaks (front ++ back)) =
      nonempty (unifyBreaks front) ++ nonempty (unifyBreaks back) := by
  by_cases hmeet : back.head? = some '\n' ∧ front.getLast? = some '\r'
  · obtain ⟨back, rfl⟩ := List.head?_eq_some_iff.1 hmeet.1
    obtain ⟨front, rfl⟩ := List.getLast?_eq_some_iff.1 hmeet.2
    have hone : unifyBreaks (front ++ '\r' :: '\n' :: back) =
        unifyBreaks front ++ '\n' :: unifyBreaks back :=
      unifyBreaks_append (by simp)
    have hreturn : unifyBreaks (front ++ ['\r']) = unifyBreaks front ++ ['\n'] :=
      unifyBreaks_append (by simp)
    rw [List.append_assoc, List.singleton_append, hone, hreturn, unifyBreaks_cons (by decide),
      nonempty_append_feed, nonempty_append_feed, nonempty_feed, nonempty_nil, List.append_nil]
  · rw [unifyBreaks_append fun hhead hlast => hmeet ⟨hhead, hlast⟩]
    exact nonempty_append hfront _

/-- The lines of a text behind which a line begins, and of a text that begins with no line feed. -/
theorem entries_append (hfront : LineBegins front) (hback : back.head? ≠ some '\n') :
    entries (front ++ back) = entries front ++ entries back := by
  obtain ⟨hslash, hwide⟩ := hfront.getLast?_ne
  rw [entries_eq_nonempty, unfolded,
    joinWide_append (fun _ => hslash) (fun hhead => absurd hhead hback),
    joinNarrow_append fun _ => hwide]
  exact nonempty_unifyBreaks_append hfront _

/-- The text of the first blocks is not continued by the others. -/
theorem head?_textOf (blocks : List Block) : (textOf blocks).head? ≠ some '\n' := by
  induction blocks with
  | nil => simp [textOf]
  | cons b blocks ih =>
    have hbegins := b.begins
    rw [textOf, List.flatMap_cons, List.head?_append]
    cases hhead : b.text.head? with
    | none => exact ih
    | some c =>
      rw [hhead] at hbegins
      exact hbegins

/-- The lines of a text made of blocks are those of the blocks. -/
theorem entries_textOf (blocks : List Block) :
    entries (textOf blocks) = blocks.flatMap fun b => b.header :: b.lines := by
  induction blocks with
  | nil => rfl
  | cons b blocks ih =>
    rw [List.flatMap_cons, ← b.entries_eq, ← ih]
    exact entries_append b.ends (head?_textOf blocks)

end Entries

section Standing

variable {t : Text}

/-- Lines that are no headers stand under the header before them. -/
theorem standing_of_not_header {lines : List Text} (h : ∀ line ∈ lines, line.head? ≠ some '[')
    (header : Header) (rest : List Text) :
    standing (some header) (lines ++ rest) =
      lines.map (header, ·) ++ standing (some header) rest := by
  induction lines with
  | nil => rfl
  | cons line lines ih =>
    obtain ⟨hline, hlines⟩ := List.forall_mem_cons.1 h
    rw [List.cons_append, standing, if_neg hline, ih hlines]
    rfl

/-- In a text made of blocks the lines of a block stand under its header. -/
theorem standing_blocks (blocks : List Block) (current : Option Header) :
    standing current (blocks.flatMap fun b => b.header :: b.lines) =
      blocks.flatMap fun b => b.lines.map (Header.ofLine b.header, ·) := by
  induction blocks generalizing current with
  | nil => rfl
  | cons b blocks ih =>
    rw [List.flatMap_cons, List.cons_append, standing, if_pos b.isHeader,
      standing_of_not_header b.notHeaders, ih, List.flatMap_cons]

/-- A section has the lines that stand under the headers of its key, none if there is no such
header. -/
theorem get_ofText (t name : Text) : (ofText t).get name =
    (ofKey (standing none (entries t)) (Header.canonical name)).map Prod.snd := by
  rw [get, get?, (faithful_ofText t).merged]
  split
  · rfl
  · rename_i hunnamed
    have hnone : ofKey (standing none (entries t)) (Header.canonical name) = [] := by
      refine List.filter_eq_nil_iff.2 fun occurrence hmem hkey => hunnamed ?_
      rw [← of_decide_eq_true hkey]
      exact List.mem_map_of_mem ((mem_of_mem_standing hmem).2.2.resolve_left (by simp))
    rw [hnone]
    rfl

/-- A section has the lines of the blocks of its key. -/
theorem get_ofText_textOf (blocks : List Block) (name : Text) :
    (ofText (textOf blocks)).get name =
      blocks.flatMap fun b => if b.key = Header.canonical name then b.lines else [] := by
  rw [get_ofText, entries_textOf, standing_blocks, ofKey, List.filter_flatMap, List.map_flatMap]
  refine List.flatMap_congr fun b _ => ?_
  by_cases hkey : b.key = Header.canonical name
  · have hall : (Header.ofLine b.header).key = Header.canonical name := hkey
    simp [hkey, hall, List.filter_map, Function.comp_def]
  · have hnone : (Header.ofLine b.header).key ≠ Header.canonical name := hkey
    simp [hkey, hnone, List.filter_map, Function.comp_def]

/-- A header's key does not depend on its qualifiers. -/
theorem Requalified.key_eq {header other : Text} (h : Requalified header other) :
    (Header.ofLine header).key = (Header.ofLine other).key := by
  obtain ⟨name, qualifiers, others, hheader, hother, hqualifiers, hothers⟩ := h
  have hcut : ∀ rest : Text, (∀ c ∈ rest.head?, c = '.' ∨ c = ',') →
      (name ++ rest).takeWhile (fun c => c != '.' && c != ',') =
        name.takeWhile fun c => c != '.' && c != ',' := by
    intro rest hrest
    have hnone : rest.takeWhile (fun c => c != '.' && c != ',') = [] := by
      cases rest with
      | nil => rfl
      | cons c rest => rcases hrest c rfl with rfl | rfl <;> rfl
    rw [List.takeWhile_append, hnone]
    split
    · rename_i hall
      rw [List.append_nil, (List.takeWhile_prefix _).eq_of_length hall]
    · rfl
  rw [Header.ofLine, Header.ofLine, hheader, hother, hcut _ hqualifiers, hcut _ hothers]

end Standing

end Sections

namespace ModuleRecord

open Sections (textOf Requalified)

/-- A record depends on the lines of each section alone. -/
theorem ofSections_congr {s s' : Sections} (path : Path) (h : ∀ name, s.get name = s'.get name) :
    ofSections path s = ofSections path s' := by
  simp only [ofSections, h]

/-- What makes no difference for the record of a text made of blocks. -/
structure Unordered (path : Path) : Prop where
  /-- Blocks of different sections may stand either way. -/
  exchanged : ∀ (before after : List Sections.Block) (a b : Sections.Block), a.key ≠ b.key →
    ofText path (textOf (before ++ a :: b :: after)) =
      ofText path (textOf (before ++ b :: a :: after))
  /-- A header may have other qualifiers. -/
  requalified : ∀ (before after : List Sections.Block) (a b : Sections.Block),
    Requalified a.header b.header → a.lines = b.lines →
    ofText path (textOf (before ++ a :: after)) = ofText path (textOf (before ++ b :: after))

/-- The record of a text made of blocks depends neither on the order of blocks of different sections
nor on the qualifiers of headers. -/
theorem unordered (path : Path) : Unordered path where
  exchanged before after a b hne := by
    refine ofSections_congr path fun name => ?_
    simp only [Sections.get_ofText_textOf, List.flatMap_append, List.flatMap_cons]
    by_cases ha : a.key = Header.canonical name
    · have hb : b.key ≠ Header.canonical name := fun hb => hne (ha.trans hb.symm)
      simp [ha, hb]
    · simp [ha]
  requalified before after a b hheader hlines := by
    refine ofSections_congr path fun name => ?_
    have hkey : a.key = b.key := hheader.key_eq
    simp only [Sections.get_ofText_textOf, List.flatMap_append, List.flatMap_cons, hkey, hlines]

/-- A block with a comment before its header and a continued line. -/
def continuedBlock : Sections.Block where
  text := "# c\n [Sources.X64] # d\n a.c\\\r\n | GCC\r\r"
  header := "[Sources.X64]"
  lines := ["a.c | GCC"]
  entries_eq := by decide +kernel
  isHeader := by decide
  notHeaders := by decide
  ends := .inr (by decide +kernel)
  begins := by decide

/-- A block of another section, whose last line ends in a doubled backslash. -/
def includesBlock : Sections.Block where
  text := "[includes]\nA\nB\\\\ \n"
  header := "[includes]"
  lines := ["A", "B\\\\"]
  entries_eq := by decide +kernel
  isHeader := by decide
  notHeaders := by decide
  ends := .inr (by decide +kernel)
  begins := by decide

/-- The continued block under a header with two qualifiers, of which the first has no architecture. -/
def requalifiedBlock : Sections.Block where
  text := "[Sources, Sources.IA32.PEIM]\r\na.c | GCC\n"
  header := "[Sources, Sources.IA32.PEIM]"
  lines := ["a.c | GCC"]
  entries_eq := by decide +kernel
  isHeader := by decide
  notHeaders := by decide
  ends := .inr (by decide +kernel)
  begins := by decide

/-- The header of the continued block and the one with other qualifiers. -/
theorem requalified_continuedBlock :
    Requalified continuedBlock.header requalifiedBlock.header := by
  refine ⟨"Sources", ".X64", ", Sources.IA32.PEIM", by decide +kernel, by decide +kernel, ?_, ?_⟩
  · intro c hc
    exact .inl (Option.some.inj hc).symm
  · intro c hc
    exact .inr (Option.some.inj hc).symm

/-- The blocks exchanged, and one of them under another header. -/
theorem record_rearranged :
    ofText ⟨"/ws/A.inf"⟩ (textOf [continuedBlock, includesBlock]) =
        ofText ⟨"/ws/A.inf"⟩ (textOf [includesBlock, continuedBlock]) ∧
      ofText ⟨"/ws/A.inf"⟩ (textOf [includesBlock, continuedBlock]) =
        ofText ⟨"/ws/A.inf"⟩ (textOf [includesBlock, requalifiedBlock]) ∧
      (ofText ⟨"/ws/A.inf"⟩ (textOf [includesBlock, requalifiedBlock])).sources = [⟨"/ws/a.c"⟩] :=
  ⟨(unordered ⟨"/ws/A.inf"⟩).exchanged [] [] continuedBlock includesBlock (by decide +kernel),
    (unordered ⟨"/ws/A.inf"⟩).requalified [includesBlock] [] continuedBlock requalifiedBlock
      requalified_continuedBlock rfl,
    by decide +kernel⟩

end ModuleRecord

end FirmwareIndex
