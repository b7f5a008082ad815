import FirmwareIndex.Platform.Reading
import FirmwareIndex.Proofs.Text.Pieces
import FirmwareIndex.Proofs.Text.Trimmed

/-!
# The lines of a component block

What the lines of a block say is told here without their readers. A line is a header or content by
how it starts (`LineKind.ofText_eq_header_iff`, `LineKind.ofText_eq_content_iff`). A line in angle
brackets opens a part of the block if it holds the name of that part (`BlockPart.Opened`). In a
part, a line gives an implementation (`LibraryClass.Given`) or a setting (`PcdEntry.Given`). Each
reader finds just what the line says: `BlockPart.ofName?_nameOf_eq_some_iff`,
`Entry.libraryClass?_eq_some_iff` and `PcdEntry.ofText?_eq_some_iff`.
-/

set_option autoImplicit false

namespace FirmwareIndex

open Text

/-! ## Kinds of line -/

namespace LineKind

/-- A directive is neither a header nor content. -/
theorem ofDirective_cases (t : Text) : ofDirective t ≠ .header ∧ ofDirective t ≠ .content := by
  unfold ofDirective
  dsimp only
  repeat' split
  all_goals exact ⟨nofun, nofun⟩

variable {t : Text} {c : Char}

/-- A text does not start with a character if it is that character in front of no text. -/
theorem head?_ne (h : ∀ rest, t = c :: rest → False) : t.head? ≠ some c := by
  intro hhead
  obtain ⟨rest, rfl⟩ := List.head?_eq_some_iff.1 hhead
  exact h rest rfl

/-- A line is a header if it starts with a bracket. -/
theorem ofText_eq_header_iff : ofText t = .header ↔ t.head? = some '[' := by
  unfold ofText
  split
  · exact iff_of_true rfl rfl
  · rename_i directive
    exact iff_of_false (ofDirective_cases directive).1 (by simp)
  · rename_i hheader _
    exact iff_of_false (by split <;> nofun) (head?_ne hheader)

/-- A line is content if it starts neither with a bracket nor with an exclamation mark, nor with the
keyword of a definition and a space. -/
theorem ofText_eq_content_iff : ofText t = .content ↔
    t.head? ≠ some '[' ∧ t.head? ≠ some '!' ∧ ¬ "DEFINE ".toList <+: t := by
  unfold ofText
  split
  · exact iff_of_false nofun fun h => h.1 rfl
  · rename_i directive
    exact iff_of_false (ofDirective_cases directive).2 fun h => h.2.1 rfl
  · rename_i hheader hdirective
    rw [← List.isPrefixOf_iff_prefix]
    split
    · rename_i hdefinition
      exact iff_of_false nofun fun h => h.2.2 hdefinition
    · rename_i hdefinition
      exact iff_of_true rfl ⟨head?_ne hheader, head?_ne hdirective, hdefinition⟩

end LineKind

/-! ## Parts -/

namespace BlockPart

/-- The name that a part of a block is opened by. -/
def title? : BlockPart → Option Text
  | .libraries => some "LibraryClasses"
  | .buildOptions => some "BuildOptions"
  | .pcds .pcdsFeatureFlag => some "PcdsFeatureFlag"
  | .pcds .pcdsFixedAtBuild => some "PcdsFixedAtBuild"
  | .pcds .pcdsPatchableInModule => some "PcdsPatchableInModule"
  | .pcds .pcdsDynamic => some "PcdsDynamic"
  | .pcds .pcdsDynamicDefault => some "PcdsDynamicDefault"
  | .pcds .pcdsDynamicEx => some "PcdsDynamicEx"
  | .pcds .pcdsDynamicExDefault => some "PcdsDynamicExDefault"
  | .pcds .pcdsDynamicHii => some "PcdsDynamicHii"
  | .pcds .pcdsDynamicExHii => some "PcdsDynamicExHii"
  | .pcds .pcdsDynamicVpd => some "PcdsDynamicVpd"
  | .pcds .pcdsDynamicExVpd => some "PcdsDynamicExVpd"
  | .pcds _ | .outside => none

/-- A line holds a name behind opening brackets, up to the first closing one or to the end. -/
def Bracketed (line name : Text) : Prop :=
  ∃ brackets rest, line = brackets ++ (name ++ rest) ∧ (∀ c ∈ brackets, c = '<') ∧
    name.head? ≠ some '<' ∧ '>' ∉ name ∧ ∀ c ∈ rest.head?, c = '>'

/-- A line opens a part of a block if it holds the name of the part in brackets, apart from blanks
around it and the case of its letters. -/
def Opened (part : BlockPart) (line : Text) : Prop :=
  ∃ name title, Bracketed line name ∧ part.title? = some title ∧ sameName (trim name) title

variable {part : BlockPart} {name other line title : Text}

/-- The settings that a block may hold are named like their sections. -/
theorem title?_pcds (kind : SectionName) :
    title? (.pcds kind) = if kind.isPcd then some kind.name else none := by
  cases kind <;> rfl

/-- The name of a part is read as that of the part. -/
theorem ofName?_title (h : part.title? = some title) :
    ofName? title = some part ∧ trim title = title := by
  cases part with
  | outside => cases h
  | libraries | buildOptions =>
    obtain rfl := Option.some.inj h
    decide +kernel
  | pcds kind =>
    obtain ⟨hpcd, rfl⟩ : kind.isPcd = true ∧ kind.name = title := by
      simpa [title?_pcds] using h
    revert hpcd
    cases kind <;> decide +kernel

/-- The case of its letters makes no difference to the name of a part. -/
theorem ofName?_congr (h : sameName name other) (hname : trim name = name)
    (hother : trim other = other) : ofName? name = ofName? other := by
  have hlower : lower name = lower other := of_decide_eq_true h
  simp only [ofName?, SectionName.ofText?, sameName, hname, hother, hlower]

/-- A trimmed text is the name of a part if it is its title but for the case of letters. -/
theorem ofName?_eq_some_iff (hname : trim name = name) :
    ofName? name = some part ↔ ∃ title, part.title? = some title ∧ sameName name title := by
  constructor
  · intro h
    unfold ofName? at h
    split at h
    · rename_i hsame
      obtain rfl := Option.some.inj h
      exact ⟨_, rfl, hsame⟩
    · split at h
      · rename_i hsame
        obtain rfl := Option.some.inj h
        exact ⟨_, rfl, hsame⟩
      · obtain ⟨kind, hkind, rfl⟩ := Option.map_eq_some_iff.1 h
        obtain ⟨hfound, hpcd⟩ := Option.filter_eq_some_iff.1 hkind
        have hsame := List.find?_some hfound
        rw [hname] at hsame
        exact ⟨_, (title?_pcds kind).trans (if_pos hpcd),
          decide_eq_true (of_decide_eq_true hsame).symm⟩
  · rintro ⟨title, htitle, hsame⟩
    obtain ⟨hpart, htrim⟩ := ofName?_title htitle
    rw [ofName?_congr hsame hname htrim, hpart]

/-- The name in a line is what stands between its brackets. -/
theorem Bracketed.nameOf_eq (h : Bracketed line name) : nameOf line = trim name := by
  obtain ⟨brackets, rest, rfl, hbrackets, hname, hclosing, hrest⟩ := h
  have hopening : (brackets ++ (name ++ rest)).dropWhile (· = '<') = name ++ rest := by
    rw [List.dropWhile_append_of_pos fun c hc => decide_eq_true (hbrackets c hc)]
    refine List.dropWhile_eq_self_iff.2 fun hlength hhead => ?_
    cases name with
    | nil =>
      cases rest with
      | nil => cases hlength
      | cons c rest =>
        obtain rfl := hrest c rfl
        cases hhead
    | cons c name => exact hname (congrArg some (of_decide_eq_true hhead))
  have hbefore : before '>' (name ++ rest) = name := by
    cases rest with
    | nil => rw [List.append_nil, before_eq_self hclosing]
    | cons c rest =>
      obtain rfl := hrest c rfl
      exact before_append_cons hclosing rest
  rw [nameOf, hopening, hbefore]

/-- Every line holds some name, which may be empty. -/
theorem exists_bracketed (line : Text) : ∃ name, Bracketed line name := by
  let behind := line.dropWhile (· = '<')
  have hbrackets : ∀ c ∈ line.takeWhile (· = '<'), c = '<' :=
    fun c hc => of_decide_eq_true (List.mem_takeWhile_imp (p := (· = '<')) hc)
  have hclosing : '>' ∉ behind.takeWhile (· != '>') := fun hmem => by
    simpa using List.mem_takeWhile_imp hmem
  have hname : (behind.takeWhile (· != '>')).head? ≠ some '<' := by
    intro hhead
    have hfirst : behind.head? = some '<' := by
      cases hbehind : behind with
      | nil => rw [hbehind] at hhead; cases hhead
      | cons c rest =>
        rw [hbehind, List.takeWhile_cons] at hhead
        split at hhead
        · exact hhead
        · cases hhead
    have hnot := List.head?_dropWhile_not (· = '<') line
    have hline : (line.dropWhile (· = '<')).head? = some '<' := hfirst
    rw [hline] at hnot
    simp at hnot
  have hrest : ∀ c ∈ (behind.dropWhile (· != '>')).head?, c = '>' := by
    intro c hc
    have hnot := List.head?_dropWhile_not (· != '>') behind
    rw [Option.mem_def.1 hc] at hnot
    simpa using hnot
  have hline : line = line.takeWhile (· = '<') ++
      (behind.takeWhile (· != '>') ++ behind.dropWhile (· != '>')) := by
    rw [List.takeWhile_append_dropWhile, List.takeWhile_append_dropWhile]
  exact ⟨_, _, _, hline, hbrackets, hname, hclosing, hrest⟩

/-- A line is read as the start of the part that it opens. -/
theorem ofName?_nameOf_eq_some_iff :
    ofName? (nameOf line) = some part ↔ part.Opened line := by
  constructor
  · intro h
    obtain ⟨name, hline⟩ := exists_bracketed line
    rw [hline.nameOf_eq, ofName?_eq_some_iff (trim_trim name)] at h
    obtain ⟨title, htitle, hsame⟩ := h
    exact ⟨name, title, hline, htitle, hsame⟩
  · rintro ⟨name, title, hline, htitle, hsame⟩
    rw [hline.nameOf_eq, ofName?_eq_some_iff (trim_trim name)]
    exact ⟨title, htitle, hsame⟩

end BlockPart

/-! ## Entries -/

/-- A line gives an implementation: the first bar stands between a class and a path, neither of them
blank. -/
def LibraryClass.Given (l : LibraryClass) (line : Text) : Prop :=
  ∃ left right, line = left ++ '|' :: right ∧ '|' ∉ left ∧ l.className = trim left ∧
    l.path = trim right ∧ l.className ≠ [] ∧ l.path ≠ []

/-- A line gives a setting: an item and, behind the first bar, its value. The first dot of the item
stands between the space and the name of the setting, neither of them empty, and the name has no
blanks. -/
def PcdEntry.Given (e : PcdEntry) (line : Text) : Prop :=
  ∃ item left right, (line = item ∧ e.value = none ∨
      ∃ value, line = item ++ '|' :: value ∧ e.value = some (trim value)) ∧ '|' ∉ item ∧
    trim item = left ++ '.' :: right ∧ '.' ∉ left ∧ e.space = trim left ∧ e.name = trim right ∧
      e.space ≠ [] ∧ e.name ≠ [] ∧ ∀ c ∈ e.name, isBlank c = false

/-- A line has two sides if it is cut at a separator into texts that are not blank. -/
theorem Entry.sides?_eq_some_iff {sep : Char} {line first second : Text} :
    sides? sep line = some (first, second) ↔
      ∃ left right, line = left ++ sep :: right ∧ sep ∉ left ∧ first = trim left ∧
        second = trim right ∧ first ≠ [] ∧ second ≠ [] := by
  constructor
  · intro h
    unfold sides? at h
    split at h
    · cases h
    · rename_i left right hcut
      obtain ⟨hline, hsep⟩ := cut?_eq_some_iff.1 hcut
      split at h
      · cases h
      · rename_i hblank
        obtain ⟨rfl, rfl⟩ := Prod.mk.inj (Option.some.inj h)
        simp only [Bool.or_eq_true, decide_eq_true_eq, not_or] at hblank
        exact ⟨left, right, hline, hsep, rfl, rfl, hblank.1, hblank.2⟩
  · rintro ⟨left, right, hline, hsep, rfl, rfl, hfirst, hsecond⟩
    have hcut := cut?_eq_some_iff.2 ⟨hline, hsep⟩
    simp only [sides?, hcut, hfirst, hsecond, decide_false, Bool.or_self, Bool.false_eq_true,
      ↓reduceIte]

/-- A line is read as the implementation that it gives. -/
theorem Entry.libraryClass?_eq_some_iff {line : Text} {l : LibraryClass} :
    libraryClass? line = some l ↔ l.Given line := by
  rw [libraryClass?, Option.map_eq_some_iff]
  constructor
  · rintro ⟨⟨className, path⟩, hsides, rfl⟩
    exact sides?_eq_some_iff.1 hsides
  · intro h
    exact ⟨(l.className, l.path), sides?_eq_some_iff.2 h, rfl⟩

namespace PcdEntry

variable {e : PcdEntry} {line item left right : Text} {value : Option Text}

/-- The item of a setting and its value, as a line is cut at the first bar. -/
theorem exists_item (line : Text) :
    ∃ item, before '|' line = item ∧ '|' ∉ item ∧ (line = item ∧ cut? '|' line = none ∨
      ∃ value, line = item ++ '|' :: value ∧ cut? '|' line = some (item, value)) := by
  cases hcut : cut? '|' line with
  | none =>
    have hbar := cut?_eq_none_iff.1 hcut
    exact ⟨line, before_eq_self hbar, hbar, .inl ⟨rfl, rfl⟩⟩
  | some sides =>
    obtain ⟨item, value⟩ := sides
    obtain ⟨rfl, hbar⟩ := cut?_eq_some_iff.1 hcut
    exact ⟨item, before_append_cons hbar value, hbar, .inr ⟨value, rfl, rfl⟩⟩

/-- What a line with a given item and value is read as. -/
theorem ofText?_of_item (hitem : trim (before '|' line) = trim item)
    (hvalue : (cut? '|' line).map (fun sides => trim sides.2) = value) :
    ofText? line = some e ↔ e.value = value ∧ ∃ left right, trim item = left ++ '.' :: right ∧
      '.' ∉ left ∧ e.space = trim left ∧ e.name = trim right ∧ e.space ≠ [] ∧ e.name ≠ [] ∧
        ∀ c ∈ e.name, isBlank c = false := by
  have hread : ofText? line = (cut? '.' (trim item)).bind fun sides =>
      if trim sides.1 = [] || trim sides.2 = [] || (trim sides.2).any isBlank then none
      else some ⟨trim sides.1, trim sides.2, value⟩ := by
    rw [← hitem, ← hvalue, ofText?]
    cases cut? '.' (trim (before '|' line)) <;> rfl
  rw [hread, Option.bind_eq_some_iff]
  constructor
  · rintro ⟨⟨left, right⟩, hcut, h⟩
    obtain ⟨hleft, hdot⟩ := cut?_eq_some_iff.1 hcut
    split at h
    · cases h
    · rename_i hblank
      obtain rfl := Option.some.inj h
      simp only [Bool.or_eq_true, decide_eq_true_eq, List.any_eq_true, not_or, not_exists,
        not_and, Bool.not_eq_true] at hblank
      exact ⟨rfl, left, right, hleft, hdot, rfl, rfl, hblank.1.1, hblank.1.2, hblank.2⟩
  · rintro ⟨rfl, left, right, hleft, hdot, hspace, hname, hspaceNe, hnameNe, hblank⟩
    obtain ⟨space, name, value⟩ := e
    obtain rfl : space = trim left := hspace
    obtain rfl : name = trim right := hname
    have hany : (trim right).any isBlank = false := by
      rw [List.any_eq_false]
      exact fun c hc => by simp [hblank c hc]
    refine ⟨(left, right), cut?_eq_some_iff.2 ⟨hleft, hdot⟩, ?_⟩
    rw [if_neg (by simp [hspaceNe, hnameNe, hany])]

/-- A line is read as the setting that it gives. -/
theorem ofText?_eq_some_iff : ofText? line = some e ↔ e.Given line := by
  obtain ⟨item, hbefore, hbar, hcut⟩ := exists_item line
  rw [ofText?_of_item (congrArg trim hbefore) rfl]
  constructor
  · rintro ⟨hvalue, left, right, hleft⟩
    refine ⟨item, left, right, ?_, hbar, hleft⟩
    obtain ⟨hline, hnone⟩ | ⟨value, hline, hsome⟩ := hcut
    · exact .inl ⟨hline, by rw [hvalue, hnone]; rfl⟩
    · exact .inr ⟨value, hline, by rw [hvalue, hsome]; rfl⟩
  · rintro ⟨item', left, right, hline, hbar', hleft⟩
    obtain ⟨rfl, hvalue⟩ | ⟨value, rfl, hvalue⟩ := hline
    · rw [before_eq_self hbar'] at hbefore
      subst hbefore
      exact ⟨by rw [hvalue, cut?_eq_none_iff.2 hbar']; rfl, left, right, hleft⟩
    · rw [before_append_cons hbar'] at hbefore
      subst hbefore
      exact ⟨by rw [hvalue, cut?_eq_some_iff.2 ⟨rfl, hbar'⟩]; rfl, left, right, hleft⟩

end PcdEntry

end FirmwareIndex
