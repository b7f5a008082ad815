import FirmwareIndex.Module.Record
import FirmwareIndex.Proofs.Platform.Dismissed
import FirmwareIndex.Proofs.Section.Placed
import Mathlib.Data.List.Induction

/-!
# The keyword of a definition

A definition may begin with a keyword, and the keyword is known by the space behind it. Runs of
spaces and tabs have become one space by then, but a tab that stands alone is no run and stays as it
is. So the keyword is left out if spaces and tabs follow it in any number but that of a single tab,
and with a single tab it is a part of the name (`Defining.normalize_text`). This is what becomes of
such a line wherever it stands in a section of definitions, in a module description and in a platform
description (`Defining.defines`).
-/

set_option autoImplicit false

namespace FirmwareIndex

/-- A line that defines a name: the keyword, spaces and tabs, the name, and the value after an equals
sign. -/
structure Defining where
  gap : Text
  name : Text
  value : Text
  gap_ne_nil : gap ≠ []
  gap_blank : ∀ c ∈ gap, Text.isGap c = true
  bare : Line.Bare name
  unsigned : '=' ∉ name
  value_ne_nil : value ≠ []
  trimmed : value.Trimmed
  plain : ∀ c ∈ value, Sections.Plain c ∧ c ≠ '#'

namespace Defining

variable (d : Defining)

/-- The line as it is written. -/
def text : Text :=
  "DEFINE".toList ++ (d.gap ++ (d.name ++ (" = ".toList ++ d.value)))

/-- The keyword, the gap, the name, the sign and the value make up the line. -/
theorem text_eq :
    d.text = "DEFINE".toList ++ (d.gap ++ (d.name ++ (" = ".toList ++ d.value))) :=
  rfl

/-- The name that the line defines: after a single tab the keyword is a part of it. -/
def defined : Text :=
  if d.gap = ['\t'] then "DEFINE\t".toList ++ d.name else d.name

/-- The value with its runs of spaces and tabs written as one space. -/
def written : Text :=
  Line.normalize d.value

/-- The name has no blanks in it. -/
theorem name_blank {c : Char} (hc : c ∈ d.name) : Text.isBlank c = false :=
  (d.bare.chars c hc).1

/-- The value is written with its runs collapsed. -/
theorem written_eq : d.written = Line.collapse d.value :=
  Line.normalize_eq_collapse (fun hmem => (d.plain _ hmem).2 rfl) d.trimmed

/-- The gap is written as a space, unless it is a single tab. -/
theorem writeRun_gap : Line.writeRun d.gap = if d.gap = ['\t'] then ['\t'] else [' '] := by
  have hne := d.gap_ne_nil
  have hblank := d.gap_blank
  match hgap : d.gap with
  | [] => exact absurd hgap hne
  | [c] =>
    have hc : c = ' ' ∨ c = '\t' := by
      simpa [Text.isGap] using hblank c (by simp [hgap])
    rcases hc with rfl | rfl <;> simp [Line.writeRun]
  | _ :: _ :: _ => simp [Line.writeRun]

/-- The name has neither spaces nor tabs in it. -/
theorem not_isGap_of_mem_name {c : Char} (hc : c ∈ d.name) : Text.isGap c = false :=
  Line.isGap_of_not_isBlank (d.name_blank hc)

/-- What is behind the name is written as it stands, but for the value. -/
theorem collapse_value : Line.collapse (" = ".toList ++ d.value) = " = ".toList ++ d.written := by
  obtain ⟨c, rest, hvalue⟩ := List.exists_cons_of_ne_nil d.value_ne_nil
  have hc : Text.isGap c = false :=
    Line.isGap_of_not_isBlank (d.trimmed.head c (by rw [hvalue]; rfl))
  have hspaces : ∀ c ∈ [' '], Text.isGap c = true := by simp [Text.isGap]
  have hsign : Line.collapse (" = ".toList ++ d.value) =
      ' ' :: '=' :: Line.collapse (' ' :: d.value) :=
    Line.collapse_append_cons hspaces (by decide) _
  have hspace : Line.collapse (' ' :: c :: rest) = ' ' :: c :: Line.collapse rest :=
    Line.collapse_append_cons hspaces hc rest
  rw [hsign, written_eq, hvalue, hspace, Line.collapse_cons hc]
  rfl

/-- The run behind the keyword is written as one space, unless it is a single tab. -/
theorem collapse_text : Line.collapse d.text =
    "DEFINE".toList ++ (Line.writeRun d.gap ++ (d.name ++ (" = ".toList ++ d.written))) := by
  obtain ⟨c, rest, hname⟩ := List.exists_cons_of_ne_nil d.bare.ne_nil
  have hc : Text.isGap c = false := d.not_isGap_of_mem_name (hname ▸ List.mem_cons_self)
  have hkeyword : ∀ c ∈ "DEFINE".toList, Text.isGap c = false := by simp [Text.isGap]
  have hgap : ∀ t, Line.collapse (d.gap ++ (d.name ++ t)) =
      Line.writeRun d.gap ++ Line.collapse (d.name ++ t) := by
    intro t
    rw [hname]
    exact (Line.collapse_append_cons d.gap_blank hc _).trans
      (congrArg _ (Line.collapse_cons hc _).symm)
  rw [text_eq, Line.collapse_append_of_not_gap hkeyword, hgap,
    Line.collapse_append_of_not_gap fun _ he => d.not_isGap_of_mem_name he, d.collapse_value]

/-- The line has no line break, no comment and no backslash that could join it. -/
theorem plain_of_mem_text {c : Char} (hc : c ∈ d.text) : Sections.Plain c ∧ c ≠ '#' := by
  have hgap : ∀ c, Text.isGap c = true → Sections.Plain c ∧ c ≠ '#' := by
    intro c hc
    rcases (by simpa [Text.isGap] using hc : c = ' ' ∨ c = '\t') with rfl | rfl
    · exact ⟨⟨by decide, by decide, by decide⟩, by decide⟩
    · exact ⟨⟨by decide, by decide, by decide⟩, by decide⟩
  have hword : ∀ c ∈ "DEFINE".toList ++ " = ".toList, Sections.Plain c ∧ c ≠ '#' := by
    simp [Sections.Plain]
  simp only [text_eq, List.mem_append] at hc
  rcases hc with hc | hc | hc | hc | hc
  · exact hword c (List.mem_append_left _ hc)
  · exact hgap c (d.gap_blank c hc)
  · obtain ⟨hblank, hcomment, hslash⟩ := d.bare.chars c hc
    refine ⟨⟨hslash, ?_, ?_⟩, hcomment⟩ <;> (rintro rfl; exact absurd hblank (by decide))
  · exact hword c (List.mem_append_right _ hc)
  · exact d.plain c hc

/-- The line ends as its value does. -/
theorem getLast?_text : d.text.getLast? = d.value.getLast? := by
  have htext : d.text = "DEFINE".toList ++ (d.gap ++ (d.name ++ " = ".toList)) ++ d.value := by
    simp only [text_eq, List.append_assoc]
  rw [htext, List.getLast?_append_of_ne_nil _ d.value_ne_nil]

/-- The line neither begins nor ends with a blank. -/
theorem trimmed_text : d.text.Trimmed where
  head c hc := by
    obtain rfl : 'D' = c := Option.some.inj hc
    decide
  last c hc := d.trimmed.last c (d.getLast?_text ▸ hc)

/-- The normal form of the line: a single tab stays behind the keyword, and any other run is one
space. -/
theorem normalize_text : Line.normalize d.text =
    "DEFINE".toList ++
      ((if d.gap = ['\t'] then ['\t'] else [' ']) ++ (d.name ++ (" = ".toList ++ d.written))) := by
  rw [Line.normalize_eq_collapse (fun hmem => (d.plain_of_mem_text hmem).2 rfl) d.trimmed_text,
    d.collapse_text, d.writeRun_gap]

/-- The two sides of the equals sign. -/
theorem cut?_eq (front : Text) (hfront : '=' ∉ front) :
    Text.cut? '=' (front ++ (d.name ++ (" = ".toList ++ d.written))) =
      some (front ++ (d.name ++ [' ']), ' ' :: d.written) := by
  refine Text.cut?_eq_some_iff.2 ⟨by simp, ?_⟩
  simpa using ⟨hfront, d.unsigned⟩

/-- The space between the sign and the value is trimmed away. -/
theorem trim_written : Text.trim (' ' :: d.written) = d.written := by
  exact (Text.trim_append_left Text.blank_space d.written).trans (Text.trimmed_trim _).trim_eq

/-- The blank between a name and the equals sign is left out. -/
theorem trim_name (front : Text) (hfront : ∀ c ∈ front.head?, Text.isBlank c = false) :
    Text.trim (front ++ (d.name ++ [' '])) = front ++ d.name := by
  rw [← List.append_assoc, Text.trim_append_right Text.blank_space]
  refine Text.Trimmed.trim_eq ⟨?_, ?_⟩
  · cases front with
    | nil => exact fun c hc => d.name_blank (List.mem_of_mem_head? hc)
    | cons => exact hfront
  · intro c hc
    rw [Option.mem_def, List.getLast?_append_of_ne_nil _ d.bare.ne_nil] at hc
    exact d.name_blank (List.mem_of_getLast? hc)

/-- The definition that the line makes. -/
theorem definition?_normalize :
    Entry.definition? (Line.normalize d.text) = some (d.defined, d.written) := by
  rw [d.normalize_text, Entry.definition?, defined]
  by_cases htab : d.gap = ['\t']
  · have hafter : Text.after? "DEFINE " ("DEFINE".toList ++
        (['\t'] ++ (d.name ++ (" = ".toList ++ d.written)))) = none := by
      simp [Text.after?, List.isPrefixOf?]
    have hcut : Text.cut? '=' ("DEFINE".toList ++
        (['\t'] ++ (d.name ++ (" = ".toList ++ d.written)))) =
          some ("DEFINE\t".toList ++ (d.name ++ [' ']), ' ' :: d.written) :=
      d.cut?_eq "DEFINE\t" (by simp)
    have hfirst : ∀ c ∈ "DEFINE\t".toList.head?, Text.isBlank c = false := by
      rintro c hc
      obtain rfl : 'D' = c := by simpa using hc
      decide
    have htrim := d.trim_name "DEFINE\t" hfirst
    have hne : "DEFINE\t".toList ++ d.name ≠ [] := by simp
    simp only [if_pos htab, hafter, Option.getD_none, hcut, htrim, hne, d.trim_written, if_false]
  · have hafter : Text.after? "DEFINE " ("DEFINE".toList ++
        ([' '] ++ (d.name ++ (" = ".toList ++ d.written)))) =
          some (d.name ++ (" = ".toList ++ d.written)) := by
      simp [Text.after?, List.isPrefixOf?]
    have hcut : Text.cut? '=' (d.name ++ (" = ".toList ++ d.written)) =
        some (d.name ++ [' '], ' ' :: d.written) := d.cut?_eq [] (by simp)
    have htrim : Text.trim (d.name ++ [' ']) = d.name := d.trim_name [] (by simp)
    simp only [if_neg htab, hafter, Option.getD_some, hcut, htrim, d.bare.ne_nil, d.trim_written,
      if_false]

/-- With a single tab the line is content, as a definition without the keyword is. -/
theorem kind_normalize : LineKind.ofText (Line.normalize d.text) =
    if d.gap = ['\t'] then .content else .definition := by
  rw [d.normalize_text]
  split <;> simp [LineKind.ofText, List.isPrefixOf]

/-- The line is not empty in normal form. -/
theorem normalize_ne_nil : Line.normalize d.text ≠ [] := by
  rw [d.normalize_text]
  simp

/-- The keyword is left out unless a single tab stands behind it. -/
theorem defined_eq_name_iff : d.defined = d.name ↔ d.gap ≠ ['\t'] := by
  unfold defined
  split
  · rename_i htab
    refine iff_of_false (fun heq => ?_) (not_not.2 htab)
    have hlength := congrArg List.length heq
    simp only [List.length_append, String.reduceToList, List.length_cons] at hlength
    omega
  · rename_i htab
    exact iff_of_true rfl htab

end Defining

namespace ModuleRecord

/-- The last definition of a name counts. -/
theorem getElem?_definitionsOf (lines : List Text) (name : Text) :
    (definitionsOf lines)[name]? =
      ((lines.filterMap Entry.definition?).filter (·.1 = name)).getLast?.map Prod.snd := by
  rw [definitionsOf]
  induction lines.filterMap Entry.definition? using List.reverseRecOn with
  | nil => rfl
  | append_singleton pairs pair ih =>
    rw [List.foldl_concat, Std.ExtTreeMap.getElem?_insert, ih, List.filter_append]
    by_cases hname : pair.1 = name
    · simp [hname]
    · simp [hname]

/-- A definition is found unless another one of the name comes after it. -/
theorem getElem?_definitionsOf_append {line name value : Text}
    (hline : Entry.definition? line = some (name, value)) (earlier later : List Text) :
    (definitionsOf (earlier ++ line :: later))[name]?.isSome ∧
      ((∀ pair ∈ later.filterMap Entry.definition?, pair.1 ≠ name) →
        (definitionsOf (earlier ++ line :: later))[name]? = some value) := by
  rw [getElem?_definitionsOf, List.filterMap_append, List.filterMap_cons_some hline,
    List.filter_append, List.filter_cons_of_pos (by simp)]
  constructor
  · simp
  · intro hlater
    have hnone : (later.filterMap Entry.definition?).filter (·.1 = name) = [] :=
      List.filter_eq_nil_iff.2 (by simpa using hlater)
    rw [hnone]
    simp

end ModuleRecord

namespace Machine

/-- The lines that are left in the open files are lines of texts. -/
def Given (m : Machine) : Prop :=
  ∀ frame ∈ m.frames, ∃ t, frame.lines <:+ Line.ofText t

variable {s : Setting} {m : Machine} {v : Visit}

/-- A step leaves only lines of texts in the open files. -/
theorem given_step (h : m.Given) : (step s m).Given := by
  obtain ⟨frames, r⟩ := m
  match frames with
  | [] => exact h
  | ⟨_, []⟩ :: below => exact fun frame hframe => h frame (List.mem_cons_of_mem _ hframe)
  | ⟨file, l :: lines⟩ :: below =>
    obtain ⟨⟨t, ht⟩, hbelow⟩ := List.forall_mem_cons.1 h
    have hleft : ∀ frame ∈ (⟨file, lines⟩ : Frame) :: below, ∃ t, frame.lines <:+ Line.ofText t :=
      List.forall_mem_cons.2 ⟨⟨t, (List.suffix_cons l lines).trans ht⟩, hbelow⟩
    rw [step_line]
    cases r.effect s (file :: below.map Frame.file) ⟨file, l⟩ with
    | carry r₁ => exact hleft
    | enter target text r₁ =>
      exact List.forall_mem_cons.2 ⟨⟨text, List.suffix_rfl⟩, hleft⟩

/-- However many steps are taken, all lines to be read are lines of texts. -/
theorem given_iterate_step (s : Setting) (file : Path) (text : Text) (n : Nat) :
    ((step s)^[n] (start s file text)).Given := by
  induction n with
  | zero => exact List.forall_mem_singleton.2 ⟨text, List.suffix_rfl⟩
  | succ n ih =>
    rw [Function.iterate_succ_apply']
    exact given_step ih

/-- A line that is visited is a line of a text. -/
theorem Given.exists_mem_ofText (h : m.Given) (hnext : m.next? = some v) :
    ∃ t, v.here.line ∈ Line.ofText t := by
  obtain ⟨frames, r⟩ := m
  match frames with
  | [] => cases hnext
  | ⟨_, []⟩ :: _ => cases hnext
  | ⟨file, l :: lines⟩ :: below =>
    obtain rfl : (⟨⟨file, l⟩, r⟩ : Visit) = v := Option.some.inj hnext
    obtain ⟨t, ht⟩ := h _ List.mem_cons_self
    exact ⟨t, ht.subset List.mem_cons_self⟩

end Machine

namespace Defining

variable {d : Defining}

/-- In a section of definitions the line is a definition, with or without its keyword. -/
theorem effect_eq {s : Setting} {opened : List Path} {r : Reading} {here : Place}
    (htext : here.line.text = Line.normalize d.text)
    (hactive : r.active.map Active.kind = some .defines) :
    r.effect s opened here = .carry (r.define here) := by
  have hkind := d.kind_normalize
  rw [← htext] at hkind
  split at hkind
  · obtain ⟨a, ha, hdefines⟩ := Option.map_eq_some_iff.1 hactive
    rw [Reading.effect_of_content s opened r hkind, Reading.content, ha]
    simp only [hdefines]
  · rw [Reading.effect, hkind]
    rfl

/-- Reading the line defines the name, and keeps the definition in the document. -/
theorem define_eq {r : Reading} {here : Place} (htext : here.line.text = Line.normalize d.text) :
    (r.define here).macros = r.macros.insert d.defined (r.macros.expand d.written) ∧
      (r.define here).document.definitions = r.document.definitions ++
        [⟨d.defined, r.macros.expand d.written, r.location here⟩] := by
  rw [Reading.define, htext, d.definition?_normalize]
  exact ⟨rfl, rfl⟩

/-- What the line defines wherever it stands in a section of definitions. -/
structure Defines (d : Defining) : Prop where
  /-- The name that is defined is the one that is written, unless a single tab is before it. -/
  recognised : d.defined = d.name ↔ d.gap ≠ ['\t']
  /-- In a module description or a package declaration the line is one of its section, whatever is
  written around it, and the name is defined: by this line, unless a later one defines it anew. -/
  record : ∀ (path : Path) (front back : Text) (h : Header),
    Sections.LineBegins front → Sections.LineEnds back →
    (Sections.headers (Sections.linesOf front)).getLast? = some h → h.key = "defines" →
    ∃ earlier later : List Text,
      (Sections.ofText (front ++ (d.text ++ back))).get "Defines" =
        earlier ++ Line.normalize d.text :: later ∧
      (ModuleRecord.ofText path (front ++ (d.text ++ back))).defines[d.defined]?.isSome ∧
      ((∀ pair ∈ later.filterMap Entry.definition?, pair.1 ≠ d.defined) →
        (ModuleRecord.ofText path (front ++ (d.text ++ back))).defines[d.defined]? = some d.written)
  /-- Behind a complete text of a platform file the line is visited. -/
  visited : ∀ (s : Setting) (file : Path) (front back : Text), Line.Complete front → Line.Ends back →
    ∃ n v, ((Machine.step s)^[n] (.start s file (front ++ (d.text ++ back)))).next? = some v ∧
      v.here = ⟨file, ⟨Line.breaks front, Line.normalize d.text, d.text⟩⟩
  /-- Wherever the line is visited in a section of definitions, in the platform file or in one that
  it includes, the name is a macro after it, and the definition is kept. -/
  platform : ∀ (s : Setting) (file : Path) (text : Text) (n : Nat) (v : Visit),
    ((Machine.step s)^[n] (.start s file text)).next? = some v → v.here.line.raw = d.text →
    v.reading.active.map Active.kind = some .defines →
    ((Machine.step s)^[n + 1] (.start s file text)).reading.macros[d.defined]? =
        some (v.reading.macros.expand d.written) ∧
      ⟨d.defined, v.reading.macros.expand d.written, v.location⟩ ∈
        (Document.ofText s file text).definitions

/-- The line defines its name, without the keyword but where a single tab is behind that. -/
theorem defines (d : Defining) : d.Defines where
  recognised := d.defined_eq_name_iff
  record := by
    intro path front back h hbegins hends hheader hkey
    have hentry : (Line.normalize d.text).head? ≠ some '[' := by
      rw [d.normalize_text]
      simp
    have hname : Header.canonical "Defines" = h.key := by
      rw [hkey]
      decide +kernel
    obtain ⟨earlier, later, hlines⟩ := Sections.exists_get_append hbegins
      (fun c hc => (d.plain_of_mem_text hc).1) hends hheader d.normalize_ne_nil hentry hname
    obtain ⟨hsome, hlast⟩ :=
      ModuleRecord.getElem?_definitionsOf_append d.definition?_normalize earlier later
    rw [← hlines] at hsome hlast
    exact ⟨earlier, later, hlines, hsome, hlast⟩
  visited := by
    intro s file front back hfront hends
    have hmem := Line.mem_ofText_append hfront (fun c hc => (d.plain_of_mem_text hc).1)
      d.normalize_ne_nil hends
    obtain ⟨n, later, r, hn⟩ := Machine.exists_iterate_step_line s file hmem
    exact ⟨n, ⟨⟨file, _⟩, r⟩, by rw [hn]; rfl, rfl⟩
  platform := by
    intro s file text n v hnext hraw hactive
    obtain ⟨t, hline⟩ := (Machine.given_iterate_step s file text n).exists_mem_ofText hnext
    have hends : v.here.line.raw.getLast? ≠ some '\\' := fun hlast =>
      (d.plain_of_mem_text (hraw ▸ List.mem_of_getLast? hlast)).1.1 rfl
    have htext : v.here.line.text = Line.normalize d.text := by
      rw [Line.text_eq_normalize hline hends, hraw]
    obtain ⟨hmacros, hdefinitions⟩ := define_eq (r := v.reading) htext
    have hreading : ((Machine.step s)^[n + 1] (.start s file text)).reading =
        v.reading.define v.here := by
      rw [Function.iterate_succ_apply', Machine.reading_step_of_next?_eq_some hnext,
        ← Machine.reading_of_next?_eq_some hnext, effect_eq htext hactive]
      rfl
    refine ⟨by rw [hreading, hmacros]; exact Std.ExtTreeMap.getElem?_insert_self, ?_⟩
    refine (Document.begins_ofText s file text (n + 1)).definitions.subset ?_
    rw [hreading, hdefinitions]
    exact List.mem_append_right _ (List.mem_singleton_self _)

/-- The name `X` is bare. -/
theorem bare_x : Line.Bare "X" :=
  ⟨by simp, by simp; decide⟩

/-- The value `1` is trimmed. -/
theorem trimmed_one : Text.Trimmed "1" :=
  ⟨by simp; decide, by simp; decide⟩

/-- A definition with the given spaces and tabs behind its keyword. -/
def ofGap (gap : Text) (hne : gap ≠ []) (hblank : ∀ c ∈ gap, Text.isGap c = true) : Defining where
  gap := gap
  name := "X"
  value := "1"
  gap_ne_nil := hne
  gap_blank := hblank
  bare := bare_x
  unsigned := by simp
  value_ne_nil := by simp
  trimmed := trimmed_one
  plain := by simp [Sections.Plain]

/-- A definition with spaces and a tab behind its keyword. -/
def spaced : Defining :=
  ofGap "  \t" (by simp) (by simp [Text.isGap])

/-- A definition with a single tab behind its keyword. -/
def tabbed : Defining :=
  ofGap "\t" (by simp) (by simp [Text.isGap])

/-- The spaced definition, below another definition of its name in a module description, and below a
header in a platform description. -/
theorem defines_spaced :
    (ModuleRecord.ofText ⟨"/ws/A.inf"⟩
        ("[Defines]\n  X = 0\n".toList ++ (spaced.text ++ "\n".toList))).defines["X".toList]?.isSome ∧
      ∃ n v, ((Machine.step Document.alone)^[n] (.start Document.alone ⟨"/ws/P.dsc"⟩
          ("[Defines]\n".toList ++ (spaced.text ++ "\n".toList)))).next? = some v ∧
        v.here = ⟨⟨"/ws/P.dsc"⟩, ⟨1, Line.normalize spaced.text, spaced.text⟩⟩ := by
  have hname : spaced.defined = "X".toList := (defines spaced).recognised.2 (by decide)
  have hcomplete : Line.Complete "[Defines]\n".toList :=
    .inr ⟨"[Defines]", "[Defines]", by decide, by decide +kernel, by decide +kernel⟩
  have hbreaks : Line.breaks "[Defines]\n".toList = 1 := by decide +kernel
  constructor
  · obtain ⟨_, _, _, hsome, _⟩ := (defines spaced).record ⟨"/ws/A.inf"⟩ "[Defines]\n  X = 0\n" "\n"
      ⟨"defines", ["common".toList]⟩ (.inr (by decide +kernel)) (.inr (.inl rfl))
      (by decide +kernel) rfl
    rwa [hname] at hsome
  · have hvisited := (defines spaced).visited Document.alone ⟨"/ws/P.dsc"⟩ _ "\n" hcomplete
      (.inr (.inl ⟨[], rfl⟩))
    rwa [hbreaks] at hvisited

/-- With a single tab the name is not defined, neither in a module description nor in a platform
description: the keyword is taken for a part of it. -/
theorem not_defines_tabbed :
    tabbed.name = "X".toList ∧
      (ModuleRecord.ofText ⟨"/ws/A.inf"⟩
        ("[Defines]\n".toList ++ (tabbed.text ++ "\n".toList))).defines["X".toList]? = none ∧
      (Document.ofText Document.alone ⟨"/ws/P.dsc"⟩
        ("[Defines]\n".toList ++ (tabbed.text ++ "\n".toList))).definitions.map Definition.name =
          ["DEFINE\tX".toList] := by
  decide +kernel

end Defining

end FirmwareIndex
