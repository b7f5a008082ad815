import FirmwareIndex.Proofs.Platform.Quoted
import FirmwareIndex.Proofs.Platform.Visited
import FirmwareIndex.Proofs.Section.Runs
import Mathlib.Tactic.Tauto

/-!
# Positions of entries and problems

A line adds entries and problems only at its own place, whatever it does to the open block: what a
block was given before keeps the places where it was given (`Reading.Adds`). Along a derivation the
lines are those of the platform file and of the files that it includes, so every position in a
document is that of a line of one of these files (`Document.positioned_ofText`). A problem carries
the physical line it stands on and quotes a text of its line (`Problem.Quotes`), apart from that of a
block that is still open at the end.
-/

set_option autoImplicit false

namespace FirmwareIndex

namespace Line

/-- A logical line of a text starts at the physical line `n`, which is `raw`. The physical line before
it does not go on in it. -/
def Starts (t : Text) (n : Nat) (raw : Text) : Prop :=
  (∃ joined, ⟨n, joined, raw⟩ ∈ ofText t) ∧
    ∃ front back, physical t = front ++ raw :: back ∧ front.length = n ∧
      ∀ before ∈ front.getLast?, goesOn before = false

/-- An open line is closed at the physical line where it began. -/
theorem mem_close {o : Open} {l : Line} (h : l ∈ o.close) : l.number = o.number ∧ l.raw = o.raw := by
  unfold Open.close at h
  split at h
  · cases h
  · obtain rfl := List.mem_singleton.1 h
    exact ⟨rfl, rfl⟩

/-- A logical line of some runs begins where one of them begins. -/
theorem exists_of_mem_ofRuns {l : Line} (lines : List Text) : ∀ n, l ∈ ofRuns n (runs lines) →
    ∃ front back, lines = front ++ l.raw :: back ∧ l.number = n + front.length ∧
      ∀ before ∈ front.getLast?, goesOn before = false := by
  have hfirst : ∀ (n : Nat) (run rest : List Text), run ≠ [] →
      l ∈ (⟨n, joined run, run.headD []⟩ : Open).close →
        ∃ front back, run ++ rest = front ++ l.raw :: back ∧ l.number = n + front.length ∧
          ∀ before ∈ front.getLast?, goesOn before = false := by
    intro n run rest hne hl
    obtain ⟨hnumber, hraw⟩ := mem_close hl
    obtain ⟨line, others, rfl⟩ := List.exists_cons_of_ne_nil hne
    refine ⟨[], others ++ rest, ?_, hnumber, fun _ h => nomatch h⟩
    rw [hraw]
    rfl
  induction lines using runs_induction goesOn with
  | nil => exact fun n hl => nomatch hl
  | opened lines hne hall =>
    intro n hl
    rw [runs, runsBy_of_forall hne hall, ofRuns, ofRuns, List.append_nil] at hl
    simpa using hfirst n lines [] hne hl
  | ended run rest hended ih =>
    intro n hl
    rw [runs, hended.runsBy_append, ofRuns, List.mem_append] at hl
    obtain ⟨start, last, rfl, _, hlast⟩ := hended
    rcases hl with hl | hl
    · exact hfirst n _ rest (by simp) hl
    · obtain ⟨front, back, rfl, hnumber, hbefore⟩ := ih _ hl
      refine ⟨start ++ [last] ++ front, back, by simp, by simp [hnumber]; omega, ?_⟩
      intro line hline
      rw [List.getLast?_append, List.getLast?_concat, Option.mem_def, Option.or_eq_some_iff] at hline
      rcases hline with hline | ⟨_, hline⟩
      · exact hbefore line hline
      · exact Option.some.inj hline ▸ hlast

/-- Every logical line starts at its number. -/
theorem starts_of_mem_ofText {t : Text} {l : Line} (h : l ∈ ofText t) : Starts t l.number l.raw := by
  refine ⟨⟨l.text, h⟩, ?_⟩
  rw [ofText, gather_eq_ofRuns] at h
  obtain ⟨front, back, hlines, hnumber, hlast⟩ := exists_of_mem_ofRuns (physical t) 0 h
  exact ⟨front, back, hlines, by rw [hnumber, Nat.zero_add], hlast⟩

end Line

/-- The location is on the line of a place. -/
def Location.IsOn (l : Location) (here : Place) : Prop :=
  l.file = here.file ∧ l.line = here.line.number

/-- The problem is one of the line of a place, and carries the physical line that the line begins
with. -/
def Problem.IsOn (p : Problem) (here : Place) : Prop :=
  p.location.IsOn here ∧ p.lineText = here.line.raw

/-- The problem is noted on the line of a place, without a column, for a text that occurs in it. -/
structure Problem.Quotes (p : Problem) (here : Place) : Prop where
  isOn : p.IsOn here
  column : p.location.column = none
  offending : p.offending <:+: here.line.text

/-- The locations in a component: its own and those of its overrides and settings. -/
def BuiltModule.locations (m : BuiltModule) : List Location :=
  m.location :: m.overrides.map Override.location ++ m.pcds.map PcdSetting.location

/-- The locations of the entries of a document. -/
def Document.entries (d : Document) : List Location :=
  d.definitions.map Definition.location ++ d.libraries.map Override.location ++
    d.components.flatMap BuiltModule.locations ++ d.pcds.map PcdSetting.location ++
    d.buildOptions.map BuildOption.location

/-- The locations of the entries and problems of a document. -/
def Document.locations (d : Document) : List Location :=
  d.entries ++ d.problems.map Problem.location

/-- The locations that are kept for a block until it is closed. -/
def Block.locations (b : Block) : List Location :=
  b.location :: b.pcds.map BlockPcd.location

namespace Reading

/-- The locations of the entries of a reading, and those that are kept for its open block. -/
def held (r : Reading) : List Location :=
  r.document.entries ++ (r.block.map Block.locations).getD []

/-- All that a reading has and another one had not is on the line of a place, and its problems are
noted for texts that occur in this line. -/
structure Adds (here : Place) (r r' : Reading) : Prop where
  held : ∀ l ∈ r'.held, l ∈ r.held ∨ l.IsOn here
  problems : ∀ p ∈ r'.document.problems, p ∈ r.document.problems ∨ p.Quotes here

variable {r r₁ r₂ : Reading} {here : Place}

namespace Adds

/-- Nothing is added by doing nothing. -/
theorem refl (here : Place) (r : Reading) : Adds here r r where
  held _ := .inl
  problems _ := .inl

/-- What is added one after the other is added together. -/
theorem trans (h : Adds here r r₁) (h' : Adds here r₁ r₂) : Adds here r r₂ where
  held l hl := (h'.held l hl).elim (h.held l) .inr
  problems p hp := (h'.problems p hp).elim (h.problems p) .inr

end Adds

/-- A problem is added for a text that occurs in the line. -/
theorem adds_note (r : Reading) (cause : Cause) {offending : Text}
    (h : offending <:+: here.line.text) : Adds here r (r.note here cause offending) where
  held _ := .inl
  problems p hp := by
    refine (List.mem_append.1 hp).imp_right fun hp => ?_
    obtain rfl := List.mem_singleton.1 hp
    exact ⟨⟨⟨rfl, rfl⟩, rfl⟩, rfl, h⟩

/-- A problem may be noted for the whole line. -/
theorem adds_note_line (r : Reading) (here : Place) (cause : Cause) :
    Adds here r (r.note here cause here.line.text) :=
  adds_note r cause List.infix_rfl

/-- The components of a block have the locations that were kept for it. -/
theorem mem_locations_of_component {b : Block} {s : Scope} {l : Location}
    (h : l ∈ (b.component s).locations) : l ∈ b.locations := by
  simp only [BuiltModule.locations, Block.component, Block.locations, List.map_map, List.mem_append,
    List.mem_cons, List.mem_map, Function.comp_apply, PcdEntry.setting] at h ⊢
  tauto

/-- Closing a block only moves what was kept for it into the document. -/
theorem adds_closeBlock (r : Reading) (here : Place) (scopes : List Scope) :
    Adds here r (r.closeBlock scopes) := by
  unfold closeBlock
  split
  · exact .refl here r
  · rename_i b hb
    refine ⟨fun l hl => .inl ?_, fun _ => .inl⟩
    have hclosed : l ∈ (scopes.map b.component).flatMap BuiltModule.locations → l ∈ b.locations := by
      intro hl
      obtain ⟨m, hm, hl⟩ := List.mem_flatMap.1 hl
      obtain ⟨s, _, rfl⟩ := List.mem_map.1 hm
      exact mem_locations_of_component hl
    simp only [Reading.held, Document.entries, List.flatMap_append, List.mem_append, hb,
      Option.map_some, Option.map_none, Option.getD_some, Option.getD_none] at hl ⊢
    tauto

/-- A block that a header closes adds a problem on the line of the header. -/
theorem adds_abandonBlock (r : Reading) (here : Place) : Adds here r (r.abandonBlock here) := by
  unfold abandonBlock
  split
  · exact .refl here r
  · exact (adds_note_line r here _).trans (adds_closeBlock _ here _)

/-- Entries that are added on a line have its location. -/
theorem Adds.of_entries (hblock : r₁.block = r.block)
    (hproblems : r₁.document.problems = r.document.problems)
    (hentries : ∀ l ∈ r₁.document.entries, l ∈ r.document.entries ∨ l = r.location here) :
    Adds here r r₁ where
  held l hl := by
    rw [Reading.held, hblock, List.mem_append] at hl
    rcases hl with hl | hl
    · rcases hentries l hl with hl | rfl
      · exact .inl (List.mem_append_left _ hl)
      · exact .inr ⟨rfl, rfl⟩
    · exact .inl (List.mem_append_right _ hl)
  problems p hp := .inl (hproblems ▸ hp)

/-- What is given to the open block on a line has the location of the line. -/
theorem Adds.of_block {b b' : Block} (hb : r.block = some b)
    (h : ∀ l ∈ b'.locations, l ∈ b.locations ∨ l = r.location here) :
    Adds here r { r with block := some b' } where
  held l hl := by
    rw [Reading.held, hb]
    rcases List.mem_append.1 hl with hl | hl
    · exact .inl (List.mem_append_left _ hl)
    · rcases h l hl with hl | rfl
      · exact .inl (List.mem_append_right _ hl)
      · exact .inr ⟨rfl, rfl⟩
  problems _ := .inl

/-- A definition adds itself, or a problem. -/
theorem adds_define (r : Reading) (here : Place) : Adds here r (r.define here) := by
  unfold define
  split
  · exact adds_note_line r here _
  · refine .of_entries rfl rfl fun l hl => ?_
    simp only [Document.entries, List.map_append, List.map_cons, List.map_nil, List.mem_append,
      List.mem_singleton] at hl ⊢
    tauto

/-- The choice of an implementation adds itself, or a problem. -/
theorem adds_library (r : Reading) (here : Place) (scopes : List Scope) :
    Adds here r (r.library here scopes) := by
  unfold library
  split
  · exact adds_note_line r here _
  · refine .of_entries rfl rfl fun l hl => ?_
    simp only [Document.entries, List.map_append, List.map_map, Function.comp_def, List.map_const',
      List.mem_append, List.mem_replicate] at hl ⊢
    tauto

/-- A setting adds itself, or a problem. -/
theorem adds_pcd (r : Reading) (here : Place) (kind : SectionName) (scopes : List Scope) :
    Adds here r (r.pcd here kind scopes) := by
  unfold pcd
  split
  · exact adds_note_line r here _
  · refine .of_entries rfl rfl fun l hl => ?_
    simp only [Document.entries, List.map_append, List.map_map, Function.comp_def,
      PcdEntry.setting, List.map_const', List.mem_append, List.mem_replicate] at hl ⊢
    tauto

/-- A line of build options adds itself. -/
theorem adds_buildOption (r : Reading) (here : Place) (scopes : List Scope) :
    Adds here r (r.buildOption here scopes) := by
  refine .of_entries rfl rfl fun l hl => ?_
  simp only [buildOption, Document.entries, List.map_append, List.map_map, Function.comp_def,
    List.map_const', List.mem_append, List.mem_replicate] at hl ⊢
  tauto

/-- The name of a part adds nothing, or a problem. -/
theorem adds_blockPart {b : Block} (hb : r.block = some b) (here : Place) :
    Adds here r (r.blockPart here b) := by
  unfold blockPart
  dsimp only
  split
  · exact .of_block hb fun _ => .inl
  · exact (adds_note r _ (BlockPart.infix_nameOf _)).trans (.of_block hb fun _ => .inl)

/-- An entry of a block is kept for the block, or a problem is added. -/
theorem adds_blockEntry {b : Block} (hb : r.block = some b) (here : Place) :
    Adds here r (r.blockEntry here b) := by
  unfold blockEntry
  split
  · exact adds_note_line r here _
  · split
    · exact adds_note_line r here _
    · exact .of_block hb fun _ => .inl
  · split
    · exact adds_note_line r here _
    · refine .of_block hb fun l hl => ?_
      simp only [Block.locations, List.map_append, List.map_cons, List.map_nil, List.mem_cons,
        List.mem_append] at hl ⊢
      tauto
  · exact .of_block hb fun _ => .inl

/-- A line inside a block adds nothing that is not on it. -/
theorem adds_insideBlock {b : Block} (hb : r.block = some b) (here : Place) (scopes : List Scope) :
    Adds here r (r.insideBlock here scopes b) := by
  unfold insideBlock
  split
  · exact adds_closeBlock r here scopes
  · exact adds_blockPart hb here
  · exact adds_blockEntry hb here

/-- A block is kept with the line that opened it. -/
theorem adds_openBlock (r : Reading) (here : Place) (path : Text) :
    Adds here r (r.openBlock here path) where
  held l hl := by
    rcases List.mem_append.1 hl with hl | hl
    · exact .inl (List.mem_append_left _ hl)
    · obtain rfl := List.mem_singleton.1 hl
      exact .inr ⟨rfl, rfl⟩
  problems _ := .inl

/-- A component that is no module is a problem with its path as it was written. -/
theorem adds_noteModule {written : Text} (r : Reading) (h : written <:+: here.line.text) :
    Adds here r (r.noteModule here written) := by
  unfold noteModule
  split
  · exact .refl here r
  · exact adds_note r _ h

/-- A line that starts a component adds it, keeps it as a block, or adds a problem. -/
theorem adds_startComponent (r : Reading) (here : Place) (scopes : List Scope) :
    Adds here r (r.startComponent here scopes) := by
  have hwritten : here.line.text.takeWhile isPathPart <:+: here.line.text :=
    (List.takeWhile_prefix _).isInfix
  have hopened : ∀ path : Text, Adds here r
      ((r.noteModule here (here.line.text.takeWhile isPathPart)).openBlock here path) := fun path =>
    (adds_noteModule r hwritten).trans (adds_openBlock _ here path)
  rw [startComponent_eq]
  dsimp only
  split
  · exact adds_note_line r here _
  · split
    · exact hopened _
    · exact (hopened _).trans (adds_closeBlock _ here scopes)

/-- Content adds nothing that is not on its line. -/
theorem adds_content (r : Reading) (here : Place) : Adds here r (r.content here) := by
  unfold content
  split
  · exact adds_note_line r here _
  · rename_i a _
    split
    · exact adds_define r here
    · exact adds_library r here a.scopes
    · unfold component
      split
      · rename_i hb
        exact adds_insideBlock hb here a.scopes
      · exact adds_startComponent r here a.scopes
    · exact adds_buildOption r here a.scopes
    · exact .of_entries rfl rfl fun _ => .inl
    · exact .refl here r
    · exact .refl here r
    · exact adds_pcd r here a.kind a.scopes

/-- A section that becomes active adds nothing. -/
theorem adds_activate (r : Reading) (here : Place) (active : Option Active) :
    Adds here r (r.activate active) where
  held _ := .inl
  problems _ := .inl

/-- Problems are added for names that occur in the line. -/
theorem adds_foldl_note {names : List Text} (cause : Text → Cause) (r : Reading)
    (h : ∀ name ∈ names, name <:+: here.line.text) :
    Adds here r (names.foldl (fun r name => r.note here (cause name) name) r) :=
  List.foldlRecOn names _ (motive := Adds here r) (.refl here r) fun _ hr name hname =>
    hr.trans (adds_note _ _ (h name hname))

/-- Mixed sections are a problem with a name that occurs in the line. -/
theorem adds_noteMixed {qualifiers : List Qualifier} (r : Reading)
    (h : ∀ q ∈ qualifiers, q.base <:+: here.line.text) :
    Adds here r (r.noteMixed here qualifiers) := by
  unfold noteMixed
  split
  · exact .refl here r
  · rename_i hmismatch
    obtain ⟨q, hq, rfl⟩ := Qualifier.exists_base_of_mismatch? hmismatch
    exact adds_note r _ (h q hq)

/-- Unknown sections are problems with names that occur in the line. -/
theorem adds_enterSection {qualifiers : List Qualifier} (r : Reading)
    (h : ∀ q ∈ qualifiers, q.base <:+: here.line.text) :
    Adds here r (r.enterSection here qualifiers) := by
  have hnames : ∀ name ∈ Qualifier.unknown qualifiers, name <:+: here.line.text := by
    intro name hname
    obtain ⟨q, hq, rfl⟩ := Qualifier.exists_base_of_unknown hname
    exact h q hq
  unfold enterSection
  split
  · exact adds_activate r here _
  · exact (adds_foldl_note _ r hnames).trans (adds_activate _ here none)

/-- A header adds nothing that is not on its line. -/
theorem adds_header (r : Reading) (here : Place) : Adds here r (r.header here) := by
  have hbases : ∀ q ∈ Header.qualifiers here.line.text, q.base <:+: here.line.text :=
    fun _ => Header.infix_base
  rw [header_eq]
  split
  · exact ((adds_abandonBlock r here).trans (adds_note_line _ here _)).trans
      (adds_activate _ here none)
  · exact ((adds_abandonBlock r here).trans (adds_noteMixed _ hbases)).trans
      (adds_enterSection _ hbases)

/-- A branch adds nothing, or a problem. -/
theorem adds_branch (r : Reading) (here : Place) : Adds here r (r.branch here) := by
  unfold branch
  split
  · exact adds_note_line r here _
  · exact .of_entries rfl rfl fun _ => .inl

/-- The end of a condition adds nothing, or a problem. -/
theorem adds_closeCondition (r : Reading) (here : Place) : Adds here r (r.closeCondition here) := by
  unfold closeCondition
  split
  · exact adds_note_line r here _
  · exact .of_entries rfl rfl fun _ => .inl

/-- A line that includes no file adds nothing that is not on it. -/
theorem adds_plain (r : Reading) (here : Place) (kind : LineKind) :
    Adds here r (r.plain here kind) := by
  cases kind with
  | header => exact adds_header r here
  | definition => exact adds_define r here
  | openCondition => exact .of_entries rfl rfl fun _ => .inl
  | branch => exact adds_branch r here
  | closeCondition => exact adds_closeCondition r here
  | content => exact adds_content r here
  | ignored | inclusion target => exact .refl here r

/-- A file that is included adds no entries and no problems. -/
theorem adds_visit (r : Reading) (here : Place) (file : Path) : Adds here r (r.visit file) where
  held _ := .inl
  problems _ := .inl

/-- A line that opens no file adds entries and problems only at its own place. -/
theorem adds_carry {s : Setting} {opened : List Path}
    (h : r.effect s opened here = .carry r₁) : Adds here r r₁ := by
  unfold effect at h
  split at h
  case h_2 => exact Effect.carry.inj h ▸ adds_plain r here _
  case h_1 target hkind =>
    obtain ⟨cause, offending, rfl | rfl, rfl⟩ := Machine.inclusion_eq_carry h
    · exact adds_note_line r here cause
    · exact adds_note r cause (LineKind.infix_of_ofText hkind)

end Reading

/-- The line of a place is one of the text of a platform file, or of a file that a document
includes. -/
def Document.Reaches (d : Document) (s : Setting) (file : Path) (text : Text) (here : Place) : Prop :=
  (here.file = file ∧ here.line ∈ Line.ofText text) ∨
    (here.file ∈ d.included ∧ ¬ here.file.Same file ∧
      ∃ t, s.sources.read here.file = .ok t ∧ here.line ∈ Line.ofText t)

/-- Every entry and every problem of a reading, and all that is kept for the open block, is on a
line that its document reaches, and the problems are noted for texts that occur there. -/
structure Reading.Placed (r : Reading) (s : Setting) (file : Path) (text : Text) : Prop where
  held : ∀ l ∈ r.held, ∃ here, r.document.Reaches s file text here ∧ l.IsOn here
  quoted : ∀ p ∈ r.document.problems, ∃ here, r.document.Reaches s file text here ∧ p.Quotes here

/-- Every problem is on a line that the document reaches. -/
theorem Reading.Placed.problems {r : Reading} {s : Setting} {file : Path} {text : Text}
    (h : r.Placed s file text) (p : Problem) (hp : p ∈ r.document.problems) :
    ∃ here, r.document.Reaches s file text here ∧ p.IsOn here :=
  (h.quoted p hp).imp fun _ hhere => ⟨hhere.1, hhere.2.isOn⟩

section Derivation

variable {s : Setting} {root file : Path} {text : Text} {r r₁ : Reading} {here : Place}

/-- Including more files takes no line out of reach. -/
theorem Document.Reaches.mono {d d' : Document} (h : d.Reaches s root text here)
    (hincluded : d.included ⊆ d'.included) : d'.Reaches s root text here :=
  h.imp_right fun ⟨hfile, hline⟩ => ⟨hincluded hfile, hline⟩

/-- What is added on a line in reach is on a line in reach. -/
theorem Reading.Placed.adds (h : r.Placed s root text) (hadds : Adds here r r₁)
    (hgrown : r.document.included ⊆ r₁.document.included)
    (hhere : r₁.document.Reaches s root text here) : r₁.Placed s root text := by
  constructor
  · intro l hl
    rcases hadds.held l hl with hl | hl
    · obtain ⟨other, hother, hon⟩ := h.held l hl
      exact ⟨other, hother.mono hgrown, hon⟩
    · exact ⟨here, hhere, hl⟩
  · intro p hp
    rcases hadds.problems p hp with hp | hp
    · obtain ⟨other, hother, hquotes⟩ := h.quoted p hp
      exact ⟨other, hother.mono hgrown, hquotes⟩
    · exact ⟨here, hhere, hp⟩

/-- Reading lines that are in reach, below the platform file, leaves everything on lines in reach. -/
theorem Reads.placed {opened : List Path} {lines : List Line} {r' : Reading}
    (h : Reads s opened file lines r r') (hroot : root ∈ file :: opened)
    (hlines : ∀ l ∈ lines, r.document.Reaches s root text ⟨file, l⟩) (hr : r.Placed s root text) :
    r.document.included ⊆ r'.document.included ∧ r'.Placed s root text := by
  induction h with
  | done => exact ⟨List.Subset.refl _, hr⟩
  | @carry opened file l lines r r₁ r' effect rest ih =>
    have hsame : r₁.document.included = r.document.included :=
      congrArg Prod.snd (Reading.files_carry effect)
    have hgrown : r.document.included ⊆ r₁.document.included := fun _ hp => hsame ▸ hp
    have hreach : ∀ l' ∈ l :: lines, r₁.document.Reaches s root text ⟨file, l'⟩ := fun l' hl' =>
      (hlines l' hl').mono hgrown
    obtain ⟨hrest, hplaced⟩ := ih hroot (fun l' hl' => hreach l' (List.mem_cons_of_mem _ hl'))
      (hr.adds (Reading.adds_carry effect) hgrown (hreach l List.mem_cons_self))
    exact ⟨List.Subset.trans hgrown hrest, hplaced⟩
  | @enter opened file target l lines targetText r r₁ r₂ r' effect inner rest ihInner ihRest =>
    obtain ⟨_, _, _, _, hdiff, hread, rfl⟩ := Machine.effect_eq_enter effect
    have hvisit : r.document.included ⊆ (r.visit target).document.included :=
      List.subset_append_left _ _
    have hvisited : (r.visit target).Placed s root text :=
      hr.adds (Reading.adds_visit r _ target) hvisit ((hlines l List.mem_cons_self).mono hvisit)
    -- the platform file is open, so the file that is opened is another one
    have htarget : ∀ l' ∈ Line.ofText targetText,
        (r.visit target).document.Reaches s root text ⟨target, l'⟩ := fun l' hl' =>
      .inr ⟨List.mem_append_right _ (List.mem_singleton_self target),
        fun hsame => hdiff root hroot hsame.symm, targetText, hread, hl'⟩
    obtain ⟨hinner, hplaced⟩ := ihInner (List.mem_cons_of_mem _ hroot) htarget hvisited
    have hgrown : r.document.included ⊆ r₂.document.included :=
      List.Subset.trans hvisit hinner
    obtain ⟨hrest, hplaced'⟩ := ihRest hroot
      (fun l' hl' => (hlines l' (List.mem_cons_of_mem _ hl')).mono hgrown) hplaced
    exact ⟨List.Subset.trans hgrown hrest, hplaced'⟩

/-- When a platform file has been read to its end, everything is on a line in reach. -/
theorem Machine.placed_readingOf (s : Setting) (file : Path) (text : Text) :
    (readingOf s file text).Placed s file text := by
  have hstart : (Reading.start file s.root).Placed s file text := by
    constructor <;> simp [Reading.start, Reading.held, Document.entries, Document.empty]
  exact ((reads_readingOf s file text).placed List.mem_cons_self
    (fun l hl => .inl ⟨rfl, hl⟩) hstart).2

end Derivation

namespace Reading

/-- Finishing a reading notes the problem of a block that is still open. -/
theorem problems_finish (r : Reading) : r.finish.document.problems = r.document.problems ++
    (r.block.map fun b => ⟨⟨b.location.file, b.location.line, none, r.context⟩, .openBlock b.path,
      b.path, b.path⟩).toList := by
  cases hblock : r.block with
  | none => simp [finish, hblock]
  | some b => simp [finish, abandonBlock, closeBlock, note, location, context, hblock]

/-- The problem that finishing a reading may note stands where the open block does, so that every
location of the document is on a line in reach. -/
theorem Placed.exists_of_mem_locations {r : Reading} {s : Setting} {file : Path} {text : Text}
    (h : r.Placed s file text) {l : Location} (hl : l ∈ r.finish.document.locations) :
    ∃ here, r.document.Reaches s file text here ∧ l.IsOn here := by
  have hproblem : ∀ p ∈ r.document.problems,
      ∃ here, r.document.Reaches s file text here ∧ p.location.IsOn here := fun p hp =>
    (h.problems p hp).imp fun _ hhere => ⟨hhere.1, hhere.2.1⟩
  rw [Document.locations, List.mem_append, List.mem_map] at hl
  cases hblock : r.block with
  | none =>
    have hfinish : r.finish = r := by rw [finish, hblock]
    rw [hfinish] at hl
    rcases hl with hl | ⟨p, hp, rfl⟩
    · exact h.held l (List.mem_append_left _ hl)
    · exact hproblem p hp
  | some b =>
    have hfinish : r.finish =
        r.abandonBlock ⟨b.location.file, ⟨b.location.line, b.path, b.path⟩⟩ := by
      rw [finish, hblock]
    obtain ⟨here, hhere, hon⟩ := h.held b.location (by simp [Reading.held, hblock, Block.locations])
    have hadds := adds_abandonBlock r ⟨b.location.file, ⟨b.location.line, b.path, b.path⟩⟩
    rw [hfinish] at hl
    rcases hl with hl | ⟨p, hp, rfl⟩
    · rcases hadds.held l (List.mem_append_left _ hl) with hl | hl
      · exact h.held l hl
      · exact ⟨here, hhere, hl.1.trans hon.1, hl.2.trans hon.2⟩
    · rcases hadds.problems p hp with hp | hp
      · exact hproblem p hp
      · exact ⟨here, hhere, hp.isOn.1.1.trans hon.1, hp.isOn.1.2.trans hon.2⟩

end Reading

/-- The text of a file when a platform file is read, which has the given text. -/
def Setting.textOf? (s : Setting) (root : Path) (text : Text) (file : Path) : Option Text :=
  if file = root then some text else (s.sources.read file).toOption

namespace Document

/-- A document names the file of a location, and a logical line of that file starts there, at the
physical line `raw`. -/
def StartsAt (d : Document) (s : Setting) (text : Text) (l : Location) (raw : Text) : Prop :=
  (l.file = d.file ∨ l.file ∈ d.included) ∧
    ∃ t, s.textOf? d.file text l.file = some t ∧ Line.Starts t l.line raw

/-- The positions in the document of a platform file with a given text are real. -/
structure Positioned (d : Document) (s : Setting) (text : Text) : Prop where
  /-- At every location a logical line starts. -/
  locations : ∀ l ∈ d.locations, ∃ raw, d.StartsAt s text l raw
  /-- A problem that is noted on a line carries the physical line that starts there. -/
  problems : ∀ p ∈ (Machine.readingOf s d.file text).document.problems,
    d.StartsAt s text p.location p.lineText
  /-- All problems are noted on a line, apart from that of a block that is open at the end. -/
  unclosed : d.problems = (Machine.readingOf s d.file text).document.problems ++
    ((Machine.readingOf s d.file text).block.map fun b =>
      ⟨⟨b.location.file, b.location.line, none, (Machine.readingOf s d.file text).context⟩,
        .openBlock b.path, b.path, b.path⟩).toList

/-- The file of a line in reach has a text, and the line is one of it. -/
theorem Reaches.exists_textOf? {d : Document} {s : Setting} {text : Text} {here : Place}
    (h : d.Reaches s d.file text here) :
    ∃ t, s.textOf? d.file text here.file = some t ∧ here.line ∈ Line.ofText t := by
  rcases h with ⟨hroot, hline⟩ | ⟨_, hdiff, t, hread, hline⟩
  · exact ⟨text, if_pos hroot, hline⟩
  · have hne : here.file ≠ d.file := fun heq => hdiff (congrArg Path.components heq)
    refine ⟨t, ?_, hline⟩
    rw [Setting.textOf?, if_neg hne, hread]
    rfl

/-- A location on a line that is reached is where this line starts. -/
theorem Reaches.startsAt {d : Document} {s : Setting} {text : Text} {here : Place}
    (h : d.Reaches s d.file text here) {l : Location} (hl : l.IsOn here) :
    d.StartsAt s text l here.line.raw := by
  obtain ⟨t, htext, hline⟩ := h.exists_textOf?
  rw [StartsAt, hl.1, hl.2]
  exact ⟨h.imp And.left And.left, t, htext, Line.starts_of_mem_ofText hline⟩

/-- Whatever a platform file includes, every position in its document is that of a line of one of its
files. -/
theorem positioned_ofText (s : Setting) (file : Path) (text : Text) :
    (ofText s file text).Positioned s text := by
  have hplaced := Machine.placed_readingOf s file text
  have hreach : ∀ here, (Machine.readingOf s file text).document.Reaches s file text here →
      (ofText s file text).Reaches s (ofText s file text).file text here := by
    intro here hhere
    have hincluded : (ofText s file text).included =
        (Machine.readingOf s file text).document.included := Reading.included_finish _
    rw [file_ofText]
    exact hhere.mono fun _ hp => hincluded ▸ hp
  constructor
  · intro l hl
    obtain ⟨here, hhere, hon⟩ := hplaced.exists_of_mem_locations hl
    exact ⟨here.line.raw, (hreach here hhere).startsAt hon⟩
  · rw [file_ofText]
    intro p hp
    obtain ⟨here, hhere, hon, hraw⟩ := hplaced.problems p hp
    rw [hraw]
    exact (hreach here hhere).startsAt hon
  · rw [file_ofText]
    exact Reading.problems_finish _

end Document

end FirmwareIndex
