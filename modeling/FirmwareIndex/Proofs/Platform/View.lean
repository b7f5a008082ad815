import FirmwareIndex.Proofs.Platform.Derivation

/-!
# What is looked at in a reading

A reading says things, and it notes where and under which conditions it says them. A `View` tells
which of these notes are looked at, and `Reading.seen` keeps what the view sees. Reading a line
never looks at the notes, so it commutes with leaving them out (`Reading.seen_plain`), and a line on
conditions does nothing that is seen when conditions are not (`Reading.seen_plain_condition`).
-/

set_option autoImplicit false

namespace FirmwareIndex

/-- Which notes of a reading are looked at. -/
structure View where
  /-- The file and the line of each place. -/
  places : Bool
  /-- The conditions that lines stand under, and the problems of branches and ends of conditions
  that were not opened. -/
  conditions : Bool
  /-- The included files. -/
  included : Bool

/-- The kinds of line that open, change or close a condition. -/
def LineKind.isCondition : LineKind → Bool
  | .openCondition | .branch | .closeCondition => true
  | _ => false

/-- The causes of problems with branches and ends of conditions that were not opened. -/
def Cause.isUnmatched : Cause → Bool
  | .branchOutside | .endOutside => true
  | _ => false

section Seen

variable (v : View)

/-- The location as far as it is looked at. -/
def Location.seen (l : Location) : Location where
  file := if v.places then l.file else ⟨[]⟩
  line := if v.places then l.line else 0
  column := l.column
  context := if v.conditions then l.context else none

/-- The definition as far as it is looked at. -/
def Definition.seen (d : Definition) : Definition :=
  { d with location := d.location.seen v }

/-- The choice as far as it is looked at. -/
def Override.seen (o : Override) : Override :=
  { o with location := o.location.seen v }

/-- The setting as far as it is looked at. -/
def PcdSetting.seen (p : PcdSetting) : PcdSetting :=
  { p with location := p.location.seen v }

/-- The component as far as it is looked at. -/
def BuiltModule.seen (m : BuiltModule) : BuiltModule :=
  { m with
    overrides := m.overrides.map (Override.seen v)
    pcds := m.pcds.map (PcdSetting.seen v)
    location := m.location.seen v }

/-- The build options as far as they are looked at. -/
def BuildOption.seen (o : BuildOption) : BuildOption :=
  { o with location := o.location.seen v }

/-- The problem as far as it is looked at. -/
def Problem.seen (p : Problem) : Problem :=
  { p with location := p.location.seen v }

/-- The problems that are seen. -/
def Problem.allSeen (problems : List Problem) : List Problem :=
  (if v.conditions then problems
    else problems.filter fun p => !p.cause.isUnmatched).map (Problem.seen v)

/-- The document as far as it is looked at. -/
def Document.seen (d : Document) : Document where
  file := d.file
  definitions := d.definitions.map (Definition.seen v)
  libraries := d.libraries.map (Override.seen v)
  components := d.components.map (BuiltModule.seen v)
  pcds := d.pcds.map (PcdSetting.seen v)
  buildOptions := d.buildOptions.map (BuildOption.seen v)
  skuIds := d.skuIds
  included := if v.included then d.included else []
  problems := Problem.allSeen v d.problems

/-- The setting of a block as far as it is looked at. -/
def BlockPcd.seen (p : BlockPcd) : BlockPcd :=
  { p with location := p.location.seen v }

/-- The block as far as it is looked at. -/
def Block.seen (b : Block) : Block :=
  { b with location := b.location.seen v, pcds := b.pcds.map (BlockPcd.seen v) }

/-- The reading as far as it is looked at. -/
def Reading.seen (r : Reading) : Reading :=
  { r with
    document := r.document.seen v
    conditions := if v.conditions then r.conditions else []
    block := r.block.map (Block.seen v) }

/-- The place as far as it is looked at. -/
def Place.seen (p : Place) : Place where
  file := if v.places then p.file else ⟨[]⟩
  line := { p.line with number := if v.places then p.line.number else 0 }

end Seen

variable {v : View}

/-- The component of a block says what the block says. -/
@[simp]
theorem Block.seen_component (b : Block) (s : Scope) :
    (b.component s).seen v = (b.seen v).component s := by
  simp only [Block.component, Block.seen, BuiltModule.seen, List.map_map]
  rfl

/-- The problems that are seen in a list are those seen in its parts. -/
@[simp]
theorem Problem.allSeen_append (problems others : List Problem) :
    allSeen v (problems ++ others) = allSeen v problems ++ allSeen v others := by
  unfold allSeen
  split <;> simp only [List.filter_append, List.map_append]

namespace Reading

/-! ## Every operation commutes with what is seen -/

/-- A location is seen as the place is. -/
@[simp]
theorem seen_location (r : Reading) (here : Place) :
    (r.location here).seen v = (r.seen v).location (here.seen v) := by
  obtain ⟨places, conditions, included⟩ := v
  cases conditions <;> rfl

/-- A problem that is seen is noted. -/
theorem seen_note (r : Reading) (here : Place) {cause : Cause} (offending : Text)
    (hcause : v.conditions = true ∨ cause.isUnmatched = false) :
    (r.note here cause offending).seen v = (r.seen v).note (here.seen v) cause offending := by
  have hsingle : Problem.allSeen v [⟨r.location here, cause, offending, here.line.raw⟩] =
      [⟨(r.seen v).location (here.seen v), cause, offending, here.line.raw⟩] := by
    rcases hcause with hcause | hcause <;> simp [Problem.allSeen, Problem.seen, hcause]
  simp only [note, seen, Document.seen, Problem.allSeen_append, hsingle]
  rfl

/-- A problem that is not seen might as well not be noted. -/
theorem seen_note_unmatched (r : Reading) (here : Place) {cause : Cause} (offending : Text)
    (hv : v.conditions = false) (hcause : cause.isUnmatched = true) :
    (r.note here cause offending).seen v = r.seen v := by
  have hsingle : Problem.allSeen v [⟨r.location here, cause, offending, here.line.raw⟩] = [] := by
    simp [Problem.allSeen, hv, hcause]
  simp only [note, seen, Document.seen, Problem.allSeen_append, hsingle, List.append_nil]

/-- A block that is closed is seen closed. -/
@[simp]
theorem seen_closeBlock (r : Reading) (scopes : List Scope) :
    (r.closeBlock scopes).seen v = (r.seen v).closeBlock scopes := by
  obtain ⟨document, active, conditions, macros, block⟩ := r
  cases block with
  | none => rfl
  | some b =>
    simp only [closeBlock, seen, Document.seen, List.map_append, List.map_map, Option.map_some,
      Option.map_none, Function.comp_def, Block.seen_component]

/-- A block that is abandoned is seen abandoned. -/
@[simp]
theorem seen_abandonBlock (r : Reading) (here : Place) :
    (r.abandonBlock here).seen v = (r.seen v).abandonBlock (here.seen v) := by
  unfold abandonBlock
  cases hblock : r.block with
  | none => simp [seen, hblock]
  | some b =>
    have hseen : (r.seen v).block = some (b.seen v) := by simp [seen, hblock]
    have hnote : (r.note here (.openBlock b.path) here.line.text).seen v =
        (r.seen v).note (here.seen v) (.openBlock b.path) here.line.text :=
      seen_note r here _ (.inr rfl)
    simp only [seen_closeBlock, hnote, hseen]
    rfl

/-- The active section is seen. -/
@[simp]
theorem seen_activate (r : Reading) (active : Option Active) :
    (r.activate active).seen v = (r.seen v).activate active :=
  rfl

/-- Problems that are not about conditions are all seen. -/
theorem seen_foldl_note (names : List Text) (here : Place) (cause : Text → Cause)
    (hcause : ∀ name, (cause name).isUnmatched = false) (r : Reading) :
    (names.foldl (fun r name => r.note here (cause name) name) r).seen v =
      names.foldl (fun r name => r.note (here.seen v) (cause name) name) (r.seen v) := by
  induction names generalizing r with
  | nil => rfl
  | cons name names ih =>
    rw [List.foldl_cons, ih, seen_note r here name (.inr (hcause name)), List.foldl_cons]

/-- The reading once a header that mixes sections has been noted. -/
def noteMixed (r : Reading) (here : Place) (qualifiers : List Qualifier) : Reading :=
  match Qualifier.mismatch? qualifiers with
  | none => r
  | some (first, other) => r.note here (.mixedSections first other) other

/-- The reading once the section of a header has become active, or none if a name is unknown. -/
def enterSection (r : Reading) (here : Place) (qualifiers : List Qualifier) : Reading :=
  match Qualifier.unknown qualifiers with
  | [] => r.activate (Active.ofQualifiers? qualifiers)
  | names => (names.foldl (fun r name => r.note here (.unknownSection name) name) r).activate none

/-- A header abandons a block, notes mixed sections and enters its section. -/
theorem header_eq (r : Reading) (here : Place) :
    r.header here =
      if Text.trim (Header.body here.line.text) = [] then
        ((r.abandonBlock here).note here .emptyHeader here.line.text).activate none
      else
        ((r.abandonBlock here).noteMixed here
          (Qualifier.ofBody (Text.trim (Header.body here.line.text)))).enterSection here
            (Qualifier.ofBody (Text.trim (Header.body here.line.text))) := by
  by_cases hbody : Text.trim (Header.body here.line.text) = []
  · simp only [header, if_pos hbody]
  · cases hmismatch : Qualifier.mismatch?
        (Qualifier.ofBody (Text.trim (Header.body here.line.text))) <;>
      cases hunknown : Qualifier.unknown
        (Qualifier.ofBody (Text.trim (Header.body here.line.text))) <;>
      simp only [header, if_neg hbody, noteMixed, enterSection, hmismatch, hunknown]

/-- Mixed sections are seen noted. -/
@[simp]
theorem seen_noteMixed (r : Reading) (here : Place) (qualifiers : List Qualifier) :
    (r.noteMixed here qualifiers).seen v = (r.seen v).noteMixed (here.seen v) qualifiers := by
  simp only [noteMixed]
  split
  · rfl
  · exact seen_note r here _ (.inr rfl)

/-- The section of a header is seen entered. -/
@[simp]
theorem seen_enterSection (r : Reading) (here : Place) (qualifiers : List Qualifier) :
    (r.enterSection here qualifiers).seen v =
      (r.seen v).enterSection (here.seen v) qualifiers := by
  simp only [enterSection]
  split
  · rfl
  · rw [seen_activate, seen_foldl_note _ _ _ fun _ => rfl]

/-- A header does to what is seen what it does to a reading. -/
theorem seen_header (r : Reading) (here : Place) :
    (r.header here).seen v = (r.seen v).header (here.seen v) := by
  have htext : (here.seen v).line.text = here.line.text := rfl
  simp only [header_eq, htext]
  split
  · have hnote : ((r.abandonBlock here).note here .emptyHeader here.line.text).seen v =
        ((r.abandonBlock here).seen v).note (here.seen v) .emptyHeader here.line.text :=
      seen_note _ here _ (.inr rfl)
    rw [seen_activate, hnote, seen_abandonBlock]
  · simp only [seen_enterSection, seen_noteMixed, seen_abandonBlock]

/-- A definition does to what is seen what it does to a reading. -/
theorem seen_define (r : Reading) (here : Place) :
    (r.define here).seen v = (r.seen v).define (here.seen v) := by
  have htext : (here.seen v).line.text = here.line.text := rfl
  simp only [define, htext]
  split
  · exact seen_note r here _ (.inr rfl)
  · simp only [seen, Document.seen, List.map_append, List.map_cons, List.map_nil, Definition.seen,
      seen_location]

/-- An implementation is seen with its place as it is looked at. -/
theorem seen_library (r : Reading) (here : Place) (scopes : List Scope) :
    (r.library here scopes).seen v = (r.seen v).library (here.seen v) scopes := by
  have htext : (here.seen v).line.text = here.line.text := rfl
  simp only [library, htext]
  split
  · exact seen_note r here _ (.inr rfl)
  · simp only [seen, Document.seen, List.map_append, List.map_map, Function.comp_def,
      Override.seen, seen_location]

/-- Build options are seen with their place as it is looked at. -/
theorem seen_buildOption (r : Reading) (here : Place) (scopes : List Scope) :
    (r.buildOption here scopes).seen v = (r.seen v).buildOption (here.seen v) scopes := by
  simp only [buildOption, seen, Document.seen, List.map_append, List.map_map, Function.comp_def,
    BuildOption.seen, seen_location]
  rfl

/-- A variant is seen. -/
theorem seen_skuId (r : Reading) (here : Place) :
    (r.skuId here).seen v = (r.seen v).skuId (here.seen v) :=
  rfl

/-- A setting is seen with its place as it is looked at. -/
theorem seen_pcd (r : Reading) (here : Place) (kind : SectionName) (scopes : List Scope) :
    (r.pcd here kind scopes).seen v = (r.seen v).pcd (here.seen v) kind scopes := by
  have htext : (here.seen v).line.text = here.line.text := rfl
  simp only [pcd, htext]
  split
  · exact seen_note r here _ (.inr rfl)
  · simp only [seen, Document.seen, List.map_append, List.map_map, Function.comp_def,
      PcdEntry.setting, PcdSetting.seen, seen_location]

/-- The part of a block is seen named. -/
theorem seen_blockPart (r : Reading) (here : Place) (b : Block) :
    (r.blockPart here b).seen v = (r.seen v).blockPart (here.seen v) (b.seen v) := by
  have htext : (here.seen v).line.text = here.line.text := rfl
  simp only [blockPart, htext]
  split
  · rfl
  · rw [← seen_note r here _ (.inr rfl)]
    rfl

/-- An entry of a block is seen in the block. -/
theorem seen_blockEntry (r : Reading) (here : Place) (b : Block) :
    (r.blockEntry here b).seen v = (r.seen v).blockEntry (here.seen v) (b.seen v) := by
  have htext : (here.seen v).line.text = here.line.text := rfl
  have hpart : (b.seen v).part = b.part := rfl
  simp only [blockEntry, htext, hpart]
  cases b.part with
  | outside => exact seen_note r here _ (.inr rfl)
  | libraries =>
    dsimp only
    split
    · exact seen_note r here _ (.inr rfl)
    · rfl
  | pcds kind =>
    dsimp only
    split
    · exact seen_note r here _ (.inr rfl)
    · simp only [seen, Block.seen, Option.map_some, List.map_append, List.map_cons, List.map_nil,
        BlockPcd.seen, seen_location]
  | buildOptions => rfl

/-- A line inside a block does to what is seen what it does to a reading. -/
theorem seen_insideBlock (r : Reading) (here : Place) (scopes : List Scope) (b : Block) :
    (r.insideBlock here scopes b).seen v =
      (r.seen v).insideBlock (here.seen v) scopes (b.seen v) := by
  have htext : (here.seen v).line.text = here.line.text := rfl
  simp only [insideBlock, htext]
  split
  · exact seen_closeBlock r scopes
  · exact seen_blockPart r here b
  · exact seen_blockEntry r here b

/-- The reading once the path of a component that is no module has been noted. -/
def noteModule (r : Reading) (here : Place) (written : Text) : Reading :=
  if Entry.isModulePath (r.macros.expand written) then r else r.note here .notModule written

/-- The reading once a component block has been opened. -/
def openBlock (r : Reading) (here : Place) (path : Text) : Reading :=
  { r with block := some (.start path (r.location here)) }

/-- What a line that starts a component notes, opens and closes, in order. -/
theorem startComponent_eq (r : Reading) (here : Place) (scopes : List Scope) :
    r.startComponent here scopes =
      if here.line.text.takeWhile isPathPart = [] then
        r.note here .noComponentPath here.line.text
      else
        let written := here.line.text.takeWhile isPathPart
        let rest := here.line.text.dropWhile isPathPart
        let opened := (r.noteModule here written).openBlock here (r.macros.expand written)
        if rest.contains '\x7b' && !rest.contains '\x7d' then opened
        else opened.closeBlock scopes :=
  rfl

/-- A component that is no module is seen noted. -/
@[simp]
theorem seen_noteModule (r : Reading) (here : Place) (written : Text) :
    (r.noteModule here written).seen v = (r.seen v).noteModule (here.seen v) written := by
  have hmacros : (r.seen v).macros = r.macros := rfl
  simp only [noteModule, hmacros]
  split
  · rfl
  · exact seen_note r here _ (.inr rfl)

/-- A block is seen opened. -/
@[simp]
theorem seen_openBlock (r : Reading) (here : Place) (path : Text) :
    (r.openBlock here path).seen v = (r.seen v).openBlock (here.seen v) path := by
  simp only [openBlock, seen, Option.map_some, Block.seen, Block.start, List.map_nil, seen_location]

/-- A line that starts a component does to what is seen what it does to a reading. -/
theorem seen_startComponent (r : Reading) (here : Place) (scopes : List Scope) :
    (r.startComponent here scopes).seen v = (r.seen v).startComponent (here.seen v) scopes := by
  have htext : (here.seen v).line.text = here.line.text := rfl
  have hmacros : (r.seen v).macros = r.macros := rfl
  simp only [startComponent_eq, htext, hmacros]
  split
  · exact seen_note r here _ (.inr rfl)
  · split
    · simp only [seen_openBlock, seen_noteModule]
    · simp only [seen_closeBlock, seen_openBlock, seen_noteModule]

/-- A line of a section of components does to what is seen what it does to a reading. -/
theorem seen_component (r : Reading) (here : Place) (scopes : List Scope) :
    (r.component here scopes).seen v = (r.seen v).component (here.seen v) scopes := by
  unfold component
  cases hblock : r.block with
  | none =>
    have hseen : (r.seen v).block = none := by simp [seen, hblock]
    simp only [hseen, seen_startComponent]
  | some b =>
    have hseen : (r.seen v).block = some (b.seen v) := by simp [seen, hblock]
    simp only [hseen, seen_insideBlock]

/-- Content does to what is seen what it does to a reading. -/
theorem seen_content (r : Reading) (here : Place) :
    (r.content here).seen v = (r.seen v).content (here.seen v) := by
  have htext : (here.seen v).line.text = here.line.text := rfl
  have hactive : (r.seen v).active = r.active := rfl
  simp only [content, htext, hactive]
  cases r.active with
  | none => exact seen_note r here _ (.inr rfl)
  | some a =>
    dsimp only
    split
    · exact seen_define r here
    · exact seen_library r here a.scopes
    · exact seen_component r here a.scopes
    · exact seen_buildOption r here a.scopes
    · exact seen_skuId r here
    · rfl
    · rfl
    · exact seen_pcd r here a.kind a.scopes

/-- Lines on conditions commute with what is seen when conditions are. -/
theorem seen_condition (hv : v.conditions = true) (r : Reading) (here : Place) :
    (r.openCondition here).seen v = (r.seen v).openCondition (here.seen v) ∧
      (r.branch here).seen v = (r.seen v).branch (here.seen v) ∧
      (r.closeCondition here).seen v = (r.seen v).closeCondition (here.seen v) := by
  have hconditions : (r.seen v).conditions = r.conditions := by simp [seen, hv]
  have htext : (here.seen v).line.text = here.line.text := rfl
  refine ⟨?_, ?_, ?_⟩
  · simp [openCondition, seen, hv, htext]
  · simp only [branch, hconditions]
    split
    · exact seen_note r here _ (.inl hv)
    · simp [seen, hv, htext]
  · simp only [closeCondition, hconditions]
    split
    · exact seen_note r here _ (.inl hv)
    · simp [seen, hv]

/-- Reading a line that includes no file commutes with what is seen. -/
theorem seen_plain (r : Reading) (here : Place) {kind : LineKind}
    (h : v.conditions = true ∨ kind.isCondition = false) :
    (r.plain here kind).seen v = (r.seen v).plain (here.seen v) kind := by
  cases kind with
  | header => exact seen_header r here
  | definition => exact seen_define r here
  | content => exact seen_content r here
  | ignored | inclusion target => rfl
  | openCondition => exact (seen_condition (h.resolve_right (by decide)) r here).1
  | branch => exact (seen_condition (h.resolve_right (by decide)) r here).2.1
  | closeCondition => exact (seen_condition (h.resolve_right (by decide)) r here).2.2

/-- A line on conditions does nothing that is seen when conditions are not. -/
theorem seen_plain_condition (hv : v.conditions = false) (r : Reading) (here : Place)
    {kind : LineKind} (hkind : kind.isCondition = true) :
    (r.plain here kind).seen v = r.seen v := by
  cases kind with
  | openCondition => simp [plain, openCondition, seen, hv]
  | branch =>
    simp only [plain, branch]
    split
    · exact seen_note_unmatched r here _ hv rfl
    · simp [seen, hv]
  | closeCondition =>
    simp only [plain, closeCondition]
    split
    · exact seen_note_unmatched r here _ hv rfl
    · simp [seen, hv]
  | header | definition | content | ignored | inclusion target => cases hkind

/-- Closing what is open at the end commutes with what is seen. -/
theorem seen_finish (r : Reading) : r.finish.seen v = (r.seen v).finish := by
  unfold finish
  cases hblock : r.block with
  | none => simp [seen, hblock]
  | some b =>
    have hseen : (r.seen v).block = some (b.seen v) := by simp [seen, hblock]
    simp only [hseen, seen_abandonBlock]
    rfl

end Reading

end FirmwareIndex
