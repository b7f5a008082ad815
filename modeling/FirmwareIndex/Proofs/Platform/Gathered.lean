import FirmwareIndex.Proofs.Platform.View

/-!
# What the sections have given

Only headers and the content of sections add to what the sections of a platform description have
given, or change the active section and the open block (`Reading.gathered_plain`). A header closes
the block before it opens its section (`Reading.gathered_header`), and inside a block a line changes
nothing but the block, or closes it (`Reading.gathered_insideBlock`). The end of the platform file
closes the block in the same way (`Reading.gathered_finish`).
-/

set_option autoImplicit false

namespace FirmwareIndex

/-- What the sections have given so far, and what decides where the next line belongs. -/
structure Gathered where
  active : Option Active
  block : Option Block
  libraries : List Override
  components : List BuiltModule
  pcds : List PcdSetting
  buildOptions : List BuildOption

/-- What the sections have given in a reading. -/
def Reading.gathered (r : Reading) : Gathered where
  active := r.active
  block := r.block
  libraries := r.document.libraries
  components := r.document.components
  pcds := r.document.pcds
  buildOptions := r.document.buildOptions

namespace Gathered

/-- What the lines of the active section are for. -/
def scopes (g : Gathered) : List Scope :=
  (g.active.map Active.scopes).getD [.common]

/-- The scopes are those of the active section. -/
theorem scopes_eq {g : Gathered} {kind : SectionName} {scopes : List Scope}
    (h : g.active = some ⟨kind, scopes⟩) : g.scopes = scopes := by
  rw [Gathered.scopes, h]
  rfl

/-- The open block, if any, is closed with a component for each scope. -/
def close (g : Gathered) (scopes : List Scope) : Gathered :=
  match g.block with
  | none => g
  | some b => { g with block := none, components := g.components ++ scopes.map b.component }

/-- Nothing is closed where no block is open. -/
theorem close_of_none {g : Gathered} (h : g.block = none) (scopes : List Scope) :
    g.close scopes = g := by
  rw [close, h]

/-- The open block becomes a component for each scope. -/
theorem close_of_some {g : Gathered} {b : Block} (h : g.block = some b) (scopes : List Scope) :
    g.close scopes =
      { g with block := none, components := g.components ++ scopes.map b.component } := by
  rw [close, h]

end Gathered

/-- The section that a header opens, if its names are all known. -/
def Active.ofHeader? (line : Text) : Option Active :=
  let qualifiers := Qualifier.ofBody (Text.trim (Header.body line))
  if Text.trim (Header.body line) = [] then none
  else if Qualifier.unknown qualifiers = [] then Active.ofQualifiers? qualifiers
  else none

namespace Block

/-- The block once a line that names a part has been read. -/
def toldPart (b : Block) (l : Line) : Block :=
  { b with part := (BlockPart.ofName? (BlockPart.nameOf l.text)).getD .outside }

/-- The block once an entry has been read. One that says nothing leaves the block as it is. -/
def toldEntry (b : Block) (r : Reading) (here : Place) : Block :=
  match b.part with
  | .outside => b
  | .libraries =>
    { b with libraries := b.libraries ++ ((Entry.libraryClass? here.line.text).map fun l =>
        { l with path := r.macros.expand l.path }).toList }
  | .pcds kind =>
    { b with pcds := b.pcds ++ ((PcdEntry.ofText? here.line.text).map fun e =>
        ⟨kind, e, r.location here⟩).toList }
  | .buildOptions => { b with buildOptions := b.buildOptions ++ [here.line.text] }

/-- The block once a line that does not close it has been read. -/
def told (b : Block) (r : Reading) (here : Place) : Block :=
  match here.line.text with
  | '<' :: _ => b.toldPart here.line
  | _ => b.toldEntry r here

end Block

/-- A line of a block closes it if it starts with a brace. -/
def Line.closesBlock (l : Line) : Bool :=
  l.text.head? = some '\x7d'

namespace Reading

variable (r : Reading) (here : Place)

/-- A problem changes nothing of what the sections have given. -/
@[simp]
theorem gathered_note (cause : Cause) (offending : Text) :
    (r.note here cause offending).gathered = r.gathered :=
  rfl

/-- Only the active section is another one. -/
@[simp]
theorem gathered_activate (active : Option Active) :
    (r.activate active).gathered = { r.gathered with active := active } :=
  rfl

/-- Closing a block, seen in what the sections have given. -/
theorem gathered_closeBlock (scopes : List Scope) :
    (r.closeBlock scopes).gathered = r.gathered.close scopes := by
  obtain ⟨document, active, conditions, macros, block⟩ := r
  cases block <;> rfl

/-- A block is abandoned with the scopes of the active section. -/
theorem gathered_abandonBlock :
    (r.abandonBlock here).gathered = r.gathered.close r.gathered.scopes := by
  unfold abandonBlock
  split
  · rename_i hblock
    exact (Gathered.close_of_none hblock _).symm
  · rw [gathered_closeBlock]
    rfl

/-- The end of the platform file closes the block that is still open. -/
theorem gathered_finish : r.finish.gathered = r.gathered.close r.gathered.scopes := by
  unfold finish
  split
  · rename_i hblock
    exact (Gathered.close_of_none hblock _).symm
  · exact gathered_abandonBlock r _

/-- Mixed names in a header change nothing of what the sections have given. -/
@[simp]
theorem gathered_noteMixed (qualifiers : List Qualifier) :
    (r.noteMixed here qualifiers).gathered = r.gathered := by
  unfold noteMixed
  split <;> rfl

/-- A header makes its section active, or none if a name in it is unknown. -/
theorem gathered_enterSection (qualifiers : List Qualifier) :
    (r.enterSection here qualifiers).gathered = { r.gathered with
      active := if Qualifier.unknown qualifiers = [] then Active.ofQualifiers? qualifiers
        else none } := by
  have hnotes : ∀ names : List Text,
      (names.foldl (fun r name => r.note here (.unknownSection name) name) r).gathered =
        r.gathered := fun names =>
    List.foldlRecOn names _ (motive := fun next : Reading => next.gathered = r.gathered) rfl
      fun _ hnext _ _ => hnext
  unfold enterSection
  split
  · rename_i hknown
    rw [gathered_activate, if_pos hknown]
  · rename_i hunknown
    rw [gathered_activate, hnotes, if_neg hunknown]

/-- A header closes the open block, and then its section becomes active. -/
theorem gathered_header :
    (r.header here).gathered =
      { r.gathered.close r.gathered.scopes with active := Active.ofHeader? here.line.text } := by
  rw [header_eq, Active.ofHeader?]
  split
  · rw [gathered_activate, gathered_note, gathered_abandonBlock]
  · rw [gathered_enterSection, gathered_noteMixed, gathered_abandonBlock]

/-- A definition changes nothing of what the sections have given. -/
@[simp]
theorem gathered_define : (r.define here).gathered = r.gathered := by
  unfold define
  split <;> rfl

/-- A branch changes nothing of what the sections have given. -/
@[simp]
theorem gathered_branch : (r.branch here).gathered = r.gathered := by
  unfold branch
  split <;> rfl

/-- The end of a condition changes nothing of what the sections have given. -/
@[simp]
theorem gathered_closeCondition : (r.closeCondition here).gathered = r.gathered := by
  unfold closeCondition
  split <;> rfl

/-- Lines that are neither headers nor content of a section give nothing to a section. -/
theorem gathered_plain {kind : LineKind} (hheader : kind ≠ .header) (hcontent : kind ≠ .content) :
    (r.plain here kind).gathered = r.gathered := by
  cases kind with
  | header | content => contradiction
  | definition => exact gathered_define r here
  | branch => exact gathered_branch r here
  | closeCondition => exact gathered_closeCondition r here
  | openCondition | ignored | inclusion target => rfl

/-- A line that is neither a header nor content gives nothing to a section, even if it opens a
file. -/
theorem gathered_effect (s : Setting) (opened : List Path)
    (hheader : LineKind.ofText here.line.text ≠ .header)
    (hcontent : LineKind.ofText here.line.text ≠ .content) :
    (r.effect s opened here).reading.gathered = r.gathered := by
  cases heffect : r.effect s opened here with
  | enter file text r' =>
    obtain ⟨_, _, _, _, _, _, rfl⟩ := Machine.effect_eq_enter heffect
    rfl
  | carry r' =>
    obtain ⟨cause, offending, rfl⟩ | rfl := Machine.effect_eq_carry heffect
    · rfl
    · exact gathered_plain r here hheader hcontent

section Block

variable {r} {b : Block} (hb : r.block = some b)

/-- The block is told which part comes next. -/
theorem gathered_blockPart (b : Block) :
    (r.blockPart here b).gathered = { r.gathered with block := some (b.toldPart here.line) } := by
  unfold blockPart Block.toldPart
  dsimp only
  split
  · rename_i hpart
    rw [hpart]
    rfl
  · rename_i hpart
    rw [hpart]
    rfl

include hb

/-- The open block is the one that is carried. -/
theorem gathered_eq_of_block : { r.gathered with block := some b } = r.gathered := by
  rw [← hb]
  rfl

/-- The block is told its entry. -/
theorem gathered_blockEntry :
    (r.blockEntry here b).gathered = { r.gathered with block := some (b.toldEntry r here) } := by
  obtain ⟨path, location, part, libraries, pcds, buildOptions⟩ := b
  unfold blockEntry Block.toldEntry
  cases part with
  | outside => exact (gathered_eq_of_block hb).symm
  | libraries =>
    dsimp only
    split
    · rename_i hentry
      rw [hentry, Option.map_none, Option.toList_none, List.append_nil]
      exact (gathered_eq_of_block hb).symm
    · rename_i hentry
      rw [hentry]
      rfl
  | pcds kind =>
    dsimp only
    split
    · rename_i hentry
      rw [hentry, Option.map_none, Option.toList_none, List.append_nil]
      exact (gathered_eq_of_block hb).symm
    · rename_i hentry
      rw [hentry]
      rfl
  | buildOptions => rfl

/-- A line inside the open block closes the block, or changes nothing else. -/
theorem gathered_insideBlock (scopes : List Scope) :
    (r.insideBlock here scopes b).gathered =
      if here.line.closesBlock then r.gathered.close scopes
      else { r.gathered with block := some (b.told r here) } := by
  unfold insideBlock Line.closesBlock Block.told
  split
  · rename_i htext
    rw [htext]
    exact gathered_closeBlock r scopes
  · rename_i htext
    rw [htext]
    exact gathered_blockPart here b
  · rename_i hclosing hpart
    have hopen : ¬ here.line.text.head? = some '\x7d' := fun hhead =>
      (List.head?_eq_some_iff.1 hhead).elim hclosing
    rw [if_neg (by simpa using hopen)]
    split
    · rename_i htext
      exact (hpart _ htext).elim
    · exact gathered_blockEntry here hb

end Block

end Reading

end FirmwareIndex
