import FirmwareIndex.Proofs.Platform.Visited

/-!
# Reading does not look back

Entries and problems are put at the ends of the lists of a document, and nothing that is done with a
line depends on what is already in them. So what has been said may be put before a reading or after
it: this commutes with every line (`Reading.onto_effect`), with the steps of a machine
(`Machine.iterate_step_onto`) and with the end of the platform file (`Reading.onto_finish`). What a
line says is then the same as if nothing had been said before (`Reading.document_effect`).
-/

set_option autoImplicit false

namespace FirmwareIndex

/-- What one document says, and after it what another one says. -/
def Document.followedBy (d e : Document) : Document where
  file := d.file
  definitions := d.definitions ++ e.definitions
  libraries := d.libraries ++ e.libraries
  components := d.components ++ e.components
  pcds := d.pcds ++ e.pcds
  buildOptions := d.buildOptions ++ e.buildOptions
  skuIds := d.skuIds ++ e.skuIds
  included := d.included ++ e.included
  problems := d.problems ++ e.problems

/-- The effect with a change to what is carried. -/
def Effect.map (f : Reading → Reading) : Effect → Effect
  | .carry r => .carry (f r)
  | .enter file text r => .enter file text (f r)

/-- A change to what is carried is seen in what the effect leaves. -/
theorem Effect.reading_map (f : Reading → Reading) (e : Effect) :
    (e.map f).reading = f e.reading := by
  cases e <;> rfl

namespace Reading

/-- The reading when its document comes after another one. -/
def onto (r : Reading) (d : Document) : Reading :=
  { r with document := d.followedBy r.document }

/-- The reading when nothing has been said. -/
def fresh (r : Reading) : Reading :=
  { r with document := .empty ⟨[]⟩ }

variable (r : Reading) (d : Document) (here : Place) (scopes : List Scope)

/-- Put behind what has been said, a fresh reading is what it was made from. -/
theorem onto_fresh : r.fresh.onto r.document = r := by
  simp [fresh, onto, Document.followedBy, Document.empty]

/-! ## Every operation commutes with what has been said before -/

/-- Problems are noted behind those of the other document. -/
@[simp]
theorem onto_note (cause : Cause) (offending : Text) :
    (r.note here cause offending).onto d = (r.onto d).note here cause offending := by
  simp only [note, onto, Document.followedBy, List.append_assoc]
  rfl

/-- Included files come behind those of the other document. -/
@[simp]
theorem onto_visit (file : Path) : (r.visit file).onto d = (r.onto d).visit file := by
  simp only [visit, onto, Document.followedBy, List.append_assoc]

/-- A section is opened the same way, whatever has been said before. -/
@[simp]
theorem onto_activate (active : Option Active) :
    (r.activate active).onto d = (r.onto d).activate active :=
  rfl

/-- The components of a block come behind those of the other document. -/
@[simp]
theorem onto_closeBlock : (r.closeBlock scopes).onto d = (r.onto d).closeBlock scopes := by
  obtain ⟨document, active, conditions, macros, block⟩ := r
  cases block with
  | none => rfl
  | some b => simp only [closeBlock, onto, Document.followedBy, List.append_assoc]

/-- A block that a header closes comes behind the other document. -/
@[simp]
theorem onto_abandonBlock : (r.abandonBlock here).onto d = (r.onto d).abandonBlock here := by
  have hblock : (r.onto d).block = r.block := rfl
  simp only [abandonBlock, hblock]
  cases r.block with
  | none => rfl
  | some b =>
    dsimp only
    rw [onto_closeBlock, onto_note]
    rfl

/-- A list of problems is noted behind those of the other document. -/
theorem onto_foldl_note (names : List Text) (cause : Text → Cause) (r : Reading) :
    (names.foldl (fun r name => r.note here (cause name) name) r).onto d =
      names.foldl (fun r name => r.note here (cause name) name) (r.onto d) := by
  induction names generalizing r with
  | nil => rfl
  | cons name names ih => rw [List.foldl_cons, ih, onto_note, List.foldl_cons]

/-- A header of several sections is noted behind the other document. -/
@[simp]
theorem onto_noteMixed (qualifiers : List Qualifier) :
    (r.noteMixed here qualifiers).onto d = (r.onto d).noteMixed here qualifiers := by
  unfold noteMixed
  split
  · rfl
  · exact onto_note r d here _ _

/-- The section and the problems of a header do not depend on the other document. -/
@[simp]
theorem onto_enterSection (qualifiers : List Qualifier) :
    (r.enterSection here qualifiers).onto d = (r.onto d).enterSection here qualifiers := by
  unfold enterSection
  split
  · rfl
  · rw [onto_activate, onto_foldl_note]

/-- A header is read the same way behind another document. -/
theorem onto_header : (r.header here).onto d = (r.onto d).header here := by
  simp only [header_eq]
  split <;> simp

/-- A definition is read the same way behind another document. -/
theorem onto_define : (r.define here).onto d = (r.onto d).define here := by
  unfold define
  split
  · exact onto_note r d here _ _
  · simp only [onto, Document.followedBy, List.append_assoc]
    rfl

/-- A branch is read the same way behind another document. -/
theorem onto_branch : (r.branch here).onto d = (r.onto d).branch here := by
  unfold branch
  by_cases hconditions : r.conditions = []
  · rw [if_pos hconditions]
    exact (onto_note r d here _ _).trans (if_pos hconditions).symm
  · rw [if_neg hconditions]
    exact (if_neg hconditions).symm

/-- The end of a condition is read the same way behind another document. -/
theorem onto_closeCondition : (r.closeCondition here).onto d = (r.onto d).closeCondition here := by
  unfold closeCondition
  by_cases hconditions : r.conditions = []
  · rw [if_pos hconditions]
    exact (onto_note r d here _ _).trans (if_pos hconditions).symm
  · rw [if_neg hconditions]
    exact (if_neg hconditions).symm

/-- Implementations come behind those of the other document. -/
theorem onto_library : (r.library here scopes).onto d = (r.onto d).library here scopes := by
  unfold library
  split
  · exact onto_note r d here _ _
  · simp only [onto, Document.followedBy, List.append_assoc]
    rfl

/-- Build options come behind those of the other document. -/
theorem onto_buildOption :
    (r.buildOption here scopes).onto d = (r.onto d).buildOption here scopes := by
  simp only [buildOption, onto, Document.followedBy, List.append_assoc]
  rfl

/-- Variants come behind those of the other document. -/
theorem onto_skuId : (r.skuId here).onto d = (r.onto d).skuId here := by
  simp only [skuId, onto, Document.followedBy, List.append_assoc]

/-- Settings come behind those of the other document. -/
theorem onto_pcd (kind : SectionName) :
    (r.pcd here kind scopes).onto d = (r.onto d).pcd here kind scopes := by
  unfold pcd
  split
  · exact onto_note r d here _ _
  · simp only [onto, Document.followedBy, List.append_assoc]
    rfl

/-- The part of a block is named the same way behind another document. -/
theorem onto_blockPart (b : Block) : (r.blockPart here b).onto d = (r.onto d).blockPart here b := by
  unfold blockPart
  dsimp only
  split
  · rfl
  · rw [← onto_note]
    rfl

/-- An entry of a block is read the same way behind another document. -/
theorem onto_blockEntry (b : Block) :
    (r.blockEntry here b).onto d = (r.onto d).blockEntry here b := by
  unfold blockEntry
  split
  · exact onto_note r d here _ _
  · split
    · exact onto_note r d here _ _
    · rfl
  · split
    · exact onto_note r d here _ _
    · rfl
  · rfl

/-- A line inside a block is read the same way behind another document. -/
theorem onto_insideBlock (b : Block) :
    (r.insideBlock here scopes b).onto d = (r.onto d).insideBlock here scopes b := by
  unfold insideBlock
  split
  · exact onto_closeBlock r d scopes
  · exact onto_blockPart r d here b
  · exact onto_blockEntry r d here b

/-- A component that is no module is noted behind the other document. -/
theorem onto_noteModule (written : Text) :
    (r.noteModule here written).onto d = (r.onto d).noteModule here written := by
  have hmacros : (r.onto d).macros = r.macros := rfl
  simp only [noteModule, hmacros]
  split
  · rfl
  · exact onto_note r d here _ _

/-- A component is started the same way behind another document. -/
theorem onto_startComponent :
    (r.startComponent here scopes).onto d = (r.onto d).startComponent here scopes := by
  have hmacros : (r.onto d).macros = r.macros := rfl
  simp only [startComponent_eq, hmacros]
  split
  · exact onto_note r d here _ _
  · split
    · rw [← onto_noteModule]
      rfl
    · rw [onto_closeBlock, ← onto_noteModule]
      rfl

/-- A line of a section of components is read the same way behind another document. -/
theorem onto_component : (r.component here scopes).onto d = (r.onto d).component here scopes := by
  have hblock : (r.onto d).block = r.block := rfl
  simp only [component, hblock]
  cases r.block with
  | none => exact onto_startComponent r d here scopes
  | some b => exact onto_insideBlock r d here scopes b

/-- Content is read the same way behind another document. -/
theorem onto_content : (r.content here).onto d = (r.onto d).content here := by
  have hactive : (r.onto d).active = r.active := rfl
  simp only [content, hactive]
  cases r.active with
  | none => exact onto_note r d here _ _
  | some a =>
    dsimp only
    split
    · exact onto_define r d here
    · exact onto_library r d here a.scopes
    · exact onto_component r d here a.scopes
    · exact onto_buildOption r d here a.scopes
    · exact onto_skuId r d here
    · rfl
    · rfl
    · exact onto_pcd r d here a.scopes a.kind

/-- A line that includes no file is read the same way behind another document. -/
theorem onto_plain (kind : LineKind) : (r.plain here kind).onto d = (r.onto d).plain here kind := by
  cases kind with
  | header => exact onto_header r d here
  | definition => exact onto_define r d here
  | branch => exact onto_branch r d here
  | closeCondition => exact onto_closeCondition r d here
  | content => exact onto_content r d here
  | openCondition | ignored | inclusion target => rfl

/-- What an include leads to does not depend on what has been said. -/
theorem onto_inclusion (s : Setting) (opened : List Path) (target : Text) :
    (r.inclusion s opened here target).map (onto · d) =
      (r.onto d).inclusion s opened here target := by
  have hmacros : (r.onto d).macros = r.macros := rfl
  simp only [inclusion, hmacros]
  split
  · exact congrArg Effect.carry (onto_note r d here _ _)
  · split
    · exact congrArg Effect.carry (onto_note r d here _ _)
    · cases s.sources.read (Machine.resolve s r.macros here.file target) with
      | error reason => exact congrArg Effect.carry (onto_note r d here _ _)
      | ok text => exact congrArg (Effect.enter _ text) (onto_visit r d _)

/-- A line leads to the same, whatever has been said before. -/
theorem onto_effect (s : Setting) (opened : List Path) :
    (r.effect s opened here).map (onto · d) = (r.onto d).effect s opened here := by
  unfold effect
  split
  · exact onto_inclusion r d here s opened _
  · exact congrArg Effect.carry (onto_plain r d here _)

/-- The end of the platform file leads to the same, whatever has been said before. -/
theorem onto_finish : r.finish.onto d = (r.onto d).finish := by
  have hblock : (r.onto d).block = r.block := rfl
  simp only [finish, hblock]
  cases r.block with
  | none => rfl
  | some b => exact onto_abandonBlock r d _

/-- What a line says comes after what has been said before. -/
theorem document_effect (s : Setting) (opened : List Path) :
    (r.effect s opened here).reading.document =
      r.document.followedBy (r.fresh.effect s opened here).reading.document := by
  rw [← congrArg (fun q : Reading => (q.effect s opened here).reading.document) (onto_fresh r),
    ← onto_effect, Effect.reading_map]
  rfl

/-- What the end of the platform file says comes after what has been said before. -/
theorem document_finish : r.finish.document = r.document.followedBy r.fresh.finish.document := by
  rw [← congrArg (fun q : Reading => q.finish.document) (onto_fresh r), ← onto_finish]
  rfl

end Reading

namespace Machine

variable (s : Setting) (m : Machine) (d : Document)

/-- The machine when the document of what it carries comes after another one. -/
def onto (m : Machine) (d : Document) : Machine :=
  { m with reading := m.reading.onto d }

/-- A step leads to the same, whatever has been said before. -/
theorem step_onto : step s (m.onto d) = (step s m).onto d := by
  obtain ⟨frames, r⟩ := m
  match frames with
  | [] => rfl
  | ⟨_, []⟩ :: _ => rfl
  | ⟨file, l :: lines⟩ :: rest =>
    have hafter : ∀ e : Effect, after ⟨⟨file, lines⟩ :: rest, r.onto d⟩ (e.map (·.onto d)) =
        (after ⟨⟨file, lines⟩ :: rest, r⟩ e).onto d := by
      intro e
      cases e <;> rfl
    rw [step_line, ← hafter, Reading.onto_effect]
    exact step_line s file l lines rest (r.onto d)

/-- Any number of steps is taken the same way behind another document. -/
theorem iterate_step_onto (n : Nat) : (step s)^[n] (m.onto d) = ((step s)^[n] m).onto d := by
  induction n with
  | zero => rfl
  | succ n ih => rw [Function.iterate_succ_apply', ih, step_onto, Function.iterate_succ_apply']

/-- A run gives what it gives when nothing has been said, after what has been said. -/
theorem iterate_step_eq_onto (n : Nat) :
    (step s)^[n] m = ((step s)^[n] ⟨m.frames, m.reading.fresh⟩).onto m.reading.document := by
  have honto : (⟨m.frames, m.reading.fresh⟩ : Machine).onto m.reading.document = m :=
    congrArg (Machine.mk m.frames) (Reading.onto_fresh m.reading)
  rw [← iterate_step_onto, honto]

end Machine

end FirmwareIndex
