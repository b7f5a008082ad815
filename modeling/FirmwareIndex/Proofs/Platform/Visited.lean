import FirmwareIndex.Proofs.Platform.Said

/-!
# Visited files

A document is read from its platform file and the files that it includes. Only an include that opens
a file adds to them; every other line leaves them as they are (`Reading.files_plain`), and so does
closing what is open at the end. So the document of a platform file is filed under the path of that
file (`Document.file_ofFile`).
-/

set_option autoImplicit false

namespace FirmwareIndex

/-- The files that a document was read from: the platform file and those that it included. -/
def Document.files (d : Document) : Path × List Path :=
  (d.file, d.included)

namespace Reading

/-- A file that is visited is included last. -/
@[simp]
theorem included_visit (r : Reading) (file : Path) :
    (r.visit file).document.included = r.document.included ++ [file] :=
  rfl

/-- A problem includes no file. -/
@[simp]
theorem files_note (r : Reading) (here : Place) (cause : Cause) (offending : Text) :
    (r.note here cause offending).document.files = r.document.files :=
  rfl

/-- Closing a block includes no file. -/
@[simp]
theorem files_closeBlock (r : Reading) (scopes : List Scope) :
    (r.closeBlock scopes).document.files = r.document.files := by
  unfold closeBlock
  split <;> rfl

/-- Abandoning a block includes no file. -/
@[simp]
theorem files_abandonBlock (r : Reading) (here : Place) :
    (r.abandonBlock here).document.files = r.document.files := by
  unfold abandonBlock
  split
  · rfl
  · rw [files_closeBlock, files_note]

/-- A section includes no file. -/
@[simp]
theorem files_activate (r : Reading) (active : Option Active) :
    (r.activate active).document.files = r.document.files :=
  rfl

/-- A list of problems includes no file. -/
@[simp]
theorem files_foldl_note (names : List Text) (here : Place) (cause : Text → Cause)
    (r : Reading) :
    (names.foldl (fun r name => r.note here (cause name) name) r).document.files =
      r.document.files := by
  induction names generalizing r with
  | nil => rfl
  | cons name names ih => rw [List.foldl_cons, ih, files_note]

/-- Mixed sections include no file. -/
@[simp]
theorem files_noteMixed (r : Reading) (here : Place) (qualifiers : List Qualifier) :
    (r.noteMixed here qualifiers).document.files = r.document.files := by
  unfold noteMixed
  split <;> rfl

/-- Entering a section includes no file. -/
@[simp]
theorem files_enterSection (r : Reading) (here : Place) (qualifiers : List Qualifier) :
    (r.enterSection here qualifiers).document.files = r.document.files := by
  unfold enterSection
  split
  · rfl
  · rw [files_activate, files_foldl_note]

/-- A header includes no file. -/
@[simp]
theorem files_header (r : Reading) (here : Place) :
    (r.header here).document.files = r.document.files := by
  rw [header_eq]
  split <;> simp

/-- A definition includes no file. -/
@[simp]
theorem files_define (r : Reading) (here : Place) :
    (r.define here).document.files = r.document.files := by
  unfold define
  split <;> rfl

/-- A branch includes no file. -/
@[simp]
theorem files_branch (r : Reading) (here : Place) :
    (r.branch here).document.files = r.document.files := by
  unfold branch
  split <;> rfl

/-- The end of a condition includes no file. -/
@[simp]
theorem files_closeCondition (r : Reading) (here : Place) :
    (r.closeCondition here).document.files = r.document.files := by
  unfold closeCondition
  split <;> rfl

/-- An implementation includes no file. -/
@[simp]
theorem files_library (r : Reading) (here : Place) (scopes : List Scope) :
    (r.library here scopes).document.files = r.document.files := by
  unfold library
  split <;> rfl

/-- A setting includes no file. -/
@[simp]
theorem files_pcd (r : Reading) (here : Place) (kind : SectionName) (scopes : List Scope) :
    (r.pcd here kind scopes).document.files = r.document.files := by
  unfold pcd
  split <;> rfl

/-- A line inside a block includes no file. -/
@[simp]
theorem files_insideBlock (r : Reading) (here : Place) (scopes : List Scope) (b : Block) :
    (r.insideBlock here scopes b).document.files = r.document.files := by
  unfold insideBlock
  split
  · exact files_closeBlock r scopes
  · unfold blockPart
    dsimp only
    split <;> rfl
  · unfold blockEntry
    split
    · rfl
    · split <;> rfl
    · split <;> rfl
    · rfl

/-- A line that starts a component includes no file. -/
@[simp]
theorem files_startComponent (r : Reading) (here : Place) (scopes : List Scope) :
    (r.startComponent here scopes).document.files = r.document.files := by
  have hopened : ∀ written path : Text,
      ((r.noteModule here written).openBlock here path).document.files =
        r.document.files := by
    intro written path
    unfold noteModule
    split <;> rfl
  rw [startComponent_eq]
  dsimp only
  split
  · rfl
  · split
    · exact hopened _ _
    · rw [files_closeBlock, hopened]

/-- Content includes no file. -/
@[simp]
theorem files_content (r : Reading) (here : Place) :
    (r.content here).document.files = r.document.files := by
  unfold content
  split
  · rfl
  · rename_i a _
    split
    · exact files_define r here
    · exact files_library r here a.scopes
    · unfold component
      split
      · exact files_insideBlock r here a.scopes _
      · exact files_startComponent r here a.scopes
    · rfl
    · rfl
    · rfl
    · rfl
    · exact files_pcd r here a.kind a.scopes

/-- A line that includes no file leaves the files of the document as they are. -/
theorem files_plain (r : Reading) (here : Place) (kind : LineKind) :
    (r.plain here kind).document.files = r.document.files := by
  cases kind with
  | header => exact files_header r here
  | definition => exact files_define r here
  | branch => exact files_branch r here
  | closeCondition => exact files_closeCondition r here
  | content => exact files_content r here
  | openCondition | ignored | inclusion target => rfl

/-- Closing what is open at the end leaves the files of the document as they are. -/
theorem files_finish (r : Reading) : r.finish.document.files = r.document.files := by
  unfold finish
  split
  · rfl
  · exact files_abandonBlock r _

/-- Only includes include files. -/
theorem included_plain (r : Reading) (here : Place) (kind : LineKind) :
    (r.plain here kind).document.included = r.document.included :=
  congrArg Prod.snd (files_plain r here kind)

/-- The end of the platform file includes no file. -/
theorem included_finish (r : Reading) : r.finish.document.included = r.document.included :=
  congrArg Prod.snd (files_finish r)

/-- A line that opens no file leaves the files of the document as they are. -/
theorem files_carry {s : Setting} {opened : List Path} {r r' : Reading} {here : Place}
    (h : r.effect s opened here = .carry r') : r'.document.files = r.document.files := by
  obtain ⟨cause, offending, rfl⟩ | rfl := Machine.effect_eq_carry h
  · exact files_note r here cause offending
  · exact files_plain r here _

end Reading

/-- Reading lines does not change which platform file the document is of. -/
theorem Reads.file_eq {s : Setting} {opened : List Path} {file : Path} {lines : List Line}
    {r r' : Reading} (h : Reads s opened file lines r r') : r'.document.file = r.document.file := by
  refine h.preserves (motive := fun q => q.document.file = r.document.file)
    (fun q opened here hq => ?_) rfl
  cases heffect : q.effect s opened here with
  | carry q' => exact (congrArg Prod.fst (Reading.files_carry heffect)).trans hq
  | enter target text q' =>
    obtain ⟨_, _, _, _, _, _, rfl⟩ := Machine.effect_eq_enter heffect
    exact hq

/-- The document of a file is of that file. -/
@[simp]
theorem Document.file_ofText (s : Setting) (file : Path) (text : Text) :
    (ofText s file text).file = file := by
  have hfinish : (Machine.readingOf s file text).finish.document.file =
      (Machine.readingOf s file text).document.file :=
    congrArg Prod.fst (Reading.files_finish _)
  rw [Machine.ofText_eq_finish, hfinish, (Machine.reads_readingOf s file text).file_eq]
  rfl

/-- The document of a platform file is filed under its path. -/
@[simp]
theorem Document.file_ofFile (s : Setting) (file : Path) : (ofFile s file).file = file := by
  unfold ofFile
  split
  · exact file_ofText s file _
  · rfl

end FirmwareIndex
