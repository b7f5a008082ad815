import FirmwareIndex.Platform.Block
import FirmwareIndex.Platform.LineKind
import FirmwareIndex.Platform.Macros
import FirmwareIndex.Section.Line

/-!
# Reading lines

While a platform description is read, five things are carried from line to line and across the
borders of files: the document so far, the active section, the conditions that are open, the
macros and the component block that is open. Conditions are noted and never decided, so the lines
of every branch are read.
-/

set_option autoImplicit false

namespace FirmwareIndex

/-- A logical line and the file it stands in. -/
structure Place where
  file : Path
  line : Line
deriving DecidableEq, Repr

/-- What is carried from line to line. -/
structure Reading where
  document : Document
  active : Option Active
  conditions : List Text
  macros : Macros
  block : Option Block
deriving DecidableEq

namespace Reading

/-- The name of the macro that stands for the root of the workspace. -/
def workspaceMacro : Text :=
  "WORKSPACE"

/-- What is carried to the first line: the macro for the root is known, if there is a root. -/
def start (file : Path) (root : Option Path) : Reading where
  document := .empty file
  active := none
  conditions := []
  macros := match root with
    | none => ∅
    | some r => (∅ : Macros).insert workspaceMacro r.text
  block := none

/-- The conditions that are open, in one text. -/
def context (r : Reading) : Option Text :=
  if r.conditions = [] then none else some (" && ".toList.intercalate r.conditions)

/-- The location of entries and problems on a line. -/
def location (r : Reading) (here : Place) : Location :=
  ⟨here.file, here.line.number, none, r.context⟩

/-- Notes a problem on a line. -/
def note (r : Reading) (here : Place) (cause : Cause) (offending : Text) : Reading :=
  { r with document := { r.document with
      problems := r.document.problems ++ [⟨r.location here, cause, offending, here.line.raw⟩] } }

/-- Closes the open block, if any, with a component for each scope. -/
def closeBlock (r : Reading) (scopes : List Scope) : Reading :=
  match r.block with
  | none => r
  | some b =>
    { r with
      block := none
      document := { r.document with
        components := r.document.components ++ scopes.map b.component } }

/-- Closes a block that is still open at the end of its section. -/
def abandonBlock (r : Reading) (here : Place) : Reading :=
  match r.block with
  | none => r
  | some b =>
    (r.note here (.openBlock b.path) here.line.text).closeBlock
      ((r.active.map Active.scopes).getD [.common])

/-- Makes a section active, or none. -/
def activate (r : Reading) (active : Option Active) : Reading :=
  { r with active := active }

/-- Reads a header. It closes an open block, and makes its section active unless a name in it is
unknown. -/
def header (r : Reading) (here : Place) : Reading :=
  let r := r.abandonBlock here
  let body := Text.trim (Header.body here.line.text)
  if body = [] then (r.note here .emptyHeader here.line.text).activate none
  else
    let qualifiers := Qualifier.ofBody body
    let r := match Qualifier.mismatch? qualifiers with
      | none => r
      | some (first, other) => r.note here (.mixedSections first other) other
    match Qualifier.unknown qualifiers with
    | [] => r.activate (Active.ofQualifiers? qualifiers)
    | names =>
      (names.foldl (fun r name => r.note here (.unknownSection name) name) r).activate none

/-- Reads a definition. Its value is expanded with the macros known before it. -/
def define (r : Reading) (here : Place) : Reading :=
  match Entry.definition? here.line.text with
  | none => r.note here .badDefinition here.line.text
  | some (name, value) =>
    let value := r.macros.expand value
    { r with
      macros := r.macros.insert name value
      document := { r.document with
        definitions := r.document.definitions ++ [⟨name, value, r.location here⟩] } }

/-- Reads the start of a condition. -/
def openCondition (r : Reading) (here : Place) : Reading :=
  { r with conditions := r.conditions ++ [here.line.text] }

/-- Reads another branch, which takes the place of the innermost condition. -/
def branch (r : Reading) (here : Place) : Reading :=
  if r.conditions = [] then r.note here .branchOutside here.line.text
  else { r with conditions := r.conditions.dropLast ++ [here.line.text] }

/-- Reads the end of the innermost condition. -/
def closeCondition (r : Reading) (here : Place) : Reading :=
  if r.conditions = [] then r.note here .endOutside here.line.text
  else { r with conditions := r.conditions.dropLast }

/-- Reads the choice of an implementation for the whole platform. -/
def library (r : Reading) (here : Place) (scopes : List Scope) : Reading :=
  match Entry.libraryClass? here.line.text with
  | none => r.note here .badLibrary here.line.text
  | some l =>
    let path := r.macros.expand l.path
    { r with document := { r.document with
        libraries := r.document.libraries ++ scopes.map fun s =>
          ⟨s.arch, s.moduleType, l.className, path, r.location here⟩ } }

/-- Reads a line of build options for the whole platform. -/
def buildOption (r : Reading) (here : Place) (scopes : List Scope) : Reading :=
  { r with document := { r.document with
      buildOptions := r.document.buildOptions ++ scopes.map fun s =>
        ⟨s.arch, here.line.text, r.location here⟩ } }

/-- Reads a line on variants of the platform. -/
def skuId (r : Reading) (here : Place) : Reading :=
  { r with document := { r.document with
      skuIds := r.document.skuIds ++ [here.line.text] } }

/-- Reads a setting for the whole platform. -/
def pcd (r : Reading) (here : Place) (kind : SectionName) (scopes : List Scope) : Reading :=
  match PcdEntry.ofText? here.line.text with
  | none => r.note here .badPcd here.line.text
  | some e =>
    { r with document := { r.document with
        pcds := r.document.pcds ++ scopes.map fun s => e.setting kind (r.location here) s.arch } }

/-- Reads the name of a part of the open block. -/
def blockPart (r : Reading) (here : Place) (b : Block) : Reading :=
  let name := BlockPart.nameOf here.line.text
  match BlockPart.ofName? name with
  | some part => { r with block := some { b with part := part } }
  | none =>
    { r.note here (.unknownSubsection name) name with block := some { b with part := .outside } }

/-- Reads an entry of the open block. -/
def blockEntry (r : Reading) (here : Place) (b : Block) : Reading :=
  match b.part with
  | .outside => r.note here .outsideSubsection here.line.text
  | .libraries =>
    match Entry.libraryClass? here.line.text with
    | none => r.note here .badLibrary here.line.text
    | some l =>
      let entry := { l with path := r.macros.expand l.path }
      { r with block := some { b with libraries := b.libraries ++ [entry] } }
  | .pcds kind =>
    match PcdEntry.ofText? here.line.text with
    | none => r.note here .badPcd here.line.text
    | some e => { r with block := some { b with pcds := b.pcds ++ [⟨kind, e, r.location here⟩] } }
  | .buildOptions =>
    { r with block := some { b with buildOptions := b.buildOptions ++ [here.line.text] } }

/-- Reads a line inside the open block. -/
def insideBlock (r : Reading) (here : Place) (scopes : List Scope) (b : Block) : Reading :=
  match here.line.text with
  | '\x7d' :: _ => r.closeBlock scopes
  | '<' :: _ => r.blockPart here b
  | _ => r.blockEntry here b

/-- Whether a character may stand in the path of a component: it is no blank and opens no block. -/
def isPathPart (c : Char) : Bool :=
  !Text.isBlank c && c != '\x7b'

/-- Reads a line that starts a component. A block that is opened and closed on this line says
nothing. -/
def startComponent (r : Reading) (here : Place) (scopes : List Scope) : Reading :=
  let written := here.line.text.takeWhile isPathPart
  let rest := here.line.text.dropWhile isPathPart
  if written = [] then r.note here .noComponentPath here.line.text
  else
    let path := r.macros.expand written
    let r := if Entry.isModulePath path then r else r.note here .notModule written
    let opened := { r with block := some (.start path (r.location here)) }
    if rest.contains '\x7b' && !rest.contains '\x7d' then opened else opened.closeBlock scopes

/-- Reads a line of a section of components. -/
def component (r : Reading) (here : Place) (scopes : List Scope) : Reading :=
  match r.block with
  | some b => r.insideBlock here scopes b
  | none => r.startComponent here scopes

/-- Reads a line of the active section. -/
def content (r : Reading) (here : Place) : Reading :=
  match r.active with
  | none => r.note here .noSection here.line.text
  | some a =>
    match a.kind with
    | .defines => r.define here
    | .libraryClasses => r.library here a.scopes
    | .components => r.component here a.scopes
    | .buildOptions => r.buildOption here a.scopes
    | .skuIds => r.skuId here
    | .userExtensions | .defaultStores => r
    | kind => r.pcd here kind a.scopes

/-- Closes a block that is still open at the end of the platform file. The problem stands at the
line of its component. -/
def finish (r : Reading) : Reading :=
  match r.block with
  | none => r
  | some b => r.abandonBlock ⟨b.location.file, ⟨b.location.line, b.path, b.path⟩⟩

end Reading

end FirmwareIndex
