import FirmwareIndex.Proofs.Platform.View
import FirmwareIndex.Proofs.Section.Lines

/-!
# What is said, wherever it stands

`Reading.said` forgets the file and the line of every place in a reading, and the list of included
files; all the rest, in its order, stays. This is what a view sees that looks at conditions alone,
so reading a line commutes with it (`Reading.said_plain`).
-/

set_option autoImplicit false

namespace FirmwareIndex

/-- The place without its file and its line. -/
def Location.said (l : Location) : Location :=
  { l with file := ⟨[]⟩, line := 0 }

/-- The definition without its place. -/
def Definition.said (d : Definition) : Definition :=
  { d with location := d.location.said }

/-- The override without its place. -/
def Override.said (o : Override) : Override :=
  { o with location := o.location.said }

/-- The setting without its place. -/
def PcdSetting.said (p : PcdSetting) : PcdSetting :=
  { p with location := p.location.said }

/-- The component without the places in it. -/
def BuiltModule.said (m : BuiltModule) : BuiltModule :=
  { m with
    overrides := m.overrides.map Override.said
    pcds := m.pcds.map PcdSetting.said
    location := m.location.said }

/-- The line of build options without its place. -/
def BuildOption.said (o : BuildOption) : BuildOption :=
  { o with location := o.location.said }

/-- The problem without its place. -/
def Problem.said (p : Problem) : Problem :=
  { p with location := p.location.said }

/-- The document without the places in it and without the included files. -/
def Document.said (d : Document) : Document where
  file := d.file
  definitions := d.definitions.map Definition.said
  libraries := d.libraries.map Override.said
  components := d.components.map BuiltModule.said
  pcds := d.pcds.map PcdSetting.said
  buildOptions := d.buildOptions.map BuildOption.said
  skuIds := d.skuIds
  included := []
  problems := d.problems.map Problem.said

/-- The setting of a block without its place. -/
def BlockPcd.said (p : BlockPcd) : BlockPcd :=
  { p with location := p.location.said }

/-- The open block without the places in it. -/
def Block.said (b : Block) : Block :=
  { b with location := b.location.said, pcds := b.pcds.map BlockPcd.said }

/-- The reading without the places in it and without the included files. -/
def Reading.said (r : Reading) : Reading :=
  { r with document := r.document.said, block := r.block.map Block.said }

/-- The line without its number. -/
def Line.said (l : Line) : Line :=
  { l with number := 0 }

/-- The line of a place without its number, in no file. -/
def Place.said (p : Place) : Place :=
  ⟨⟨[]⟩, p.line.said⟩

/-- Lines say the same wherever they are moved. -/
theorem Line.map_said_moved (n : Nat) (lines : List Line) :
    (lines.map (moved n)).map said = lines.map said := by
  rw [List.map_map]
  exact List.map_congr_left fun _ _ => rfl

/-- Lines that say the same have the same text. -/
theorem Line.text_eq_of_said {l l' : Line} (h : l.said = l'.said) : l.text = l'.text := by
  have htext := congrArg Line.text h
  exact htext

/-- The view that looks at conditions alone. -/
def View.said : View :=
  ⟨false, true, false⟩

/-- What a place says is what a view of conditions alone sees of it. -/
theorem Place.said_eq_seen (p : Place) : p.said = p.seen .said :=
  rfl

namespace Reading

/-- What a reading says is what a view of conditions alone sees of it. -/
theorem said_eq_seen (r : Reading) : r.said = r.seen .said :=
  rfl

/-- A file that is included says nothing itself. -/
@[simp]
theorem said_visit (r : Reading) (file : Path) : (r.visit file).said = r.said :=
  rfl

/-- A problem is noted without its place. -/
theorem said_note (r : Reading) (here : Place) (cause : Cause) (offending : Text) :
    (r.note here cause offending).said = r.said.note here.said cause offending :=
  seen_note (v := .said) r here offending (.inl rfl)

/-- Reading a line that includes no file commutes with forgetting places. -/
theorem said_plain (r : Reading) (here : Place) (kind : LineKind) :
    (r.plain here kind).said = r.said.plain here.said kind := by
  rw [said_eq_seen, said_eq_seen, Place.said_eq_seen]
  exact seen_plain r here (.inl rfl)

/-- Closing what is open at the end commutes with forgetting places. -/
theorem said_finish (r : Reading) : r.finish.said = r.said.finish :=
  seen_finish (v := .said) r

/-- Readings that say the same are finished with documents that say the same. -/
theorem said_finish_document {r q : Reading} (h : r.said = q.said) :
    r.finish.document.said = q.finish.document.said := by
  have hfinish : r.finish.said = q.finish.said := by rw [said_finish, said_finish, h]
  have hdocument := congrArg Reading.document hfinish
  exact hdocument

end Reading

end FirmwareIndex
