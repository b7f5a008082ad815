import FirmwareIndex.Proofs.Platform.Continued
import FirmwareIndex.Source.FileSet

/-!
# Documents grow at their ends

Reading a line adds to the ends of the lists of a document and never changes what is in them: an
entry carries its value with the macros expanded, so a later definition does not reach it. This
holds of every line (`Reading.begins_effect`), hence of every reading (`Reads.begins`). So what is
read up to the end of a complete text begins the document of each text that goes on from there
(`Document.begins_ofText_append`). The end of a platform file adds something of its own only if a
block is still open; otherwise the document of the first text begins that of the longer one
(`Document.begins_append`).
-/

set_option autoImplicit false

namespace FirmwareIndex

/-- One document begins another of the same file: each of its lists is the start of the same list of
the other one. -/
structure Document.Begins (d d' : Document) : Prop where
  file : d.file = d'.file
  definitions : d.definitions <+: d'.definitions
  libraries : d.libraries <+: d'.libraries
  components : d.components <+: d'.components
  pcds : d.pcds <+: d'.pcds
  buildOptions : d.buildOptions <+: d'.buildOptions
  skuIds : d.skuIds <+: d'.skuIds
  included : d.included <+: d'.included
  problems : d.problems <+: d'.problems

namespace Document.Begins

/-- Every document begins itself. -/
theorem refl (d : Document) : d.Begins d where
  file := rfl
  definitions := List.prefix_rfl
  libraries := List.prefix_rfl
  components := List.prefix_rfl
  pcds := List.prefix_rfl
  buildOptions := List.prefix_rfl
  skuIds := List.prefix_rfl
  included := List.prefix_rfl
  problems := List.prefix_rfl

/-- What begins the beginning of a document begins the document. -/
theorem trans {d d' d'' : Document} (h : d.Begins d') (h' : d'.Begins d'') : d.Begins d'' where
  file := h.file.trans h'.file
  definitions := h.definitions.trans h'.definitions
  libraries := h.libraries.trans h'.libraries
  components := h.components.trans h'.components
  pcds := h.pcds.trans h'.pcds
  buildOptions := h.buildOptions.trans h'.buildOptions
  skuIds := h.skuIds.trans h'.skuIds
  included := h.included.trans h'.included
  problems := h.problems.trans h'.problems

/-- A document begins what comes of it when another one follows. -/
theorem followedBy (d e : Document) : d.Begins (d.followedBy e) where
  file := rfl
  definitions := List.prefix_append _ _
  libraries := List.prefix_append _ _
  components := List.prefix_append _ _
  pcds := List.prefix_append _ _
  buildOptions := List.prefix_append _ _
  skuIds := List.prefix_append _ _
  included := List.prefix_append _ _
  problems := List.prefix_append _ _

end Document.Begins

namespace Reading

/-- A line adds to the ends of the lists of the document, also if it opens a file. -/
theorem begins_effect (r : Reading) (here : Place) (s : Setting) (opened : List Path) :
    r.document.Begins (r.effect s opened here).reading.document := by
  rw [document_effect]
  exact .followedBy _ _

/-- Closing what is open at the end adds to the ends of the lists of the document. -/
theorem begins_finish (r : Reading) : r.document.Begins r.finish.document := by
  rw [document_finish]
  exact .followedBy _ _

/-- Where no block is open, nothing is left to be closed. -/
theorem finish_of_block_eq_none {r : Reading} (h : r.block = none) : r.finish = r := by
  rw [finish, h]

end Reading

/-- What a reading starts from begins what it leads to. -/
theorem Reads.begins {s : Setting} {opened : List Path} {file : Path} {lines : List Line}
    {r r' : Reading} (h : Reads s opened file lines r r') : r.document.Begins r'.document :=
  h.preserves (motive := fun next => r.document.Begins next.document)
    (fun next opened here hnext => hnext.trans (Reading.begins_effect next here s opened))
    (.refl r.document)

/-- A text that goes on after a complete one is read on from where the complete one has led. -/
theorem Machine.reads_readingOf_append (s : Setting) (file : Path) {front : Text}
    (h : Line.Complete front) (back : Text) :
    Reads s [] file ((Line.ofText back).map (Line.moved (Line.breaks front)))
      (readingOf s file front) (readingOf s file (front ++ back)) := by
  have hwhole := reads_readingOf s file (front ++ back)
  rw [h.ofText_append] at hwhole
  obtain ⟨r, hfront, hback⟩ := Reads.append_iff.1 hwhole
  rwa [readingOf_eq hfront]

namespace Document

/-- What has been read at the end of a complete text begins the document of each text that goes on
from there, whatever is still open. -/
theorem begins_ofText_append (s : Setting) (file : Path) {front : Text} (h : Line.Complete front)
    (back : Text) :
    (Machine.readingOf s file front).document.Begins (ofText s file (front ++ back)) := by
  rw [Machine.ofText_eq_finish]
  exact (Machine.reads_readingOf_append s file h back).begins.trans (Reading.begins_finish _)

/-- Later text never changes what has been read. If a complete text leaves no block open, its
document begins that of each text that goes on after it. -/
theorem begins_append (s : Setting) (file : Path) {front : Text} (h : Line.Complete front)
    (hclosed : (Machine.readingOf s file front).block = none) (back : Text) :
    (ofText s file front).Begins (ofText s file (front ++ back)) := by
  rw [Machine.ofText_eq_finish s file front, Reading.finish_of_block_eq_none hclosed]
  exact begins_ofText_append s file h back

/-- A workspace with a file that defines the directory of a library. -/
def definedDirectory : Setting :=
  ⟨(FileSet.empty.write ⟨"/ws/x.inc"⟩ "DEFINE D = Core\n").sources, some ⟨"/ws"⟩⟩

/-- A text that refers to the directory of the library. -/
def directoryText : Text :=
  "!include x.inc\n[LibraryClasses]\nA|$(D)/A.inf\n"

/-- The text goes on with another definition of the directory, and leaves a block open. -/
def directoryRedefined : Text :=
  "DEFINE D = Other\n[Components]\nB/B.inf \x7b\n"

/-- The entry of the library stays as it is although the directory is defined anew after it. -/
theorem begins_append_directoryRedefined :
    (ofText definedDirectory ⟨"/ws/p.dsc"⟩ directoryText).Begins
        (ofText definedDirectory ⟨"/ws/p.dsc"⟩ (directoryText ++ directoryRedefined)) ∧
      (ofText definedDirectory ⟨"/ws/p.dsc"⟩
        (directoryText ++ directoryRedefined)).libraries.map Override.path =
          ["Core/A.inf".toList] := by
  have hclosed :
      (Machine.readingOf definedDirectory ⟨"/ws/p.dsc"⟩ directoryText).block = none := by
    decide +kernel
  have hcomplete : Line.Complete directoryText :=
    .inr ⟨"!include x.inc\n[LibraryClasses]\nA|$(D)/A.inf", "A|$(D)/A.inf", by decide, by decide,
      by decide⟩
  exact ⟨begins_append _ _ hcomplete hclosed _, by decide +kernel⟩

end Document

end FirmwareIndex
