import FirmwareIndex.Proofs.Catalog.Described
import FirmwareIndex.Source.FileSet

/-!
# Modules that are read when they are asked for

The list of known files is set once, without repetitions, and the modules are read when those below
a directory are asked for. Whatever records are put in and taken out in the meantime, every stored
record is that of a known file (`Modules.Listed`), so that asking gives one record for each known
file below the directory: the stored one, or else what the file says now (`Modules.loaded_eq`).
Nothing that is stored is read again, and asking a second time reads nothing at all
(`Modules.loads_run`).
-/

set_option autoImplicit false

namespace FirmwareIndex

/-- Whether a place is below a directory does not depend on its spelling. -/
theorem Path.isUnder_congr {p q : Path} (h : p.Same q) (root : Path) :
    p.isUnder root = q.isUnder root := by
  have hcomponents : p.components = q.components := h
  rw [isUnder, isUnder, hcomponents]

namespace Modules

/-- What can be done to the modules once the list of known files has been set. Any record may be put
in, whether it comes from reading a file or not. -/
inductive Step where
  | insert (r : ModuleRecord)
  | remove (path : Path)
  | forget (path : Path)
  | loadUnder (s : Sources) (root : Path)

/-- The modules after a step. -/
def Step.apply (m : Modules) : Step → Modules
  | insert r => m.insert r
  | remove path => m.remove path
  | forget path => m.forget path
  | loadUnder s root => m.loadUnder s root

/-- The records that asking for the modules below a directory gives. -/
def loaded (m : Modules) (s : Sources) (root : Path) : List ModuleRecord :=
  (m.loadUnder s root).recordsUnder root

/-- Every stored record is that of a file, and the file is known. The known files are different
places. -/
structure Listed (m : Modules) : Prop where
  different : Path.Different m.files
  keyed : ∀ (p : Path) (r : ModuleRecord), m.get? p = some r → r.path.Same p
  known : ∀ (p : Path) (r : ModuleRecord), m.get? p = some r → ∃ file ∈ m.files, file.Same p

/-- Asking for the modules below a directory reads those that are not stored, and no others. -/
structure Loads (m : Modules) (s : Sources) (root : Path) : Prop where
  files : (m.loadUnder s root).files = m.files
  /-- One record is given for each known file below the directory, in the order of the files: the
  stored one, or else what the file says now. -/
  loaded : m.loaded s root = (m.filesUnder root).map fun file => (m.get? file).getD (.ofFile s file)
  paths : List.Forall₂ Path.Same ((m.loaded s root).map ModuleRecord.path) (m.filesUnder root)
  /-- These are all the modules below the directory that are stored afterwards. -/
  mem_loaded : ∀ r : ModuleRecord, r ∈ m.loaded s root ↔
    (m.loadUnder s root).get? r.path = some r ∧ r.path.isUnder root
  /-- What is stored is kept, whatever its file says now. -/
  kept : ∀ (p : Path) (r : ModuleRecord), m.get? p = some r →
    (m.loadUnder s root).get? p = some r
  /-- Asking again changes nothing, whatever the files say then. -/
  again : ∀ s' : Sources, (m.loadUnder s root).loadUnder s' root = m.loadUnder s root
  loaded_again : ∀ s' : Sources, (m.loadUnder s root).loaded s' root = m.loaded s root

variable {m : Modules} {s : Sources} {files : List Path} {root : Path}

/-- Reading files leaves the records of others as they are. -/
theorem get?_load_of_forall {p : Path} (h : ∀ file ∈ files, ¬ file.Same p) (m : Modules)
    (s : Sources) : (m.load s files).get? p = m.get? p := by
  induction files generalizing m with
  | nil => rfl
  | cons file rest ih =>
    obtain ⟨hfile, hrest⟩ := List.forall_mem_cons.1 h
    have hnext := get?_insert m (.ofFile s file) p
    rw [ModuleRecord.path_ofFile, if_neg hfile] at hnext
    exact (ih hrest _).trans hnext

/-- Of files that are different places each is read once. -/
theorem get?_load_of_mem (hfiles : Path.Different files) {file : Path} (hfile : file ∈ files)
    (m : Modules) (s : Sources) : (m.load s files).get? file = some (.ofFile s file) := by
  induction files generalizing m with
  | nil => cases hfile
  | cons first rest ih =>
    obtain ⟨hfirst, hrest⟩ := List.pairwise_cons.1 hfiles
    rcases List.mem_cons.1 hfile with rfl | hmem
    · have hsame : file.Same file := rfl
      have hnext := get?_insert m (.ofFile s file) file
      rw [ModuleRecord.path_ofFile, if_pos hsame] at hnext
      exact (get?_load_of_forall (fun other hother hsame => hfirst other hother hsame.symm) _ s).trans
        hnext
    · exact ih hrest hmem _

/-- Reading the modules below a directory lists no other files. -/
theorem files_loadUnder (m : Modules) (s : Sources) (root : Path) :
    (m.loadUnder s root).files = m.files :=
  files_load fun _ hfile => mem_files_of_mem_pending hfile

/-- Reading the modules below a directory lists no other files below it. -/
theorem filesUnder_loadUnder (m : Modules) (s : Sources) (root : Path) :
    (m.loadUnder s root).filesUnder root = m.filesUnder root := by
  rw [filesUnder, files_loadUnder, filesUnder]

/-- What is stored is not read again. -/
theorem get?_loadUnder_of_eq_some {p : Path} {r : ModuleRecord} (h : m.get? p = some r)
    (s : Sources) (root : Path) : (m.loadUnder s root).get? p = some r := by
  have hother : ∀ file ∈ m.pending root, ¬ file.Same p := by
    intro file hfile hsame
    have hnone := (mem_pending.1 hfile).2
    rw [m.get?_congr hsame, h] at hnone
    cases hnone
  exact (get?_load_of_forall hother m s).trans h

/-- A known file below the directory has a record once it has been asked for. -/
theorem get?_loadUnder_of_mem (h : Path.Different m.files) {file : Path}
    (hfile : file ∈ m.filesUnder root) (s : Sources) :
    (m.loadUnder s root).get? file = some ((m.get? file).getD (.ofFile s file)) := by
  cases hstored : m.get? file with
  | some r => exact get?_loadUnder_of_eq_some hstored s root
  | none =>
    have hpending : Path.Different (m.pending root) := (h.filter _).filter _
    exact get?_load_of_mem hpending (mem_pending.2 ⟨hfile, hstored⟩) m s

/-- The answer has a record for each file below the directory: the stored one, or the one that is
read now. -/
theorem loaded_eq (h : Path.Different m.files) (s : Sources) (root : Path) :
    m.loaded s root = (m.filesUnder root).map fun file => (m.get? file).getD (.ofFile s file) := by
  rw [loaded, recordsUnder, filesUnder_loadUnder, ← List.filterMap_eq_map]
  exact List.filterMap_congr fun file hfile => get?_loadUnder_of_mem h hfile s

/-- Nothing is left to be read below the directory. -/
theorem pending_loadUnder (h : Path.Different m.files) (s : Sources) (root : Path) :
    (m.loadUnder s root).pending root = [] := by
  refine List.eq_nil_iff_forall_not_mem.2 fun file hfile => ?_
  obtain ⟨hfile, hnone⟩ := mem_pending.1 hfile
  rw [filesUnder_loadUnder] at hfile
  rw [get?_loadUnder_of_mem h hfile s] at hnone
  cases hnone

/-- Asking a second time reads nothing, even if the files have changed. -/
theorem loadUnder_loadUnder (h : Path.Different m.files) (s s' : Sources) (root : Path) :
    (m.loadUnder s root).loadUnder s' root = m.loadUnder s root := by
  rw [loadUnder, pending_loadUnder h]
  rfl

namespace Listed

/-- Different places are a list of known files. -/
theorem setFiles (h : Path.Different files) : (empty.setFiles files).Listed where
  different := h
  keyed := by simp [Modules.setFiles, get?, empty]
  known := by simp [Modules.setFiles, get?, empty]

/-- A record that is put in is that of a known file from then on. -/
theorem insert (h : m.Listed) (r : ModuleRecord) : (m.insert r).Listed where
  different := by
    rw [files_insert]
    exact h.different.addNew r.path
  keyed p other hp := by
    rw [get?_insert] at hp
    split at hp
    · rename_i hsame
      exact Option.some.inj hp ▸ hsame
    · exact h.keyed p other hp
  known p other hp := by
    rw [files_insert, Path.exists_mem_addNew_same]
    rw [get?_insert] at hp
    split at hp
    · rename_i hsame
      exact .inr hsame
    · exact .inl (h.known p other hp)

/-- Records may be taken out, and files that have no record afterwards. -/
theorem of_stored {m' : Modules} (h : m.Listed) (hdifferent : Path.Different m'.files)
    (hstored : ∀ p r, m'.get? p = some r →
      m.get? p = some r ∧ ∀ file ∈ m.files, file.Same p → file ∈ m'.files) : m'.Listed where
  different := hdifferent
  keyed p r hp := h.keyed p r (hstored p r hp).1
  known p r hp := by
    obtain ⟨hp, hkept⟩ := hstored p r hp
    obtain ⟨file, hfile, hsame⟩ := h.known p r hp
    exact ⟨file, hkept file hfile hsame, hsame⟩

/-- Taking out a record keeps the list as it was promised. -/
theorem remove (h : m.Listed) (path : Path) : (m.remove path).Listed := by
  refine h.of_stored ?_ fun p r hp => ⟨(get?_remove_eq_some.1 hp).1, fun file hfile _ => ?_⟩
  · rw [files_remove]
    exact h.different
  · rwa [files_remove]

/-- Forgetting a file keeps the list as it was promised. -/
theorem forget (h : m.Listed) (path : Path) : (m.forget path).Listed := by
  refine h.of_stored ?_ fun p r hp => ?_
  · rw [Modules.forget, files_remove]
    exact h.different.filter _
  · obtain ⟨hp, hother⟩ := get?_remove_eq_some.1 hp
    refine ⟨hp, fun file hfile hsame => ?_⟩
    have hkept : ¬ file.Same path := fun hpath => hother (Eq.trans hpath.symm hsame)
    rw [Modules.forget, files_remove]
    exact List.mem_filter.2 ⟨hfile, decide_eq_true hkept⟩

/-- Reading files keeps the list as it was promised. -/
theorem load (h : m.Listed) (s : Sources) (files : List Path) : (m.load s files).Listed :=
  List.foldlRecOn files _ h fun _ hnext file _ => hnext.insert (.ofFile s file)

/-- Reading the files below a directory keeps the list as it was promised. -/
theorem loadUnder (h : m.Listed) (s : Sources) (root : Path) : (m.loadUnder s root).Listed :=
  h.load s (m.pending root)

/-- Whatever is done keeps the list as it was promised. -/
theorem step (h : m.Listed) (step : Step) : (step.apply m).Listed := by
  cases step with
  | insert r => exact h.insert r
  | remove path => exact h.remove path
  | forget path => exact h.forget path
  | loadUnder s root => exact h.loadUnder s root

/-- The records of the files below a directory are those that are stored of paths below it. -/
theorem mem_recordsUnder_iff (h : m.Listed) (root : Path) (r : ModuleRecord) :
    r ∈ m.recordsUnder root ↔ m.get? r.path = some r ∧ r.path.isUnder root := by
  rw [recordsUnder, List.mem_filterMap]
  constructor
  · rintro ⟨file, hfile, hr⟩
    have hsame := h.keyed file r hr
    rw [m.get?_congr hsame, Path.isUnder_congr hsame]
    exact ⟨hr, (mem_filesUnder.1 hfile).2⟩
  · rintro ⟨hr, hunder⟩
    obtain ⟨file, hfile, hsame⟩ := h.known r.path r hr
    refine ⟨file, mem_filesUnder.2 ⟨hfile, ?_⟩, ?_⟩
    · rwa [Path.isUnder_congr hsame]
    · rwa [m.get?_congr hsame]

/-- Where the list is as promised, asking for modules reads what is not stored, and nothing else. -/
theorem loads (h : m.Listed) (s : Sources) (root : Path) : m.Loads s root where
  files := files_loadUnder m s root
  loaded := loaded_eq h.different s root
  paths := by
    rw [loaded_eq h.different, List.map_map, List.forall₂_map_left_iff, List.forall₂_same]
    intro file _
    rw [Function.comp_apply]
    cases hstored : m.get? file with
    | none => exact congrArg Path.components (ModuleRecord.path_ofFile s file)
    | some r => exact h.keyed file r hstored
  mem_loaded := (h.loadUnder s root).mem_recordsUnder_iff root
  kept _ _ hstored := get?_loadUnder_of_eq_some hstored s root
  again s' := loadUnder_loadUnder h.different s s' root
  loaded_again s' := by
    rw [loaded, loadUnder_loadUnder h.different, loaded]

/-- Whatever is done, one thing after the other, keeps the list as it was promised. -/
theorem foldl (h : m.Listed) (steps : List Step) : (steps.foldl Step.apply m).Listed :=
  List.foldlRecOn steps _ h fun _ hnext step _ => hnext.step step

end Listed

/-- Once the list of known files has been set, without repetitions, all stored records are of known
files after any steps, and asking for the modules below a directory gives one record for each known
file, reads nothing that is stored, and leaves nothing to be read. -/
theorem loads_run (h : Path.Different files) (steps : List Step) :
    (steps.foldl Step.apply (empty.setFiles files)).Listed ∧
      ∀ (s : Sources) (root : Path),
        (steps.foldl Step.apply (empty.setFiles files)).Loads s root := by
  have hlisted := (Listed.setFiles h).foldl steps
  exact ⟨hlisted, hlisted.loads⟩

/-- Two known modules. -/
def twoModules : List Path :=
  [⟨"/ws/a/A.inf"⟩, ⟨"/ws/B.inf"⟩]

/-- One of the modules is read while its file is there, and the other one is forgotten. The record of
a third one is put in and taken out. -/
def readOnce : List Step :=
  [.loadUnder (FileSet.empty.write ⟨"/ws/a/A.inf"⟩ "[Sources]\nA.c\n").sources ⟨"/ws/a"⟩,
    .insert (.empty ⟨"/ws/C.inf"⟩), .forget ⟨"/ws/B.inf"⟩, .remove ⟨"/ws//C.inf"⟩]

/-- The module that has been read keeps its source when its file is gone, and the one that has been
taken out is given again. -/
theorem loads_readOnce :
    ((readOnce.foldl Step.apply (empty.setFiles twoModules)).Listed ∧
      (readOnce.foldl Step.apply (empty.setFiles twoModules)).Loads FileSet.empty.sources
        ⟨"/ws"⟩) ∧
      ((readOnce.foldl Step.apply (empty.setFiles twoModules)).loaded FileSet.empty.sources
        ⟨"/ws"⟩).map (fun r => (r.path, r.sources)) =
          [(⟨"/ws/a/A.inf"⟩, [⟨"/ws/a/A.c"⟩]), (⟨"/ws/C.inf"⟩, [])] := by
  have hfiles : Path.Different twoModules := by
    simp only [Path.Different, twoModules, List.pairwise_pair]
    decide
  obtain ⟨hlisted, hloads⟩ := loads_run hfiles readOnce
  exact ⟨⟨hlisted, hloads _ _⟩, by decide +kernel⟩

end Modules

end FirmwareIndex
