import FirmwareIndex.Proofs.Catalog.Declarations
import FirmwareIndex.Proofs.Catalog.Described
import FirmwareIndex.Proofs.Workspace.Discovery

/-!
# Catalogs in step with the files

`Catalog.InStep` says what a catalog knows when all files that were found have been read: the
records and documents of the files, the packages in the order of their declarations, each beside the
platform description that is known, and the libraries that all these have. So it is with the catalog
of a scan (`Catalog.inStep_described`). Catalogs that are in step with the same files know the same
(`Catalog.InStep.matches`).
-/

set_option autoImplicit false

namespace FirmwareIndex

namespace Package

/-- The package of a declaration that has looked for the platform description beside it among known
platforms. -/
def settled (ps : Platforms) (r : ModuleRecord) : Package :=
  { ofDeclaration r with
    sibling := match ps.get? (ofDeclaration r).platformPath with
      | some d => .loaded (.ofDocument d)
      | none => .absent }

/-- The platform description beside a package has the name of the declaration. -/
@[simp]
theorem platformPath_ofDeclaration (s : Sources) (file : Path) :
    (ofDeclaration (.ofFile s file)).platformPath = file.withExtension "dsc" := by
  simp [platformPath, ofDeclaration]

/-- A settled package has looked beside itself. -/
theorem sibling_settled (ps : Platforms) (r : ModuleRecord) :
    (settled ps r).sibling ≠ .unknown := by
  unfold settled
  dsimp only
  split <;> simp

/-- A package is settled in the same way if the same platform stands beside it. -/
theorem settled_congr {ps ps' : Platforms} {r : ModuleRecord}
    (h : ps'.get? (ofDeclaration r).platformPath = ps.get? (ofDeclaration r).platformPath) :
    settled ps' r = settled ps r := by
  unfold settled
  rw [h]

/-- A package that has not looked for the platform description beside it finds it among the known
platforms, unless it is elsewhere. -/
theorem loadPackage_ofDeclaration {s : Setting} {ps : Platforms} {r : ModuleRecord}
    (h : s.sources.present (ofDeclaration r).platformPath = true →
      ps.get? (ofDeclaration r).platformPath ≠ none) :
    Catalog.loadPackage s ps (ofDeclaration r) = settled ps r := by
  unfold Catalog.loadPackage settled
  cases hplatform : ps.get? (ofDeclaration r).platformPath with
  | none =>
    have habsent : s.sources.present (ofDeclaration r).platformPath = false :=
      Bool.eq_false_iff.2 fun hpresent => h hpresent hplatform
    simp only [load, habsent]
    rfl
  | some d => rfl

end Package

/-- Files as they are found below a root: in order, no place twice, and with the platform
description beside every package declaration among the platforms. -/
structure Files.Found (s : Setting) (files : Files) : Prop where
  ordered : ∀ k, Path.Ordered (files.ofKind k)
  same : ∀ j k, ∀ p ∈ files.ofKind j, ∀ q ∈ files.ofKind k, p.Same q → p = q ∧ j = k
  sibling : ∀ file ∈ files.declarations,
    s.sources.present (file.withExtension "dsc") = true →
      ∃ q ∈ files.platforms, q.Same (file.withExtension "dsc")

/-- A platform description beside a package declaration that was found is known. -/
theorem Files.Found.get?_ne_none {s : Setting} {files : Files} (h : files.Found s) {ps : Platforms}
    (hps : ps = ⟨Path.table (Document.ofFile s) files.platforms⟩) {file : Path}
    (hfile : file ∈ files.declarations)
    (hpresent : s.sources.present (file.withExtension "dsc") = true) :
    ps.get? (file.withExtension "dsc") ≠ none := by
  obtain ⟨q, hq, hsame⟩ := h.sibling file hfile hpresent
  have hordered : Path.Ordered files.platforms := h.ordered .platform
  have hkey : q.components = (file.withExtension "dsc").components := hsame
  have hentry := Path.getElem?_table_of_mem (f := Document.ofFile s) hordered.different hq
  rw [hps, Platforms.get?, ← hkey, hentry]
  simp

namespace Catalog

/-- The fingerprints are those of the files that could be read. -/
def Fingerprinted (fingerprints : PathMap Text) (s : Setting) (files : Files) : Prop :=
  ∀ (key : List Component) (v : Text), fingerprints[key]? = some v ↔
    ∃ k, ∃ q ∈ files.ofKind k, q.components = key ∧ s.fingerprint? q = some v

/-- A catalog has all that is known of files, apart from what the packages and the libraries take
from one another. -/
structure Knows (c : Catalog) (s : Setting) (files : Files) : Prop where
  modules : c.modules.Holds s.sources files.modules
  declarations : c.declarations.Holds s.sources files.declarations
  platforms : c.platforms = ⟨Path.table (Document.ofFile s) files.platforms⟩
  fingerprints : Fingerprinted c.fingerprints s files

/-- A catalog is in step with files. -/
structure InStep (c : Catalog) (s : Setting) (root : Path) (files : Files) : Prop
    extends Knows c s files where
  packages : c.packages =
    ⟨files.declarations.map fun file => .settled c.platforms (.ofFile s.sources file)⟩
  libraries : c.libraries = librariesOf root c.modules c.packages.all

/-- Finding the libraries anew brings a catalog in step, when every package is the one of its
declaration or finds the platform description that it has not looked for. -/
theorem Knows.rebuild {c : Catalog} {s : Setting} {root : Path} {files : Files}
    (h : c.Knows s files) {f : Path → Package} (hpackages : c.packages = ⟨files.declarations.map f⟩)
    (hf : ∀ file ∈ files.declarations, loadPackage s c.platforms (f file) =
      .settled c.platforms (.ofFile s.sources file)) :
    (c.rebuild s root).InStep s root files where
  modules := h.modules
  declarations := h.declarations
  platforms := h.platforms
  fingerprints := h.fingerprints
  packages := by
    rw [Catalog.rebuild, hpackages]
    exact congrArg Packages.mk (by rw [List.map_map]; exact List.map_congr_left hf)
  libraries := rfl

variable {c c' : Catalog} {s : Setting} {root : Path} {files : Files} {p : Path} {k : FileKind}

namespace InStep

/-- A settled package is that of its declaration file. -/
theorem settled_file (ps : Platforms) (s : Sources) (file : Path) :
    (Package.settled ps (.ofFile s file)).file = file ∧
      (Package.settled ps (.ofFile s file)).declaration.path = file :=
  ⟨ModuleRecord.path_ofFile s file, ModuleRecord.path_ofFile s file⟩

/-- A catalog in step with files knows each of them. -/
theorem knows (h : c.InStep s root files) (hfiles : files.Found s) (hp : p ∈ files.ofKind k) :
    c.knows p k = true := by
  have hordered : ∀ j, Path.Different (files.ofKind j) := fun j => (hfiles.ordered j).different
  cases k with
  | module =>
    have hentry := Path.getElem?_table_of_mem (f := ModuleRecord.ofFile s.sources)
      (hordered .module) hp
    have hget : c.modules.get? p = some (.ofFile s.sources p) := by
      rw [Modules.get?, h.modules.records]
      exact hentry
    simp [Catalog.knows, hget]
  | declaration =>
    have hfind : (c.packages.find? p).isSome = true := by
      rw [h.packages, Packages.find?, List.find?_isSome]
      exact ⟨_, List.mem_map_of_mem hp, decide_eq_true (congrArg Path.components
        (settled_file c.platforms s.sources p).1)⟩
    simp [Catalog.knows, hfind]
  | platform =>
    have hentry := Path.getElem?_table_of_mem (f := Document.ofFile s) (hordered .platform) hp
    have hget : c.platforms.get? p = some (.ofFile s p) := by
      rw [Platforms.get?, h.platforms]
      exact hentry
    simp [Catalog.knows, hget]

end InStep

section Scan

/-- The fingerprints of files that are read one after the other. -/
theorem getElem?_fingerprinted {paths : List Path} (hdiff : Path.Different paths)
    (m : PathMap Text) (key : List Component) (v : Text) :
    (fingerprinted s m paths)[key]? = some v ↔
      (∃ q ∈ paths, q.components = key ∧ s.fingerprint? q = some v) ∨
        (m[key]? = some v ∧ ∀ q ∈ paths, q.components ≠ key) := by
  induction paths generalizing m with
  | nil => simp [fingerprinted]
  | cons p rest ih =>
    obtain ⟨hp, hrest⟩ := List.pairwise_cons.1 hdiff
    have hcons : fingerprinted s m (p :: rest) =
        fingerprinted s (m.alter p.components fun _ => s.fingerprint? p) rest := rfl
    rw [hcons, ih hrest, Std.ExtTreeMap.getElem?_alter]
    by_cases hkey : p.components = key
    · have hothers : ∀ q ∈ rest, q.components ≠ key := by
        intro q hq heq
        exact hp q hq (hkey.trans heq.symm)
      have hnone : ¬ ∃ q ∈ rest, q.components = key ∧ s.fingerprint? q = some v := by
        rintro ⟨q, hq, heq, _⟩
        exact hothers q hq heq
      simpa [hnone, hkey] using fun _ => hothers
    · simp [hkey]

/-- The catalog of the files that were found, all of which have been read, is in step with them. -/
theorem inStep_described (hfiles : files.Found s) :
    (described s root ((Modules.empty.setFiles files.modules).load s.sources files.modules)
      files.declarations files.platforms
      (fingerprinted s ∅ (files.modules ++ files.declarations ++ files.platforms))).InStep s root
      files where
  modules := by
    refine ⟨?_, Modules.records_load _ s.sources files.modules,
      (Modules.coherent_setFiles files.modules).load s.sources files.modules⟩
    have hknown : ((Modules.empty.setFiles files.modules).load s.sources files.modules).files =
        files.modules := Modules.files_load fun _ hfile => hfile
    exact List.Perm.of_eq hknown
  declarations :=
    (Declarations.holds_empty s.sources).foldl_insert (hfiles.ordered .declaration).different
  platforms := rfl
  fingerprints key v := by
    have hdiff : Path.Different (files.modules ++ files.declarations ++ files.platforms) := by
      have hother : ∀ j k, j ≠ k → ∀ p ∈ files.ofKind j, ∀ q ∈ files.ofKind k, ¬ p.Same q :=
        fun j k hne p hp q hq hsame => hne (hfiles.same j k p hp q hq hsame).2
      refine List.pairwise_append.2 ⟨List.pairwise_append.2 ⟨(hfiles.ordered .module).different,
        (hfiles.ordered .declaration).different, ?_⟩, (hfiles.ordered .platform).different, ?_⟩
      · exact hother .module .declaration (by decide)
      · intro p hp q hq
        rcases List.mem_append.1 hp with hp | hp
        · exact hother .module .platform (by decide) p hp q hq
        · exact hother .declaration .platform (by decide) p hp q hq
    have hfingerprints := getElem?_fingerprinted (s := s) hdiff ∅ key v
    refine hfingerprints.trans ?_
    constructor
    · rintro (⟨q, hq, hkey⟩ | ⟨hnone, _⟩)
      · rcases List.mem_append.1 hq with hq | hq
        · rcases List.mem_append.1 hq with hq | hq
          · exact ⟨.module, q, hq, hkey⟩
          · exact ⟨.declaration, q, hq, hkey⟩
        · exact ⟨.platform, q, hq, hkey⟩
      · simp at hnone
    · rintro ⟨k, q, hq, hkey⟩
      refine .inl ⟨q, ?_, hkey⟩
      cases k with
      | module => exact List.mem_append_left _ (List.mem_append_left _ hq)
      | declaration => exact List.mem_append_left _ (List.mem_append_right _ hq)
      | platform => exact List.mem_append_right _ hq
  packages := by
    refine congrArg Packages.mk (List.map_congr_left ?_)
    intro file hfile
    apply Package.loadPackage_ofDeclaration
    intro hpresent
    rw [Package.platformPath_ofDeclaration] at hpresent ⊢
    exact hfiles.get?_ne_none rfl hfile hpresent
  libraries := rfl

end Scan

/-- Two catalogs know the same, apart from the order of the module files, of the owners of a source
and of the package declarations under one key. -/
structure Matches (c c' : Catalog) : Prop where
  files : c.modules.files.Perm c'.modules.files
  records : c.modules.records = c'.modules.records
  owners : ∀ source, (c.modules.ownersOf source).Perm (c'.modules.ownersOf source)
  keys : ∀ key, key ∈ c.declarations.groups ↔ key ∈ c'.declarations.groups
  declarations : ∀ key, (c.declarations.group key).Perm (c'.declarations.group key)
  packages : c.packages = c'.packages
  libraries : c.libraries = c'.libraries
  platforms : c.platforms = c'.platforms
  fingerprints : c.fingerprints = c'.fingerprints

/-- Catalogs that are in step with the same files know the same. -/
theorem InStep.matches (h : c.InStep s root files) (h' : c'.InStep s root files) :
    c.Matches c' := by
  have hrecords : c.modules.records = c'.modules.records :=
    h.modules.records.trans h'.modules.records.symm
  have hplatforms : c.platforms = c'.platforms := h.platforms.trans h'.platforms.symm
  have hpackages : c.packages = c'.packages := by
    rw [h.packages, h'.packages, hplatforms]
  refine ⟨h.modules.known.trans h'.modules.known.symm, hrecords,
    h.modules.coherent.ownersOf_perm h'.modules.coherent hrecords,
    h.declarations.mem_groups_iff h'.declarations, h.declarations.group_perm h'.declarations,
    hpackages, ?_, hplatforms, ?_⟩
  · rw [h.libraries, h'.libraries, hpackages, librariesOf_congr hrecords]
  · apply Std.ExtTreeMap.ext_getElem?
    intro key
    apply Option.ext
    intro v
    rw [h.fingerprints, h'.fingerprints]

end Catalog

end FirmwareIndex
