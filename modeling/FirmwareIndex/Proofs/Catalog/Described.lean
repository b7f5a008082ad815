import FirmwareIndex.Catalog.Update
import FirmwareIndex.Proofs.Catalog.Modules
import FirmwareIndex.Proofs.Platform.Visited

/-!
# The catalog of build files

`Catalog.described` says what is in the catalog of a workspace, in terms of the files that have been
read and without regard to the order in which their outcomes were taken in. A catalog made from
outcomes is of this form (`Catalog.ofOutcomes_eq`), and it stays so when more modules are read
(`Catalog.rebuild_described`).
-/

set_option autoImplicit false

namespace FirmwareIndex

namespace Modules

variable {m : Modules} {s : Sources} {files : List Path}

/-- Reads modules one after the other. -/
def load (s : Sources) (m : Modules) (files : List Path) : Modules :=
  files.foldl (fun m file => m.insert (.ofFile s file)) m

/-- Files are read one part after the other. -/
theorem load_append (m : Modules) (s : Sources) (files others : List Path) :
    m.load s (files ++ others) = (m.load s files).load s others :=
  List.foldl_append

/-- Reading files keeps records and owners in agreement. -/
theorem Coherent.load (h : m.Coherent) (s : Sources) (files : List Path) :
    (m.load s files).Coherent := by
  induction files generalizing m with
  | nil => exact h
  | cons file rest ih => exact ih (h.insert (ModuleRecord.different_sources s file))

/-- Reading files stores a record for each of them. -/
theorem records_load (m : Modules) (s : Sources) (files : List Path) :
    (m.load s files).records =
      files.foldl (fun records file => records.insert file.components (.ofFile s file))
        m.records := by
  induction files generalizing m with
  | nil => rfl
  | cons file rest ih =>
    have h := ih (m.insert (.ofFile s file))
    rw [records_insert, ModuleRecord.path_ofFile] at h
    exact h

/-- Reading known modules leaves the known files as they are. -/
theorem files_load (h : ∀ file ∈ files, file ∈ m.files) : (m.load s files).files = m.files := by
  induction files generalizing m with
  | nil => rfl
  | cons file rest ih =>
    have hfile : (m.insert (.ofFile s file)).files = m.files := by
      rw [files_insert, ModuleRecord.path_ofFile]
      exact Path.addNew_eq_self (h file (by simp)) rfl
    have hrest := ih (m := m.insert (.ofFile s file)) fun f hf => hfile ▸ h f (by simp [hf])
    exact hrest.trans hfile

end Modules

namespace Packages

variable {ps : Packages} {p : Package}

/-- A package is found by any spelling of its file. -/
theorem find?_congr (ps : Packages) {file file' : Path} (h : file.Same file') :
    ps.find? file = ps.find? file' := by
  have hkey : file.components = file'.components := h
  have hsame : (fun q : Package => decide (q.file.Same file)) =
      fun q => decide (q.file.Same file') := by
    funext q
    exact decide_eq_decide.2 (by rw [Path.Same, Path.Same, hkey])
  rw [find?, find?, hsame]

/-- A package of a new file comes last. -/
theorem add_of_find?_eq_none (h : ps.find? p.file = none) : ps.add p = ⟨ps.all ++ [p]⟩ := by
  rw [add, h]

/-- A package that is known as it is stays in its place. -/
theorem replace_eq_self {list : List Package} (h : list.find? (fun q => q.file.Same p.file) = some p) :
    replace p list = list := by
  induction list with
  | nil => rfl
  | cons q rest ih =>
    rw [List.find?_cons] at h
    by_cases hsame : q.file.Same p.file
    · rw [decide_eq_true hsame] at h
      rw [replace, if_pos hsame, Option.some.inj h]
    · rw [decide_eq_false hsame] at h
      rw [replace, if_neg hsame, ih h]

/-- Adding a package that is there changes nothing. -/
theorem add_eq_self (h : ps.find? p.file = some p) : ps.add p = ps := by
  rw [add, h]
  exact congrArg Packages.mk (replace_eq_self h)

end Packages

/-- The fingerprint of the text of a file, if it can be read. -/
def Setting.fingerprint? (s : Setting) (file : Path) : Option Text :=
  (s.sources.read file).toOption.map Digest.fingerprint

/-- A file has a fingerprint if its text can be read. -/
theorem Setting.fingerprint?_eq_some {s : Setting} {file : Path} {v : Text} :
    s.fingerprint? file = some v ↔
      ∃ text, s.sources.read file = .ok text ∧ Digest.fingerprint text = v := by
  unfold fingerprint?
  cases s.sources.read file <;> simp [Except.toOption]

namespace Catalog

variable {s : Setting} {root : Path}

/-- The fingerprints after some files have been read. -/
def fingerprinted (s : Setting) (fingerprints : PathMap Text) (files : List Path) : PathMap Text :=
  files.foldl (fun m file => m.alter file.components fun _ => s.fingerprint? file) fingerprints

/-- The libraries that some modules and packages have. -/
def librariesOf (root : Path) (m : Modules) (packages : List Package) : Libraries :=
  packages.foldl (Libraries.addPackage root m) (m.records.values.foldl Libraries.addModule .empty)

/-- The package of a declaration file when some platforms are known. -/
def packageOf (s : Setting) (ps : Platforms) (file : Path) : Package :=
  loadPackage s ps (.ofDeclaration (.ofFile s.sources file))

/-- The catalog of some modules, package declarations and platforms. -/
def described (s : Setting) (root : Path) (m : Modules) (declarations platforms : List Path)
    (fingerprints : PathMap Text) : Catalog where
  modules := m
  declarations :=
    declarations.foldl (fun d file => d.insert (.ofFile s.sources file)) .empty
  packages := ⟨declarations.map (packageOf s ⟨Path.table (Document.ofFile s) platforms⟩)⟩
  libraries :=
    librariesOf root m (declarations.map (packageOf s ⟨Path.table (Document.ofFile s) platforms⟩))
  platforms := ⟨Path.table (Document.ofFile s) platforms⟩
  fingerprints := fingerprints

/-- The libraries depend on the modules through their records alone. -/
theorem librariesOf_congr {m m' : Modules} (h : m.records = m'.records) (packages : List Package) :
    librariesOf root m packages = librariesOf root m' packages := by
  have hpackage : Libraries.addPackage root m = Libraries.addPackage root m' := by
    funext ls p
    unfold Libraries.addPackage Libraries.mappingsOf Libraries.ofMapping Modules.get?
    rw [h]
  rw [librariesOf, librariesOf, h, hpackage]

/-- A package that has looked for the platform description beside it does not look again. -/
theorem loadPackage_eq_self {p : Package} (h : p.sibling ≠ .unknown) (s : Setting) (ps : Platforms) :
    loadPackage s ps p = p := by
  have hload : p.load s = p := by
    unfold Package.load
    split
    · contradiction
    · rfl
  have hpreload : ∀ platform, p.preload platform = p := by
    intro platform
    unfold Package.preload
    split
    · contradiction
    · rfl
  unfold loadPackage
  split
  · rw [hpreload, hload]
  · exact hload

/-- A package that is given the platform description beside it has looked for it. -/
theorem sibling_loadPackage_ne (s : Setting) (ps : Platforms) (p : Package) :
    (loadPackage s ps p).sibling ≠ .unknown := by
  have hload : ∀ q : Package, (q.load s).sibling ≠ .unknown := by
    intro q
    unfold Package.load
    split
    · split <;> simp
    · assumption
  unfold loadPackage
  split <;> exact hload _

/-- A package looks once for the platform description beside it. -/
theorem loadPackage_loadPackage (s : Setting) (ps : Platforms) (p : Package) :
    loadPackage s ps (loadPackage s ps p) = loadPackage s ps p :=
  loadPackage_eq_self (sibling_loadPackage_ne s ps p) s ps

/-- What a package finds beside it depends on what is known of that place, and on the file there. -/
theorem loadPackage_congr {s' : Setting} {ps ps' : Platforms} {p : Package}
    (hps : ps'.get? p.platformPath = ps.get? p.platformPath)
    (hpresent : s'.sources.present p.platformPath = s.sources.present p.platformPath)
    (hdocument : s.sources.present p.platformPath = true →
      Document.ofFile s' p.platformPath = Document.ofFile s p.platformPath) :
    loadPackage s' ps' p = loadPackage s ps p := by
  have hload : ∀ q : Package, q.platformPath = p.platformPath → q.load s' = q.load s := by
    intro q hq
    unfold Package.load
    rw [hq, hpresent]
    split
    · split
      · rename_i hfile
        rw [hdocument hfile]
      · rfl
    · rfl
  unfold loadPackage
  rw [hps]
  split
  · refine hload _ ?_
    unfold Package.preload
    split <;> rfl
  · exact hload p rfl

/-- A package that has not looked for the platform description beside it has nothing to forget. -/
theorem refreshSibling_of_fresh (c : Catalog) (platform : Path)
    (hfresh : ∀ p ∈ c.packages.all, p = .ofDeclaration p.declaration) :
    c.refreshSibling platform = c := by
  unfold refreshSibling
  split
  · rfl
  · rename_i p hp
    have hfile : p.file.Same (platform.withExtension FileKind.declaration.extension) := by
      simpa using List.find?_some hp
    rw [← hfresh p (List.mem_of_find?_eq_some hp), Packages.add_eq_self]
    rw [Packages.find?_congr c.packages hfile]
    exact hp

/-- The libraries of a described catalog are those of its modules and packages, read again. -/
theorem rebuild_described (m m' : Modules) (declarations platforms : List Path)
    (fingerprints : PathMap Text) :
    rebuild s root { described s root m declarations platforms fingerprints with modules := m' } =
      described s root m' declarations platforms fingerprints := by
  have hpackages : (declarations.map (packageOf s ⟨Path.table (Document.ofFile s) platforms⟩)).map
        (loadPackage s ⟨Path.table (Document.ofFile s) platforms⟩) =
      declarations.map (packageOf s ⟨Path.table (Document.ofFile s) platforms⟩) := by
    rw [List.map_map]
    exact List.map_congr_left fun file _ => loadPackage_loadPackage s _ _
  simp only [rebuild, described, librariesOf, hpackages]

section Take

variable {files : List Path}

/-- Taking in outcomes of modules reads these modules. -/
theorem foldl_take_module (c : Catalog) :
    (files.map (Outcome.ofFile s .module)).foldl take c =
      { c with
        modules := c.modules.load s.sources files
        fingerprints := fingerprinted s c.fingerprints files } := by
  induction files generalizing c with
  | nil => rfl
  | cons file rest ih =>
    rw [List.map_cons, List.foldl_cons, ih]
    rfl

/-- The package of a new declaration comes last. -/
theorem take_declaration {c : Catalog} {file : Path} (hnew : c.packages.find? file = none) :
    c.take (.ofFile s .declaration file) =
      { c with
        declarations := c.declarations.insert (.ofFile s.sources file)
        packages := ⟨c.packages.all ++ [.ofDeclaration (.ofFile s.sources file)]⟩
        fingerprints := fingerprinted s c.fingerprints [file] } := by
  have hnone : c.packages.find? (Package.ofDeclaration (.ofFile s.sources file)).file = none := by
    simpa [Package.ofDeclaration] using hnew
  have hadd := Packages.add_of_find?_eq_none hnone
  simp only [take, Outcome.ofFile, takeContent, setFingerprint, hadd]
  rfl

/-- When the libraries are found anew after a new package declaration has been taken in, its package
comes last, and the others stay as they are. -/
theorem rebuild_take_declaration {c : Catalog} {file : Path} (hnew : c.packages.find? file = none)
    (hlooked : ∀ p ∈ c.packages.all, p.sibling ≠ .unknown) :
    ((c.take (.ofFile s .declaration file)).rebuild s root).packages =
        ⟨c.packages.all ++ [packageOf s c.platforms file]⟩ ∧
      ((c.take (.ofFile s .declaration file)).rebuild s root).libraries =
        librariesOf root c.modules (c.packages.all ++ [packageOf s c.platforms file]) := by
  have hkept : c.packages.all.map (loadPackage s c.platforms) = c.packages.all :=
    (List.map_congr_left fun p hp => loadPackage_eq_self (hlooked p hp) s c.platforms).trans
      (List.map_id _)
  rw [take_declaration hnew]
  simp only [rebuild, List.map_append, hkept, List.map_cons, List.map_nil]
  exact ⟨rfl, rfl⟩

/-- Package declarations of different files are taken in one after the other. -/
theorem foldl_take_declaration (c : Catalog) (hdiff : Path.Different files)
    (hnew : ∀ file ∈ files, c.packages.find? file = none) :
    (files.map (Outcome.ofFile s .declaration)).foldl take c =
      { c with
        declarations :=
          files.foldl (fun d file => d.insert (.ofFile s.sources file)) c.declarations
        packages :=
          ⟨c.packages.all ++ files.map fun file => .ofDeclaration (.ofFile s.sources file)⟩
        fingerprints := fingerprinted s c.fingerprints files } := by
  induction files generalizing c with
  | nil => simp [fingerprinted]
  | cons file rest ih =>
    obtain ⟨hfile, hrest⟩ := List.pairwise_cons.1 hdiff
    rw [List.map_cons, List.foldl_cons, take_declaration (hnew file (by simp)), ih _ hrest]
    · simp [fingerprinted]
    · intro other hother
      have hold := hnew other (by simp [hother])
      have hdiff : ¬ file.Same other := hfile other hother
      simp only [Packages.find?] at hold ⊢
      simp [List.find?_append, hold, Package.ofDeclaration, hdiff]

/-- Platforms are taken in one after the other, when no package has looked for the platform
description beside it. -/
theorem foldl_take_platform (c : Catalog)
    (hfresh : ∀ p ∈ c.packages.all, p = .ofDeclaration p.declaration) :
    (files.map (Outcome.ofFile s .platform)).foldl take c =
      { c with
        platforms := ⟨files.foldl (fun m file => m.insert file.components (.ofFile s file))
          c.platforms.documents⟩
        fingerprints := fingerprinted s c.fingerprints files } := by
  induction files generalizing c with
  | nil => rfl
  | cons file rest ih =>
    have htake : c.take (Outcome.ofFile s .platform file) =
        { c with
          platforms := ⟨c.platforms.documents.insert file.components (.ofFile s file)⟩
          fingerprints := fingerprinted s c.fingerprints [file] } := by
      simp only [take, Outcome.ofFile, takeContent]
      rw [refreshSibling_of_fresh]
      · simp [Platforms.insert, setFingerprint, fingerprinted, Setting.fingerprint?]
      · exact hfresh
    rw [List.map_cons, List.foldl_cons, htake, ih]
    · rfl
    · exact hfresh

/-- The outcomes of files in strict order stand in that order. -/
theorem ofKind_map_ofFile (k : FileKind) (h : Path.Ordered files) :
    Outcome.ofKind k (files.map (Outcome.ofFile s k)) = files.map (Outcome.ofFile s k) := by
  have hkind : (files.map (Outcome.ofFile s k)).filter (fun o => o.kind = k) =
      files.map (Outcome.ofFile s k) := by
    apply List.filter_eq_self.2
    intro o ho
    obtain ⟨file, _, rfl⟩ := List.mem_map.1 ho
    exact decide_eq_true rfl
  rw [Outcome.ofKind, hkind, List.foldl_map]
  exact Path.values_table h

/-- The outcomes of the files of a workspace stand in the order in which the files are listed. -/
theorem arranged_outcomes {modules declarations platforms : List Path}
    (hm : Path.Ordered modules) (hd : Path.Ordered declarations) (hp : Path.Ordered platforms) :
    Outcome.arranged (modules.map (Outcome.ofFile s .module) ++
        declarations.map (Outcome.ofFile s .declaration) ++
        platforms.map (Outcome.ofFile s .platform)) =
      modules.map (Outcome.ofFile s .module) ++
        declarations.map (Outcome.ofFile s .declaration) ++
        platforms.map (Outcome.ofFile s .platform) := by
  have hother : ∀ (k k' : FileKind) (files : List Path), k' ≠ k →
      (files.map (Outcome.ofFile s k')).filter (fun o => o.kind = k) = [] := by
    intro k k' files hne
    apply List.filter_eq_nil_iff.2
    intro o ho
    obtain ⟨file, _, rfl⟩ := List.mem_map.1 ho
    exact fun hkind => hne (of_decide_eq_true hkind)
  have hkind : ∀ (k : FileKind) (files : List Path), Path.Ordered files →
      (((files.map (Outcome.ofFile s k)).filter fun o => o.kind = k).foldl
        (fun m o => m.insert o.path.components o) (∅ : PathMap Outcome)).values =
        files.map (Outcome.ofFile s k) := fun k files h => ofKind_map_ofFile k h
  simp only [Outcome.arranged, FileKind.all, List.flatMap_cons, List.flatMap_nil, Outcome.ofKind,
    List.filter_append]
  rw [hother .module .declaration _ (by decide), hother .module .platform _ (by decide),
    hother .declaration .module _ (by decide), hother .declaration .platform _ (by decide),
    hother .platform .module _ (by decide), hother .platform .declaration _ (by decide)]
  simp only [List.append_nil, List.nil_append]
  rw [hkind .module _ hm, hkind .declaration _ hd, hkind .platform _ hp, List.append_assoc]

/-- A catalog made from the outcomes of files, in terms of the files. -/
theorem ofOutcomes_eq {known modules declarations platforms : List Path}
    (hm : Path.Ordered modules) (hd : Path.Ordered declarations) (hp : Path.Ordered platforms) :
    ofOutcomes s root known (modules.map (Outcome.ofFile s .module) ++
        declarations.map (Outcome.ofFile s .declaration) ++
        platforms.map (Outcome.ofFile s .platform)) =
      described s root ((Modules.empty.setFiles known).load s.sources modules) declarations platforms
        (fingerprinted s ∅ (modules ++ declarations ++ platforms)) := by
  rw [ofOutcomes, arranged_outcomes hm hd hp, List.foldl_append, List.foldl_append,
    foldl_take_module, foldl_take_declaration _ hd.different, foldl_take_platform]
  · simp only [rebuild, described, librariesOf, fingerprinted, List.foldl_append, List.map_append,
      List.map_map]
    rfl
  · intro p hp
    have hp' : p ∈ declarations.map fun file => Package.ofDeclaration (.ofFile s.sources file) := by
      simpa [empty, Packages.empty] using hp
    obtain ⟨file, _, rfl⟩ := List.mem_map.1 hp'
    rfl
  · intro file _
    rfl

end Take

end Catalog

end FirmwareIndex
