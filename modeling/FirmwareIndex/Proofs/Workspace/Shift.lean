import FirmwareIndex.Proofs.Workspace.InStep

/-!
# Changes of one file

`Files.Shift` says what is found before and after a change of one file. When the file is taken in or
forgotten, a catalog that was in step with the files before the change comes in step with those
after it (`Catalog.InStep.take`, `Catalog.InStep.forget`). There is one lemma for each kind of file,
since a change of a module leaves the packages as they are, a declaration makes its own package
anew, and a platform makes the package beside it look again.
-/

set_option autoImplicit false

namespace FirmwareIndex

/-- What is found before and after a change of the file `p` of kind `k`: all other files are found
and read as before, and so are the documents of all other platforms. A package declaration is not
new, and a platform description leads back to the declarations that it stands beside. -/
structure Files.Shift (s s' : Setting) (files files' : Files) (p : Path) (k : FileKind) : Prop where
  found : files.Found s
  found' : files'.Found s'
  alike : ∀ j, Path.AlikeExcept p (files.ofKind j) (files'.ofKind j)
  kind : ∀ j, j ≠ k → p ∉ files.ofKind j ∧ p ∉ files'.ofKind j
  read : ∀ j, ∀ q ∈ files.ofKind j, q ≠ p → s'.sources.read q = s.sources.read q
  document : ∀ q ∈ files.platforms, q ≠ p → Document.ofFile s' q = Document.ofFile s q
  known : k = .declaration → p ∈ files'.declarations → p ∈ files.declarations
  sibling : k = .platform → ∀ file ∈ files.declarations, (file.withExtension "dsc").Same p →
    (p.withExtension "dec").Same file

namespace Files

variable {s s' : Setting} {files files' : Files} {p : Path} {k : FileKind}

namespace Shift

/-- The files of other kinds are found as before. -/
theorem ofKind_eq (h : Shift s s' files files' p k) {j : FileKind} (hj : j ≠ k) :
    files'.ofKind j = files.ofKind j :=
  (h.alike j).eq_of_ordered (h.found.ordered j) (h.found'.ordered j)
    (iff_of_false (h.kind j hj).2 (h.kind j hj).1)

/-- The records of other files are read as before. -/
theorem record (h : Shift s s' files files' p k) (j : FileKind) {q : Path}
    (hq : q ∈ files.ofKind j) (hne : q ≠ p) :
    ModuleRecord.ofFile s'.sources q = ModuleRecord.ofFile s.sources q := by
  unfold ModuleRecord.ofFile
  rw [h.read j q hq hne]

/-- The records of the files of other kinds are the same. -/
theorem record_of_kind (h : Shift s s' files files' p k) {j : FileKind} (hj : j ≠ k) {q : Path}
    (hq : q ∈ files.ofKind j) :
    ModuleRecord.ofFile s'.sources q = ModuleRecord.ofFile s.sources q :=
  h.record j hq fun heq => (h.kind j hj).1 (heq ▸ hq)

/-- With the fingerprint of the changed file set or removed, the fingerprints are right again. -/
theorem fingerprinted (h : Shift s s' files files' p k) {fingerprints : PathMap Text}
    (hold : Catalog.Fingerprinted fingerprints s files) {fingerprint : Option Text}
    (hnew : ∀ v, fingerprint = some v ↔ p ∈ files'.ofKind k ∧ s'.fingerprint? p = some v) :
    Catalog.Fingerprinted (fingerprints.alter p.components fun _ => fingerprint) s' files' := by
  intro key v
  rw [Std.ExtTreeMap.getElem?_alter]
  by_cases hkey : p.components = key
  · rw [if_pos (Std.LawfulEqCmp.compare_eq_iff_eq.2 hkey), hnew]
    constructor
    · rintro ⟨hp, hv⟩
      exact ⟨k, p, hp, hkey, hv⟩
    · rintro ⟨j, q, hq, heq, hv⟩
      obtain rfl := (h.alike j).same' hq (heq.trans hkey.symm)
      obtain rfl : j = k := by
        by_contra hj
        exact (h.kind j hj).2 hq
      exact ⟨hq, hv⟩
  · rw [if_neg fun heq => hkey (Std.LawfulEqCmp.compare_eq_iff_eq.1 heq), hold key v]
    apply exists_congr
    intro j
    apply exists_congr
    intro q
    by_cases hq : q = p
    · simp [hq, hkey]
    · rw [(h.alike j).mem q hq]
      apply and_congr_right
      intro hmem
      rw [Setting.fingerprint?, Setting.fingerprint?, h.read j q hmem hq]

end Shift

end Files

namespace Catalog

/-- Looking again for the platform description beside a package changes that package alone. -/
theorem refreshSibling_eq (c : Catalog) {f : Path → Package} {files : List Path}
    (hf : ∀ file, (f file).file = file ∧ (f file).declaration.path = file)
    (hdiff : Path.Different files) (hpackages : c.packages = ⟨files.map f⟩) (platform : Path) :
    c.refreshSibling platform = { c with packages := ⟨files.map fun file =>
      if file.Same (platform.withExtension "dec") then .ofDeclaration (f file).declaration
      else f file⟩ } := by
  unfold refreshSibling
  split
  · rename_i hnone
    have hkept : (files.map fun file => if file.Same (platform.withExtension "dec") then
        Package.ofDeclaration (f file).declaration else f file) = files.map f := by
      apply List.map_congr_left
      intro file hfile
      apply if_neg
      intro hsame
      rw [hpackages, Packages.find?, List.find?_eq_none] at hnone
      have hnot := hnone (f file) (List.mem_map_of_mem hfile)
      rw [(hf file).1] at hnot
      exact hnot (decide_eq_true hsame)
    rw [hkept, ← hpackages]
  · rename_i old hold
    have hmem := List.mem_of_find?_eq_some hold
    rw [hpackages] at hmem
    obtain ⟨first, hfirst, rfl⟩ := List.mem_map.1 hmem
    have hsame : first.Same (platform.withExtension "dec") := by
      have hfound := List.find?_some hold
      rw [(hf first).1] at hfound
      exact of_decide_eq_true hfound
    have hfile : (Package.ofDeclaration (f first).declaration).file = first := (hf first).2
    rw [hpackages, Packages.add_map (fun file => (hf file).1) hdiff
      ⟨first, hfirst, by rw [hfile]; rfl⟩, hfile]
    refine congrArg (fun packages => { c with packages := ⟨packages⟩ })
      (List.map_congr_left fun file hmem => ?_)
    have hself : first.Same first := rfl
    by_cases heq : file = first
    · rw [heq, if_pos hself, if_pos hsame]
    · have hne : ¬ file.Same first := fun h => heq (hdiff.eq_of_same hmem hfirst h)
      rw [if_neg hne, if_neg fun h => hne (h.trans hsame.symm)]

variable {c : Catalog} {s s' : Setting} {root : Path} {files files' : Files} {p : Path}
  {k : FileKind}

/-- Documents of other platforms stay as they are when one is taken in. -/
theorem platforms_insert (hshift : Files.Shift s s' files files' p .platform)
    (hplatforms : c.platforms = ⟨Path.table (Document.ofFile s) files.platforms⟩)
    (hp : p ∈ files'.platforms) :
    c.platforms.insert (.ofFile s' p) = ⟨Path.table (Document.ofFile s') files'.platforms⟩ := by
  rw [Platforms.insert, Document.file_ofFile, hplatforms]
  exact congrArg Platforms.mk ((hshift.alike .platform).table_insert hp hshift.document)

/-- Documents of other platforms stay as they are when one is forgotten. -/
theorem platforms_remove (hshift : Files.Shift s s' files files' p .platform)
    (hplatforms : c.platforms = ⟨Path.table (Document.ofFile s) files.platforms⟩)
    (hp : p ∉ files'.platforms) :
    c.platforms.remove p = ⟨Path.table (Document.ofFile s') files'.platforms⟩ := by
  rw [Platforms.remove, hplatforms]
  exact congrArg Platforms.mk ((hshift.alike .platform).table_erase hp hshift.document)

/-- Documents stay as they are when a file of another kind changes. -/
theorem platforms_of_kind (hshift : Files.Shift s s' files files' p k) (hk : FileKind.platform ≠ k)
    (hplatforms : c.platforms = ⟨Path.table (Document.ofFile s) files.platforms⟩) :
    c.platforms = ⟨Path.table (Document.ofFile s') files'.platforms⟩ := by
  have hkept : files'.platforms = files.platforms := hshift.ofKind_eq hk
  rw [hplatforms, hkept]
  refine congrArg Platforms.mk (Path.table_congr fun q hq => (hshift.document q hq fun heq => ?_).symm)
  exact (hshift.kind .platform hk).1 (heq ▸ hq)

/-- Where no module has changed, the modules are those that are found. -/
theorem modules_of_kind (hshift : Files.Shift s s' files files' p k) (hk : FileKind.module ≠ k)
    (hmodules : c.modules.Holds s.sources files.modules) :
    c.modules.Holds s'.sources files'.modules := by
  have hkept : files'.modules = files.modules := hshift.ofKind_eq hk
  exact hkept ▸ hmodules.congr fun q hq => hshift.record_of_kind hk hq

/-- Where no declaration has changed, the declarations are those that are found. -/
theorem declarations_of_kind (hshift : Files.Shift s s' files files' p k)
    (hk : FileKind.declaration ≠ k)
    (hdeclarations : c.declarations.Holds s.sources files.declarations) :
    c.declarations.Holds s'.sources files'.declarations := by
  have hkept : files'.declarations = files.declarations := hshift.ofKind_eq hk
  exact hkept ▸ hdeclarations.congr fun q hq => hshift.record_of_kind hk hq

namespace InStep

/-- A package stays as it is while the platform description beside it does not change. -/
theorem loadPackage_settled {ps ps' : Platforms} {file : Path}
    (hrecord : ModuleRecord.ofFile s'.sources file = ModuleRecord.ofFile s.sources file)
    (hps : ps'.get? (file.withExtension "dsc") = ps.get? (file.withExtension "dsc")) :
    loadPackage s' ps' (.settled ps (.ofFile s.sources file)) =
      .settled ps' (.ofFile s'.sources file) := by
  rw [loadPackage_eq_self (Package.sibling_settled _ _), hrecord]
  refine (Package.settled_congr ?_).symm
  rw [Package.platformPath_ofDeclaration, hps]

/-- A catalog that has taken in a change of a module keeps its packages. -/
theorem rebuild_of_module (h : c.InStep s root files)
    (hshift : Files.Shift s s' files files' p .module) {c' : Catalog} (hknows : c'.Knows s' files')
    (hpackages : c'.packages = c.packages)
    (hplatforms : c'.platforms = c.platforms) : (c'.rebuild s' root).InStep s' root files' := by
  have hkept : files'.declarations = files.declarations :=
    hshift.ofKind_eq (j := .declaration) (by decide)
  refine hknows.rebuild (hkept.symm ▸ hpackages.trans h.packages) ?_
  intro file hfile
  have hfile' : file ∈ files.declarations := hkept ▸ hfile
  exact loadPackage_settled (hshift.record_of_kind (j := .declaration) (by decide) hfile')
    (by rw [hplatforms])

/-- Taking in a changed module brings a catalog back in step. -/
theorem take_module (h : c.InStep s root files)
    (hshift : Files.Shift s s' files files' p .module) (hp : p ∈ files'.modules) :
    ((c.take (.ofFile s' .module p)).rebuild s' root).InStep s' root files' := by
  refine h.rebuild_of_module hshift ⟨?_, ?_, ?_, ?_⟩ rfl rfl
  · exact h.modules.insert (hshift.alike .module) hp fun q hq => hshift.record .module hq
  · exact declarations_of_kind hshift (by decide) h.declarations
  · exact platforms_of_kind hshift (by decide) h.platforms
  · exact hshift.fingerprinted h.fingerprints fun v => (and_iff_right hp).symm

/-- Forgetting a removed module brings a catalog back in step. -/
theorem forget_module (h : c.InStep s root files) (hshift : Files.Shift s s' files files' p .module)
    (hp : p ∉ files'.modules) :
    ((c.forget p .module).rebuild s' root).InStep s' root files' := by
  refine h.rebuild_of_module hshift ⟨?_, ?_, ?_, ?_⟩ rfl rfl
  · exact h.modules.forget (hshift.alike .module) hp fun q hq => hshift.record .module hq
  · exact declarations_of_kind hshift (by decide) h.declarations
  · exact platforms_of_kind hshift (by decide) h.platforms
  · exact hshift.fingerprinted h.fingerprints fun v =>
      iff_of_false (fun hv => (nomatch hv)) fun hv => hp hv.1

/-- A package declaration that has been read again is taken in. -/
theorem take_declaration (h : c.InStep s root files)
    (hshift : Files.Shift s s' files files' p .declaration) (hp : p ∈ files'.declarations) :
    ((c.take (.ofFile s' .declaration p)).rebuild s' root).InStep s' root files' := by
  have hold : p ∈ files.declarations := hshift.known rfl hp
  have hkept : files'.declarations = files.declarations :=
    (hshift.alike .declaration).eq_of_ordered (hshift.found.ordered .declaration)
      (hshift.found'.ordered .declaration) (iff_of_true hp hold)
  have hordered : Path.Ordered files.declarations := hshift.found.ordered .declaration
  have hplatforms : c.platforms = ⟨Path.table (Document.ofFile s') files'.platforms⟩ :=
    platforms_of_kind hshift (by decide) h.platforms
  have hfile : (Package.ofDeclaration (.ofFile s'.sources p)).file = p :=
    ModuleRecord.path_ofFile s'.sources p
  have hpackages : (c.take (.ofFile s' .declaration p)).packages =
      ⟨files'.declarations.map fun file => if file.Same p then
        .ofDeclaration (.ofFile s'.sources p)
        else .settled c.platforms (.ofFile s.sources file)⟩ := by
    change c.packages.add (.ofDeclaration (.ofFile s'.sources p)) = _
    rw [h.packages, Packages.add_map (fun file => (settled_file _ _ file).1) hordered.different
      ⟨p, hold, by rw [hfile]; rfl⟩, hfile, hkept]
  have hknows : (c.take (.ofFile s' .declaration p)).Knows s' files' := by
    refine ⟨?_, ?_, hplatforms, ?_⟩
    · exact modules_of_kind hshift (by decide) h.modules
    · exact h.declarations.insert (hshift.alike .declaration) hp
        fun q hq => hshift.record .declaration hq
    · exact hshift.fingerprinted h.fingerprints fun v => (and_iff_right hp).symm
  refine hknows.rebuild hpackages ?_
  intro file hmem
  split
  · rename_i hsame
    obtain rfl := (hshift.alike .declaration).same' hmem hsame
    apply Package.loadPackage_ofDeclaration
    intro hpresent
    rw [Package.platformPath_ofDeclaration] at hpresent ⊢
    exact hshift.found'.get?_ne_none hplatforms hmem hpresent
  · rename_i hsame
    have hne : file ≠ p := fun heq => hsame (heq ▸ rfl)
    have hfile' : file ∈ files.declarations := hkept ▸ hmem
    exact loadPackage_settled (hshift.record .declaration hfile' hne) rfl

/-- Forgetting a removed declaration brings a catalog back in step. -/
theorem forget_declaration (h : c.InStep s root files)
    (hshift : Files.Shift s s' files files' p .declaration) (hp : p ∉ files'.declarations) :
    ((c.forget p .declaration).rebuild s' root).InStep s' root files' := by
  have hordered : Path.Ordered files.declarations := hshift.found.ordered .declaration
  have hordered' : Path.Ordered files'.declarations := hshift.found'.ordered .declaration
  have hfilter : files.declarations.filter (fun file => ¬ file.Same p) = files'.declarations := by
    have hfiltered : Path.Ordered (files.declarations.filter fun file => ¬ file.Same p) :=
      hordered.filter _
    refine hfiltered.eq_of_mem_iff hordered' ?_
    intro q
    rw [List.mem_filter, decide_eq_true_eq]
    by_cases hq : q = p
    · simp [hq, hp, Path.Same]
    · have hmem : q ∈ files'.declarations ↔ q ∈ files.declarations :=
        (hshift.alike .declaration).mem q hq
      rw [hmem]
      exact and_iff_left_of_imp fun hold hsame =>
        hq ((hshift.alike .declaration).same q hold hsame)
  have hpackages : (c.forget p .declaration).packages =
      ⟨files'.declarations.map fun file => .settled c.platforms (.ofFile s.sources file)⟩ := by
    change c.packages.remove p = _
    rw [h.packages, Packages.remove_map (fun file => (settled_file _ _ file).1) hordered.different,
      hfilter]
  have hknows : (c.forget p .declaration).Knows s' files' := by
    refine ⟨?_, ?_, ?_, ?_⟩
    · exact modules_of_kind hshift (by decide) h.modules
    · exact h.declarations.remove (hshift.alike .declaration) hp
        fun q hq => hshift.record .declaration hq
    · exact platforms_of_kind hshift (by decide) h.platforms
    · exact hshift.fingerprinted h.fingerprints fun v =>
        iff_of_false (by simp) fun hv => hp hv.1
  refine hknows.rebuild hpackages ?_
  intro file hmem
  have hne : file ≠ p := fun heq => hp (heq ▸ hmem)
  have hold : file ∈ files.declarations := ((hshift.alike .declaration).mem file hne).1 hmem
  exact loadPackage_settled (hshift.record .declaration hold hne) rfl

/-- When the platforms have changed at one place and the package there looks again, every package is
beside the platform description that is now known. -/
theorem rebuild_of_platform (h : c.InStep s root files)
    (hshift : Files.Shift s s' files files' p .platform) {ps : Platforms} {fingerprints : PathMap Text}
    (hps : ps = ⟨Path.table (Document.ofFile s') files'.platforms⟩)
    (hothers : ∀ q : Path, ¬ q.Same p → ps.get? q = c.platforms.get? q)
    (hfingerprints : Fingerprinted fingerprints s' files') :
    (({ c with platforms := ps, fingerprints := fingerprints }.refreshSibling p).rebuild s'
      root).InStep s' root files' := by
  have hkept : files'.declarations = files.declarations :=
    hshift.ofKind_eq (j := .declaration) (by decide)
  have hordered : Path.Ordered files'.declarations := hshift.found'.ordered .declaration
  rw [refreshSibling_eq _ (settled_file c.platforms s.sources) hordered.different
    (hkept.symm ▸ h.packages)]
  have hknows : Knows { c with platforms := ps, fingerprints := fingerprints } s' files' :=
    ⟨modules_of_kind hshift (by decide) h.modules,
      declarations_of_kind hshift (by decide) h.declarations, hps, hfingerprints⟩
  refine Knows.rebuild ⟨hknows.modules, hknows.declarations, hps, hfingerprints⟩ rfl
    fun file hmem => ?_
  have hold : file ∈ files.declarations := hkept ▸ hmem
  have hrecord := hshift.record_of_kind (j := .declaration) (by decide) hold
  split
  · have hdeclaration : (Package.settled c.platforms (.ofFile s.sources file)).declaration =
        .ofFile s'.sources file := hrecord.symm
    rw [hdeclaration]
    apply Package.loadPackage_ofDeclaration
    intro hpresent
    rw [Package.platformPath_ofDeclaration] at hpresent ⊢
    exact hshift.found'.get?_ne_none hps hmem hpresent
  · rename_i hsame
    refine loadPackage_settled hrecord (hothers _ fun hbeside => hsame ?_)
    exact (hshift.sibling rfl file hold hbeside).symm

/-- A platform description that has been read is taken in. -/
theorem take_platform (h : c.InStep s root files)
    (hshift : Files.Shift s s' files files' p .platform) (hp : p ∈ files'.platforms) :
    ((c.take (.ofFile s' .platform p)).rebuild s' root).InStep s' root files' := by
  have hrebuilt := h.rebuild_of_platform hshift
    (platforms_insert hshift h.platforms hp) (fun q hq => ?_)
    (hshift.fingerprinted h.fingerprints fun v => (and_iff_right hp).symm)
  · have hfile : (Document.ofFile s' p).file = p := Document.file_ofFile s' p
    simp only [take, Outcome.ofFile, takeContent, setFingerprint, hfile]
    exact hrebuilt
  · have hne : compare p.components q.components ≠ .eq := by
      intro heq
      exact hq (Std.LawfulEqCmp.compare_eq_iff_eq.1 heq).symm
    simp only [Platforms.get?, Platforms.insert, Document.file_ofFile,
      Std.ExtTreeMap.getElem?_insert, if_neg hne]

/-- Forgetting a removed platform brings a catalog back in step. -/
theorem forget_platform (h : c.InStep s root files)
    (hshift : Files.Shift s s' files files' p .platform) (hp : p ∉ files'.platforms) :
    ((c.forget p .platform).rebuild s' root).InStep s' root files' := by
  refine h.rebuild_of_platform hshift (platforms_remove hshift h.platforms hp)
    (fun q hq => ?_) (hshift.fingerprinted h.fingerprints fun v =>
      iff_of_false (fun hv => (nomatch hv)) fun hv => hp hv.1)
  have hne : compare p.components q.components ≠ .eq := by
    intro heq
    exact hq (Std.LawfulEqCmp.compare_eq_iff_eq.1 heq).symm
  have hget : (c.platforms.remove p).get? q = c.platforms.get? q := by
    simp only [Platforms.get?, Platforms.remove, Std.ExtTreeMap.getElem?_erase, if_neg hne]
  exact hget

/-- Taking in the changed file brings a catalog back in step, whatever its kind. -/
theorem take (h : c.InStep s root files)
    (hshift : Files.Shift s s' files files' p k) (hp : p ∈ files'.ofKind k) :
    ((c.take (.ofFile s' k p)).rebuild s' root).InStep s' root files' := by
  cases k with
  | module => exact h.take_module hshift hp
  | declaration => exact h.take_declaration hshift hp
  | platform => exact h.take_platform hshift hp

/-- Forgetting the removed file brings a catalog back in step, whatever its kind. -/
theorem forget (h : c.InStep s root files)
    (hshift : Files.Shift s s' files files' p k) (hp : p ∉ files'.ofKind k) :
    ((c.forget p k).rebuild s' root).InStep s' root files' := by
  cases k with
  | module => exact h.forget_module hshift hp
  | declaration => exact h.forget_declaration hshift hp
  | platform => exact h.forget_platform hshift hp

/-- When the changed file too is found as before and reads as before, a catalog stays in step. -/
theorem unchanged (h : c.InStep s root files)
    (hshift : Files.Shift s s' files files' p k) (hp : p ∈ files'.ofKind k ↔ p ∈ files.ofKind k)
    (hreadp : p ∈ files.ofKind k → s'.sources.read p = s.sources.read p)
    (hdocumentp : p ∈ files.platforms → Document.ofFile s' p = Document.ofFile s p) :
    c.InStep s' root files' := by
  have hkind : ∀ j, files'.ofKind j = files.ofKind j := by
    intro j
    refine (hshift.alike j).eq_of_ordered (hshift.found.ordered j) (hshift.found'.ordered j) ?_
    by_cases hj : j = k
    · exact hj ▸ hp
    · exact iff_of_false (hshift.kind j hj).2 (hshift.kind j hj).1
  have hread : ∀ j, ∀ q ∈ files.ofKind j, s'.sources.read q = s.sources.read q := by
    intro j q hq
    by_cases heq : q = p
    · subst heq
      obtain rfl : j = k := by
        by_contra hj
        exact (hshift.kind j hj).1 hq
      exact hreadp hq
    · exact hshift.read j q hq heq
  have hdocument : ∀ q ∈ files.platforms, Document.ofFile s' q = Document.ofFile s q := by
    intro q hq
    by_cases heq : q = p
    · exact heq ▸ hdocumentp (heq ▸ hq)
    · exact hshift.document q hq heq
  have hrecord : ∀ j, ∀ q ∈ files.ofKind j,
      ModuleRecord.ofFile s'.sources q = ModuleRecord.ofFile s.sources q := by
    intro j q hq
    unfold ModuleRecord.ofFile
    rw [hread j q hq]
  have hmodules : files'.modules = files.modules := hkind .module
  have hdeclarations : files'.declarations = files.declarations := hkind .declaration
  have hplatforms : files'.platforms = files.platforms := hkind .platform
  refine ⟨⟨?_, ?_, ?_, fun key v => ?_⟩, ?_, h.libraries⟩
  · rw [hmodules]
    exact h.modules.congr (hrecord .module)
  · rw [hdeclarations]
    exact h.declarations.congr (hrecord .declaration)
  · rw [hplatforms, h.platforms, Path.table_congr hdocument]
  · rw [h.fingerprints]
    apply exists_congr
    intro j
    apply exists_congr
    intro q
    rw [hkind]
    apply and_congr_right
    intro hq
    rw [Setting.fingerprint?, Setting.fingerprint?, hread j q hq]
  · rw [hdeclarations, h.packages]
    exact congrArg Packages.mk
      (List.map_congr_left fun file hfile => by rw [hrecord .declaration file hfile])

end InStep

end Catalog

end FirmwareIndex
