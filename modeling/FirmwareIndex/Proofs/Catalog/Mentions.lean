import FirmwareIndex.Proofs.Catalog.Linked
import FirmwareIndex.Proofs.Catalog.Sibling

/-!
# Files that a catalog mentions

`Catalog.Mentions` says that some store of a catalog still tells of a file. A catalog mentions a
file only if an outcome of it was taken in or it was listed as a module: `Catalog.Only` is kept by
every change of the catalog, whatever the paths of the files look like (`Catalog.Only.take`,
`Catalog.Only.forget`). When the stores agree with each other, a file that has been forgotten is
mentioned by none of them (`Catalog.Sound.not_mentions_forget`).
-/

set_option autoImplicit false

namespace FirmwareIndex

namespace Declarations

variable {d : Declarations} {r r' : ModuleRecord}

/-- A declaration is one of all if it stands in a group. -/
theorem mem_all_iff : r ∈ d.all ↔ ∃ key, r ∈ d.group key := by
  simp only [all, List.mem_flatten, mem_values_iff, group]
  constructor
  · rintro ⟨list, ⟨key, hkey⟩, hr⟩
    exact ⟨key, by rwa [hkey]⟩
  · rintro ⟨key, hr⟩
    cases hkey : d.groups[key]? with
    | none => rw [hkey] at hr; cases hr
    | some list => exact ⟨list, ⟨key, hkey⟩, by rwa [hkey] at hr⟩

/-- Nothing but the record that is put in comes to the declarations. -/
theorem mem_all_insert (h : r' ∈ (d.insert r).all) : r' = r ∨ r' ∈ d.all := by
  obtain ⟨key, hkey⟩ := mem_all_iff.1 h
  rw [group_insert] at hkey
  split at hkey
  · rcases List.mem_cons.1 hkey with heq | hkey
    · exact .inl heq
    · exact .inr (mem_all_iff.2 ⟨key, (List.mem_filter.1 hkey).1⟩)
  · exact .inr (mem_all_iff.2 ⟨key, hkey⟩)

/-- Nothing comes to the declarations when a record is taken out. -/
theorem mem_all_remove {path : Path} (h : r ∈ (d.remove path).all) : r ∈ d.all := by
  obtain ⟨key, hkey⟩ := mem_all_iff.1 h
  simp only [remove, group_setGroup] at hkey
  split at hkey
  · exact mem_all_iff.2 ⟨_, List.mem_of_mem_eraseP hkey⟩
  · exact mem_all_iff.2 ⟨key, hkey⟩

end Declarations

/-- There is a package for a file if the packages stand for a declaration of it. -/
theorem Packages.exists_iff_described (ps : Packages) (path : Path) :
    (∃ p ∈ ps.all, p.file.Same path) ↔ (ps.described path).isSome := by
  simp [described, find?, Option.isSome_map, List.find?_isSome]

/-- Reading files gives a record to them and takes none away. -/
theorem Modules.isSome_get?_load (m : Modules) (s : Sources) (files : List Path) (p : Path) :
    ((m.load s files).get? p).isSome ↔ (∃ file ∈ files, file.Same p) ∨ (m.get? p).isSome := by
  induction files generalizing m with
  | nil => simp [load]
  | cons file rest ih =>
    have hrest := ih (m.insert (.ofFile s file))
    rw [get?_insert, ModuleRecord.path_ofFile] at hrest
    refine hrest.trans ?_
    by_cases hsame : file.Same p <;> simp [hsame]

namespace Catalog

/-- A store names a file as one of a kind: the list of modules, their records and the owners of
sources, the declarations and the packages, or the platforms. -/
def Names (c : Catalog) (p : Path) : FileKind → Prop
  | .module => (∃ file ∈ c.modules.files, file.Same p) ∨ (c.modules.get? p).isSome ∨
      ∃ source, ∃ r ∈ c.modules.ownersOf source, r.path.Same p
  | .declaration => (∃ r ∈ c.declarations.all, r.path.Same p) ∨ ∃ q ∈ c.packages.all, q.file.Same p
  | .platform => (c.platforms.get? p).isSome

/-- A store names the file, or there is a fingerprint of it. -/
def Mentions (c : Catalog) (p : Path) : Prop :=
  (∃ k, c.Names p k) ∨ (c.fingerprints[p.components]?).isSome

/-- All that is mentioned are files at places for which `P` holds. -/
structure Only (c : Catalog) (P : FileKind → List Component → Prop) : Prop where
  modules : c.modules.Coherent
  packages : c.packages.Proper
  platforms : ∀ (d : Document) (key : List Component), c.platforms.documents[key]? = some d →
    d.file.components = key
  names : ∀ p k, c.Names p k → P k p.components
  fingerprints : ∀ p : Path, (c.fingerprints[p.components]?).isSome → ∃ k, P k p.components

section Names

variable {c : Catalog} {p : Path}

/-- The owners of sources are modules that have been read. -/
theorem names_module_iff (h : c.modules.Coherent) :
    c.Names p .module ↔ (∃ file ∈ c.modules.files, file.Same p) ∨ (c.modules.get? p).isSome := by
  refine or_congr_right ⟨?_, .inl⟩
  rintro (hr | ⟨source, r, hr, hsame⟩)
  · exact hr
  · rw [← c.modules.get?_congr hsame, ((h.mem_ownersOf source r).1 hr).1]
    rfl

/-- Only a module that is forgotten is taken off the list. -/
theorem mem_files_forget {k : FileKind} {file : Path} :
    file ∈ (c.forget p k).modules.files ↔ file ∈ c.modules.files ∧ (k = .module → ¬ file.Same p) := by
  cases k with
  | module => simp [forget, setFingerprint, Modules.forget]
  | declaration => simp [forget, setFingerprint]
  | platform =>
    have hkept : (c.forget p .platform).modules = c.modules := by
      unfold forget refreshSibling
      dsimp only
      split <;> rfl
    simp [hkept]

/-- What is known of a file is a mention of it. -/
theorem Holds.names {k : FileKind} (h : c.Holds p k) : c.Names p k := by
  cases k with
  | module => exact .inr (.inl h)
  | declaration => exact .inr ((c.packages.exists_iff_described p).2 h)
  | platform => exact h

end Names

/-- What is mentioned is a file of some kind for which the condition holds. -/
theorem Only.mentions {c : Catalog} {P : FileKind → List Component → Prop} (h : c.Only P) {p : Path}
    (hp : c.Mentions p) : ∃ k, P k p.components := by
  rcases hp with ⟨k, hk⟩ | hp
  · exact ⟨k, h.names p k hk⟩
  · exact h.fingerprints p hp

/-- Modules that are listed, and nothing else. -/
theorem only_setFiles {P : FileKind → List Component → Prop} {files : List Path}
    (h : ∀ file ∈ files, P .module file.components) :
    ({ empty with modules := Modules.empty.setFiles files } : Catalog).Only P where
  modules := Modules.coherent_setFiles files
  packages := Packages.proper_empty
  platforms := by simp [empty, Platforms.empty]
  names p k hp := by
    cases k with
    | module =>
      rcases (names_module_iff (Modules.coherent_setFiles files)).1 hp with ⟨file, hfile, hsame⟩ | hp
      · exact hsame ▸ h file hfile
      · simp [Modules.get?, Modules.setFiles, Modules.empty] at hp
    | declaration =>
      rcases hp with ⟨r, hr, _⟩ | ⟨q, hq, _⟩
      · obtain ⟨key, hkey⟩ := Declarations.mem_all_iff.1 hr
        simp [empty, Declarations.empty, Declarations.group] at hkey
      · cases hq
    | platform => simp [Names, empty, Platforms.empty, Platforms.get?] at hp
  fingerprints p hp := by simp [empty] at hp

namespace Only

variable {c c' : Catalog} {P : FileKind → List Component → Prop} {path : Path} {r : ModuleRecord}

/-- A change of the modules leaves it at the files that are listed or have been read. -/
theorem setModules (h : c.Only P) {m : Modules} (hm : m.Coherent)
    (hlisted : ∀ file ∈ m.files, P .module file.components)
    (hread : ∀ p, (m.get? p).isSome → P .module p.components) :
    ({ c with modules := m } : Catalog).Only P where
  modules := hm
  packages := h.packages
  platforms := h.platforms
  names p k hp := by
    cases k with
    | module =>
      rcases (names_module_iff hm).1 hp with ⟨file, hfile, hsame⟩ | hp
      · exact hsame ▸ hlisted file hfile
      · exact hread p hp
    | declaration | platform => exact h.names p _ hp
  fingerprints := h.fingerprints

/-- The listed files are modules for which the condition holds. -/
theorem listed (h : c.Only P) : ∀ file ∈ c.modules.files, P .module file.components :=
  fun file hfile => h.names file .module (.inl ⟨file, hfile, rfl⟩)

/-- A module for which the condition holds can be put in. -/
theorem insertModule (h : c.Only P) (hr : Path.Different r.sources)
    (hP : P .module r.path.components) : ({ c with modules := c.modules.insert r } : Catalog).Only P := by
  refine h.setModules (h.modules.insert hr) (fun file hfile => ?_) fun p hp => ?_
  · rw [Modules.files_insert] at hfile
    rcases Path.mem_addNew hfile with hfile | rfl
    · exact h.listed file hfile
    · exact hP
  · rw [Modules.get?_insert] at hp
    split at hp
    · rename_i hsame
      exact hsame ▸ hP
    · exact h.names p .module (.inr (.inl hp))

/-- Forgetting a module mentions nothing else. -/
theorem forgetModule (h : c.Only P) (path : Path) :
    ({ c with modules := c.modules.forget path } : Catalog).Only P := by
  refine h.setModules (h.modules.forget path) (fun file hfile => ?_) fun p hp => ?_
  · rw [Modules.forget, Modules.files_remove] at hfile
    exact h.listed file (List.mem_filter.1 hfile).1
  · rw [Modules.forget, Modules.get?_remove] at hp
    split at hp
    · cases hp
    · exact h.names p .module (.inr (.inl hp))

/-- Reading modules that were left unread tells of no other file. -/
theorem loadModules (h : c.Only P) (sources : Sources) (top : Path) :
    ({ c with modules := c.modules.loadUnder sources top } : Catalog).Only P := by
  refine List.foldlRecOn (c.modules.pending top) _
    (motive := fun m => ({ c with modules := m } : Catalog).Only P) h fun _ hm file hfile => ?_
  have hlisted := Modules.mem_files_of_mem_pending hfile
  exact hm.insertModule (ModuleRecord.different_sources sources file)
    (by rw [ModuleRecord.path_ofFile]; exact h.listed file hlisted)

/-- A change of the declarations and the packages leaves it at their files. -/
theorem setDeclarations (h : c.Only P) {d : Declarations} {ps : Packages} (hps : ps.Proper)
    (hd : ∀ r ∈ d.all, P .declaration r.path.components)
    (hdescribed : ∀ p, (ps.described p).isSome → P .declaration p.components) :
    ({ c with declarations := d, packages := ps } : Catalog).Only P where
  modules := h.modules
  packages := hps
  platforms := h.platforms
  names p k hp := by
    cases k with
    | declaration =>
      rcases hp with ⟨r, hr, hsame⟩ | hp
      · exact hsame ▸ hd r hr
      · exact hdescribed p ((ps.exists_iff_described p).1 hp)
    | module | platform => exact h.names p _ hp
  fingerprints := h.fingerprints

/-- The declarations are files for which the condition holds. -/
theorem declared (h : c.Only P) : ∀ r ∈ c.declarations.all, P .declaration r.path.components :=
  fun r hr => h.names r.path .declaration (.inl ⟨r, hr, rfl⟩)

/-- The packages are of declarations for which the condition holds. -/
theorem described (h : c.Only P) (p : Path) (hp : (c.packages.described p).isSome) :
    P .declaration p.components :=
  h.names p .declaration (.inr ((c.packages.exists_iff_described p).2 hp))

/-- A declaration for which the condition holds can be put in with its package. -/
theorem insertDeclaration (h : c.Only P) (hP : P .declaration r.path.components) :
    ({ c with
      declarations := c.declarations.insert r
      packages := c.packages.add (.ofDeclaration r) } : Catalog).Only P := by
  refine h.setDeclarations (h.packages.add rfl) (fun r' hr' => ?_) fun p hp => ?_
  · rcases Declarations.mem_all_insert hr' with rfl | hr'
    · exact hP
    · exact h.declared r' hr'
  · rw [Packages.described_add] at hp
    split at hp
    · rename_i hsame
      exact hsame ▸ hP
    · exact h.described p hp

/-- Taking out a declaration with its package mentions nothing else. -/
theorem removeDeclaration (h : c.Only P) (path : Path) :
    ({ c with
      declarations := c.declarations.remove path
      packages := c.packages.remove path } : Catalog).Only P := by
  refine h.setDeclarations (h.packages.remove path)
    (fun r hr => h.declared r (Declarations.mem_all_remove hr)) fun p hp => ?_
  rw [h.packages.described_remove] at hp
  split at hp
  · cases hp
  · exact h.described p hp

/-- Packages that stand for the same declarations are those of the same files. -/
theorem setPackages (h : c.Only P) {ps : Packages} (hps : ps.Proper)
    (hsame : ∀ file, ps.described file = c.packages.described file) :
    ({ c with packages := ps } : Catalog).Only P :=
  h.setDeclarations hps h.declared fun p hp => h.described p (hsame p ▸ hp)

/-- A package that has to look beside itself again mentions nothing else. -/
theorem refreshSibling (h : c.Only P) (platform : Path) : (c.refreshSibling platform).Only P := by
  obtain ⟨ps, hps, hproper, hsame⟩ := exists_refreshSibling_eq c h.packages platform
  exact hps ▸ h.setPackages hproper hsame

/-- A change of the platforms leaves it at their files. -/
theorem setPlatforms (h : c.Only P) {ps : Platforms}
    (hkeyed : ∀ (d : Document) (key : List Component), ps.documents[key]? = some d →
      d.file.components = key)
    (hps : ∀ p, (ps.get? p).isSome → P .platform p.components) :
    ({ c with platforms := ps } : Catalog).Only P where
  modules := h.modules
  packages := h.packages
  platforms := hkeyed
  names p k hp := by
    cases k with
    | platform => exact hps p hp
    | module | declaration => exact h.names p _ hp
  fingerprints := h.fingerprints

/-- A platform for which the condition holds can be put in. -/
theorem insertPlatform (h : c.Only P) {d : Document} (hP : P .platform d.file.components) :
    ({ c with platforms := c.platforms.insert d } : Catalog).Only P := by
  refine h.setPlatforms (fun d' key hkey => ?_) fun p hp => ?_
  · rcases Platforms.of_getElem?_insert hkey with ⟨hkey, rfl⟩ | ⟨_, hkey⟩
    · exact hkey
    · exact h.platforms d' key hkey
  · rw [Platforms.get?_insert] at hp
    split at hp
    · rename_i hsame
      exact hsame ▸ hP
    · exact h.names p .platform hp

/-- Taking out a platform mentions nothing else. -/
theorem removePlatform (h : c.Only P) (path : Path) :
    ({ c with platforms := c.platforms.remove path } : Catalog).Only P := by
  refine h.setPlatforms (fun d key hkey => h.platforms d key (Platforms.of_getElem?_remove hkey).2)
    fun p hp => ?_
  rw [Platforms.get?_remove] at hp
  split at hp
  · cases hp
  · exact h.names p .platform hp

/-- A fingerprint can be set for a file for which the condition holds, and be removed for any. -/
theorem setFingerprint (h : c.Only P) (fingerprint : Option Text)
    (hP : fingerprint.isSome → ∃ k, P k path.components) :
    (c.setFingerprint path fingerprint).Only P where
  modules := h.modules
  packages := h.packages
  platforms := h.platforms
  names p k hp := h.names p k (by cases k <;> exact hp)
  fingerprints p hp := by
    rw [Catalog.setFingerprint, Std.ExtTreeMap.getElem?_alter] at hp
    split at hp
    · rename_i hkey
      exact Std.LawfulEqCmp.compare_eq_iff_eq.1 hkey ▸ hP hp
    · exact h.fingerprints p hp

/-- Taking in the outcome of a file adds no other file. -/
theorem take (h : c.Only P) (s : Setting) {k : FileKind} (hP : P k path.components) :
    (c.take (.ofFile s k path)).Only P := by
  have hcontent : (c.takeContent (Outcome.ofFile s k path).content).Only P := by
    cases k with
    | module =>
      exact h.insertModule (ModuleRecord.different_sources s.sources path)
        (by rwa [ModuleRecord.path_ofFile])
    | declaration => exact h.insertDeclaration (by rwa [ModuleRecord.path_ofFile])
    | platform => exact (h.insertPlatform (by rwa [Document.file_ofFile])).refreshSibling _
  rw [take_eq]
  exact hcontent.setFingerprint _ fun _ => ⟨k, hP⟩

/-- Forgetting a file mentions nothing else. -/
theorem forget (h : c.Only P) (path : Path) (k : FileKind) : (c.forget path k).Only P := by
  have hforgotten : (c.setFingerprint path none).Only P := h.setFingerprint none (by simp)
  cases k with
  | module => exact hforgotten.forgetModule path
  | declaration => exact hforgotten.removeDeclaration path
  | platform => exact (hforgotten.removePlatform path).refreshSibling path

/-- Libraries that are found anew mention nothing else. -/
theorem rebuild (h : c.Only P) (s : Setting) (root : Path) : (c.rebuild s root).Only P := by
  have hload := file_declaration_loadPackage s c.platforms
  have hpackages := h.setPackages (h.packages.map hload) (c.packages.described_map hload)
  exact ⟨hpackages.modules, hpackages.packages, hpackages.platforms,
    fun p k hp => hpackages.names p k (by cases k <;> exact hp), hpackages.fingerprints⟩

end Only

namespace Sound

variable {c : Catalog} {root p : Path} {k : FileKind}

/-- When the stores agree, a file is mentioned if it is listed as a module or something is known of
it. -/
theorem mentions_iff (h : c.Sound root) :
    c.Mentions p ↔ (∃ file ∈ c.modules.files, file.Same p) ∨ ∃ k, c.Holds p k := by
  constructor
  · rintro (⟨k, hk⟩ | hp)
    · cases k with
      | module => exact ((names_module_iff h.modules).1 hk).imp_right fun hr => ⟨.module, hr⟩
      | declaration =>
        refine .inr ⟨.declaration, (c.packages.exists_iff_described p).1 ?_⟩
        rcases hk with ⟨r, hr, hsame⟩ | hk
        · obtain ⟨q, hq, rfl⟩ := h.declarations.exists_mem_all hr
          exact ⟨q, hq, by rwa [h.declarations.proper.file q hq]⟩
        · exact hk
      | platform => exact .inr ⟨.platform, hk⟩
    · obtain ⟨k, _, hk⟩ := h.fingerprints p (Option.isSome_iff_ne_none.1 hp)
      exact .inr ⟨k, hk⟩
  · rintro (hp | ⟨k, hk⟩)
    · exact .inl ⟨.module, .inl hp⟩
    · exact .inl ⟨k, hk.names⟩

/-- Libraries that are found anew do not matter to what is known of a file. -/
theorem holds_rebuild (s : Setting) (top : Path) : (c.rebuild s top).Holds p k ↔ c.Holds p k := by
  cases k with
  | module | platform => rfl
  | declaration =>
    have hload := file_declaration_loadPackage s c.platforms
    have hdescribed := c.packages.described_map hload p
    simp only [Holds, Catalog.rebuild, hdescribed]

/-- Libraries that are found anew do not matter to which files are mentioned. -/
theorem mentions_rebuild (h : c.Sound root) (s : Setting) (top : Path) :
    (c.rebuild s top).Mentions p ↔ c.Mentions p := by
  rw [(h.rebuild s top).mentions_iff, h.mentions_iff]
  exact or_congr_right (exists_congr fun _ => holds_rebuild s top)

/-- Reading modules that were left unread changes nothing about what is mentioned, since they were
listed before. -/
theorem mentions_loadModules (h : c.Sound root) (sources : Sources) (top : Path) :
    ({ c with modules := c.modules.loadUnder sources top } : Catalog).Mentions p ↔ c.Mentions p := by
  have hlisted : ∀ file ∈ c.modules.pending top, file ∈ c.modules.files :=
    fun _ hfile => Modules.mem_files_of_mem_pending hfile
  have hfiles : (c.modules.loadUnder sources top).files = c.modules.files :=
    Modules.files_load hlisted
  have hread : ((c.modules.loadUnder sources top).get? p).isSome ↔
      (∃ file ∈ c.modules.pending top, file.Same p) ∨ (c.modules.get? p).isSome :=
    c.modules.isSome_get?_load sources _ p
  rw [(h.loadModules sources top).mentions_iff, h.mentions_iff]
  dsimp only
  rw [hfiles]
  constructor
  · rintro (hp | ⟨k, hk⟩)
    · exact .inl hp
    · cases k with
      | module =>
        rcases hread.1 hk with ⟨file, hfile, hsame⟩ | hold
        · exact .inl ⟨file, hlisted file hfile, hsame⟩
        · exact .inr ⟨.module, hold⟩
      | declaration => exact .inr ⟨.declaration, hk⟩
      | platform => exact .inr ⟨.platform, hk⟩
  · rintro (hp | ⟨k, hk⟩)
    · exact .inl hp
    · cases k with
      | module => exact .inr ⟨.module, hread.2 (.inr hk)⟩
      | declaration => exact .inr ⟨.declaration, hk⟩
      | platform => exact .inr ⟨.platform, hk⟩

/-- Of a file that has been forgotten nothing of its kind is known, and nothing new of another
kind. -/
theorem of_holds_forget (h : c.Sound root) {j : FileKind} (hj : (c.forget p k).Holds p j) :
    j ≠ k ∧ c.Holds p j := by
  have hself : p.Same p := rfl
  cases k with
  | module =>
    cases j with
    | module =>
      have hnone : ((c.modules.forget p).get? p).isSome := hj
      simp [Modules.forget, Modules.get?_remove, hself] at hnone
    | declaration | platform => exact ⟨by simp, hj⟩
  | declaration =>
    cases j with
    | declaration =>
      have hnone : ((c.packages.remove p).described p).isSome := hj
      simp [h.declarations.proper.described_remove, hself] at hnone
    | module | platform => exact ⟨by simp, hj⟩
  | platform =>
    obtain ⟨ps, hps, _, hsame⟩ := exists_refreshSibling_eq
      { c.setFingerprint p none with platforms := c.platforms.remove p } h.declarations.proper p
    have hforget : c.forget p .platform =
        { c.setFingerprint p none with platforms := c.platforms.remove p, packages := ps } := hps
    rw [hforget] at hj
    cases j with
    | module => exact ⟨by simp, hj⟩
    | declaration =>
      have hdescribed : ps.described p = c.packages.described p := hsame p
      exact ⟨by simp, (congrArg Option.isSome hdescribed).symm.trans hj⟩
    | platform => simp [Holds, Platforms.get?_remove, hself] at hj

/-- When every file is known under the kind of its name, a file that has been forgotten is mentioned
by no store. -/
theorem not_mentions_forget (h : c.Sound root) (hp : p.SpelledBelow root)
    (hnames : ∀ j, c.Names p j → j = k) : ¬ (c.forget p k).Mentions p := by
  rw [(h.forget k hp).mentions_iff]
  rintro (⟨file, hfile, hsame⟩ | ⟨j, hj⟩)
  · obtain ⟨hlisted, hother⟩ := mem_files_forget.1 hfile
    exact hother (hnames .module (.inl ⟨file, hlisted, hsame⟩)).symm hsame
  · obtain ⟨hne, hold⟩ := h.of_holds_forget hj
    exact hne (hnames j hold.names)

end Sound

end Catalog

end FirmwareIndex
