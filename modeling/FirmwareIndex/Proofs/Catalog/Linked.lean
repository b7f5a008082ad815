import FirmwareIndex.Proofs.Catalog.Libraries
import FirmwareIndex.Proofs.Catalog.Packages
import FirmwareIndex.Proofs.Path.Kind

/-!
# Stores that agree

The stores of a catalog tell of the same files, each in its own way. `Catalog.Linked` says how they
agree: declarations with packages, fingerprints with all kinds of records, and libraries with
modules. The invariant behind it is `Catalog.Sound`. Taking in the outcome of a file and forgetting
a file keep it, provided that the file is spelled as it is found below the root
(`Catalog.Sound.take`, `Catalog.Sound.forget`), and once the libraries have been found anew the
catalog is linked (`Catalog.Sound.linked`).
-/

set_option autoImplicit false

namespace FirmwareIndex

/-- The library is listed, among all or among those of its class. -/
def Libraries.Lists (ls : Libraries) (l : Library) : Prop :=
  l ∈ ls.all ∨ ∃ className, l ∈ ls.implementations className

namespace Catalog

/-- A record of a kind is stored for a file. The record of a declaration is stored with its
package. -/
def Stores (c : Catalog) (file : Path) : FileKind → Prop
  | .module => ∃ r, c.modules.get? file = some r ∧ r.path.Same file
  | .declaration => ∃ p, c.packages.find? file = some p ∧
      c.declarations.find? p.file = some p.declaration
  | .platform => ∃ d, c.platforms.get? file = some d ∧ d.file.Same file

/-- The stores of the catalog agree with each other. -/
structure Linked (c : Catalog) : Prop where
  /-- Every declaration is that of a package. -/
  package : ∀ r ∈ c.declarations.all, ∃ p ∈ c.packages.all, p.declaration = r
  /-- The declaration of every package is the one that is held for its file. -/
  declaration : ∀ p ∈ c.packages.all, p.declaration.path = p.file ∧
    c.declarations.find? p.file = some p.declaration
  /-- There is one package for a file. -/
  different : Path.Different (c.packages.all.map Package.file)
  /-- Every file with a fingerprint has a record of its kind. -/
  fingerprint : ∀ file, c.fingerprints[file.components]? ≠ none →
    ∃ kind, FileKind.ofFileName? file = some kind ∧ c.Stores file kind
  /-- Every library has the module that is known at its path. -/
  library : ∀ l, c.libraries.Lists l → l.module = c.modules.get? l.path

/-- Something is known of a file of a kind. -/
def Holds (c : Catalog) (file : Path) : FileKind → Prop
  | .module => (c.modules.get? file).isSome
  | .declaration => (c.packages.described file).isSome
  | .platform => (c.platforms.get? file).isSome

/-- What holds of a catalog of files that are spelled as they are found below a root. -/
structure Sound (c : Catalog) (root : Path) : Prop where
  modules : c.modules.Coherent
  declarations : c.declarations.Matches c.packages root
  platforms : ∀ (d : Document) (k : List Component), c.platforms.documents[k]? = some d →
    d.file.components = k ∧ d.file.SpelledBelow root ∧
      FileKind.ofFileName? d.file = some .platform
  fingerprints : ∀ file, c.fingerprints[file.components]? ≠ none →
    ∃ kind, FileKind.ofFileName? file = some kind ∧ c.Holds file kind

/-- What is known of a file is known by any spelling. -/
theorem Holds.congr {c : Catalog} {file file' : Path} {kind : FileKind} (h : c.Holds file kind)
    (hsame : file.Same file') : c.Holds file' kind := by
  have hkey : file.components = file'.components := hsame
  cases kind with
  | module => rwa [Holds, ← c.modules.get?_congr hsame]
  | declaration => rwa [Holds, ← c.packages.described_congr hsame]
  | platform => rwa [Holds, Platforms.get?, ← hkey]

/-- The fingerprint of a file may be set before or after its record. -/
theorem take_eq (c : Catalog) (o : Outcome) :
    c.take o = (c.takeContent o.content).setFingerprint o.path o.fingerprint := by
  obtain ⟨kind, path, fingerprint, content⟩ := o
  cases content with
  | module r => rfl
  | declaration r => rfl
  | platform d =>
    simp only [take, takeContent, refreshSibling, setFingerprint]
    split <;> rfl

/-- What has been taken in is known. -/
theorem holds_takeContent (c : Catalog) (s : Setting) (kind : FileKind) (path : Path) :
    (c.takeContent (Outcome.ofFile s kind path).content).Holds path kind := by
  cases kind with
  | module => simp [Outcome.ofFile, takeContent, Holds, Modules.get?_insert, Path.Same]
  | declaration =>
    simp [Outcome.ofFile, takeContent, Holds, Packages.described_add, Package.ofDeclaration,
      Path.Same]
  | platform =>
    have hplatforms : ∀ (c : Catalog) (file : Path),
        (c.refreshSibling file).platforms = c.platforms := by
      intro c file
      unfold refreshSibling
      split <;> rfl
    simp [Outcome.ofFile, takeContent, Holds, hplatforms, Platforms.get?, Platforms.insert]

/-- A catalog that only lists files is sound. -/
theorem sound_empty (root : Path) (files : List Path) :
    ({ empty with modules := Modules.empty.setFiles files } : Catalog).Sound root where
  modules := Modules.coherent_setFiles files
  declarations := .empty root
  platforms := by simp [empty, Platforms.empty]
  fingerprints := by simp [empty]

namespace Sound

variable {c c' : Catalog} {root path : Path} {r : ModuleRecord}

/-- A change of records keeps a catalog sound if what has a fingerprint is still known. -/
theorem of_holds (h : c.Sound root) (hmodules : c'.modules.Coherent)
    (hdeclarations : c'.declarations.Matches c'.packages root)
    (hplatforms : ∀ (d : Document) (k : List Component), c'.platforms.documents[k]? = some d →
      d.file.components = k ∧ d.file.SpelledBelow root ∧
        FileKind.ofFileName? d.file = some .platform)
    (hfingerprints : c'.fingerprints = c.fingerprints)
    (hkept : ∀ file kind, c.fingerprints[file.components]? ≠ none → c.Holds file kind →
      c'.Holds file kind) : c'.Sound root where
  modules := hmodules
  declarations := hdeclarations
  platforms := hplatforms
  fingerprints file hfile := by
    rw [hfingerprints] at hfile
    obtain ⟨kind, hkind, hholds⟩ := h.fingerprints file hfile
    exact ⟨kind, hkind, hkept file kind hfile hholds⟩

/-- A file without a fingerprint is at no place of one with a fingerprint. -/
theorem not_same (hnone : c.fingerprints[path.components]? = none) {file : Path}
    (hfile : c.fingerprints[file.components]? ≠ none) : ¬ path.Same file := by
  intro hsame
  have hkey : path.components = file.components := hsame
  exact hfile (hkey ▸ hnone)

/-- A module that is put in keeps a catalog sound. -/
theorem insertModule (h : c.Sound root) (hr : Path.Different r.sources) :
    ({ c with modules := c.modules.insert r } : Catalog).Sound root := by
  refine h.of_holds (h.modules.insert hr) h.declarations h.platforms rfl
    fun file kind _ hholds => ?_
  cases kind with
  | module =>
    rw [Holds, Modules.get?_insert]
    split
    · rfl
    · exact hholds
  | declaration | platform => exact hholds

/-- Reading modules that were left unread keeps a catalog sound. -/
theorem loadModules (h : c.Sound root) (sources : Sources) (top : Path) :
    ({ c with modules := c.modules.loadUnder sources top } : Catalog).Sound root :=
  List.foldlRecOn (c.modules.pending top) _
    (motive := fun m => ({ c with modules := m } : Catalog).Sound root) h
    fun _ hm file _ => hm.insertModule (ModuleRecord.different_sources sources file)

/-- A module without a fingerprint can be forgotten. -/
theorem forgetModule (h : c.Sound root) (hnone : c.fingerprints[path.components]? = none) :
    ({ c with modules := c.modules.forget path } : Catalog).Sound root := by
  refine h.of_holds (h.modules.forget path) h.declarations h.platforms rfl
    fun file kind hfile hholds => ?_
  cases kind with
  | module =>
    rw [Holds, Modules.forget, Modules.get?_remove, if_neg (not_same hnone hfile)]
    exact hholds
  | declaration | platform => exact hholds

/-- A declaration that is put in with its package keeps a catalog sound. -/
theorem insertDeclaration (h : c.Sound root) (hr : r.path.SpelledBelow root) :
    ({ c with
      declarations := c.declarations.insert r
      packages := c.packages.add (.ofDeclaration r) } : Catalog).Sound root := by
  refine h.of_holds h.modules (h.declarations.insert hr) h.platforms rfl
    fun file kind _ hholds => ?_
  cases kind with
  | declaration =>
    rw [Holds, Packages.described_add]
    split
    · rfl
    · exact hholds
  | module | platform => exact hholds

/-- A declaration without a fingerprint can be taken out with its package. -/
theorem removeDeclaration (h : c.Sound root) (hpath : path.SpelledBelow root)
    (hnone : c.fingerprints[path.components]? = none) :
    ({ c with
      declarations := c.declarations.remove path
      packages := c.packages.remove path } : Catalog).Sound root := by
  refine h.of_holds h.modules (h.declarations.remove hpath) h.platforms rfl
    fun file kind hfile hholds => ?_
  cases kind with
  | declaration =>
    rw [Holds, h.declarations.proper.described_remove, if_neg (not_same hnone hfile)]
    exact hholds
  | module | platform => exact hholds

/-- Packages that stand for the same declarations are as sound. -/
theorem setPackages (h : c.Sound root) {ps : Packages} (hps : ps.Proper)
    (hsame : ∀ file, ps.described file = c.packages.described file) :
    ({ c with packages := ps } : Catalog).Sound root := by
  refine h.of_holds h.modules (h.declarations.congr hps hsame) h.platforms rfl
    fun file kind _ hholds => ?_
  cases kind with
  | declaration => rwa [Holds, hsame]
  | module | platform => exact hholds

/-- A package that has to look beside itself again keeps a catalog sound. -/
theorem refreshSibling (h : c.Sound root) (platform : Path) :
    (c.refreshSibling platform).Sound root := by
  obtain ⟨ps, hps, hproper, hsame⟩ := exists_refreshSibling_eq c h.declarations.proper platform
  exact hps ▸ h.setPackages hproper hsame

/-- A platform that is put in keeps a catalog sound. -/
theorem insertPlatform (h : c.Sound root) {d : Document} (hd : d.file.SpelledBelow root)
    (hkind : FileKind.ofFileName? d.file = some .platform) :
    ({ c with platforms := c.platforms.insert d } : Catalog).Sound root := by
  refine h.of_holds h.modules h.declarations (fun d' k hk => ?_) rfl fun file kind _ hholds => ?_
  · rw [Platforms.insert, Std.ExtTreeMap.getElem?_insert] at hk
    split at hk
    · rename_i hkey
      obtain rfl := Option.some.inj hk
      exact ⟨Std.LawfulEqCmp.compare_eq_iff_eq.1 hkey, hd, hkind⟩
    · exact h.platforms d' k hk
  · cases kind with
    | platform =>
      rw [Holds, Platforms.get?, Platforms.insert, Std.ExtTreeMap.getElem?_insert]
      split
      · rfl
      · exact hholds
    | module | declaration => exact hholds

/-- A platform without a fingerprint can be taken out. -/
theorem removePlatform (h : c.Sound root) (hnone : c.fingerprints[path.components]? = none) :
    ({ c with platforms := c.platforms.remove path } : Catalog).Sound root := by
  refine h.of_holds h.modules h.declarations (fun d k hk => ?_) rfl
    fun file kind hfile hholds => ?_
  · rw [Platforms.remove, Std.ExtTreeMap.getElem?_erase] at hk
    split at hk
    · cases hk
    · exact h.platforms d k hk
  · cases kind with
    | platform =>
      rw [Holds, Platforms.get?, Platforms.remove, Std.ExtTreeMap.getElem?_erase,
        if_neg fun heq => not_same hnone hfile (Std.LawfulEqCmp.compare_eq_iff_eq.1 heq)]
      exact hholds
    | module | declaration => exact hholds

/-- A fingerprint may be set if something of its kind is known of the file. -/
theorem setFingerprint (h : c.Sound root) (fingerprint : Option Text)
    (hholds : fingerprint ≠ none →
      ∃ kind, FileKind.ofFileName? path = some kind ∧ c.Holds path kind) :
    (c.setFingerprint path fingerprint).Sound root where
  modules := h.modules
  declarations := h.declarations
  platforms := h.platforms
  fingerprints file hfile := by
    rw [Catalog.setFingerprint, Std.ExtTreeMap.getElem?_alter] at hfile
    split at hfile
    · rename_i hkey
      have hsame : path.Same file := Std.LawfulEqCmp.compare_eq_iff_eq.1 hkey
      obtain ⟨kind, hkind, hknown⟩ := hholds hfile
      exact ⟨kind, FileKind.ofFileName?_congr hsame ▸ hkind, hknown.congr hsame⟩
    · exact h.fingerprints file hfile

/-- Taking in the outcome of a file keeps a catalog sound. -/
theorem take (h : c.Sound root) (s : Setting) {kind : FileKind} (hpath : path.SpelledBelow root)
    (hkind : FileKind.ofFileName? path = some kind) :
    (c.take (.ofFile s kind path)).Sound root := by
  have hcontent : (c.takeContent (Outcome.ofFile s kind path).content).Sound root := by
    cases kind with
    | module => exact h.insertModule (ModuleRecord.different_sources s.sources path)
    | declaration => exact h.insertDeclaration (by rwa [ModuleRecord.path_ofFile])
    | platform =>
      have hfile := Document.file_ofFile s path
      exact (h.insertPlatform (by rwa [hfile]) (by rwa [hfile])).refreshSibling _
  rw [take_eq]
  exact hcontent.setFingerprint _ fun _ => ⟨kind, hkind, holds_takeContent c s kind path⟩

/-- Forgetting a file keeps a catalog sound. -/
theorem forget (h : c.Sound root) (kind : FileKind) (hpath : path.SpelledBelow root) :
    (c.forget path kind).Sound root := by
  have hnone : (c.setFingerprint path none).fingerprints[path.components]? = none := by
    rw [Catalog.setFingerprint, Std.ExtTreeMap.getElem?_alter, if_pos (by simp)]
  have hforgotten : (c.setFingerprint path none).Sound root :=
    h.setFingerprint none fun hne => absurd rfl hne
  cases kind with
  | module => exact hforgotten.forgetModule hnone
  | declaration => exact hforgotten.removeDeclaration hpath hnone
  | platform => exact (hforgotten.removePlatform hnone).refreshSibling path

/-- Libraries that are found anew keep a catalog sound. -/
theorem rebuild (h : c.Sound root) (s : Setting) (top : Path) : (c.rebuild s top).Sound root := by
  have hload := file_declaration_loadPackage s c.platforms
  have hpackages := h.setPackages (h.declarations.proper.map hload)
    (c.packages.described_map hload)
  exact hpackages.of_holds hpackages.modules hpackages.declarations hpackages.platforms rfl
    fun _ kind _ hholds => by cases kind <;> exact hholds

/-- A sound catalog is linked if its libraries have the modules that are known. -/
theorem linked (h : c.Sound root) (hlibraries : c.libraries.Matched c.modules) : c.Linked where
  package r hr := h.declarations.exists_mem_all hr
  declaration p hp := ⟨(h.declarations.proper.file p hp).symm, h.declarations.find?_file hp⟩
  different := h.declarations.proper.different
  fingerprint file hfile := by
    obtain ⟨kind, hkind, hholds⟩ := h.fingerprints file hfile
    refine ⟨kind, hkind, ?_⟩
    cases kind with
    | module =>
      obtain ⟨r, hr⟩ := Option.isSome_iff_exists.1 hholds
      exact ⟨r, hr, h.modules.keyed r _ hr⟩
    | declaration =>
      obtain ⟨r, hr⟩ := Option.isSome_iff_exists.1 hholds
      obtain ⟨p, hp, _⟩ := Option.map_eq_some_iff.1 hr
      exact ⟨p, hp, h.declarations.find?_file (List.mem_of_find?_eq_some hp)⟩
    | platform =>
      obtain ⟨d, hd⟩ := Option.isSome_iff_exists.1 hholds
      exact ⟨d, hd, (h.platforms d _ hd).1⟩
  library l hl := by
    rcases hl with hl | ⟨className, hl⟩
    · exact hlibraries.all l hl
    · exact hlibraries.implementations hl

end Sound

end Catalog

end FirmwareIndex
