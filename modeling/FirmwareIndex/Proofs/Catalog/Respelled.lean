import FirmwareIndex.Proofs.Catalog.Additions
import FirmwareIndex.Proofs.Catalog.Canonical
import FirmwareIndex.Proofs.Catalog.OneEach
import FirmwareIndex.Proofs.Platform.Respelled

/-!
# Catalogs of two spellings of a file

Taking in a file in one of two spellings, or forgetting it, leads to catalogs that are alike: the
stores have the same records but for the spellings of paths (`Catalog.alike_take_module` and the
lemmas after it). Once the libraries have been found anew, such catalogs give the same answers
(`Catalog.Respells.answers`). The declarations stand apart, since they alone are kept by the end of
a text: they are spelled in two ways if the file ends alike in both spellings and in that of the
declaration that is known (`Catalog.paired_take`), and then the include directories are alike
(`Catalog.Respells.includesAlike`).
-/

set_option autoImplicit false

namespace FirmwareIndex

/-! ## Packages -/

/-- What was found, with the canonical spellings of its paths. -/
def Sibling.canonical : Sibling → Sibling
  | .loaded platform => .loaded platform.canonical
  | sibling => sibling

namespace Package

/-- The package with the canonical spellings of its paths. -/
def canonical (p : Package) : Package :=
  { p with
    file := p.file.canonical
    root := p.root.canonical
    declaration := p.declaration.canonical
    sibling := p.sibling.canonical }

/-- A package in two spellings, which find the same platform description beside them. -/
structure Respells (s : Setting) (p p' : Package) : Prop where
  canonical : p.canonical = p'.canonical
  place : p.platformPath.Same p'.platformPath
  present : s.sources.present p.platformPath = s.sources.present p'.platformPath
  document : (Document.ofFile s p.platformPath).Agrees (Document.ofFile s p'.platformPath)

variable {s : Setting} {p p' : Package} {r r' : ModuleRecord}

/-- A package finds the same as itself. -/
theorem Respells.refl (s : Setting) (p : Package) : p.Respells s p :=
  ⟨rfl, rfl, rfl, .refl _⟩

/-- Declarations that are the same but for spellings have such packages. -/
theorem canonical_ofDeclaration (h : r.canonical = r'.canonical) :
    (ofDeclaration r).canonical = (ofDeclaration r').canonical := by
  have hpath := ModuleRecord.path_of_canonical h
  have hkey : r.path.components = r'.path.components := hpath
  have hdefines : r.defines = r'.defines := by
    simp only [ModuleRecord.canonical, ModuleRecord.mk.injEq] at h
    exact h.2.2.1
  simp only [canonical, ofDeclaration, h, hdefines, Path.stem, Path.fileName?, hkey,
    Path.canonical_congr hpath, Path.canonical_congr (ModuleRecord.directory_of_canonical h)]

/-- Packages that are the same but for spellings are in one directory. -/
theorem root_of_canonical (h : p.canonical = p'.canonical) : p.root.Same p'.root := by
  simp only [canonical, mk.injEq] at h
  exact Path.canonical_eq_iff.1 h.2.2.1

/-- Packages that are the same but for spellings have found the same beside them. -/
theorem sibling_of_canonical (h : p.canonical = p'.canonical) :
    p.sibling.canonical = p'.sibling.canonical := by
  simp only [canonical, mk.injEq] at h
  exact h.2.2.2.2

/-- The library classes of a package are seen in its canonical spelling. -/
theorem libraryClasses_canonical (p : Package) : p.canonical.libraryClasses = p.libraryClasses := by
  obtain ⟨name, file, root, declaration, sibling⟩ := p
  cases sibling <;> rfl

/-- A package that has looked beside itself does not look again. -/
theorem load_eq_self (h : p.sibling ≠ .unknown) (s : Setting) : p.load s = p := by
  unfold load
  split
  · contradiction
  · rfl

/-- Two spellings of a package are given what is found beside them. -/
theorem Respells.load (h : p.Respells s p') : (p.load s).canonical = (p'.load s).canonical := by
  have hsibling := sibling_of_canonical h.canonical
  have hunknown : p.sibling = .unknown ↔ p'.sibling = .unknown := by
    cases hp : p.sibling <;> cases hp' : p'.sibling <;> simp_all [Sibling.canonical]
  by_cases hp : p.sibling = .unknown
  · have hplatform := congrArg (fun platform => Sibling.loaded platform) h.document.ofDocument
    have hfields := h.canonical
    simp only [Package.canonical, mk.injEq] at hfields
    unfold Package.load
    rw [hp, hunknown.1 hp, h.present]
    dsimp only
    split <;> simp only [Package.canonical, Sibling.canonical, mk.injEq, hfields]
    exact ⟨trivial, trivial, trivial, trivial, hplatform⟩
  · rw [load_eq_self hp, load_eq_self fun hp' => hp (hunknown.2 hp'), h.canonical]

/-- Two spellings of a package are given a platform description that is spelled in two ways. -/
theorem canonical_preload {platform platform' : Reduced} (h : p.canonical = p'.canonical)
    (hplatform : platform.canonical = platform'.canonical) :
    (p.preload platform).canonical = (p'.preload platform').canonical := by
  obtain ⟨name, file, root, declaration, sibling⟩ := p
  obtain ⟨name', file', root', declaration', sibling'⟩ := p'
  simp only [canonical, mk.injEq] at h
  cases sibling <;> cases sibling' <;>
    simp_all [preload, canonical, Sibling.canonical]

/-- A package that was given its platform description has not to look for it. -/
theorem sibling_preload_ne (p : Package) (platform : Reduced) :
    (p.preload platform).sibling ≠ .unknown := by
  unfold preload
  split
  · simp
  · assumption

end Package

/-- A package is removed by any spelling of its file. -/
theorem Packages.remove_congr {p q : Path} (h : p.Same q) (ps : Packages) :
    ps.remove p = ps.remove q := by
  simp only [remove, Path.decide_same_congr h]

/-- Packages that are added in the place of one file correspond if their other members do. -/
theorem Packages.forall₂_add {R : Package → Package → Prop} (hrefl : ∀ p, R p p) {p p' : Package}
    (hsame : p.file.Same p'.file) (hnew : R p p') (ps : Packages) :
    List.Forall₂ R (ps.add p).all (ps.add p').all := by
  have hself : ∀ list : List Package, List.Forall₂ R list list := fun list =>
    List.forall₂_same.2 fun p _ => hrefl p
  have hkey : p.file.components = p'.file.components := hsame
  unfold add
  rw [ps.find?_congr hsame]
  split
  · dsimp only
    induction ps.all with
    | nil => exact .nil
    | cons q rest ih =>
      have hplace : q.file.Same p.file ↔ q.file.Same p'.file := by rw [Path.Same, Path.Same, hkey]
      rw [replace, replace]
      by_cases hq : q.file.Same p.file
      · rw [if_pos hq, if_pos (hplace.1 hq)]
        exact .cons hnew (hself rest)
      · rw [if_neg hq, if_neg fun hq' => hq (hplace.2 hq')]
        exact .cons (hrefl q) ih
  · exact List.rel_append (hself ps.all) (.cons hnew .nil)

/-! ## Libraries of packages -/

/-- Items that look the same lead to the same lists. -/
theorem flatMap_congr_of_map {α β γ : Type} {f : α → List γ} {g : α → β} {xs ys : List α}
    (h : xs.map g = ys.map g) (hf : ∀ x y, g x = g y → f x = f y) :
    xs.flatMap f = ys.flatMap f := by
  induction xs generalizing ys with
  | nil =>
    obtain rfl := List.map_eq_nil_iff.1 h.symm
    rfl
  | cons x xs ih =>
    obtain ⟨y, ys, rfl, hy, hrest⟩ := List.map_eq_cons_iff.1 h.symm
    rw [List.flatMap_cons, List.flatMap_cons, hf x y hy.symm, ih hrest.symm]

namespace Libraries

variable {m m' : Modules} {p p' : Package}

/-- A mapping means one library in all spellings of its package. -/
theorem canonical_ofMapping (h : p.canonical = p'.canonical) (hm : m.Respells m') (root : Path)
    (arch : Text) (l : LibraryClass) :
    (ofMapping root m p arch l).canonical = (ofMapping root m' p' arch l).canonical := by
  have hname : p.name = p'.name := by
    simp only [Package.canonical, Package.mk.injEq] at h
    exact h.1
  have hpath : ∀ {base base' : Path}, base.Same base' →
      (base.join l.path).Same (base'.join l.path) := fun hbase => Path.join_congr hbase l.path
  have hmodule : ∀ {f g : Path}, f.Same g → (m.get? f).map ModuleRecord.canonical =
      (m'.get? g).map ModuleRecord.canonical := by
    intro f g hsame
    rw [m.get?_congr hsame]
    exact hm.records g.components
  simp only [ofMapping, Library.canonical, hname]
  split
  · rw [hmodule rfl]
  · have hroot := hpath (Package.root_of_canonical h)
    rw [hmodule hroot, Path.canonical_congr hroot]

/-- The mappings of a package are the same libraries, however the package is spelled. -/
theorem map_canonical_mappingsOf (h : p.canonical = p'.canonical) (hm : m.Respells m')
    (root : Path) : (mappingsOf root m p).map Library.canonical =
      (mappingsOf root m' p').map Library.canonical := by
  have hclasses : p.libraryClasses = p'.libraryClasses := by
    rw [← p.libraryClasses_canonical, h, p'.libraryClasses_canonical]
  simp only [mappingsOf, List.map_flatMap, List.map_map, hclasses, Function.comp_def,
    canonical_ofMapping h hm]

/-- Modules and packages that are spelled in two ways have the same libraries. -/
theorem respells_librariesOf (hm : m.Respells m') {ps ps' : List Package}
    (hps : ps.map Package.canonical = ps'.map Package.canonical) (root : Path) :
    (Catalog.librariesOf root m ps).Respells (Catalog.librariesOf root m' ps') := by
  rw [Catalog.librariesOf_eq_foldl, Catalog.librariesOf_eq_foldl, List.foldl_append,
    List.foldl_append]
  refine respells_foldl_add (respells_foldl_add (fun _ _ => rfl) ?_) ?_
  · rw [List.map_flatMap, List.map_flatMap]
    exact flatMap_congr_of_map hm.values fun _ _ h => map_canonical_rolesOf h
  · rw [List.map_flatMap, List.map_flatMap]
    refine (flatMap_congr_of_map hps fun _ _ h => map_canonical_mappingsOf h (.refl m) root).trans ?_
    exact List.flatMap_congr fun p _ => map_canonical_mappingsOf rfl hm root

end Libraries

namespace Platforms

/-- The problems in a file over all platforms. -/
def problemsIn (ps : Platforms) (file : Path) : List Problem :=
  ps.all.flatMap fun d => d.problems.filter fun p => p.location.file.Same file

/-- The diagnostics in a file are those of its problems in all documents, each once. -/
theorem diagnosticsIn_eq_eraseDups (ps : Platforms) (file : Path) :
    ps.diagnosticsIn file = ((ps.problemsIn file).map Problem.diagnostic).eraseDups := by
  rw [diagnosticsIn, problemsIn, List.map_flatMap]

/-- Two stores have documents of the same platforms that agree. -/
def Respells (ps ps' : Platforms) : Prop :=
  ∀ key : List Component, Option.Rel Document.Agrees ps.documents[key]? ps'.documents[key]?

variable {ps ps' : Platforms}

/-- Every store has its own documents. -/
theorem Respells.refl (ps : Platforms) : ps.Respells ps := by
  intro key
  cases ps.documents[key]? with
  | none => exact .none
  | some d => exact .some (.refl d)

/-- Stores with documents that agree have the same problems in a file, but for spellings. -/
theorem Respells.problemsIn (h : ps.Respells ps') (file : Path) :
    (ps.problemsIn file).map Problem.canonical = (ps'.problemsIn file).map Problem.canonical := by
  have hall : List.Forall₂ Document.Agrees ps.all ps'.all := forall₂_values h
  rw [Platforms.problemsIn, Platforms.problemsIn, List.map_flatMap, List.map_flatMap]
  generalize ps.all = list, ps'.all = list' at hall
  induction hall with
  | nil => rfl
  | cons hd _ ih => rw [List.flatMap_cons, List.flatMap_cons, ih, hd.problemsIn]

/-- Diagnostics in which no path is spelled are the same. -/
theorem Respells.diagnosticsIn (h : ps.Respells ps') {file : Path}
    (hspells : ∀ p ∈ ps.problemsIn file, p.cause.Spells = false) :
    ps.diagnosticsIn file = ps'.diagnosticsIn file := by
  have hproblems := h.problemsIn file
  rw [diagnosticsIn_eq_eraseDups, diagnosticsIn_eq_eraseDups]
  generalize ps.problemsIn file = found, ps'.problemsIn file = found' at hspells hproblems
  congr 1
  induction found generalizing found' with
  | nil =>
    obtain rfl := List.map_eq_nil_iff.1 hproblems.symm
    rfl
  | cons p rest ih =>
    obtain ⟨p', rest', rfl, hp, hrest⟩ := List.map_eq_cons_iff.1 hproblems.symm
    obtain ⟨hspell, hspells⟩ := List.forall_mem_cons.1 hspells
    rw [List.map_cons, List.map_cons, Problem.diagnostic_eq_of_canonical hp.symm hspell,
      ih rest' hspells hrest.symm]

end Platforms

/-- Two spellings of a package are given the platform description beside them. -/
theorem Catalog.canonical_loadPackage {s : Setting} {ps ps' : Platforms} {p p' : Package}
    (hps : ps.Respells ps') (h : p.Respells s p') :
    (loadPackage s ps p).canonical = (loadPackage s ps' p').canonical := by
  have hplace : p.platformPath.components = p'.platformPath.components := h.place
  have hdocument := hps p.platformPath.components
  unfold loadPackage Platforms.get?
  rw [← hplace]
  generalize ps.documents[p.platformPath.components]? = d,
    ps'.documents[p.platformPath.components]? = d' at hdocument
  cases hdocument with
  | none => exact h.load
  | some hd =>
    dsimp only
    rw [Package.load_eq_self (p.sibling_preload_ne _), Package.load_eq_self (p'.sibling_preload_ne _)]
    exact Package.canonical_preload h.canonical hd.ofDocument

/-! ## Catalogs -/

namespace Catalog

variable {s : Setting} {c c' : Catalog} {p q : Path}

/-- Two catalogs that have taken in one file in two spellings. -/
structure Alike (s : Setting) (c c' : Catalog) : Prop where
  modules : c.modules.Respells c'.modules
  packages : List.Forall₂ (Package.Respells s) c.packages.all c'.packages.all
  platforms : c.platforms.Respells c'.platforms
  fingerprints : c.fingerprints = c'.fingerprints

/-- Two catalogs have the same records but for the spellings of paths. -/
structure Respells (c c' : Catalog) : Prop where
  modules : c.modules.Respells c'.modules
  packages : c.packages.all.map Package.canonical = c'.packages.all.map Package.canonical
  libraries : c.libraries.Respells c'.libraries
  platforms : c.platforms.Respells c'.platforms
  fingerprints : c.fingerprints = c'.fingerprints

/-- Two catalogs give the same answers but for the spellings of paths. -/
structure AnswersAlike (c c' : Catalog) : Prop where
  ownersOf : ∀ source, (c.modules.ownersOf source).map ModuleRecord.canonical =
    (c'.modules.ownersOf source).map ModuleRecord.canonical
  packages : c.packages.all.map Package.canonical = c'.packages.all.map Package.canonical
  implementations : ∀ className,
    (c.libraries.implementations className).map Library.canonical =
      (c'.libraries.implementations className).map Library.canonical
  problemsIn : ∀ file, (c.platforms.problemsIn file).map Problem.canonical =
    (c'.platforms.problemsIn file).map Problem.canonical
  /-- What an editor shows is the same to the letter where no message spells a path. -/
  diagnosticsIn : ∀ file, (∀ p ∈ c.platforms.problemsIn file, p.cause.Spells = false) →
    c.platforms.diagnosticsIn file = c'.platforms.diagnosticsIn file

/-- Every catalog has its own records. -/
theorem Respells.refl (c : Catalog) : c.Respells c :=
  ⟨.refl _, rfl, fun _ _ => rfl, .refl _, rfl⟩

/-- Catalogs with the same records but for spellings give the same answers but for spellings. -/
theorem Respells.answers (h : c.Respells c') : c.AnswersAlike c' where
  ownersOf := h.modules.owners
  packages := h.packages
  implementations := h.libraries.implementations
  problemsIn := h.platforms.problemsIn
  diagnosticsIn _ := h.platforms.diagnosticsIn

/-- Catalogs with the same stores have taken in the same. -/
theorem Alike.of_eq (hmodules : c.modules = c'.modules) (hpackages : c.packages = c'.packages)
    (hplatforms : c.platforms = c'.platforms) (hfingerprints : c.fingerprints = c'.fingerprints) :
    c.Alike s c' where
  modules := hmodules ▸ .refl _
  packages := hpackages ▸ List.forall₂_same.2 fun p _ => .refl s p
  platforms := hplatforms ▸ .refl _
  fingerprints := hfingerprints

/-- Catalogs that are alike have the same libraries once these have been found anew. -/
theorem Alike.rebuild (h : c.Alike s c') (root : Path) :
    (c.rebuild s root).Respells (c'.rebuild s root) := by
  have hpackages : (c.packages.all.map (loadPackage s c.platforms)).map Package.canonical =
      (c'.packages.all.map (loadPackage s c'.platforms)).map Package.canonical := by
    have hall := h.packages
    generalize c.packages.all = list, c'.packages.all = list' at hall
    induction hall with
    | nil => rfl
    | cons hp _ ih =>
      rw [List.map_cons, List.map_cons, List.map_cons, List.map_cons, ih,
        canonical_loadPackage h.platforms hp]
  exact ⟨h.modules, hpackages, Libraries.respells_librariesOf h.modules hpackages root,
    h.platforms, h.fingerprints⟩

/-- A fingerprint is set by any spelling of its file. -/
theorem setFingerprint_congr (h : p.Same q) (c : Catalog) (fingerprint : Option Text) :
    c.setFingerprint p fingerprint = c.setFingerprint q fingerprint := by
  have hkey : p.components = q.components := h
  rw [setFingerprint, setFingerprint, hkey]

section Take

variable (h : p.Same q) (hread : s.sources.read p = s.sources.read q)
include h hread

/-- Two spellings of a module are taken in alike. -/
theorem alike_take_module (hm : c.modules.Coherent) :
    (c.take (.ofFile s .module p)).Alike s (c.take (.ofFile s .module q)) := by
  simp only [take, takeContent, Outcome.ofFile, hread, setFingerprint_congr h]
  exact
    { modules := Modules.respells_insert hm (ModuleRecord.canonical_ofFile h hread)
        (ModuleRecord.different_sources _ _) (ModuleRecord.different_sources _ _)
      packages := List.forall₂_same.2 fun p _ => .refl s p
      platforms := .refl _
      fingerprints := rfl }

/-- Two spellings of a declaration are taken in alike, if the platform description beside them is
read alike. -/
theorem alike_take_declaration
    (hpresent : s.sources.present (p.withExtension "dsc") =
      s.sources.present (q.withExtension "dsc"))
    (hplace : (p.withExtension "dsc").Same (q.withExtension "dsc"))
    (hdocument : (Document.ofFile s (p.withExtension "dsc")).Agrees
      (Document.ofFile s (q.withExtension "dsc"))) :
    (c.take (.ofFile s .declaration p)).Alike s (c.take (.ofFile s .declaration q)) := by
  have hrecord := ModuleRecord.canonical_ofFile h hread
  have hpath : ∀ f : Path, (Package.ofDeclaration (.ofFile s.sources f)).platformPath =
      f.withExtension "dsc" := fun f =>
    congrArg (Path.withExtension · "dsc") (ModuleRecord.path_ofFile s.sources f)
  have hnew : (Package.ofDeclaration (.ofFile s.sources p)).Respells s
      (Package.ofDeclaration (.ofFile s.sources q)) :=
    ⟨Package.canonical_ofDeclaration hrecord, by rwa [hpath, hpath], by rwa [hpath, hpath],
      by rwa [hpath, hpath]⟩
  simp only [take, takeContent, Outcome.ofFile, hread, setFingerprint_congr h]
  exact
    { modules := .refl _
      packages := Packages.forall₂_add (Package.Respells.refl s)
        (ModuleRecord.path_of_canonical hrecord) hnew _
      platforms := .refl _
      fingerprints := rfl }

/-- Looking for a platform description anew takes back the same package for both of its
spellings. -/
theorem alike_take_platform
    (hplace : (p.withExtension "dec").Same (q.withExtension "dec"))
    (hdocument : (Document.ofFile s p).Agrees (Document.ofFile s q)) :
    (c.take (.ofFile s .platform p)).Alike s (c.take (.ofFile s .platform q)) := by
  have hkey : p.components = q.components := h
  have hplatforms : (c.platforms.insert (.ofFile s p)).Respells
      (c.platforms.insert (.ofFile s q)) := by
    intro key
    rw [Platforms.insert, Platforms.insert, Document.file_ofFile, Document.file_ofFile,
      Std.ExtTreeMap.getElem?_insert, Std.ExtTreeMap.getElem?_insert, hkey]
    split
    · exact .some hdocument
    · exact Platforms.Respells.refl c.platforms key
  simp only [take, takeContent, Outcome.ofFile, hread, setFingerprint_congr h, refreshSibling,
    Document.file_ofFile]
  have hfind := c.packages.find?_congr hplace
  change c.packages.find? (p.withExtension FileKind.declaration.extension) =
    c.packages.find? (q.withExtension FileKind.declaration.extension) at hfind
  simp only [setFingerprint] at hfind ⊢
  rw [hfind]
  split
  · exact ⟨.refl _, List.forall₂_same.2 fun p _ => .refl s p, hplatforms, rfl⟩
  · exact ⟨.refl _, List.forall₂_same.2 fun p _ => .refl s p, hplatforms, rfl⟩

end Take

/-- A file is forgotten in any of its spellings. -/
theorem alike_forget (h : p.Same q)
    (hplace : (p.withExtension "dec").Same (q.withExtension "dec")) (k : FileKind) :
    (c.forget p k).Alike s (c.forget q k) := by
  have hkey : p.components = q.components := h
  simp only [forget, setFingerprint_congr h]
  cases k with
  | module => exact .of_eq (Modules.forget_congr h _) rfl rfl rfl
  | declaration => exact .of_eq rfl (Packages.remove_congr h _) rfl rfl
  | platform =>
    have hremove : c.platforms.remove p = c.platforms.remove q := by
      rw [Platforms.remove, Platforms.remove, hkey]
    have hfind : c.packages.find? (p.withExtension FileKind.declaration.extension) =
        c.packages.find? (q.withExtension FileKind.declaration.extension) :=
      c.packages.find?_congr hplace
    simp only [setFingerprint, refreshSibling, hremove, hfind]
    exact .of_eq rfl rfl rfl rfl

end Catalog

/-! ## Declarations -/

/-- Two spellings of a file end alike, and like the declaration that is known of it. -/
structure Declarations.EndsAlike (d : Declarations) (p q : Path) : Prop where
  tail : p.tail 2 = q.tail 2
  known : ∀ r ∈ d.all, r.path.Same p → r.path.tail 2 = p.tail 2

/-- Two stores of declarations are in order and have the same declarations, spelled in two ways. -/
structure Declarations.Paired (d d' : Declarations) : Prop where
  separate : d.Separate
  separate' : d'.Separate
  respells : d.Respells d'

/-- Declarations in order are the same as themselves. -/
theorem Declarations.Separate.paired {d : Declarations} (h : d.Separate) : d.Paired d :=
  ⟨h, h, fun _ => rfl⟩

/-- A declaration is taken out by any spelling that ends alike. -/
theorem Declarations.remove_congr {d : Declarations} {p q : Path} (h : p.Same q)
    (htail : p.tail 2 = q.tail 2) : d.remove p = d.remove q := by
  simp only [remove, htail, Path.decide_same_congr h]

namespace Catalog

variable {c : Catalog} {s : Setting} {p q root : Path} {k : FileKind}

/-- The declarations stay paired when a file is taken in. -/
theorem paired_take (h : c.declarations.Separate)
    (hends : k = .declaration → c.declarations.EndsAlike p q) (hsame : p.Same q)
    (hread : s.sources.read p = s.sources.read q) :
    (c.take (.ofFile s k p)).declarations.Paired (c.take (.ofFile s k q)).declarations where
  separate := separate_take h s fun hk => (hends hk).known
  separate' := separate_take h s fun hk r hr hq =>
    ((hends hk).known r hr (Eq.trans hq hsame.symm)).trans (hends hk).tail
  respells := by
    cases k with
    | module => exact fun _ => rfl
    | declaration =>
      refine Declarations.respells_insert (ModuleRecord.canonical_ofFile hsame hread) ?_
      rw [ModuleRecord.path_ofFile, ModuleRecord.path_ofFile]
      exact (hends rfl).tail
    | platform =>
      have hkept : ∀ f, (c.take (.ofFile s .platform f)).declarations = c.declarations :=
        fun _ => declarations_refreshSibling _ _
      rw [hkept, hkept]
      exact fun _ => rfl

/-- So they do when one is forgotten. -/
theorem paired_forget (h : c.declarations.Separate)
    (hends : k = .declaration → c.declarations.EndsAlike p q) (hsame : p.Same q) :
    (c.forget p k).declarations.Paired (c.forget q k).declarations where
  separate := separate_forget h p k
  separate' := separate_forget h q k
  respells := by
    cases k with
    | module => exact fun _ => rfl
    | declaration =>
      have hremove : c.declarations.remove p = c.declarations.remove q :=
        Declarations.remove_congr hsame (hends rfl).tail
      exact fun key => congrArg (fun d : Declarations => (d.group key).map _) hremove
    | platform =>
      have hkept : ∀ f, (c.forget f .platform).declarations = c.declarations :=
        fun _ => declarations_refreshSibling _ _
      rw [hkept, hkept]
      exact fun _ => rfl

/-- Something is known of a file in all its spellings, or in none. -/
theorem knows_congr (h : c.declarations.Matches c.packages root) (hsame : p.Same q) (k : FileKind) :
    c.knows p k = c.knows q k := by
  have hkey : p.components = q.components := hsame
  -- a declaration that is found is that of a package
  have hdeclaration : ∀ f, c.knows f .declaration = (c.packages.find? f).isSome := by
    intro f
    rw [knows, Bool.or_eq_left_iff_imp]
    intro hfound
    obtain ⟨r, hr⟩ := Option.isSome_iff_exists.1 hfound
    have hplace := List.find?_some hr
    obtain ⟨a, ha, rfl⟩ := h.exists_mem_all
      (Declarations.mem_all_iff.2 ⟨_, List.mem_of_find?_eq_some hr⟩)
    rw [Packages.find?, List.find?_isSome]
    exact ⟨a, ha, by rwa [h.proper.file a ha]⟩
  cases k with
  | module => rw [knows, knows, c.modules.get?_congr hsame]
  | declaration => rw [hdeclaration, hdeclaration, c.packages.find?_congr hsame]
  | platform => rw [knows, knows, Platforms.get?, Platforms.get?, hkey]

end Catalog

/-- Two catalogs have one declaration of a file, and give the same include directories but for the
spellings of paths. -/
structure Catalog.IncludesAlike (c c' : Catalog) : Prop where
  different : c.declarations.all.Pairwise fun r other => ¬ r.path.Same other.path
  different' : c'.declarations.all.Pairwise fun r other => ¬ r.path.Same other.path
  includes : ∀ source, (c.modules.includes c.declarations source).map Path.canonical =
    (c'.modules.includes c'.declarations source).map Path.canonical

/-- Catalogs with the same declarations give the same include directories, but for spellings. -/
theorem Catalog.Respells.includesAlike {c c' : Catalog} (h : c.Respells c')
    (hpaired : c.declarations.Paired c'.declarations) : c.IncludesAlike c' where
  different := hpaired.separate.different_all
  different' := hpaired.separate'.different_all
  includes := hpaired.respells.includes h.modules

end FirmwareIndex
