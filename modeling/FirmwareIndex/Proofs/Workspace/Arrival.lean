import FirmwareIndex.Proofs.Catalog.Mappings
import FirmwareIndex.Proofs.Catalog.Packages
import FirmwareIndex.Proofs.Workspace.Rescan

/-!
# New package declarations

A rescan of a package declaration that was not there before puts its package behind all others,
while a scan puts it where its path belongs. So the libraries after the rescan are those of a scan
of the new tree, class by class and in the same order, but for those that the new package and one
with a later path both map: the scan keeps the mapping of the later path, the rescan that of the new
package (`Workspace.exists_rescan_reordered`, `Workspace.listed_earlierDeclaration_ne`). This takes
that the platform descriptions beside package declarations do not depend on the new file by an
include (`Workspace.listed_includedDeclaration_ne`), and that no link shows the new file at another
path (`Workspace.listed_linkedDeclaration_ne`).
-/

set_option autoImplicit false

namespace FirmwareIndex

/-- What is found before and after a package declaration has been created at `p`: all other files
are found as before and read as before, and so do the platform descriptions beside package
declarations. -/
structure Files.Gained (s s' : Sources) (files files' : Files) (p : Path) : Prop where
  mem : ∀ k q, q ∈ files'.ofKind k ↔ q ∈ files.ofKind k ∨ (k = .declaration ∧ q = p)
  different : ∀ k, ∀ q ∈ files.ofKind k, ¬ q.Same p
  read : ∀ k, ∀ q ∈ files.ofKind k, s'.read q = s.read q
  beside : ∀ file ∈ files.declarations,
    s'.present (file.withExtension "dsc") = s.present (file.withExtension "dsc") ∧
      (s.present (file.withExtension "dsc") = true →
        s'.read (file.withExtension "dsc") = s.read (file.withExtension "dsc"))

/-- What is found in a tree, which may have links, before and after a package declaration has been
created at `p`. -/
structure Discovery.Gains (t t' : Tree) (o : Options) (root p : Path) : Prop where
  named : t.Named
  found : ∃ files files', run t o root = .ok files ∧ run t' o root = .ok files' ∧
    files.Gained t.sources t'.sources files' p

namespace Change.Made

variable {root : Path} {o : Options} {t : Tree} {e : Change} {a : Address} {files files' : Files}

/-- A file that was not there before is there after a change of it. -/
theorem isFile_of_new (h : e.Made root t) (hnew : t.isFile (e.path root) = false) :
    (e.apply root t).isFile (e.path root) = true := by
  have hmade := h.made
  cases hbytes : e.bytes? with
  | some bytes => simpa [hbytes] using hmade
  | none =>
    rw [hbytes] at hmade
    cases hnew.symm.trans hmade

/-- In a tree without links a new package declaration is found, unless a directory on its way is
left out, and all else is found as before. -/
theorem gained (h : e.Made root t) (ht : t.WellFormed)
    (hroot : t.lookup root = .ok (a, .directory)) (hrun : Discovery.run t o root = .ok files)
    (hrun' : Discovery.run (e.apply root t) o root = .ok files')
    (hkind : FileKind.ofPath? (e.path root) = some .declaration)
    (hnew : t.isFile (e.path root) = false)
    (hopen : o.excludesSteps (e.names.map .name) = false) :
    files.Gained t.sources (e.apply root t).sources files' (e.path root) := by
  have ht' := Change.wellFormed_apply ht root e
  have halters := h.alters ht hroot
  have hroot' := Tree.lookup_directory ht ht' halters.directory hroot
  have hne := h.names_ne_nil ht hroot hroot'
  have hshort := h.short ht hroot hroot'
  have hplain := Discovery.plain h.names
  have halike := Discovery.alikeExcept_of_alters ht ht' hroot hroot' hrun hrun' hplain halters
  have hnone : ∀ k, e.path root ∉ files.ofKind k := by
    intro k hmem
    by_cases hk : k = .declaration
    · subst hk
      have hfile :=
        ((Change.mem_ofKind_iff_isFile ht hroot hrun hne h.names hshort hkind).1 hmem).2
      change t.isFile (e.path root) = true at hfile
      rw [hnew] at hfile
      cases hfile
    · exact Discovery.not_mem_ofKind ht hroot hrun hne hplain hkind hk hmem
  have hdifferent : ∀ k, ∀ q ∈ files.ofKind k, ¬ q.Same (e.path root) :=
    fun k q hq hsame => hnone k (show root.descend e.names ∈ _ from (halike k).same q hq hsame ▸ hq)
  refine ⟨fun k q => ?_, hdifferent, fun k q hq => ?_, fun file hfile => ?_⟩
  · by_cases hq : q = e.path root
    · subst hq
      simp only [hnone, false_or, and_true]
      refine ⟨fun hmem => ?_, ?_⟩
      · by_contra hk
        exact Discovery.not_mem_ofKind ht' hroot' hrun' hne hplain hkind hk hmem
      · rintro rfl
        exact (Change.mem_ofKind_iff_isFile ht' hroot' hrun' hne h.names hshort hkind).2
          ⟨hopen, h.isFile_of_new hnew⟩
    · simp only [hq, and_false, or_false]
      exact (halike k).mem q hq
  · have hother : q ≠ e.path root := fun heq => hnone k (heq ▸ hq)
    obtain ⟨others, hvalid, _, rfl, hnode, _⟩ := Discovery.exists_names ht hroot hrun hq
    exact Discovery.read_of_alters ht ht' hroot hroot' halters hvalid hnode hother
  · rcases Discovery.beside_cases ht hroot hrun hfile with hnofile | ⟨others, hvalid, _, hdsc, hpath⟩
    · refine ⟨(hnofile _ ht').trans (hnofile t ht).symm, fun hpresent => ?_⟩
      cases (hnofile t ht).symm.trans hpresent
    · have hother : root.descend others ≠ root.descend e.names := by
        intro heq
        have hnames := Path.eq_of_descend_same (Discovery.plain hvalid) hplain
          (congrArg Path.components heq)
        rw [hnames, Discovery.kind_of_ofPath? hne hplain hkind] at hdsc
        cases hdsc
      rw [hpath]
      refine ⟨Discovery.isFile_of_alters ht ht' hroot hroot' halters hvalid hother, ?_⟩
      intro hpresent
      exact Discovery.read_of_alters ht ht' hroot hroot' halters hvalid
        ((Tree.isFile_descend ht hroot hvalid).1 hpresent).2 hother

end Change.Made

namespace Files.Gained

variable {t t' : Tree} {root p : Path} {files files' : Files}

/-- Files of other kinds are found as before. -/
theorem ofKind_eq {s s' : Sources} (h : files.Gained s s' files' p) {k : FileKind}
    (hk : k ≠ .declaration) (hordered : Path.Ordered (files.ofKind k))
    (hordered' : Path.Ordered (files'.ofKind k)) : files'.ofKind k = files.ofKind k :=
  hordered'.eq_of_mem_iff hordered fun q => by simp [h.mem k q, hk]

/-- The new package declaration stands among the others, where its path belongs. -/
theorem exists_declarations_eq {s s' : Sources} (h : files.Gained s s' files' p)
    (hordered : Path.Ordered files.declarations) (hordered' : Path.Ordered files'.declarations) :
    ∃ front back, files'.declarations = front ++ p :: back ∧ files.declarations = front ++ back ∧
      ∀ q ∈ back, p.order q = .lt := by
  have hmem : ∀ q, q ∈ files'.declarations ↔ q ∈ files.declarations ∨ q = p := by
    intro q
    refine (h.mem .declaration q).trans ?_
    simp [Files.ofKind]
  obtain ⟨front, back, hsplit⟩ := List.append_of_mem ((hmem p).2 (.inr rfl))
  rw [hsplit] at hordered'
  have hbehind := (List.pairwise_cons.1 (List.pairwise_append.1 hordered').2.1).1
  have hothers : Path.Ordered (front ++ back) :=
    hordered'.sublist ((List.sublist_cons_self p back).append_left front)
  refine ⟨front, back, hsplit, hordered.eq_of_mem_iff hothers fun q => ?_, hbehind⟩
  have hq := hmem q
  rw [hsplit, List.mem_append, List.mem_cons] at hq
  rw [List.mem_append]
  by_cases hp : q = p
  · subst hp
    have hnodup : q ∉ front ++ back :=
      (List.nodup_middle.1 hordered'.different.nodup).notMem
    have hnew : q ∉ files.declarations := fun hmem => h.different .declaration q hmem rfl
    rw [List.mem_append] at hnodup
    exact iff_of_false hnew hnodup
  · simp only [hp, false_or, or_false] at hq
    exact hq.symm

/-- The records of the modules stay as they are. -/
theorem records_eq {s s' : Sources} (h : files.Gained s s' files' p)
    (hordered : Path.Ordered files.modules) (hordered' : Path.Ordered files'.modules) :
    ((Modules.empty.setFiles files'.modules).load s' files'.modules).records =
      ((Modules.empty.setFiles files.modules).load s files.modules).records := by
  have hmodules : files'.modules = files.modules :=
    h.ofKind_eq (k := .module) (by decide) hordered hordered'
  rw [Modules.records_load, Modules.records_load, hmodules]
  refine (Path.table_congr fun q hq => ?_).symm
  unfold ModuleRecord.ofFile
  rw [h.read .module q hq]

/-- Nothing has a fingerprint at the path of the new package declaration. -/
theorem fingerprinted_eq_none {s s' : Sources} (h : files.Gained s s' files' p) (setting : Setting) :
    (Catalog.fingerprinted setting ∅
      (files.modules ++ files.declarations ++ files.platforms))[p.components]? = none := by
  have hother : ∀ file ∈ files.modules ++ files.declarations ++ files.platforms,
      file.components ≠ p.components := by
    intro file hfile
    rcases List.mem_append.1 hfile with hfile | hfile
    · rcases List.mem_append.1 hfile with hfile | hfile
      · exact h.different .module file hfile
      · exact h.different .declaration file hfile
    · exact h.different .platform file hfile
  have hentry := Workspace.getElem?_fingerprinted_append (s := setting) hother []
  rw [List.append_nil] at hentry
  exact hentry.trans (by simp [Catalog.fingerprinted])

variable (hdifferent : Path.Different files.platforms)
  (hspelled : ∀ file ∈ files'.declarations, ∀ q ∈ files.platforms,
    q.Same (file.withExtension "dsc") → q = file.withExtension "dsc")
  (hcandidates : ∀ file ∈ files'.declarations, ∀ q,
    Document.Candidate ⟨t.sources, some root⟩ (file.withExtension "dsc") q →
      t.sources.Alike t'.sources q)

include hdifferent hspelled hcandidates

/-- What is known of the place beside a package declaration stays as it is. -/
theorem get?_beside (h : files.Gained t.sources t'.sources files' p) {file : Path}
    (hfile : file ∈ files'.declarations) :
    (⟨Path.table (Document.ofFile ⟨t'.sources, some root⟩) files.platforms⟩ : Platforms).get?
        (file.withExtension "dsc") =
      (⟨Path.table (Document.ofFile ⟨t.sources, some root⟩) files.platforms⟩ : Platforms).get?
        (file.withExtension "dsc") := by
  refine Path.getElem?_table_congr hdifferent fun q hq hkey => ?_
  obtain rfl := hspelled file hfile q hq hkey
  exact Document.ofFile_congr rfl (h.read .platform _ hq) (hcandidates file hfile)

/-- A package declaration that was found before has the same package as before. -/
theorem packageOf_eq (h : files.Gained t.sources t'.sources files' p) {file : Path}
    (hfile : file ∈ files.declarations) :
    Catalog.packageOf ⟨t.sources, some root⟩
        ⟨Path.table (Document.ofFile ⟨t.sources, some root⟩) files.platforms⟩ file =
      Catalog.packageOf ⟨t'.sources, some root⟩
        ⟨Path.table (Document.ofFile ⟨t'.sources, some root⟩) files.platforms⟩ file := by
  have hfile' : file ∈ files'.declarations := (h.mem .declaration file).2 (.inl hfile)
  have hrecord : ModuleRecord.ofFile t'.sources file = ModuleRecord.ofFile t.sources file := by
    unfold ModuleRecord.ofFile
    rw [h.read .declaration file hfile]
  obtain ⟨hpresent, hread⟩ := h.beside file hfile
  unfold Catalog.packageOf
  rw [hrecord]
  refine (Catalog.loadPackage_congr ?_ ?_ ?_).symm
  all_goals rw [Package.platformPath_ofDeclaration]
  · exact h.get?_beside hdifferent hspelled hcandidates hfile'
  · exact hpresent
  · exact fun hfile => Document.ofFile_congr rfl (hread hfile) (hcandidates file hfile')

/-- The package of the new declaration is the same whether the platform descriptions have been read
before or after it was created. -/
theorem packageOf_arrived (h : files.Gained t.sources t'.sources files' p) :
    Catalog.packageOf ⟨t'.sources, some root⟩
        ⟨Path.table (Document.ofFile ⟨t.sources, some root⟩) files.platforms⟩ p =
      Catalog.packageOf ⟨t'.sources, some root⟩
        ⟨Path.table (Document.ofFile ⟨t'.sources, some root⟩) files.platforms⟩ p := by
  have hfile : p ∈ files'.declarations := (h.mem .declaration p).2 (.inr ⟨rfl, rfl⟩)
  refine (Catalog.loadPackage_congr ?_ rfl fun _ => rfl).symm
  rw [Package.platformPath_ofDeclaration]
  exact h.get?_beside hdifferent hspelled hcandidates hfile

/-- The catalog of the old files, once it has taken in the new package declaration, and the catalog
of the new files. -/
theorem exists_reordered (h : files.Gained t.sources t'.sources files' p) {o : Options}
    (hrun : Discovery.run t o root = .ok files) (hrun' : Discovery.run t' o root = .ok files')
    {c c' : Catalog} {fingerprints fingerprints' : PathMap Text}
    (hc : c = .described ⟨t.sources, some root⟩ root
      ((Modules.empty.setFiles files.modules).load t.sources files.modules) files.declarations
      files.platforms fingerprints)
    (hc' : c' = .described ⟨t'.sources, some root⟩ root
      ((Modules.empty.setFiles files'.modules).load t'.sources files'.modules) files'.declarations
      files'.platforms fingerprints') :
    ∃ front new behind,
      ((c.take (.ofFile ⟨t'.sources, some root⟩ .declaration p)).rebuild ⟨t'.sources, some root⟩
        root).packages.all = front ++ behind ++ [new] ∧
      c'.packages.all = front ++ new :: behind ∧ new.file = p ∧
      (∀ q ∈ behind, p.order q.file = .lt) ∧
      ∀ className, List.Forall₂ (Library.Reordered root c'.modules new behind)
        (((c.take (.ofFile ⟨t'.sources, some root⟩ .declaration p)).rebuild
          ⟨t'.sources, some root⟩ root).libraries.implementations className)
        (c'.libraries.implementations className) := by
  obtain ⟨hmodules, hdeclarations, hplatforms⟩ := Discovery.ordered_of_run_eq_ok hrun
  obtain ⟨hmodules', hdeclarations', hplatforms'⟩ := Discovery.ordered_of_run_eq_ok hrun'
  have hkept : files'.platforms = files.platforms :=
    h.ofKind_eq (k := .platform) (by decide) hplatforms hplatforms'
  obtain ⟨front, behind, hsplit', hsplit, hbehind⟩ :=
    h.exists_declarations_eq hdeclarations hdeclarations'
  have hpackage := fun file (hfile : file ∈ files.declarations) =>
    h.packageOf_eq hdifferent hspelled hcandidates hfile
  have harrived := h.packageOf_arrived hdifferent hspelled hcandidates
  have hfind : c.packages.find? p = none :=
    hc ▸ Catalog.find?_described_eq_none (h.different .declaration)
  have hlooked : ∀ q ∈ c.packages.all, q.sibling ≠ .unknown :=
    hc ▸ Catalog.sibling_described_ne
  generalize hf : Catalog.packageOf ⟨t'.sources, some root⟩
    ⟨Path.table (Document.ofFile ⟨t'.sources, some root⟩) files.platforms⟩ = f at hpackage harrived
  have hall : c.packages.all = front.map f ++ behind.map f := by
    rw [hc, ← List.map_append, ← hsplit]
    exact List.map_congr_left hpackage
  have hall' : c'.packages.all = front.map f ++ f p :: behind.map f := by
    rw [hc', hkept]
    simp only [Catalog.described, hsplit', hf, List.map_append, List.map_cons]
  have hlibraries' : c'.libraries = Catalog.librariesOf root c'.modules c'.packages.all := by
    rw [hc']
    rfl
  obtain ⟨htaken, himplementations⟩ := Catalog.reordered_take_declaration
    (s := ⟨t'.sources, some root⟩) hall hfind hlooked (by rw [hc]; exact harrived)
    hall' hlibraries'
    (by rw [hc']; exact (Modules.coherent_setFiles files'.modules).load _ _)
    (by rw [hc, hc']; exact (h.records_eq hmodules hmodules').symm)
  refine ⟨front.map f, f p, behind.map f, htaken, hall', ?_, fun q hq => ?_, himplementations⟩
  · rw [← hf, Catalog.file_packageOf]
  · obtain ⟨file, hmem, rfl⟩ := List.mem_map.1 hq
    rw [← hf, Catalog.file_packageOf]
    exact hbehind file hmem

end Files.Gained

namespace Workspace

variable {w scanned : Workspace} {t : Tree} {e : Change} {events : List Event}

/-- A platform description beside the new package declaration, or beside one that was there before,
is spelled like that place. -/
theorem eq_beside (hmade : e.Made w.root t) (hnamed : t.Named) {files files' : Files}
    (hrun : Discovery.run t w.options w.root = .ok files)
    (hrun' : Discovery.run (e.apply w.root t) w.options w.root = .ok files')
    (hgained : files.Gained t.sources (e.apply w.root t).sources files' (e.path w.root))
    (hkind : FileKind.ofPath? (e.path w.root) = some .declaration)
    (hnew : t.isFile (e.path w.root) = false) {file : Path} (hfile : file ∈ files'.declarations)
    {q : Path} (hq : q ∈ files.platforms) (hsame : q.Same (file.withExtension "dsc")) :
    q = file.withExtension "dsc" := by
  obtain ⟨directory, name, hdirectory, hname, rfl, hdeclared⟩ :
      ∃ (directory : Path) (name : Text), directory.SpelledBelow w.root ∧ Path.IsName name ∧
        file = directory.push name ∧ FileKind.ofName? name = some .declaration := by
    rcases (hgained.mem .declaration file).1 hfile with hold | ⟨_, rfl⟩
    · obtain ⟨directory, name, hdirectory, hname, rfl⟩ :=
        Discovery.exists_push_of_mem_ofKind hnamed hrun hold
      have hkind := Discovery.ofFileName?_of_mem_ofKind hrun hold
      rw [FileKind.ofFileName?, Path.fileName?_push _ hname, Option.bind_some] at hkind
      exact ⟨directory, name, hdirectory, hname, rfl, hkind⟩
    · have hplain := Discovery.plain hmade.names
      have hne : e.names ≠ [] := by
        intro hnil
        obtain ⟨a, hroot⟩ := Discovery.lookup_of_run_eq_ok hrun'
        have hfile := hmade.isFile_of_new hnew
        rw [Change.path, hnil] at hfile
        simp [Path.descend, Tree.isFile, hroot] at hfile
      have hlast := Discovery.kind_of_ofPath? hne hplain hkind
      obtain ⟨front, last, hnames⟩ := (List.eq_nil_or_concat' e.names).resolve_left hne
      rw [hnames] at hplain hlast
      rw [List.getLast?_concat, Option.bind_some] at hlast
      refine ⟨w.root.descend front, last, ⟨front, fun name hname => hplain name (by simp [hname]),
        rfl⟩, hplain last (by simp), ?_, hlast⟩
      rw [Change.path, hnames, Path.descend_concat]
  exact Discovery.eq_withExtension_of_same hdirectory hname hdeclared .platform
    (Discovery.spelledBelow_of_mem_ofKind (k := .platform) hnamed hrun hq).1 hsame

/-- A rescan takes in a build file that is there, and of which no fingerprint is known. -/
theorem exists_rescan_take {w : Workspace} {t : Tree} {p : Path} {k : FileKind}
    {relative : List Component} (hrelative : w.relative? p = some relative)
    (hkind : FileKind.ofPath? p = some k) (hopen : w.options.excludesSteps relative = false)
    (hfile : t.isFile p = true) (hunknown : w.catalog.fingerprints[p.components]? = none) :
    ∃ next changed events, w.rescan t p = .ok (next, changed, events) ∧
      next.catalog = (w.catalog.take (.ofFile (w.setting t) k p)).rebuild (w.setting t) w.root := by
  obtain ⟨next, changed, events, hrescan, _, _, hcases⟩ := rescan_cases t hrelative hkind
  refine ⟨next, changed, events, hrescan, ?_⟩
  rcases hcases with ⟨hout, _⟩ | ⟨_, _, hsome, hknown, _⟩ | ⟨_, _, _, hcatalog⟩ | ⟨_, hgone, _⟩
  · cases hopen.symm.trans hout
  · exact absurd (hknown.symm.trans hunknown) hsome
  · exact hcatalog
  · cases hfile.symm.trans hgone

/-- In a tree without links the new package declaration is all that a scan finds in addition. -/
theorem gains_of_scan (ht : t.WellFormed) (hscan : w.scan t = .ok (scanned, events))
    (hmade : e.Made w.root t) (hkind : FileKind.ofPath? (e.path w.root) = some .declaration)
    (hnew : t.isFile (e.path w.root) = false)
    (hopen : w.options.excludesSteps (e.names.map .name) = false) :
    Discovery.Gains t (e.apply w.root t) w.options w.root (e.path w.root) := by
  obtain ⟨files, hrun⟩ := exists_run_of_scan hscan
  obtain ⟨a, hroot⟩ := Discovery.lookup_of_run_eq_ok hrun
  have hroot' := Tree.lookup_directory ht (Change.wellFormed_apply ht w.root e)
    (hmade.alters ht hroot).directory hroot
  obtain ⟨files', hrun'⟩ := Discovery.exists_run_eq_ok w.options hroot'
  exact ⟨ht.named, files, files', hrun, hrun', hmade.gained ht hroot hrun hrun' hkind hnew hopen⟩

/-- A rescan of a package declaration that was not there before is not refused, and neither is a
scan of the new tree. The rescan puts the new package behind all others, the scan where its path
belongs, and the libraries of every class correspond. -/
theorem exists_rescan_reordered (heager : w.options.eager = true)
    (hscan : w.scan t = .ok (scanned, events)) (hmade : e.Made w.root t)
    (hkind : FileKind.ofPath? (e.path w.root) = some .declaration)
    (hnew : t.isFile (e.path w.root) = false)
    (hopen : w.options.excludesSteps (e.names.map .name) = false)
    (hlinks : t.WellFormed ∨
      Discovery.Gains t (e.apply w.root t) w.options w.root (e.path w.root))
    (hcandidates : ∀ files', Discovery.run (e.apply w.root t) w.options w.root = .ok files' →
      ∀ file ∈ files'.declarations, ∀ q,
        Document.Candidate (w.setting t) (file.withExtension "dsc") q →
          t.sources.Alike (e.apply w.root t).sources q) :
    ∃ rescanned changed events' fresh events'' front new behind,
      scanned.rescan (e.apply w.root t) (e.path w.root) = .ok (rescanned, changed, events') ∧
      w.scan (e.apply w.root t) = .ok (fresh, events'') ∧
      rescanned.catalog.packages.all = front ++ behind ++ [new] ∧
      fresh.catalog.packages.all = front ++ new :: behind ∧
      new.file = e.path w.root ∧ (∀ p ∈ behind, (e.path w.root).order p.file = .lt) ∧
      ∀ className, List.Forall₂ (Library.Reordered w.root fresh.catalog.modules new behind)
        (rescanned.catalog.libraries.implementations className)
        (fresh.catalog.libraries.implementations className) := by
  obtain ⟨hnamed, files, files', hrun, hrun', hgained⟩ :
      Discovery.Gains t (e.apply w.root t) w.options w.root (e.path w.root) :=
    hlinks.elim (fun ht => gains_of_scan ht hscan hmade hkind hnew hopen) id
  obtain ⟨_, _, hscan', hroot, hoptions, hcatalog⟩ := exists_scan_described heager hrun
  obtain ⟨rfl, rfl⟩ := Prod.mk.inj (Except.ok.inj (hscan.symm.trans hscan'))
  obtain ⟨fresh, events'', hfresh, _, _, hcatalog'⟩ := exists_scan_described heager hrun'
  have hrelative : scanned.relative? (e.path w.root) = some (e.names.map .name) :=
    hroot ▸ scanned.relative?_descend (Discovery.plain hmade.names)
  have hunknown : scanned.catalog.fingerprints[(e.path w.root).components]? = none := by
    rw [hcatalog]
    exact hgained.fingerprinted_eq_none (w.setting t)
  obtain ⟨rescanned, changed, events', hrescan, hrebuilt⟩ := exists_rescan_take hrelative hkind
    (hoptions.symm ▸ hopen) (hmade.isFile_of_new hnew) hunknown
  have hsetting : scanned.setting (e.apply w.root t) = w.setting (e.apply w.root t) := by
    unfold setting
    rw [hroot]
  rw [hsetting, hroot] at hrebuilt
  obtain ⟨front, new, behind, hreordered⟩ := hgained.exists_reordered
    (Discovery.ordered_of_run_eq_ok hrun).2.2.different
    (fun _ hfile _ hq => eq_beside hmade hnamed hrun hrun' hgained hkind hnew hfile hq)
    (hcandidates files' hrun') hrun hrun' hcatalog hcatalog'
  rw [show (⟨(e.apply w.root t).sources, some w.root⟩ : Setting) =
    w.setting (e.apply w.root t) from rfl, ← hrebuilt] at hreordered
  exact ⟨rescanned, changed, events', fresh, events'', front, new, behind, hrescan, hfresh,
    hreordered⟩

/-- A tree with one package declaration. -/
def oneDeclaration : Tree :=
  Tree.empty.writeFile ⟨"/ws/B.dec"⟩ "[LibraryClasses]\nFoo|Foo.h\n".toUTF8.toList

/-- A package declaration with the same text is created, with a path that comes before it. -/
def earlierDeclaration : Change :=
  ⟨["A.dec"], some "[LibraryClasses]\nFoo|Foo.h\n".toUTF8.toList⟩

/-- The tree with one declaration is well-formed. -/
theorem wellFormed_oneDeclaration : oneDeclaration.WellFormed :=
  Tree.wellFormed_empty.writeFile _ _

/-- The second declaration is created by the change. -/
theorem made_earlierDeclaration : earlierDeclaration.Made ⟨"/ws"⟩ oneDeclaration :=
  ⟨by decide, by cbv⟩

/-- The rescan puts the package with the earlier path behind the other. -/
theorem reordered_earlierDeclaration :
    oneDeclaration.WellFormed ∧ earlierDeclaration.Made ⟨"/ws"⟩ oneDeclaration ∧
    oneDeclaration.isFile (earlierDeclaration.path ⟨"/ws"⟩) = false ∧
    ∃ scanned events rescanned changed events' fresh events'' front new behind,
      (start ⟨"/ws"⟩ .default).scan oneDeclaration = .ok (scanned, events) ∧
      scanned.rescan (earlierDeclaration.apply ⟨"/ws"⟩ oneDeclaration)
          (earlierDeclaration.path ⟨"/ws"⟩) = .ok (rescanned, changed, events') ∧
      (start ⟨"/ws"⟩ .default).scan (earlierDeclaration.apply ⟨"/ws"⟩ oneDeclaration) =
        .ok (fresh, events'') ∧
      rescanned.catalog.packages.all = front ++ behind ++ [new] ∧
      fresh.catalog.packages.all = front ++ new :: behind ∧
      List.Forall₂ (Library.Reordered ⟨"/ws"⟩ fresh.catalog.modules new behind)
        (rescanned.catalog.libraries.implementations "Foo")
        (fresh.catalog.libraries.implementations "Foo") := by
  have hrun : Discovery.run oneDeclaration .default ⟨"/ws"⟩ =
      .ok ⟨[], [⟨"/ws/B.dec"⟩], [], []⟩ := by cbv
  have hrun' : Discovery.run (earlierDeclaration.apply ⟨"/ws"⟩ oneDeclaration) .default ⟨"/ws"⟩ =
      .ok ⟨[], [⟨"/ws/A.dec"⟩, ⟨"/ws/B.dec"⟩], [], []⟩ := by cbv
  have hnew : oneDeclaration.isFile (earlierDeclaration.path ⟨"/ws"⟩) = false := by cbv
  obtain ⟨scanned, events, hscan, _⟩ :=
    exists_scan_described (w := start ⟨"/ws"⟩ .default) rfl hrun
  obtain ⟨rescanned, changed, events', fresh, events'', front, new, behind, hrescan, hfresh,
    hpackages, hpackages', _, _, himplementations⟩ :=
    exists_rescan_reordered (e := earlierDeclaration) rfl hscan made_earlierDeclaration (by cbv)
      hnew (by decide) (.inl wellFormed_oneDeclaration) fun files' hfiles file hfile q hq => by
        -- there is no platform description
        obtain rfl := Except.ok.inj (hrun'.symm.trans hfiles)
        obtain ⟨text, htext, _⟩ := hq
        have hnone : ∀ file ∈ [(⟨"/ws/A.dec"⟩ : Path), ⟨"/ws/B.dec"⟩],
            oneDeclaration.read (file.withExtension "dsc") = .error .noEntry := by decide +kernel
        cases (hnone file hfile).symm.trans htext
  exact ⟨wellFormed_oneDeclaration, made_earlierDeclaration, hnew, scanned, events, rescanned,
    changed, events', fresh, events'', front, new, behind, hscan, hrescan, hfresh, hpackages,
    hpackages', himplementations "Foo"⟩

/-- The libraries of a class, by their paths and packages, after a scan and a rescan of a file that
has changed since. -/
def listedByRescan (w : Workspace) (t : Tree) (e : Change) (className : Text) :
    Except Refusal (List (Path × Option Text)) := do
  let (scanned, _) ← w.scan t
  let (rescanned, _, _) ← scanned.rescan (e.apply w.root t) (e.path w.root)
  return (rescanned.catalog.libraries.implementations className).map fun l => (l.path, l.package)

/-- The libraries of a class, by their paths and packages, after a scan of the new tree. -/
def listedByScan (w : Workspace) (t : Tree) (e : Change) (className : Text) :
    Except Refusal (List (Path × Option Text)) := do
  let (fresh, _) ← w.scan (e.apply w.root t)
  return (fresh.catalog.libraries.implementations className).map fun l => (l.path, l.package)

/-- The package of a library that two packages map depends on how they have come to be known. -/
theorem listed_earlierDeclaration_ne :
    oneDeclaration.WellFormed ∧ earlierDeclaration.Made ⟨"/ws"⟩ oneDeclaration ∧
    FileKind.ofPath? (earlierDeclaration.path ⟨"/ws"⟩) = some .declaration ∧
    oneDeclaration.isFile (earlierDeclaration.path ⟨"/ws"⟩) = false ∧
    Options.default.excludesSteps (earlierDeclaration.names.map .name) = false ∧
    Options.default.eager = true ∧
    listedByRescan (start ⟨"/ws"⟩ .default) oneDeclaration earlierDeclaration "Foo" =
      .ok [(⟨"/ws/Foo.h"⟩, some "A")] ∧
    listedByScan (start ⟨"/ws"⟩ .default) oneDeclaration earlierDeclaration "Foo" =
      .ok [(⟨"/ws/Foo.h"⟩, some "B")] :=
  ⟨wellFormed_oneDeclaration, made_earlierDeclaration, by cbv, by cbv, by decide, rfl,
    by decide +kernel, by decide +kernel⟩

/-- A package whose platform description includes a file that is not there. The file would be a
package declaration, with an empty platform description beside it. -/
def includingPlatform : Tree :=
  ((Tree.empty.writeFile ⟨"/ws/P.dec"⟩ []).writeFile ⟨"/ws/P.dsc"⟩
    "!include N.dec\n".toUTF8.toList).writeFile ⟨"/ws/N.dsc"⟩ []

/-- The file is created. -/
def includedDeclaration : Change :=
  ⟨["N.dec"], some "[LibraryClasses]\nFoo|Foo.inf\n".toUTF8.toList⟩

/-- The assumption about includes cannot be left out: a rescan of the included file does not read
the platform description again. -/
theorem listed_includedDeclaration_ne :
    includingPlatform.WellFormed ∧ includedDeclaration.Made ⟨"/ws"⟩ includingPlatform ∧
    includingPlatform.isFile (includedDeclaration.path ⟨"/ws"⟩) = false ∧
    listedByRescan (start ⟨"/ws"⟩ .default) includingPlatform includedDeclaration "Foo" = .ok [] ∧
    listedByScan (start ⟨"/ws"⟩ .default) includingPlatform includedDeclaration "Foo" =
      .ok [(⟨"/ws/Foo.inf"⟩, some "P")] :=
  ⟨((Tree.wellFormed_empty.writeFile _ _).writeFile _ _).writeFile _ _, ⟨by decide, by cbv⟩, by cbv,
    by decide +kernel, by decide +kernel⟩

/-- A tree in which a link leads to a directory. -/
def linkedDirectory : Tree :=
  (Tree.empty.writeFile ⟨"/ws/D/M.inf"⟩ []).put ["L", "ws"] (.link "D")

/-- A package declaration is created in the directory. -/
def linkedDeclaration : Change :=
  ⟨["D", "N.dec"], some "[LibraryClasses]\nFoo|Foo.h\n".toUTF8.toList⟩

/-- Nor can the assumption about links be left out: where links are followed, a scan finds the new
file through the link too. -/
theorem listed_linkedDeclaration_ne :
    linkedDeclaration.Made ⟨"/ws"⟩ linkedDirectory ∧
    linkedDirectory.isFile (linkedDeclaration.path ⟨"/ws"⟩) = false ∧
    listedByRescan (start ⟨"/ws"⟩ { Options.default with followLinks := true }) linkedDirectory
      linkedDeclaration "Foo" = .ok [(⟨"/ws/D/Foo.h"⟩, some "N")] ∧
    listedByScan (start ⟨"/ws"⟩ { Options.default with followLinks := true }) linkedDirectory
      linkedDeclaration "Foo" =
        .ok [(⟨"/ws/D/Foo.h"⟩, some "N"), (⟨"/ws/L/Foo.h"⟩, some "N")] := by
  have hmade : (linkedDeclaration.apply ⟨"/ws"⟩ linkedDirectory).isFile
      (linkedDeclaration.path ⟨"/ws"⟩) = true := by decide +kernel
  exact ⟨⟨by decide, hmade⟩, by decide +kernel, by decide +kernel, by decide +kernel⟩

end Workspace

end FirmwareIndex
