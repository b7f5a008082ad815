import FirmwareIndex.Proofs.Workspace.Rescan

/-!
# Files that are found and files that are taken in

A scan goes down from the root and takes the files whose names end in an extension; a rescan is
given a path and judges its components and its extension. The two agree on every file of a tree
without links whose name is more than a dot and an extension (`Workspace.admits_isFile`): the scan
lists it under the kind of its extension, unless a directory on its way is left out, and the rescan
takes in what the scan lists and ignores the other build files.
-/

set_option autoImplicit false

namespace FirmwareIndex.Workspace

/-- A scan and a rescan agree on a file below the root of a workspace, where the names lead from the
root to the file. -/
structure Admits (w : Workspace) (t : Tree) (files : Files) (names : List Text) : Prop where
  /-- The scan lists the file under the kind of its extension, unless a directory on its way is left
  out. -/
  listed : ∀ k, w.root.descend names ∈ files.ofKind k ↔
    FileKind.ofPath? (w.root.descend names) = some k ∧
      w.options.excludesSteps (names.map .name) = false
  /-- The rescan takes in what is listed, unless its text is known. -/
  taken : ∀ k, w.root.descend names ∈ files.ofKind k →
    ∃ next changed events, w.rescan t (w.root.descend names) = .ok (next, changed, events) ∧
      ((w.catalog.fingerprints[(w.root.descend names).components]? =
            (w.setting t).fingerprint? (w.root.descend names) ∧ next.catalog = w.catalog) ∨
        next.catalog = (w.catalog.take (.ofFile (w.setting t) k (w.root.descend names))).rebuild
          (w.setting t) w.root)
  /-- The rescan ignores a build file that is not listed. -/
  ignored : (∀ k, w.root.descend names ∉ files.ofKind k) →
    (FileKind.ofPath? (w.root.descend names)).isSome →
      w.rescan t (w.root.descend names) = .ok (w, false, [])

variable {w : Workspace} {t : Tree} {names : List Text} {files : Files}

/-- The names that lead to a file are the components of its path below the root, so a scan that goes
down along them leaves out what a rescan leaves out. -/
theorem mem_ofKind_iff_excludesSteps (h : t.WellFormed) {a : Address}
    (hroot : t.lookup w.root = .ok (a, .directory))
    (hrun : Discovery.run t w.options w.root = .ok files)
    (hnames : ∀ name ∈ names, Path.IsName name) (hfile : t.isFile (w.root.descend names) = true)
    (hbare : ∀ name ∈ names.getLast?, ¬ FileKind.Bare name) (k : FileKind) :
    w.root.descend names ∈ files.ofKind k ↔
      FileKind.ofPath? (w.root.descend names) = some k ∧
        w.options.excludesSteps (names.map .name) = false := by
  have hvalid := Tree.validName_of_isFile h hroot hnames hfile
  have hne := Tree.names_ne_nil_of_isFile hroot hfile
  have hshort := ((Tree.isFile_descend h hroot hvalid).1 hfile).1
  by_cases hkind : FileKind.ofPath? (w.root.descend names) = some k
  · rw [Change.mem_ofKind_iff_isFile h hroot hrun hne hvalid hshort hkind]
    simp [hkind, hfile]
  · refine iff_of_false (fun hmem => hkind ?_) fun hboth => hkind hboth.1
    have hname := Discovery.ofFileName?_of_mem_ofKind hrun hmem
    obtain ⟨front, last, rfl⟩ := (List.eq_nil_or_concat' names).resolve_left hne
    rw [FileKind.ofFileName?, Path.fileName?_descend _ hne hnames, List.getLast?_concat,
      Option.bind_some] at hname
    rw [Path.descend_concat, FileKind.ofPath?_push _ (hnames last (by simp)) (hbare last (by simp)),
      hname]

/-- A rescan ignores a build file in a directory that is left out. -/
theorem rescan_of_excludesSteps {p : Path} {steps : List Component} (t : Tree)
    (hsteps : w.relative? p = some steps) (hkind : (FileKind.ofPath? p).isSome = true)
    (hexcluded : w.options.excludesSteps steps = true) : w.rescan t p = .ok (w, false, []) := by
  simp only [rescan, hsteps, hkind, hexcluded, Bool.and_self, ↓reduceIte]

/-- In a tree without links, a scan and a rescan agree on every file whose name is not bare. -/
theorem admits_isFile (h : t.WellFormed) (hroot : t.isDirectory w.root = true)
    (hnames : ∀ name ∈ names, Path.IsName name) (hfile : t.isFile (w.root.descend names) = true)
    (hbare : ∀ name ∈ names.getLast?, ¬ FileKind.Bare name) :
    ∃ files, Discovery.run t w.options w.root = .ok files ∧ w.Admits t files names := by
  obtain ⟨a, hlookup⟩ := Tree.isDirectory_eq_true.1 hroot
  obtain ⟨files, hrun⟩ := Discovery.exists_run_eq_ok w.options hlookup
  have hlisted := mem_ofKind_iff_excludesSteps h hlookup hrun hnames hfile hbare
  have hsteps := w.relative?_descend hnames
  refine ⟨files, hrun, hlisted, fun k hmem => ?_, fun hnone hkind => ?_⟩
  · obtain ⟨hkind, hopen⟩ := (hlisted k).1 hmem
    obtain ⟨next, changed, events, hrescan, _, _, hcases⟩ := rescan_cases t hsteps hkind
    refine ⟨next, changed, events, hrescan, ?_⟩
    rcases hcases with ⟨hexcluded, _⟩ | ⟨_, _, _, hknown, hcatalog⟩ | ⟨_, _, _, hcatalog⟩ |
      ⟨_, hgone, _⟩
    · rw [hopen] at hexcluded
      cases hexcluded
    · exact .inl ⟨hknown, hcatalog⟩
    · exact .inr hcatalog
    · rw [hfile] at hgone
      cases hgone
  · refine rescan_of_excludesSteps t hsteps hkind ?_
    obtain ⟨k, hk⟩ := Option.isSome_iff_exists.1 hkind
    by_contra hopen
    exact hnone k ((hlisted k).2 ⟨hk, Bool.eq_false_iff.2 hopen⟩)

/-- A platform description with dots in its way and capitals in its extension, and a module in a
directory that is left out. -/
def dottedTree : Tree :=
  (Tree.empty.writeFile ⟨"/ws/a.b/C.v1.DSC"⟩ []).writeFile ⟨"/ws/Build/D.inf"⟩ []

/-- The platform description is found, and a rescan takes it in. -/
theorem admits_dottedTree :
    ∃ files, Discovery.run dottedTree .default ⟨"/ws"⟩ = .ok files ∧
      (start ⟨"/ws"⟩ .default).Admits dottedTree files ["a.b", "C.v1.DSC"] ∧
      ⟨"/ws/a.b/C.v1.DSC"⟩ ∈ files.platforms := by
  have hwellFormed : dottedTree.WellFormed :=
    (Tree.wellFormed_empty.writeFile _ _).writeFile _ _
  have hnames : ∀ name ∈ (["a.b", "C.v1.DSC"] : List Text), Path.IsName name := by decide
  obtain ⟨files, hrun, hadmits⟩ := admits_isFile (w := start ⟨"/ws"⟩ .default) hwellFormed
    (by decide +kernel) hnames (by decide +kernel) (by decide)
  exact ⟨files, hrun, hadmits, (hadmits.listed .platform).2 ⟨by decide, by decide⟩⟩

end FirmwareIndex.Workspace
