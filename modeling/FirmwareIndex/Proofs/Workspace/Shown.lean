import FirmwareIndex.Proofs.Catalog.Sibling
import FirmwareIndex.Proofs.Tree.Links
import FirmwareIndex.Proofs.Workspace.Linked

/-!
# Packages after any operations

A package shows what the platform description beside it says, as the catalog stores it. Each
operation takes back the packages whose platform description has changed, and gives every package
the stored document when it finds the libraries anew (`Workspace.Current`). So every package whose
file has the extension `dec` without capitals shows the stored document whatever has been done
(`Workspace.shows_run`). A package declaration that is named in capitals is found by a scan as well,
but it keeps the document that it was first given (`Workspace.not_shows_capitals`).
-/

set_option autoImplicit false

namespace FirmwareIndex.Workspace

/-- The packages are tended and show what is stored for the platform descriptions beside them. -/
structure Current (w : Workspace) : Prop where
  tended : w.catalog.packages.Tended w.catalog.platforms
  shown : w.catalog.packages.Shown w.catalog.platforms

variable {w : Workspace} {t : Tree} {path : Path}

/-- A workspace that has not been scanned has nothing to show. -/
theorem current_start (root : Path) (options : Options) : (start root options).Current where
  tended := Packages.tended_empty
  shown := by simp [Packages.Shown, start, Catalog.empty, Packages.empty]

/-- The files that a scan finds end in their names. -/
theorem names_of_mem_ofKind (ht : t.Named) {o : Options} {root : Path} {files : Files}
    (hrun : Discovery.run t o root = .ok files) {kind : FileKind}
    (hfile : path ∈ files.ofKind kind) : path.Names := by
  obtain ⟨directory, name, _, hname, rfl⟩ := Discovery.exists_push_of_mem_ofKind ht hrun hfile
  exact ⟨by rw [Path.fileName?_push directory hname]; rfl, Path.trimmed_push directory hname⟩

/-- The files that are read for a changed path have names. -/
theorem fileName_of_mem_targets (h : w.catalog.platforms.Keyed) {target : Path × FileKind}
    (htarget : target ∈ w.targets path) : target.1.fileName?.isSome := by
  unfold targets at htarget
  split at htarget
  · rename_i kind hkind
    obtain rfl := List.mem_singleton.1 htarget
    obtain ⟨ext, hext, _⟩ := Option.bind_eq_some_iff.1 hkind
    obtain ⟨ending, hending, _⟩ := Option.map_eq_some_iff.1 hext
    obtain ⟨name, hname, _⟩ := Option.bind_eq_some_iff.1 hending
    exact Option.isSome_iff_exists.2 ⟨name, hname⟩
  · obtain ⟨d, hd, rfl⟩ := List.mem_map.1 htarget
    obtain ⟨key, hkey⟩ := mem_values_iff.1 (List.mem_filter.1 hd).1
    exact (h d key hkey).2

namespace Current

/-- Once the libraries have been found anew, the packages show what is stored. -/
theorem rebuild {c : Catalog} (h : c.packages.Tended c.platforms) (s : Setting) (root : Path) :
    ({ w with catalog := c.rebuild s root } : Workspace).Current :=
  ⟨(Catalog.shown_rebuild h s root).1, (Catalog.shown_rebuild h s root).2⟩

/-- After a scan all packages show what is stored. -/
theorem scan (h : w.Current) (ht : t.Named) : (w.perform (.scan t)).Current := by
  rw [Workspace.perform, Workspace.scan]
  cases hrun : Discovery.run t w.options w.root with
  | error refusal => exact h
  | ok files =>
    refine rebuild ?_ _ _
    refine foldl_take_induction (motive := fun c => c.packages.Tended c.platforms)
      Packages.tended_empty fun c hc kind file hfile => ?_
    exact Catalog.tended_take hc _ kind (names_of_mem_ofKind ht hrun hfile)

/-- After a rescan all packages show what is stored. -/
theorem rescan (h : w.Current) (t : Tree) (path : Path) :
    (w.perform (.rescan t path)).Current := by
  rcases w.perform_rescan t path with hsame | hnext
  · exact hsame.symm ▸ h
  · rw [hnext]
    refine rebuild ?_ _ _
    refine Rescan.foldl_read_induction (motive := fun c => c.packages.Tended c.platforms) _ h.tended
      (fun c hc target htarget hpresent => ?_) fun c hc target htarget => ?_
    · exact Catalog.tended_take hc _ target.2
        ⟨fileName_of_mem_targets h.tended.keyed htarget, Tree.trimmed_of_isFile hpresent⟩
    · exact Catalog.tended_forget hc target.2 (fileName_of_mem_targets h.tended.keyed htarget)

/-- Asking for modules does not matter to what packages show. -/
theorem loadUnder (h : w.Current) (t : Tree) (top : Path) :
    (w.perform (.loadUnder t top)).Current := by
  rw [Workspace.perform, Workspace.loadUnder]
  split
  · exact h
  · exact rebuild (c := { w.catalog with modules := w.catalog.modules.loadUnder t.sources top })
      h.tended _ _

/-- Every operation leaves packages that show what is stored. -/
theorem perform (h : w.Current) {operation : Operation} (hnamed : operation.tree.Named) :
    (w.perform operation).Current := by
  cases operation with
  | scan t => exact h.scan hnamed
  | rescan t path => exact h.rescan t path
  | loadUnder t top => exact h.loadUnder t top

end Current

/-- Whatever has been done to a workspace, a package shows the document that is stored for the
platform description beside it. -/
theorem shows_run (root : Path) (options : Options) (operations : List Operation)
    (hnamed : ∀ operation ∈ operations, operation.tree.Named) {p : Package}
    (hp : p ∈ ((start root options).run operations).catalog.packages.all) (hfindable : p.Findable)
    {d : Document}
    (hd : ((start root options).run operations).catalog.platforms.get? p.platformPath = some d) :
    p.Shows d := by
  have hrun : ((start root options).run operations).Current :=
    List.foldlRecOn operations Workspace.perform (motive := fun w : Workspace => w.Current)
      (current_start root options) fun _ hw operation hoperation =>
        hw.perform (hnamed operation hoperation)
  exact Package.shows_of_loaded (hrun.shown p hp hfindable d hd)

/-- A tree with a package declaration and a platform description beside it that builds a module. -/
def packageTree (declaration : Path) (module : Text) : Tree :=
  (Tree.empty.writeFile declaration []).writeFile ⟨"/ws/F.dsc"⟩
    (Utf8.encode ("[Components]\n".toList ++ module))

/-- The tree is scanned, and the platform description is read again once it builds another
module. -/
def changedModule (declaration : Path) : List Operation :=
  [.scan (packageTree declaration "A.inf"), .rescan (packageTree declaration "B.inf") ⟨"/ws/F.dsc"⟩]

/-- The entries of the trees have names. -/
theorem named_changedModule (declaration : Path) :
    ∀ operation ∈ changedModule declaration, operation.tree.Named := by
  have hnamed : ∀ module, (packageTree declaration module).Named := fun module =>
    ((Tree.wellFormed_empty.writeFile _ _).writeFile _ _).named
  exact List.forall_mem_cons.2 ⟨hnamed _, List.forall_mem_singleton.2 (hnamed _)⟩

/-- The modules that a table has for all architectures. -/
def commonModules (components : TextMap (List Text)) : Option (List Text) :=
  components[commonArch]?

/-- The package and the document beside it, from what they say of the modules. -/
theorem exists_package {c : Catalog} {declaration : Path} {shown stored : Option (List Text)}
    (hpackages : (c.packages.all.map fun p => (p.file, commonModules p.components)) =
      [(declaration, shown)])
    (hdocument : ((c.platforms.get? (declaration.withExtension "dsc")).map fun d =>
      commonModules (Reduced.ofDocument d).components) = some stored) :
    ∃ p ∈ c.packages.all, ∃ d, p.file = declaration ∧
      c.platforms.get? p.platformPath = some d ∧ commonModules p.components = shown ∧
      commonModules (Reduced.ofDocument d).components = stored := by
  have hmem : (declaration, shown) ∈
      c.packages.all.map fun p => (p.file, commonModules p.components) := by
    rw [hpackages]
    exact List.mem_singleton_self _
  obtain ⟨p, hp, hvalue⟩ := List.mem_map.1 hmem
  obtain ⟨hfile, hshown⟩ := Prod.mk.inj hvalue
  obtain ⟨d, hd, hstored⟩ := Option.map_eq_some_iff.1 hdocument
  exact ⟨p, hp, d, hfile, by rw [Package.platformPath, hfile, hd], hshown, hstored⟩

/-- The package shows that the other module is built. -/
theorem shows_changedModule :
    (∀ operation ∈ changedModule ⟨"/ws/F.dec"⟩, operation.tree.Named) ∧
      ∃ p ∈ ((start ⟨"/ws"⟩ .default).run (changedModule ⟨"/ws/F.dec"⟩)).catalog.packages.all,
        ∃ d, p.Findable ∧
          ((start ⟨"/ws"⟩ .default).run (changedModule ⟨"/ws/F.dec"⟩)).catalog.platforms.get?
            p.platformPath = some d ∧ p.Shows d ∧
          commonModules p.components = some ["B.inf".toList] := by
  have hpackages : (((start ⟨"/ws"⟩ .default).run
      (changedModule ⟨"/ws/F.dec"⟩)).catalog.packages.all.map fun p =>
        (p.file, commonModules p.components)) = [(⟨"/ws/F.dec"⟩, some ["B.inf".toList])] := by
    decide +kernel
  have hdocument : ((((start ⟨"/ws"⟩ .default).run
      (changedModule ⟨"/ws/F.dec"⟩)).catalog.platforms.get?
        (Path.withExtension ⟨"/ws/F.dec"⟩ "dsc")).map fun d =>
          commonModules (Reduced.ofDocument d).components) = some (some ["B.inf".toList]) := by
    decide +kernel
  obtain ⟨p, hp, d, hfile, hd, hshown, _⟩ := exists_package hpackages hdocument
  have hfindable : p.Findable := by
    rw [Package.Findable, hfile]
    decide
  have hnamed := named_changedModule ⟨"/ws/F.dec"⟩
  exact ⟨hnamed, p, hp, d, hfindable, hd, shows_run _ _ _ hnamed hp hfindable hd, hshown⟩

/-- A package that is named in capitals goes on to show the module that was built before. -/
theorem not_shows_capitals :
    (∀ operation ∈ changedModule ⟨"/ws/F.DEC"⟩, operation.tree.Named) ∧
      ∃ p ∈ ((start ⟨"/ws"⟩ .default).run (changedModule ⟨"/ws/F.DEC"⟩)).catalog.packages.all,
        ∃ d, ((start ⟨"/ws"⟩ .default).run (changedModule ⟨"/ws/F.DEC"⟩)).catalog.platforms.get?
          p.platformPath = some d ∧ ¬ p.Shows d := by
  have hpackages : (((start ⟨"/ws"⟩ .default).run
      (changedModule ⟨"/ws/F.DEC"⟩)).catalog.packages.all.map fun p =>
        (p.file, commonModules p.components)) = [(⟨"/ws/F.DEC"⟩, some ["A.inf".toList])] := by
    decide +kernel
  have hdocument : ((((start ⟨"/ws"⟩ .default).run
      (changedModule ⟨"/ws/F.DEC"⟩)).catalog.platforms.get?
        (Path.withExtension ⟨"/ws/F.DEC"⟩ "dsc")).map fun d =>
          commonModules (Reduced.ofDocument d).components) = some (some ["B.inf".toList]) := by
    decide +kernel
  obtain ⟨p, hp, d, _, hd, hshown, hstored⟩ := exists_package hpackages hdocument
  refine ⟨named_changedModule _, p, hp, d, hd, fun hshows => ?_⟩
  rw [hshows.components, hstored] at hshown
  revert hshown
  decide

end FirmwareIndex.Workspace
