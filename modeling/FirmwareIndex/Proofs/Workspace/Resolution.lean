import FirmwareIndex.Proofs.Catalog.Libraries
import FirmwareIndex.Proofs.Path.Reference
import FirmwareIndex.Proofs.Tree.Change
import FirmwareIndex.Proofs.Workspace.Discovery
import FirmwareIndex.Proofs.Workspace.Lazy

/-!
# The library that a platform chooses

A platform names the library of a class by a reference, and the catalog looks for the first library
of the class whose path ends with that reference. After a scan the library at the place that the
reference means from the root of the workspace ends with it, however its path was reached, so there
is an answer as soon as that library is known. The answer is another library only if that one comes
earlier and ends with the reference too (`Workspace.exists_resolve_eq_some`), as a copy of a package
in another directory does (`Workspace.resolve_nestedCopy_ne`).
-/

set_option autoImplicit false

namespace FirmwareIndex

/-- The record of a file is in the directory of the file. -/
theorem ModuleRecord.directory_ofFile (s : Sources) (p : Path) :
    (ofFile s p).directory = p.directory := by
  unfold ofFile
  split <;> rfl

namespace Libraries

variable {ls : Libraries} {P : Path → Prop}

/-- What holds of the paths of some libraries holds of those that are learned from them. -/
theorem forall_path_foldl_add (h : ∀ l ∈ ls.all, P l.path) {list : List Library}
    (hlist : ∀ l ∈ list, P l.path) : ∀ l ∈ (list.foldl add ls).all, P l.path := by
  refine List.foldlRecOn list add (motive := fun ls : Libraries => ∀ l ∈ ls.all, P l.path) h ?_
  intro ls hls new hnew l hl
  rcases List.mem_append.1 hl with hl | hl
  · exact hls l (List.mem_filter.1 hl).1
  · rw [List.mem_singleton.1 hl, path_learned]
    exact hlist new hnew

/-- The first library of a class that ends with a text, and what stands before and after it. -/
theorem find?_eq_some {className ending : Text} {l : Library} (hl : l ∈ ls.all)
    (hclass : l.className = className) (hending : l.path.hasEnding ending = true) :
    ∃ front chosen back, ls.all = front ++ chosen :: back ∧
      ls.find? className ending = some chosen ∧ chosen.className = className ∧
      chosen.path.hasEnding ending = true ∧
      (∀ other ∈ front, other.className = className → other.path.hasEnding ending = false) ∧
      l ∈ chosen :: back := by
  have hsome : (ls.find? className ending).isSome := by
    rw [find?, List.find?_isSome]
    exact ⟨l, hl, by simp [hclass, hending]⟩
  obtain ⟨chosen, hchosen⟩ := Option.isSome_iff_exists.1 hsome
  obtain ⟨hmatches, front, back, hall, hfront⟩ := List.find?_eq_some_iff_append.1 hchosen
  obtain ⟨hchosenClass, hchosenEnding⟩ : chosen.className = className ∧
      chosen.path.hasEnding ending = true := by simpa using hmatches
  have hbefore : ∀ other ∈ front, other.className = className →
      other.path.hasEnding ending = false := by
    intro other hother hsame
    simpa [hsame] using hfront other hother
  refine ⟨front, chosen, back, hall, hchosen, hchosenClass, hchosenEnding, hbefore, ?_⟩
  rw [hall, List.mem_append] at hl
  refine hl.resolve_left fun hl => ?_
  rw [hbefore l hl hclass] at hending
  cases hending

end Libraries

namespace Catalog

/-- A package that looks beside itself stays in its directory. -/
theorem root_loadPackage (s : Setting) (ps : Platforms) (p : Package) :
    (loadPackage s ps p).root = p.root := by
  have hload : ∀ q : Package, (q.load s).root = q.root := by
    intro q
    unfold Package.load
    split
    · split <;> rfl
    · rfl
  have hpreload : ∀ platform, (p.preload platform).root = p.root := by
    intro platform
    unfold Package.preload
    split <;> rfl
  unfold loadPackage
  split
  · exact (hload _).trans (hpreload _)
  · exact hload p

/-- What holds of the paths of the modules and of those that the mappings of packages mean holds of
the paths of all libraries. -/
theorem forall_path_librariesOf {P : Path → Prop} {root : Path} {m : Modules}
    {packages : List Package} (hmodules : ∀ r ∈ m.records.values, P r.path)
    (hpackages : ∀ p ∈ packages, ∀ l ∈ Libraries.mappingsOf root m p, P l.path) :
    ∀ l ∈ (librariesOf root m packages).all, P l.path := by
  refine List.foldlRecOn packages _ (motive := fun ls : Libraries => ∀ l ∈ ls.all, P l.path) ?_
    fun ls hls p hp => Libraries.forall_path_foldl_add hls (hpackages p hp)
  refine List.foldlRecOn m.records.values _ (motive := fun ls : Libraries => ∀ l ∈ ls.all, P l.path)
    (by simp [Libraries.empty]) fun ls hls r hr => Libraries.forall_path_foldl_add hls ?_
  intro l hl
  obtain ⟨role, _, rfl⟩ := List.mem_map.1 hl
  exact hmodules r hr

end Catalog

namespace Workspace

variable {w scanned : Workspace} {t : Tree} {events : List Event}

/-- The catalog of a scan in terms of the files that were found. -/
theorem exists_files_of_scan (hscan : w.scan t = .ok (scanned, events)) :
    ∃ files, Discovery.run t w.options w.root = .ok files ∧
      scanned.catalog = .described (w.setting t) w.root
        ((Modules.empty.setFiles files.modules).load t.sources
          (if w.options.eager then files.modules else [])) files.declarations files.platforms
        (Catalog.fingerprinted (w.setting t) ∅
          ((if w.options.eager then files.modules else []) ++ files.declarations ++
            files.platforms)) := by
  rw [scan] at hscan
  cases hrun : Discovery.run t w.options w.root with
  | error refusal => rw [hrun] at hscan; cases hscan
  | ok files =>
    rw [hrun] at hscan
    have hindex : (w.reading w.options.eager).index t files = (scanned, events) :=
      Except.ok.inj hscan
    refine ⟨files, rfl, ?_⟩
    rw [← w.catalog_index w.options.eager hrun, hindex]

/-- The paths of the libraries that a scan finds have names put to nothing longer than the root of
the workspace. -/
theorem grownOver_of_scan (ht : t.Named) (hscan : w.scan t = .ok (scanned, events)) :
    ∀ l ∈ scanned.catalog.libraries.all, l.path.GrownOver w.root := by
  obtain ⟨files, hrun, hcatalog⟩ := exists_files_of_scan hscan
  have hfound : ∀ kind, ∀ file ∈ files.ofKind kind, file.GrownOver w.root :=
    fun kind file hfile => (Discovery.spelledBelow_of_mem_ofKind ht hrun hfile).1.grownOver
  rw [hcatalog]
  refine Catalog.forall_path_librariesOf (P := fun p : Path => p.GrownOver w.root) ?_ ?_
  · intro r hr
    rw [Modules.records_load_setFiles] at hr
    obtain ⟨key, hkey⟩ := mem_values_iff.1 hr
    have hdiff : Path.Different (if w.options.eager then files.modules else []) := by
      split
      · exact (Discovery.ordered_of_run_eq_ok hrun).1.different
      · exact List.Pairwise.nil
    obtain ⟨file, hfile, _, rfl⟩ := (Path.getElem?_table_eq_some hdiff).1 hkey
    rw [ModuleRecord.path_ofFile]
    split at hfile
    · exact hfound .module file hfile
    · cases hfile
  · intro p hp l hl
    obtain ⟨file, hfile, rfl⟩ := List.mem_map.1 hp
    obtain ⟨entry, _, hl⟩ := List.mem_flatMap.1 hl
    obtain ⟨mapping, _, rfl⟩ := List.mem_map.1 hl
    have hroot : (Catalog.packageOf (w.setting t)
        ⟨Path.table (Document.ofFile (w.setting t)) files.platforms⟩ file).root.GrownOver
          w.root := by
      rw [Catalog.packageOf, Catalog.root_loadPackage, Package.ofDeclaration,
        ModuleRecord.directory_ofFile]
      exact (hfound .declaration file hfile).directory
    unfold Libraries.ofMapping
    dsimp only
    split
    · exact (Path.GrownOver.self w.root).join _
    · exact hroot.join _

/-- If the library that a platform names is known at its place below the root of the workspace,
then the platform is given the first library of the class that ends with the reference, which is
that one or comes before it. -/
theorem exists_resolve_eq_some (ht : t.Named) (hscan : w.scan t = .ok (scanned, events))
    {file : Path} {className arch : Text} {d : Document} {o : Override} {l : Library}
    (hd : scanned.catalog.platforms.get? file = some d)
    (ho : Platforms.choose d.libraries className arch = some o) (hplain : Path.IsPlain o.path)
    (hl : l ∈ scanned.catalog.libraries.all) (hclass : l.className = className)
    (hplace : l.path.Same (w.root.join o.path)) :
    ∃ front chosen back, scanned.catalog.libraries.all = front ++ chosen :: back ∧
      scanned.catalog.platforms.resolve scanned.catalog.libraries file className arch =
        some chosen ∧
      chosen.className = className ∧ chosen.path.hasEnding o.path = true ∧
      (∀ other ∈ front, other.className = className → other.path.hasEnding o.path = false) ∧
      l ∈ chosen :: back := by
  have hending := (grownOver_of_scan ht hscan l hl).hasEnding hplain hplace
  have hresolve : scanned.catalog.platforms.resolve scanned.catalog.libraries file className arch =
      scanned.catalog.libraries.find? className o.path := by
    rw [Platforms.resolve, hd, Option.bind_some, ho, Option.bind_some]
  rw [hresolve]
  exact Libraries.find?_eq_some hl hclass hending

/-- A tree with a library and a copy of it in another directory. -/
def nestedCopy : Tree :=
  ((Tree.empty.writeFile ⟨"/ws/A/FooPkg/Lib.inf"⟩
      (Utf8.encode "[Defines]\nLIBRARY_CLASS = FooLib\n".toList)).writeFile ⟨"/ws/FooPkg/Lib.inf"⟩
      (Utf8.encode "[Defines]\nLIBRARY_CLASS = FooLib\n".toList)).writeFile ⟨"/ws/P.dsc"⟩
    (Utf8.encode "[LibraryClasses]\nFooLib|FooPkg/Lib.inf\n".toList)

/-- The entries of the tree have names. -/
theorem named_nestedCopy : nestedCopy.Named :=
  (((Tree.wellFormed_empty.writeFile _ _).writeFile _ _).writeFile _ _).named

/-- What a scan of the tree knows of the platform and of the library that it names. -/
theorem exists_scan_nestedCopy :
    ∃ scanned events d o l, (start ⟨"/ws"⟩ .default).scan nestedCopy = .ok (scanned, events) ∧
      scanned.catalog.platforms.get? ⟨"/ws/P.dsc"⟩ = some d ∧
      Platforms.choose d.libraries "FooLib" "X64" = some o ∧ o.path = "FooPkg/Lib.inf".toList ∧
      l ∈ scanned.catalog.libraries.all ∧ l.className = "FooLib".toList ∧
      l.path = ⟨"/ws/FooPkg/Lib.inf"⟩ ∧
      (scanned.catalog.platforms.resolve scanned.catalog.libraries ⟨"/ws/P.dsc"⟩ "FooLib"
        "X64").map Library.path = some ⟨"/ws/A/FooPkg/Lib.inf"⟩ := by
  have hchoice : ((start ⟨"/ws"⟩ .default).scan nestedCopy).toOption.bind (fun s =>
      (s.1.catalog.platforms.get? ⟨"/ws/P.dsc"⟩).bind fun d =>
        (Platforms.choose d.libraries "FooLib" "X64").map Override.path) =
      some "FooPkg/Lib.inf".toList := by decide +kernel
  have hlibraries : ((start ⟨"/ws"⟩ .default).scan nestedCopy).toOption.map (fun s =>
      (s.1.catalog.libraries.all.map fun l => (l.className, l.path),
        (s.1.catalog.platforms.resolve s.1.catalog.libraries ⟨"/ws/P.dsc"⟩ "FooLib" "X64").map
          Library.path)) =
      some ([("FooLib".toList, ⟨"/ws/A/FooPkg/Lib.inf"⟩),
          ("FooLib".toList, ⟨"/ws/FooPkg/Lib.inf"⟩)],
        some ⟨"/ws/A/FooPkg/Lib.inf"⟩) := by decide +kernel
  cases hscan : (start ⟨"/ws"⟩ .default).scan nestedCopy with
  | error refusal =>
    rw [hscan] at hchoice
    cases hchoice
  | ok result =>
    obtain ⟨scanned, events⟩ := result
    rw [hscan] at hchoice hlibraries
    obtain ⟨_, heq, hchoice⟩ := Option.bind_eq_some_iff.1 hchoice
    obtain rfl := Option.some.inj heq
    obtain ⟨d, hd, ho⟩ := Option.bind_eq_some_iff.1 hchoice
    obtain ⟨o, ho, hpath⟩ := Option.map_eq_some_iff.1 ho
    obtain ⟨hall, hresolve⟩ := Prod.mk.inj (Option.some.inj hlibraries)
    have hmem : ("FooLib".toList, Path.mk "/ws/FooPkg/Lib.inf") ∈
        scanned.catalog.libraries.all.map fun l => (l.className, l.path) := by
      rw [hall]
      decide
    obtain ⟨l, hl, hvalue⟩ := List.mem_map.1 hmem
    obtain ⟨hclass, hplace⟩ := Prod.mk.inj hvalue
    exact ⟨scanned, events, d, o, l, rfl, hd, ho, hpath, hl, hclass, hplace, hresolve⟩

/-- The platform of the tree is given a library of the class that ends with the reference. -/
theorem resolve_nestedCopy :
    nestedCopy.Named ∧ ∃ scanned events d o l,
      (start ⟨"/ws"⟩ .default).scan nestedCopy = .ok (scanned, events) ∧
      scanned.catalog.platforms.get? ⟨"/ws/P.dsc"⟩ = some d ∧
      Platforms.choose d.libraries "FooLib" "X64" = some o ∧ Path.IsPlain o.path ∧
      l ∈ scanned.catalog.libraries.all ∧ l.className = "FooLib".toList ∧
      l.path.Same (Path.join ⟨"/ws"⟩ o.path) ∧
      ∃ front chosen back, scanned.catalog.libraries.all = front ++ chosen :: back ∧
        scanned.catalog.platforms.resolve scanned.catalog.libraries ⟨"/ws/P.dsc"⟩ "FooLib" "X64" =
          some chosen ∧
        chosen.className = "FooLib".toList ∧ chosen.path.hasEnding o.path = true ∧
        (∀ other ∈ front, other.className = "FooLib".toList →
          other.path.hasEnding o.path = false) ∧
        l ∈ chosen :: back := by
  obtain ⟨scanned, events, d, o, l, hscan, hd, ho, hpath, hl, hclass, hplace, _⟩ :=
    exists_scan_nestedCopy
  have hplain : Path.IsPlain o.path := by
    rw [hpath]
    decide
  have hsame : l.path.Same (Path.join ⟨"/ws"⟩ o.path) := by
    rw [hpath, hplace]
    decide
  exact ⟨named_nestedCopy, scanned, events, d, o, l, hscan, hd, ho, hplain, hl, hclass, hsame,
    exists_resolve_eq_some named_nestedCopy hscan hd ho hplain hl hclass hsame⟩

/-- The library that the platform names from the root of the workspace need not be the one that it
is given: the copy in another directory comes first. -/
theorem resolve_nestedCopy_ne :
    nestedCopy.Named ∧ ∃ scanned events d o l,
      (start ⟨"/ws"⟩ .default).scan nestedCopy = .ok (scanned, events) ∧
      scanned.catalog.platforms.get? ⟨"/ws/P.dsc"⟩ = some d ∧
      Platforms.choose d.libraries "FooLib" "X64" = some o ∧ Path.IsPlain o.path ∧
      l ∈ scanned.catalog.libraries.all ∧ l.className = "FooLib".toList ∧
      l.path.Same (Path.join ⟨"/ws"⟩ o.path) ∧
      scanned.catalog.platforms.resolve scanned.catalog.libraries ⟨"/ws/P.dsc"⟩ "FooLib" "X64" ≠
        some l := by
  obtain ⟨scanned, events, d, o, l, hscan, hd, ho, hpath, hl, hclass, hplace, hresolve⟩ :=
    exists_scan_nestedCopy
  refine ⟨named_nestedCopy, scanned, events, d, o, l, hscan, hd, ho, ?_, hl, hclass, ?_, ?_⟩
  · rw [hpath]
    decide
  · rw [hpath, hplace]
    decide
  · intro hgiven
    rw [hgiven, Option.map_some, hplace] at hresolve
    revert hresolve
    decide

end Workspace

end FirmwareIndex
