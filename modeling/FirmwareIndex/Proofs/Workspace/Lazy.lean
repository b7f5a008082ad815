import FirmwareIndex.Proofs.Catalog.Described
import FirmwareIndex.Workspace.Basic
import Mathlib

/-!
# Reading modules when they are asked for

A scan that leaves the modules unread is made up for by asking for the modules below directories
that together hold all module files. In whatever order that is done, and however often, the catalog
is then that of a scan that reads the modules at once (`Workspace.foldl_loadUnder_agrees`), apart
from the order of the owners of a source and from the fingerprints of the modules.
-/

set_option autoImplicit false

namespace FirmwareIndex

namespace Discovery

/-- What is found below a directory does not depend on when the modules are read. -/
theorem below_eager (t : Tree) (listing : Address → List Text) (o : Options) (eager : Bool)
    (depth : Nat) : ∀ (above : List Address) (a : Address) (path : Path),
      below t listing { o with eager := eager } depth above a path =
        below t listing o depth above a path := by
  induction depth with
  | zero => exact fun _ _ _ => rfl
  | succ depth ih =>
    intro above a path
    simp only [below, ih]
    rfl

/-- Whether modules are read by a scan does not matter to what is found. -/
theorem run_eager (t : Tree) (o : Options) (eager : Bool) (root : Path) :
    run t { o with eager := eager } root = run t o root := by
  simp only [run, runWith, below_eager]

/-- What is found is listed in the order of the paths. -/
theorem ordered_of_run_eq_ok {t : Tree} {o : Options} {root : Path} {files : Files}
    (h : run t o root = .ok files) :
    Path.Ordered files.modules ∧ Path.Ordered files.declarations ∧
      Path.Ordered files.platforms := by
  unfold run runWith at h
  split at h
  · cases h
  · cases h
    exact ⟨Path.ordered_sorted _, Path.ordered_sorted _, Path.ordered_sorted _⟩
  · cases h

end Discovery

namespace Modules

variable {s : Sources} {known read : List Path}

/-- The records of known modules of which some have been read. -/
theorem records_load_setFiles (s : Sources) (known read : List Path) :
    ((empty.setFiles known).load s read).records = Path.table (.ofFile s) read :=
  records_load _ s read

/-- The known modules that have not been read have no record. -/
theorem get?_load_eq_none (hknown : Path.Different known) (hread : ∀ file ∈ read, file ∈ known)
    (hdiff : Path.Different read) {file : Path} (hfile : file ∈ known) :
    ((empty.setFiles known).load s read).get? file = none ↔ file ∉ read := by
  rw [get?, records_load_setFiles, Path.getElem?_table_eq_none hdiff]
  constructor
  · exact fun h hmem => h file hmem rfl
  · intro h other hother hsame
    exact h (hknown.eq_of_same (hread other hother) hfile hsame ▸ hother)

/-- The modules that are read when those below a directory are asked for. -/
theorem mem_pending_load (hknown : Path.Different known) (hread : ∀ file ∈ read, file ∈ known)
    (hdiff : Path.Different read) (root file : Path) :
    file ∈ ((empty.setFiles known).load s read).pending root ↔
      file ∈ known ∧ file.isUnder root ∧ file ∉ read := by
  have hfiles : ((empty.setFiles known).load s read).files = known := files_load hread
  rw [mem_pending, mem_filesUnder, hfiles, and_assoc]
  apply and_congr_right
  intro hfile
  apply and_congr_right
  intro _
  exact get?_load_eq_none hknown hread hdiff hfile

end Modules

/-- Two catalogs agree, apart from the order of the owners of a source and from the fingerprints of
modules. -/
structure Catalog.Agrees (c c' : Catalog) : Prop where
  files : c.modules.files = c'.modules.files
  records : c.modules.records = c'.modules.records
  owners : ∀ source, (c.modules.ownersOf source).Perm (c'.modules.ownersOf source)
  declarations : c.declarations = c'.declarations
  packages : c.packages = c'.packages
  libraries : c.libraries = c'.libraries
  platforms : c.platforms = c'.platforms
  fingerprints : ∀ path : Path, (∀ file ∈ c.modules.files, ¬ file.Same path) →
    c.fingerprints[path.components]? = c'.fingerprints[path.components]?

namespace Workspace

/-- The workspace with modules that are read by a scan, or left to be read. -/
def reading (w : Workspace) (eager : Bool) : Workspace :=
  { w with options := { w.options with eager := eager } }

/-- The modules of a lazy scan and the files of which some have been read since. -/
structure Lazily (w : Workspace) (t : Tree) (files : Files) (read : List Path) (loaded : Workspace) :
    Prop where
  root : loaded.root = w.root
  catalog : loaded.catalog = .described (w.setting t) w.root
    ((Modules.empty.setFiles files.modules).load t.sources read) files.declarations files.platforms
    (Catalog.fingerprinted (w.setting t) ∅ (files.declarations ++ files.platforms))
  known : ∀ file ∈ read, file ∈ files.modules
  different : Path.Different read

variable {w lazy loaded : Workspace} {t : Tree} {files : Files} {read : List Path}

/-- A scan reads the modules that it finds, or leaves them, and reads all the other files. -/
theorem outcomes_eq (w : Workspace) (t : Tree) (files : Files) :
    w.outcomes t files =
      (if w.options.eager then files.modules else []).map (Outcome.ofFile (w.setting t) .module) ++
        files.declarations.map (Outcome.ofFile (w.setting t) .declaration) ++
        files.platforms.map (Outcome.ofFile (w.setting t) .platform) := by
  unfold outcomes
  split <;> rfl

/-- The modules that a scan reads are in strict order. -/
theorem ordered_modules (h : Discovery.run t w.options w.root = .ok files) (eager : Bool) :
    Path.Ordered (if eager then files.modules else []) := by
  cases eager with
  | false => exact List.Pairwise.nil
  | true => exact (Discovery.ordered_of_run_eq_ok h).1

/-- The catalog of a scan that reads the modules, or leaves them to be read. -/
theorem catalog_index (w : Workspace) (eager : Bool)
    (h : Discovery.run t w.options w.root = .ok files) :
    ((w.reading eager).index t files).1.catalog =
      .described (w.setting t) w.root
        ((Modules.empty.setFiles files.modules).load t.sources
          (if eager then files.modules else [])) files.declarations files.platforms
        (Catalog.fingerprinted (w.setting t) ∅
          ((if eager then files.modules else []) ++ files.declarations ++ files.platforms)) := by
  obtain ⟨_, hd, hp⟩ := Discovery.ordered_of_run_eq_ok h
  have hindex : ((w.reading eager).index t files).1.catalog =
      .ofOutcomes (w.setting t) w.root files.modules ((w.reading eager).outcomes t files) := rfl
  rw [hindex, outcomes_eq]
  exact Catalog.ofOutcomes_eq (ordered_modules h eager) hd hp

/-- The fingerprints of other files do not depend on whether a scan reads the modules. -/
theorem getElem?_fingerprinted_append {s : Setting} {modules : List Path} {k : List Component}
    (h : ∀ file ∈ modules, file.components ≠ k) (others : List Path) :
    (Catalog.fingerprinted s ∅ (modules ++ others))[k]? =
      (Catalog.fingerprinted s ∅ others)[k]? := by
  have hmodules : ∀ m : PathMap Text, (Catalog.fingerprinted s m modules)[k]? = m[k]? := by
    induction modules with
    | nil => exact fun _ => rfl
    | cons file rest ih =>
      intro m
      have hrest := ih (fun f hf => h f (by simp [hf])) (Catalog.fingerprinted s m [file])
      refine hrest.trans ?_
      simp [Catalog.fingerprinted, Std.ExtTreeMap.getElem?_alter, h file (by simp)]
  have hothers : ∀ m m' : PathMap Text, m[k]? = m'[k]? →
      (Catalog.fingerprinted s m others)[k]? = (Catalog.fingerprinted s m' others)[k]? := by
    induction others with
    | nil => exact fun _ _ h => h
    | cons file rest ih =>
      intro m m' hm
      refine ih _ _ ?_
      simp only [Std.ExtTreeMap.getElem?_alter, hm]
  have happend : Catalog.fingerprinted s ∅ (modules ++ others) =
      Catalog.fingerprinted s (Catalog.fingerprinted s ∅ modules) others := List.foldl_append
  rw [happend]
  exact hothers _ _ (hmodules ∅)

/-- Right after a lazy scan, no modules have been read. -/
theorem lazily_index (w : Workspace) (h : Discovery.run t w.options w.root = .ok files) :
    w.Lazily t files [] ((w.reading false).index t files).1 where
  root := rfl
  catalog := w.catalog_index false h
  known := by simp
  different := List.Pairwise.nil

namespace Lazily

/-- The modules below a directory that have not been read are read in the order of the files. -/
theorem pending_eq (h : w.Lazily t files read loaded) (root : Path) :
    loaded.catalog.modules.pending root =
      ((Modules.empty.setFiles files.modules).load t.sources read).pending root := by
  rw [h.catalog]
  rfl

/-- Asking for the modules below a directory reads those that have not been read. -/
theorem loadUnder (hfiles : Path.Different files.modules) (h : w.Lazily t files read loaded)
    (root : Path) :
    w.Lazily t files (read ++ loaded.catalog.modules.pending root) (loaded.loadUnder t root) := by
  have hmem : ∀ file, file ∈ loaded.catalog.modules.pending root →
      file ∈ files.modules ∧ file ∉ read := by
    intro file hfile
    rw [h.pending_eq] at hfile
    obtain ⟨hknown, _, hread⟩ :=
      (Modules.mem_pending_load hfiles h.known h.different root file).1 hfile
    exact ⟨hknown, hread⟩
  have hpending : Path.Different (loaded.catalog.modules.pending root) := by
    have hset : loaded.catalog.modules.files = files.modules := by
      rw [h.catalog]
      exact Modules.files_load h.known
    unfold Modules.pending Modules.filesUnder
    rw [hset]
    exact (hfiles.filter _).filter _
  refine ⟨?_, ?_, ?_, ?_⟩
  · unfold Workspace.loadUnder
    split
    · exact h.root
    · exact h.root
  · unfold Workspace.loadUnder
    split
    · rename_i hnone
      rw [hnone, List.append_nil]
      exact h.catalog
    · have hload : loaded.catalog.modules.loadUnder t.sources root =
          (Modules.empty.setFiles files.modules).load t.sources
            (read ++ loaded.catalog.modules.pending root) := by
        rw [Modules.load_append, h.catalog]
        rfl
      have hsetting : loaded.setting t = w.setting t := by
        unfold setting
        rw [h.root]
      dsimp only
      rw [hload, hsetting, h.root, h.catalog, Catalog.rebuild_described]
  · intro file hfile
    rcases List.mem_append.1 hfile with hfile | hfile
    · exact h.known file hfile
    · exact (hmem file hfile).1
  · refine List.pairwise_append.2 ⟨h.different, hpending, ?_⟩
    intro p hp q hq hsame
    have heq := hfiles.eq_of_same (h.known p hp) (hmem q hq).1 hsame
    exact (hmem q hq).2 (heq ▸ hp)

/-- Once the modules below a directory have been asked for, they have been read. -/
theorem mem_loadUnder (hfiles : Path.Different files.modules) (h : w.Lazily t files read loaded)
    {root file : Path} (hfile : file ∈ files.modules) (hunder : file.isUnder root) :
    file ∈ read ++ loaded.catalog.modules.pending root := by
  rw [List.mem_append, h.pending_eq, Modules.mem_pending_load hfiles h.known h.different]
  by_cases hread : file ∈ read
  · exact .inl hread
  · exact .inr ⟨hfile, hunder, hread⟩

/-- After any number of times, the modules below all the directories have been read. -/
theorem foldl_loadUnder (hfiles : Path.Different files.modules) (t : Tree) (roots : List Path)
    (h : w.Lazily t files read loaded) :
    ∃ all, w.Lazily t files all (roots.foldl (fun w root => w.loadUnder t root) loaded) ∧
      (∀ file ∈ read, file ∈ all) ∧
      ∀ file ∈ files.modules, ∀ root ∈ roots, file.isUnder root → file ∈ all := by
  induction roots generalizing read loaded with
  | nil => exact ⟨read, h, fun _ hfile => hfile, by simp⟩
  | cons root rest ih =>
    obtain ⟨all, hall, hkept, hunder⟩ := ih (h.loadUnder hfiles root)
    refine ⟨all, hall, fun file hfile => hkept file (List.mem_append_left _ hfile), ?_⟩
    intro file hfile r hr hbelow
    rcases List.mem_cons.1 hr with rfl | hr
    · exact hkept file (h.mem_loadUnder hfiles hfile hbelow)
    · exact hunder file hfile r hr hbelow

/-- When all modules have been read, the catalog agrees with that of a scan that reads them at
once. -/
theorem agrees (hfiles : Path.Different files.modules) (h : w.Lazily t files read loaded)
    (hall : ∀ file ∈ files.modules, file ∈ read)
    (hrun : Discovery.run t w.options w.root = .ok files) :
    loaded.catalog.Agrees ((w.reading true).index t files).1.catalog := by
  have hperm : read.Perm files.modules :=
    (List.perm_ext_iff_of_nodup h.different.nodup hfiles.nodup).2 fun file =>
      ⟨h.known file, hall file⟩
  have hrecords : ((Modules.empty.setFiles files.modules).load t.sources read).records =
      ((Modules.empty.setFiles files.modules).load t.sources files.modules).records := by
    rw [Modules.records_load_setFiles, Modules.records_load_setFiles,
      Path.table_perm h.different hperm]
  have hset : ((Modules.empty.setFiles files.modules).load t.sources read).files = files.modules :=
    Modules.files_load h.known
  have hset' : ((Modules.empty.setFiles files.modules).load t.sources files.modules).files =
      files.modules := Modules.files_load fun _ hfile => hfile
  have hcoherent := fun read => (Modules.coherent_setFiles files.modules).load t.sources read
  rw [h.catalog, w.catalog_index true hrun]
  refine ⟨hset.trans hset'.symm, hrecords, ?_, rfl, rfl, Catalog.librariesOf_congr hrecords _, rfl,
    fun path hpath => ?_⟩
  · exact (hcoherent read).ownersOf_perm (hcoherent files.modules) hrecords
  · have hother : ∀ file ∈ files.modules, file.components ≠ path.components :=
      fun file hfile => hpath file (hset.symm ▸ hfile)
    simp only [Catalog.described, List.append_assoc]
    exact (getElem?_fingerprinted_append hother _).symm

/-- A directory that holds all module files has them read in the order of the files. -/
theorem pending_nil (h : w.Lazily t files [] loaded) {root : Path}
    (hunder : ∀ file ∈ files.modules, file.isUnder root) :
    loaded.catalog.modules.pending root = files.modules := by
  have hset : ((Modules.empty.setFiles files.modules).load t.sources []).files = files.modules :=
    rfl
  rw [h.pending_eq, Modules.pending, Modules.filesUnder, hset, List.filter_eq_self.2 hunder]
  exact List.filter_eq_self.2 fun _ _ => by
    simp [Modules.get?, Modules.load, Modules.setFiles, Modules.empty]

end Lazily

/-- A scan finds the same files whether or not it reads the modules. -/
theorem scan_reading (w : Workspace) (eager : Bool) (t : Tree) :
    (w.reading eager).scan t =
      (Discovery.run t w.options w.root).map ((w.reading eager).index t) := by
  rw [scan, ← Discovery.run_eager t w.options eager w.root]
  rfl

/-- A scan that leaves the modules unread, followed by asking for the modules below directories that
together hold all of them, leads to the catalog of a scan that reads them at once, up to the order
of the owners of a source. If it takes one directory, the owners have the same order too. -/
theorem foldl_loadUnder_agrees {events : List Event}
    (hscan : (w.reading false).scan t = .ok (lazy, events)) :
    ∃ eager events', (w.reading true).scan t = .ok (eager, events') ∧
      ∀ roots : List Path,
        (∀ file ∈ lazy.catalog.modules.files, ∃ root ∈ roots, file.isUnder root) →
        (roots.foldl (fun w root => w.loadUnder t root) lazy).catalog.Agrees eager.catalog ∧
        (roots.length = 1 →
          (roots.foldl (fun w root => w.loadUnder t root) lazy).catalog.modules =
            eager.catalog.modules) := by
  obtain ⟨files, hrun, hindex⟩ : ∃ files, Discovery.run t w.options w.root = .ok files ∧
      (w.reading false).index t files = (lazy, events) := by
    rw [scan_reading] at hscan
    cases hfiles : Discovery.run t w.options w.root with
    | error refusal => rw [hfiles] at hscan; cases hscan
    | ok files => rw [hfiles] at hscan; exact ⟨files, rfl, Except.ok.inj hscan⟩
  obtain rfl : ((w.reading false).index t files).1 = lazy := congrArg Prod.fst hindex
  have heager : (w.reading true).scan t = .ok ((w.reading true).index t files) := by
    rw [scan_reading, hrun]
    rfl
  have hfiles : Path.Different files.modules := (Discovery.ordered_of_run_eq_ok hrun).1.different
  have hlazy := lazily_index (t := t) w hrun
  refine ⟨((w.reading true).index t files).1, _, heager, ?_⟩
  intro roots hcover
  have hset : ((w.reading false).index t files).1.catalog.modules.files = files.modules := by
    rw [hlazy.catalog]
    exact Modules.files_load hlazy.known
  rw [hset] at hcover
  constructor
  · obtain ⟨read, hread, _, hunder⟩ := hlazy.foldl_loadUnder hfiles t roots
    refine hread.agrees hfiles (fun file hfile => ?_) hrun
    obtain ⟨root, hroot, hbelow⟩ := hcover file hfile
    exact hunder file hfile root hroot hbelow
  · intro hone
    obtain ⟨root, rfl⟩ := List.length_eq_one_iff.1 hone
    have hunder : ∀ file ∈ files.modules, file.isUnder root := by
      intro file hfile
      obtain ⟨r, hr, hbelow⟩ := hcover file hfile
      exact List.mem_singleton.1 hr ▸ hbelow
    rw [List.foldl_cons, List.foldl_nil, (hlazy.loadUnder hfiles root).catalog,
      w.catalog_index true hrun, hlazy.pending_nil hunder]
    rfl

/-- A tree with two modules that implement one class and share a source. -/
def sharedSource : Tree :=
  (Tree.empty.writeFile ⟨"/ws/A/A.inf"⟩
    (Utf8.encode "[Defines]\nLIBRARY_CLASS=L\n[Sources]\n../s.c\n")).writeFile ⟨"/ws/B/B.inf"⟩
    (Utf8.encode "[Defines]\nLIBRARY_CLASS=L\n[Sources]\n../s.c\n")

/-- The modules that own the shared source, and the implementations of the class. -/
def sharers (w : Workspace) : List Path × List Path :=
  ((w.catalog.modules.ownersOf ⟨"/ws/s.c"⟩).map ModuleRecord.path,
    (w.catalog.libraries.implementations "L").map Library.path)

/-- What is seen of a scan that finds the tree. -/
theorem exists_scan_eq_ok {α : Type} {a : α} (f : Workspace → α)
    (h : (w.scan t).map (fun result => f result.1) = .ok a) :
    ∃ scanned events, w.scan t = .ok (scanned, events) ∧ f scanned = a := by
  cases hscan : w.scan t with
  | error refusal => rw [hscan] at h; cases h
  | ok result =>
    rw [hscan] at h
    exact ⟨result.1, result.2, rfl, Except.ok.inj h⟩

/-- The modules are read when those below one directory are asked for and then those below the other
one. The owners of their source come in another order than after a scan that reads them, but in the
same order if all modules are asked for at once. -/
theorem foldl_loadUnder_sharedSource :
    ∃ lazy events eager events',
      ((start ⟨"/ws"⟩ .default).reading false).scan sharedSource = .ok (lazy, events) ∧
        ((start ⟨"/ws"⟩ .default).reading true).scan sharedSource = .ok (eager, events') ∧
        lazy.catalog.modules.files = [⟨"/ws/A/A.inf"⟩, ⟨"/ws/B/B.inf"⟩] ∧ lazy.sharers = ([], []) ∧
        eager.sharers =
          ([⟨"/ws/B/B.inf"⟩, ⟨"/ws/A/A.inf"⟩], [⟨"/ws/A/A.inf"⟩, ⟨"/ws/B/B.inf"⟩]) ∧
        ((lazy.loadUnder sharedSource ⟨"/ws/B"⟩).loadUnder sharedSource ⟨"/ws/A"⟩).sharers =
          ([⟨"/ws/A/A.inf"⟩, ⟨"/ws/B/B.inf"⟩], [⟨"/ws/A/A.inf"⟩, ⟨"/ws/B/B.inf"⟩]) ∧
        ((lazy.loadUnder sharedSource ⟨"/ws/B"⟩).loadUnder sharedSource ⟨"/ws/A"⟩).catalog.Agrees
          eager.catalog ∧
        (lazy.loadUnder sharedSource ⟨"/ws"⟩).catalog.modules = eager.catalog.modules := by
  obtain ⟨lazy, events, hscan, hseen⟩ := exists_scan_eq_ok (t := sharedSource)
    (w := (start ⟨"/ws"⟩ .default).reading false)
    (a := ([⟨"/ws/A/A.inf"⟩, ⟨"/ws/B/B.inf"⟩], ([], []),
      ([⟨"/ws/A/A.inf"⟩, ⟨"/ws/B/B.inf"⟩], [⟨"/ws/A/A.inf"⟩, ⟨"/ws/B/B.inf"⟩])))
    (fun w => (w.catalog.modules.files, w.sharers,
      ((w.loadUnder sharedSource ⟨"/ws/B"⟩).loadUnder sharedSource ⟨"/ws/A"⟩).sharers))
    (by decide +kernel)
  obtain ⟨hfiles, hlazy, hloaded⟩ : lazy.catalog.modules.files = _ ∧ lazy.sharers = _ ∧
      ((lazy.loadUnder sharedSource ⟨"/ws/B"⟩).loadUnder sharedSource ⟨"/ws/A"⟩).sharers = _ := by
    simpa only [Prod.mk.injEq] using hseen
  obtain ⟨eager, events', heager, hagrees⟩ := foldl_loadUnder_agrees hscan
  obtain ⟨scanned, _, hscanned, hsharers⟩ := exists_scan_eq_ok (t := sharedSource)
    (w := (start ⟨"/ws"⟩ .default).reading true)
    (a := ([⟨"/ws/B/B.inf"⟩, ⟨"/ws/A/A.inf"⟩], [⟨"/ws/A/A.inf"⟩, ⟨"/ws/B/B.inf"⟩])) sharers
    (by decide +kernel)
  obtain rfl : scanned = eager := congrArg Prod.fst (Except.ok.inj (hscanned.symm.trans heager))
  have hboth : ∀ file ∈ lazy.catalog.modules.files,
      ∃ root ∈ [(⟨"/ws/B"⟩ : Path), ⟨"/ws/A"⟩], file.isUnder root := by
    rw [hfiles]
    decide
  have hroot : ∀ file ∈ lazy.catalog.modules.files, ∃ root ∈ [(⟨"/ws"⟩ : Path)],
      file.isUnder root := by
    rw [hfiles]
    decide
  exact ⟨lazy, events, scanned, events', hscan, heager, hfiles, hlazy, hsharers, hloaded,
    (hagrees _ hboth).1, (hagrees _ hroot).2 rfl⟩

end Workspace

end FirmwareIndex
