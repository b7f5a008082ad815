import FirmwareIndex.Proofs.Workspace.Lazy
import FirmwareIndex.Proofs.Workspace.Mentions
import FirmwareIndex.Proofs.Workspace.Refreshed
import FirmwareIndex.Workspace.Observed

/-!
# Events of a workspace

Every subscriber receives the same events: a scan tells of the package declarations and platforms
that could be read, by kind and in the order of their paths, and of its totals at the end; a rescan
tells of those files that it reads again (`Observed.announces_run`). An operation that is refused, or
a rescan that finds nothing to do, leaves everything as it is.

What a rescan tells is decided by the catalog that it starts from. It reads several files only when
these are platforms, which are kept by path, so that reading one of them has no influence on the
others.
-/

set_option autoImplicit false

namespace FirmwareIndex

/-- The text of the file can be read. -/
def Setting.readable (s : Setting) (file : Path) : Bool :=
  (s.sources.read file).isOk

/-- The event that tells of a file that is read as one of a kind. Only package declarations and
platforms that can be read are told of. -/
def Event.ofFile? (s : Setting) : FileKind → Path → Option Event
  | .module, _ => none
  | .declaration, file =>
    if s.readable file then some (.packageDiscovered (.ofDeclaration (.ofFile s.sources file)))
    else none
  | .platform, file =>
    if s.readable file then some (.projectDiscovered file (Document.ofFile s file).problems.length)
    else none

/-- The event of an outcome is that of the file which was read. -/
theorem Event.ofOutcome_ofFile (s : Setting) (k : FileKind) (file : Path) :
    ofOutcome (.ofFile s k file) = ofFile? s k file := by
  cases k <;> cases hread : s.sources.read file <;>
    simp [ofOutcome, ofFile?, Outcome.ofFile, Setting.readable, hread, Except.toOption, Except.isOk,
      Except.toBool]

/-- No event of a file is the end of a scan. -/
theorem Event.ofFile?_ne_scanCompleted (s : Setting) (k : FileKind) (file : Path) (totals : Summary) :
    ofFile? s k file ≠ some (.scanCompleted totals) := by
  cases k with
  | module => simp [ofFile?]
  | declaration | platform =>
    unfold ofFile?
    split <;> simp

namespace Workspace

variable {w : Workspace} {t : Tree} {files : Files} {path : Path}

/-- A rescan for a changed path reads a file if it is there, apart from the changed file itself when
its text is known. -/
def Rescan.Rereads (s : Setting) (path : Path) (c : Catalog) (target : Path × FileKind) : Prop :=
  s.sources.present target.1 = true ∧
    ¬ (target.1.Same path ∧ (s.fingerprint? target.1).isSome = true ∧
      c.fingerprints[target.1.components]? = s.fingerprint? target.1)

instance (s : Setting) (path : Path) (c : Catalog) (target : Path × FileKind) :
    Decidable (Rescan.Rereads s path c target) :=
  inferInstanceAs (Decidable (_ ∧ _))

/-- The files that a rescan reads. -/
def reread (w : Workspace) (t : Tree) (path : Path) : List (Path × FileKind) :=
  (w.targets path).filter (Rescan.Rereads (w.setting t) path w.catalog)

/-- The events of the files that a rescan reads. -/
def rescanEvents (w : Workspace) (t : Tree) (path : Path) : List Event :=
  (w.reread t path).filterMap fun target => Event.ofFile? (w.setting t) target.2 target.1

/-- The events of the files that a scan finds. -/
def foundEvents (w : Workspace) (t : Tree) (files : Files) : List Event :=
  files.declarations.filterMap (Event.ofFile? (w.setting t) .declaration) ++
    files.platforms.filterMap (Event.ofFile? (w.setting t) .platform)

/-- A scan tells of the files that it has found, and then of its end. -/
theorem events_index (h : Discovery.run t w.options w.root = .ok files) :
    (w.index t files).2 =
      w.foundEvents t files ++ [.scanCompleted (w.index t files).1.summary] := by
  obtain ⟨_, hd, hp⟩ := Discovery.ordered_of_run_eq_ok h
  have hread : ∀ (k : FileKind) (paths : List Path),
      (paths.map (Outcome.ofFile (w.setting t) k)).filterMap Event.ofOutcome =
        paths.filterMap (Event.ofFile? (w.setting t) k) := by
    intro k paths
    rw [List.filterMap_map]
    exact List.filterMap_congr fun file _ => Event.ofOutcome_ofFile _ k file
  have hmodule : ∀ paths : List Path, paths.filterMap (Event.ofFile? (w.setting t) .module) = [] :=
    fun _ => List.filterMap_eq_nil_iff.2 fun _ _ => rfl
  simp only [index, scanEvents, outcomes_eq,
    Catalog.arranged_outcomes (ordered_modules h w.options.eager) hd hp, List.filterMap_append,
    hread, hmodule, List.nil_append]
  rfl

/-- The platforms of a new catalog have the documents that the events of a scan are about. -/
theorem get?_index (h : Discovery.run t w.options w.root = .ok files) {file : Path}
    (hfile : file ∈ files.platforms) :
    (w.index t files).1.catalog.platforms.get? file = some (.ofFile (w.setting t) file) := by
  have hreading : w.reading w.options.eager = w := rfl
  have hcatalog := w.catalog_index w.options.eager h
  rw [hreading] at hcatalog
  rw [hcatalog]
  exact Path.getElem?_table_of_mem (Discovery.ordered_of_run_eq_ok h).2.2.different hfile

/-- The files that are read for a changed file are each at another place. -/
theorem different_targets
    (h : ∀ (d : Document) (key : List Component), w.catalog.platforms.documents[key]? = some d →
      d.file.components = key) (path : Path) :
    Path.Different ((w.targets path).map Prod.fst) := by
  unfold targets
  split
  · exact List.pairwise_singleton _ _
  · have hordered : Path.Ordered (w.catalog.platforms.all.map Document.file) :=
      List.pairwise_map.2 (Path.pairwise_values fun key d hd => h d key hd)
    rw [List.map_map]
    exact hordered.different.sublist (List.filter_sublist.map _)

/-- Reading one file of a rescan tells of this file, if it is read at all. -/
theorem Rescan.events_read (s : Setting) (path : Path) (r : Rescan) (target : Path × FileKind) :
    (r.read s path target).events = r.events ++
      if Rereads s path r.catalog target then (Event.ofFile? s target.2 target.1).toList else [] := by
  unfold Rescan.read
  split
  · rename_i hpresent
    dsimp only
    split
    · rename_i hknown
      simp only [Bool.and_eq_true, decide_eq_true_eq, and_assoc] at hknown
      rw [if_neg fun h => h.2 hknown, List.append_nil]
    · rename_i hknown
      simp only [Bool.and_eq_true, decide_eq_true_eq, and_assoc] at hknown
      rw [if_pos ⟨hpresent, hknown⟩, Event.ofOutcome_ofFile]
  · rename_i hpresent
    rw [if_neg fun h => hpresent h.1, List.append_nil]

/-- Reading a file leaves the fingerprints of others as they are. -/
theorem Rescan.fingerprints_read (s : Setting) (path : Path) (r : Rescan)
    {target : Path × FileKind} {key : List Component} (h : target.1.components ≠ key) :
    (r.read s path target).catalog.fingerprints[key]? = r.catalog.fingerprints[key]? := by
  unfold Rescan.read
  split
  · dsimp only
    split
    · rfl
    · rw [Catalog.fingerprints_take]
      exact Catalog.getElem?_alter_of_ne h
  · rw [Catalog.fingerprints_forget]
    exact Catalog.getElem?_alter_of_ne h

/-- Reading files at different places tells of those that are read for the catalog at the start. -/
theorem Rescan.events_foldl_read {s : Setting} {targets : List (Path × FileKind)}
    (h : Path.Different (targets.map Prod.fst)) (r : Rescan) :
    (targets.foldl (Rescan.read s path) r).events =
      r.events ++ (targets.filter (Rereads s path r.catalog)).filterMap
        fun target => Event.ofFile? s target.2 target.1 := by
  induction targets generalizing r with
  | nil => simp
  | cons target rest ih =>
    obtain ⟨htarget, hrest⟩ := List.pairwise_cons.1 h
    have hothers : rest.filter (Rereads s path (r.read s path target).catalog) =
        rest.filter (Rereads s path r.catalog) := by
      refine List.filter_congr fun other hother => ?_
      have hne : target.1.components ≠ other.1.components :=
        htarget other.1 (List.mem_map_of_mem hother)
      rw [decide_eq_decide, Rereads, Rereads, fingerprints_read s path r hne]
    rw [List.foldl_cons, ih hrest, events_read, hothers, List.append_assoc, List.filter_cons]
    by_cases hreads : Rereads s path r.catalog target
    · rw [if_pos hreads, if_pos (decide_eq_true hreads), List.filterMap_cons]
      cases Event.ofFile? s target.2 target.1 <;> rfl
    · rw [if_neg hreads, if_neg (by simpa using hreads), List.nil_append]

/-- A rescan leaves the workspace as it is and tells nothing, or it tells of the files that it
reads. -/
theorem rescan_eq_ok {rescanned : Workspace} {changed : Bool} {events : List Event}
    (hkeyed : ∀ (d : Document) (key : List Component),
      w.catalog.platforms.documents[key]? = some d → d.file.components = key)
    (h : w.rescan t path = .ok (rescanned, changed, events)) :
    (changed = false ∧ rescanned = w ∧ events = []) ∨
      (changed = true ∧ events = w.rescanEvents t path) := by
  refine (of_rescan_eq_ok h).imp_right fun ⟨hchanged, hevents, _⟩ => ⟨hchanged, hevents.trans ?_⟩
  exact Rescan.events_foldl_read (different_targets hkeyed path) _

end Workspace

namespace Observed

variable {o o' : Observed} {t : Tree}

/-- The subscribers that have not left. -/
def listeners (o : Observed) : List Subscriber :=
  o.subscribers.filter Subscriber.listening

/-- Events are handed over to all subscribers that have not left, after what they have received. -/
def Delivers (o o' : Observed) (events : List Event) : Prop :=
  o'.listeners = o.listeners.map fun s => { s with received := s.received ++ events }

/-- Those who are still listening receive the event last. -/
theorem filter_filterMap_send? (e : Event) (subscribers : List Subscriber) :
    (subscribers.filterMap (Subscriber.send? e)).filter Subscriber.listening =
      (subscribers.filter Subscriber.listening).map fun s =>
        { s with received := s.received ++ [e] } := by
  induction subscribers with
  | nil => rfl
  | cons s rest ih =>
    cases hs : s.listening <;> simp [Subscriber.send?, hs, ih]

/-- Published events are handed over in their order. -/
theorem delivers_publish (o : Observed) (events : List Event) :
    o.Delivers (o.publish events) events := by
  induction events generalizing o with
  | nil => simp [Delivers, publish]
  | cons e rest ih =>
    have hrest := ih (o.publish [e])
    rw [Delivers, listeners, listeners] at hrest ⊢
    refine hrest.trans ?_
    rw [publish, List.foldl_cons, List.foldl_nil, filter_filterMap_send?, List.map_map]
    simp [Function.comp_def]

/-- What a scan tells, and what its totals are. -/
structure Scanned (o scanned : Observed) (t : Tree) (totals : Summary) : Prop where
  /-- The subscribers are told of the files that were found, by kind and in the order of their paths,
  and of the totals. The problems of a platform are those of its document in the catalog. -/
  delivers : ∃ files, Discovery.run t o.workspace.options o.workspace.root = .ok files ∧
    Path.Ordered files.declarations ∧ Path.Ordered files.platforms ∧
    o.Delivers scanned (o.workspace.foundEvents t files ++ [.scanCompleted totals]) ∧
    ∀ file ∈ files.platforms, scanned.workspace.catalog.platforms.get? file =
      some (.ofFile (o.workspace.setting t) file)
  modules : totals.modules = scanned.workspace.catalog.modules.records.size
  packages : totals.packages = scanned.workspace.catalog.packages.all.length
  platforms : totals.platforms = scanned.workspace.catalog.platforms.documents.size
  libraryClasses : totals.libraryClasses = scanned.workspace.catalog.libraries.grouped.size

/-- What the subscribers are told when the tree is scanned or a file of it has changed. -/
structure Announces (o : Observed) (t : Tree) : Prop where
  scan : ∀ scanned totals, o.scan t = (scanned, .ok totals) → o.Scanned scanned t totals
  /-- A scan that is refused leaves everything as it is. -/
  scan_refused : ∀ scanned refusal, o.scan t = (scanned, .error refusal) → scanned = o
  /-- A rescan that changes anything tells of the files that it reads. -/
  rescan : ∀ path rescanned, o.rescan t path = (rescanned, .ok true) →
    o.Delivers rescanned (o.workspace.rescanEvents t path)
  /-- Any other rescan leaves everything as it is. -/
  rescan_unchanged : ∀ path rescanned result, o.rescan t path = (rescanned, result) →
    result ≠ .ok true → rescanned = o
  /-- No rescan tells of the end of a scan. -/
  not_completed : ∀ path totals, .scanCompleted totals ∉ o.workspace.rescanEvents t path

/-- A scan tells what it has found, with the totals that it answers. -/
theorem scanned_of_scan {scanned : Observed} {totals : Summary}
    (h : o.scan t = (scanned, .ok totals)) : o.Scanned scanned t totals := by
  cases hrun : Discovery.run t o.workspace.options o.workspace.root with
  | error refusal =>
    rw [Observed.scan, Workspace.scan, hrun] at h
    cases h
  | ok files =>
    generalize hindex : o.workspace.index t files = indexed at *
    have hscan : o.scan t =
        ({ o with workspace := indexed.1 }.publish indexed.2, .ok indexed.1.summary) := by
      rw [Observed.scan, Workspace.scan, hrun, ← hindex]
      rfl
    obtain ⟨rfl, htotals⟩ := Prod.mk.inj (hscan.symm.trans h)
    obtain rfl := Except.ok.inj htotals
    obtain ⟨_, hd, hp⟩ := Discovery.ordered_of_run_eq_ok hrun
    have hevents := Workspace.events_index hrun
    have hdocument := fun file (hfile : file ∈ files.platforms) => Workspace.get?_index hrun hfile
    rw [hindex] at hevents hdocument
    refine ⟨⟨files, hrun, hd, hp, ?_, hdocument⟩, rfl, rfl, rfl, rfl⟩
    rw [← hevents]
    exact delivers_publish { o with workspace := indexed.1 } _

/-- Scans and rescans tell what they do. -/
theorem announces (h : ∀ (d : Document) (key : List Component),
    o.workspace.catalog.platforms.documents[key]? = some d → d.file.components = key) (t : Tree) :
    o.Announces t where
  scan _ _ := scanned_of_scan
  scan_refused scanned refusal hscan := by
    unfold Observed.scan at hscan
    split at hscan
    · exact (congrArg Prod.fst hscan).symm
    · cases hscan
  rescan path rescanned hrescan := by
    unfold Observed.rescan at hrescan
    split at hrescan
    · cases hrescan
    · rename_i next changed events hnext
      obtain ⟨rfl, hchanged⟩ := Prod.mk.inj hrescan
      rcases Workspace.rescan_eq_ok h hnext with ⟨hsame, _⟩ | ⟨_, rfl⟩
      · rw [hsame] at hchanged
        cases hchanged
      · exact delivers_publish { o with workspace := next } _
  rescan_unchanged path rescanned result hrescan hresult := by
    unfold Observed.rescan at hrescan
    split at hrescan
    · exact (congrArg Prod.fst hrescan).symm
    · rename_i next changed events hnext
      obtain ⟨rfl, rfl⟩ := Prod.mk.inj hrescan
      rcases Workspace.rescan_eq_ok h hnext with ⟨_, rfl, rfl⟩ | ⟨hchanged, _⟩
      · rfl
      · exact absurd (congrArg Except.ok hchanged) hresult
  not_completed path totals hmem := by
    obtain ⟨target, _, htarget⟩ := List.mem_filterMap.1 hmem
    exact Event.ofFile?_ne_scanCompleted _ _ _ _ htarget

/-- What can be done to a workspace and with its subscribers. -/
inductive Action where
  | scan (t : Tree)
  | rescan (t : Tree) (path : Path)
  | loadUnder (t : Tree) (root : Path)
  | subscribe
  | leave (place : Nat)
  | look (place : Nat)

/-- The workspace with its subscribers after an action. -/
def perform (o : Observed) : Action → Observed
  | .scan t => (o.scan t).1
  | .rescan t path => (o.rescan t path).1
  | .loadUnder t root => o.loadUnder t root
  | .subscribe => o.subscribe
  | .leave place => o.leave place
  | .look place => o.look place

/-- The workspace with its subscribers after some actions. -/
def run (o : Observed) (actions : List Action) : Observed :=
  actions.foldl perform o

/-- The workspace does not depend on who is told about it. -/
theorem exists_operations (o : Observed) (action : Action) :
    ∃ operations, (o.perform action).workspace = o.workspace.run operations := by
  cases action with
  | scan t =>
    refine ⟨[.scan t], ?_⟩
    simp only [perform, Observed.scan, Workspace.run, List.foldl_cons, List.foldl_nil,
      Workspace.perform]
    cases o.workspace.scan t <;> rfl
  | rescan t path =>
    refine ⟨[.rescan t path], ?_⟩
    simp only [perform, Observed.rescan, Workspace.run, List.foldl_cons, List.foldl_nil,
      Workspace.perform]
    cases o.workspace.rescan t path <;> rfl
  | loadUnder t root => exact ⟨[.loadUnder t root], rfl⟩
  | subscribe | leave place | look place => exact ⟨[], rfl⟩

/-- Whatever is done with subscribers, the workspace is one after some operations. -/
theorem exists_operations_run (root : Path) (options : Options) (actions : List Action) :
    ∃ operations, ((start root options).run actions).workspace =
      (Workspace.start root options).run operations := by
  refine List.foldlRecOn actions perform (motive := fun o : Observed => ∃ operations,
    o.workspace = (Workspace.start root options).run operations) ⟨[], rfl⟩ ?_
  rintro o ⟨operations, ho⟩ action _
  obtain ⟨others, haction⟩ := o.exists_operations action
  refine ⟨operations ++ others, ?_⟩
  rw [haction, ho, Workspace.run, Workspace.run, Workspace.run, List.foldl_append]

/-- Whatever has been done to a workspace, and whoever has subscribed to it, the subscribers are told
of what a scan finds and of what a rescan reads. -/
theorem announces_run (root : Path) (options : Options) (actions : List Action) (t : Tree) :
    ((start root options).run actions).Announces t := by
  obtain ⟨operations, hoperations⟩ := exists_operations_run root options actions
  have honly : ((Workspace.start root options).run operations).catalog.Only fun _ _ => True :=
    Workspace.only_run fun operation _ => by cases operation <;> simp [Workspace.Operation.Admits]
  refine announces ?_ t
  rw [hoperations]
  exact honly.platforms

end Observed

end FirmwareIndex
