import FirmwareIndex.Proofs.Workspace.Mentions
import FirmwareIndex.Proofs.Workspace.Rescan

/-!
# Files that are gone

A rescan of a file that is gone forgets it, so no store mentions it any more and nothing that is
asked later brings it back. There is one exception (`Workspace.mentions_rescan_iff`): a module that
is listed but has not been read, which happens only if scans leave the modules unread. Nothing is
known of such a module, so the rescan takes the catalog for unchanged and the module stays listed;
it is read when the modules above it are asked for (`Workspace.mentions_unreadModule`).
-/

set_option autoImplicit false

namespace FirmwareIndex

namespace Modules

variable {m : Modules} {r : ModuleRecord}

/-- All modules that are listed have been read. -/
def Read (m : Modules) : Prop :=
  ∀ file ∈ m.files, (m.get? file).isSome

/-- A module that is put in has been read. -/
theorem Read.insert (h : m.Read) (r : ModuleRecord) : (m.insert r).Read := by
  intro file hfile
  rw [files_insert] at hfile
  rw [get?_insert]
  split
  · rfl
  · rename_i hother
    rcases Path.mem_addNew hfile with hfile | rfl
    · exact h file hfile
    · exact absurd rfl hother

/-- A module that is forgotten need not be read. -/
theorem Read.forget (h : m.Read) (path : Path) : (m.forget path).Read := by
  intro file hfile
  rw [Modules.forget, files_remove] at hfile
  obtain ⟨hfile, hother⟩ := List.mem_filter.1 hfile
  have hsame : ¬ path.Same file := fun hsame => of_decide_eq_true hother hsame.symm
  rw [Modules.forget, get?_remove, if_neg hsame]
  exact h file hfile

/-- Reading all modules of a list leaves none unread. -/
theorem read_load (s : Sources) (files : List Path) : ((empty.setFiles files).load s files).Read := by
  intro file hfile
  have hkept : ((empty.setFiles files).load s files).files = files := files_load fun _ h => h
  have hlisted : file ∈ files := hkept ▸ hfile
  exact (isSome_get?_load _ s files file).2 (.inl ⟨file, hlisted, rfl⟩)

/-- Asking for modules leaves none unread that was read. -/
theorem Read.loadUnder (h : m.Read) (s : Sources) (root : Path) : (m.loadUnder s root).Read :=
  List.foldlRecOn (m.pending root) _ (motive := fun m : Modules => m.Read) h
    fun _ hm file _ => hm.insert (.ofFile s file)

end Modules

namespace Catalog

variable {c : Catalog} {s : Setting} {path : Path} {k : FileKind}

/-- Taking in a file leaves no module unread. -/
theorem read_take (h : c.modules.Read) : (c.take (.ofFile s k path)).modules.Read := by
  cases k with
  | module => exact h.insert (.ofFile s.sources path)
  | declaration => exact h
  | platform =>
    have hkept : (c.take (.ofFile s .platform path)).modules = c.modules :=
      modules_refreshSibling _ _
    exact hkept ▸ h

/-- Forgetting a file leaves no module unread. -/
theorem read_forget (h : c.modules.Read) : (c.forget path k).modules.Read := by
  cases k with
  | module => exact h.forget path
  | declaration => exact h
  | platform =>
    have hkept : (c.forget path .platform).modules = c.modules := modules_refreshSibling _ _
    exact hkept ▸ h

/-- A file of which something is known does not pass for unknown. -/
theorem knows_of_holds (h : c.Holds path k) : c.knows path k = true := by
  cases k with
  | module | platform => exact h
  | declaration =>
    rw [Holds, Packages.described, Option.isSome_map] at h
    exact Bool.or_eq_true_iff.2 (.inl h)

end Catalog

namespace Workspace

variable {w : Workspace} {root : Path} {options : Options} {operations : List Operation}

/-- If scans read the modules, no operation leaves a listed module unread. -/
theorem read_perform (heager : w.options.eager = true) (h : w.catalog.modules.Read)
    (operation : Operation) : (w.perform operation).catalog.modules.Read := by
  cases operation with
  | scan t =>
    rw [perform, scan]
    cases hrun : Discovery.run t w.options w.root with
    | error refusal => exact h
    | ok files =>
      have hreading : w.reading true = w := by
        unfold reading
        rw [← heager]
      have hcatalog := w.catalog_index true hrun
      rw [hreading] at hcatalog
      have hmodules : (w.index t files).1.catalog.modules =
          (Modules.empty.setFiles files.modules).load t.sources files.modules :=
        congrArg Catalog.modules hcatalog
      exact hmodules ▸ Modules.read_load t.sources files.modules
  | rescan t path =>
    rcases w.perform_rescan t path with hsame | hnext
    · exact hsame.symm ▸ h
    · rw [hnext]
      exact Rescan.foldl_read_induction (motive := fun c => c.modules.Read) ⟨w.catalog, [], false⟩ h
        (fun c hc target _ _ => Catalog.read_take hc) fun c hc target _ => Catalog.read_forget hc
  | loadUnder t top =>
    rw [perform, loadUnder]
    split
    · exact h
    · exact h.loadUnder t.sources top

/-- Where scans read the modules, all that are listed have been read at any time. -/
theorem read_run (heager : options.eager = true) (operations : List Operation) :
    ((start root options).run operations).catalog.modules.Read := by
  have hrun : ((start root options).run operations).options.eager = true ∧
      ((start root options).run operations).catalog.modules.Read := by
    refine List.foldlRecOn operations perform
      (motive := fun w : Workspace => w.options.eager = true ∧ w.catalog.modules.Read)
      ⟨heager, fun file hfile => nomatch hfile⟩ fun w hw operation _ => ?_
    exact ⟨(w.root_options_perform operation).2 ▸ hw.1, read_perform hw.1 hw.2 operation⟩
  exact hrun.2

/-- Asking for modules changes nothing about what is mentioned. -/
theorem mentions_loadUnder (h : w.catalog.Sound root) (t : Tree) (top p : Path) :
    (w.loadUnder t top).catalog.Mentions p ↔ w.catalog.Mentions p := by
  unfold loadUnder
  split
  · rfl
  · exact ((h.loadModules t.sources top).mentions_rebuild _ _).trans
      (h.mentions_loadModules t.sources top)

/-- Asking for modules mentions no other files. -/
theorem mentions_foldl_loadUnder (h : w.Steady root) (asked : List (Tree × Path)) (p : Path) :
    (asked.foldl (fun w ask => w.loadUnder ask.1 ask.2) w).catalog.Mentions p ↔
      w.catalog.Mentions p := by
  induction asked generalizing w with
  | nil => rfl
  | cons ask rest ih =>
    have hnext : (w.loadUnder ask.1 ask.2).Steady root := h.loadUnder ask.1 ask.2
    rw [List.foldl_cons, ih hnext, mentions_loadUnder h.sound]

/-- A rescan of a build file that is gone leaves a mention of it just if it is a module that is
listed and has not been read. -/
theorem exists_rescan_mentions (h : w.Steady root) {names : List Text}
    (hnames : ∀ name ∈ names, Path.IsName name) {k : FileKind}
    (hkind : FileKind.ofPath? (root.descend names) = some k)
    (hnamed : ∀ j, w.catalog.Names (root.descend names) j → j = k)
    (hopen : w.options.excludesSteps (names.map .name) = false) {t : Tree}
    (hgone : t.isFile (root.descend names) = false) :
    ∃ next changed events, w.rescan t (root.descend names) = .ok (next, changed, events) ∧
      next.Steady root ∧
      (next.catalog.Mentions (root.descend names) ↔
        k = .module ∧ w.catalog.modules.get? (root.descend names) = none ∧
          ∃ file ∈ w.catalog.modules.files, file.Same (root.descend names)) := by
  obtain rfl := h.root_eq
  have hspelled : (w.root.descend names).SpelledBelow w.root := ⟨names, hnames, rfl⟩
  obtain ⟨next, changed, events, hrescan, _, _, hcases⟩ :=
    rescan_cases t (w.relative?_descend hnames) hkind
  have hnext : next.Steady w.root := by
    have hperform := h.rescan t hspelled
    rwa [perform, hrescan] at hperform
  refine ⟨next, changed, events, hrescan, hnext, ?_⟩
  generalize w.root.descend names = p at *
  rcases hcases with ⟨hout, _⟩ | ⟨_, hfile, _⟩ | ⟨_, hfile, _⟩ | ⟨_, _, hcatalog⟩
  · rw [hopen] at hout
    cases hout
  · rw [hgone] at hfile
    cases hfile
  · rw [hgone] at hfile
    cases hfile
  · cases hknows : w.catalog.knows p k with
    | true =>
      -- what is known is forgotten
      rw [hcatalog, if_pos hknows, (h.sound.forget k hspelled).mentions_rebuild]
      refine iff_of_false (h.sound.not_mentions_forget hspelled hnamed) ?_
      rintro ⟨rfl, hunread, _⟩
      rw [Catalog.knows, hunread] at hknows
      cases hknows
    | false =>
      -- nothing is known, so the catalog stays as it is
      have hunknown : ∀ j, ¬ w.catalog.Holds p j := by
        intro j hj
        rw [hnamed j hj.names] at hj
        rw [Catalog.knows_of_holds hj] at hknows
        cases hknows
      rw [hcatalog, hknows, if_neg Bool.false_ne_true, h.sound.mentions_iff]
      constructor
      · rintro (hlisted | ⟨j, hj⟩)
        · have hk := hnamed .module (.inl hlisted)
          have hunread := hunknown .module
          exact ⟨hk.symm, Option.not_isSome_iff_eq_none.1 hunread, hlisted⟩
        · exact absurd hj (hunknown j)
      · exact fun hlisted => .inl hlisted.2.2

/-- A build file that is gone is mentioned after a rescan of it, and however often modules are asked
for since, just if it is a module that scans leave unread and that was listed without having been
read. -/
theorem mentions_rescan_iff (h : ∀ operation ∈ operations, operation.Proper root)
    {names : List Text} (hnames : ∀ name ∈ names, Path.IsName name) {k : FileKind}
    (hkind : FileKind.ofPath? (root.descend names) = some k)
    (hopen : options.excludesSteps (names.map .name) = false) {t : Tree}
    (hgone : t.isFile (root.descend names) = false) :
    ∃ next changed events,
      ((start root options).run operations).rescan t (root.descend names) =
        .ok (next, changed, events) ∧
      ∀ asked : List (Tree × Path),
        (asked.foldl (fun w ask => w.loadUnder ask.1 ask.2) next).catalog.Mentions
            (root.descend names) ↔
          k = .module ∧ options.eager = false ∧
            ((start root options).run operations).catalog.modules.get? (root.descend names) = none ∧
            ∃ file ∈ ((start root options).run operations).catalog.modules.files,
              file.Same (root.descend names) := by
  have hnamed : ∀ j, ((start root options).run operations).catalog.Names (root.descend names) j →
      j = k := by
    intro j hj
    exact ((named_run root options operations).names _ j hj).eq
      (FileKind.ofFileName?_of_ofPath? hkind) rfl
  have hoptions := (root_options_run root options operations).2
  obtain ⟨next, changed, events, hrescan, hnext, hmentions⟩ :=
    exists_rescan_mentions (steady_run root options operations h) hnames hkind hnamed
      (by rwa [hoptions]) hgone
  refine ⟨next, changed, events, hrescan, fun asked => ?_⟩
  rw [mentions_foldl_loadUnder hnext, hmentions]
  refine and_congr_right fun _ => ⟨fun ⟨hunread, hlisted⟩ => ?_, fun hlisted => hlisted.2⟩
  refine ⟨Bool.eq_false_iff.2 fun heager => ?_, hunread, hlisted⟩
  obtain ⟨file, hfile, hsame⟩ := hlisted
  have hall : ((start root options).run operations).catalog.modules.Read :=
    read_run heager operations
  have hread := hall file hfile
  rw [Modules.get?_congr _ hsame, hunread] at hread
  cases hread

/-- The options with which scans leave the modules unread. -/
def lazily : Options :=
  { Options.default with eager := false }

/-- A module that has been read is not mentioned once it is gone. -/
theorem not_mentions_readModule :
    (∀ operation ∈ [Operation.scan mixedTree], operation.Proper ⟨"/ws"⟩) ∧
      (mixedTree.erase ⟨"/ws/A.inf"⟩).isFile ⟨"/ws/A.inf"⟩ = false ∧
      ∃ next changed events, ((start ⟨"/ws"⟩ .default).run [.scan mixedTree]).rescan
          (mixedTree.erase ⟨"/ws/A.inf"⟩) ⟨"/ws/A.inf"⟩ = .ok (next, changed, events) ∧
        ¬ (next.loadUnder mixedTree ⟨"/ws"⟩).catalog.Mentions ⟨"/ws/A.inf"⟩ := by
  have hnamed : mixedTree.Named :=
    (((Tree.wellFormed_empty.writeFile _ _).writeFile _ _).writeFile _ _).named
  have hproper : ∀ operation ∈ [Operation.scan mixedTree], operation.Proper ⟨"/ws"⟩ :=
    List.forall_mem_singleton.2 hnamed
  have hnames : ∀ name ∈ ["A.inf".toList], Path.IsName name := by decide
  have hopen : Options.default.excludesSteps (["A.inf".toList].map .name) = false := by decide
  have hgone : (mixedTree.erase ⟨"/ws/A.inf"⟩).isFile (Path.descend ⟨"/ws"⟩ ["A.inf".toList]) =
      false := by cbv
  obtain ⟨next, changed, events, hrescan, hmentions⟩ :=
    mentions_rescan_iff hproper hnames (k := .module) (by decide) hopen hgone
  refine ⟨hproper, hgone, next, changed, events, hrescan, fun h => ?_⟩
  exact Bool.noConfusion ((hmentions [(mixedTree, ⟨"/ws"⟩)]).1 h).2.1

/-- A module that has not been read stays listed when it is gone, and comes back as an empty record
when the modules above it are asked for. -/
theorem mentions_unreadModule :
    (∀ operation ∈ [Operation.scan mixedTree], operation.Proper ⟨"/ws"⟩) ∧
      (mixedTree.erase ⟨"/ws/A.inf"⟩).isFile ⟨"/ws/A.inf"⟩ = false ∧
      ∃ next events, ((start ⟨"/ws"⟩ lazily).run [.scan mixedTree]).rescan
          (mixedTree.erase ⟨"/ws/A.inf"⟩) ⟨"/ws/A.inf"⟩ = .ok (next, false, events) ∧
        next.catalog.Mentions ⟨"/ws/A.inf"⟩ ∧
        ((next.loadUnder (mixedTree.erase ⟨"/ws/A.inf"⟩) ⟨"/ws"⟩).modulesUnder ⟨"/ws"⟩).map
          ModuleRecord.path = [⟨"/ws/A.inf"⟩] := by
  have hnamed : mixedTree.Named :=
    (((Tree.wellFormed_empty.writeFile _ _).writeFile _ _).writeFile _ _).named
  have hrescan : (((start ⟨"/ws"⟩ lazily).run [.scan mixedTree]).rescan
      (mixedTree.erase ⟨"/ws/A.inf"⟩) ⟨"/ws/A.inf"⟩).toOption.map (fun answer => (answer.2.1,
        answer.1.catalog.modules.files,
        ((answer.1.loadUnder (mixedTree.erase ⟨"/ws/A.inf"⟩) ⟨"/ws"⟩).modulesUnder ⟨"/ws"⟩).map
          ModuleRecord.path)) = some (false, [⟨"/ws/A.inf"⟩], [⟨"/ws/A.inf"⟩]) := by
    decide +kernel
  obtain ⟨⟨next, changed, events⟩, hanswer, heq⟩ := Option.map_eq_some_iff.1 hrescan
  obtain ⟨rfl, hlisted, hmodules⟩ : changed = false ∧ next.catalog.modules.files = [⟨"/ws/A.inf"⟩] ∧
      ((next.loadUnder (mixedTree.erase ⟨"/ws/A.inf"⟩) ⟨"/ws"⟩).modulesUnder ⟨"/ws"⟩).map
        ModuleRecord.path = [⟨"/ws/A.inf"⟩] := by
    simpa using heq
  have hok : ((start ⟨"/ws"⟩ lazily).run [.scan mixedTree]).rescan
      (mixedTree.erase ⟨"/ws/A.inf"⟩) ⟨"/ws/A.inf"⟩ = .ok (next, false, events) := by
    cases hresult : ((start ⟨"/ws"⟩ lazily).run [.scan mixedTree]).rescan
        (mixedTree.erase ⟨"/ws/A.inf"⟩) ⟨"/ws/A.inf"⟩ with
    | error refusal => rw [hresult] at hanswer; cases hanswer
    | ok answer => rw [hresult] at hanswer; exact congrArg Except.ok (Option.some.inj hanswer)
  refine ⟨List.forall_mem_singleton.2 hnamed, by cbv, next, events, hok, ?_, hmodules⟩
  exact .inl ⟨.module, .inl ⟨⟨"/ws/A.inf"⟩, by simp [hlisted], rfl⟩⟩

end Workspace

end FirmwareIndex
