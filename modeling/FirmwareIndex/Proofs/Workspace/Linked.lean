import FirmwareIndex.Proofs.Catalog.Linked
import FirmwareIndex.Proofs.Tree.Change
import FirmwareIndex.Proofs.Workspace.Discovery
import FirmwareIndex.Workspace.Basic

/-!
# Workspaces after any operations

A workspace is scanned, single files of it are read again, and modules are read when they are asked
for, while its tree changes between one operation and the next in any way. Each operation keeps the
catalog sound, and finds the libraries anew if it changes anything (`Workspace.Steady`). So the
stores of the catalog agree with each other whatever has been done (`Workspace.linked_run`).
-/

set_option autoImplicit false

namespace FirmwareIndex

/-- The outcomes of a kind are among the outcomes. -/
theorem Outcome.mem_of_mem_ofKind {k : FileKind} {outcomes : List Outcome} {o : Outcome}
    (h : o ∈ ofKind k outcomes) : o ∈ outcomes := by
  obtain ⟨key, hkey⟩ := mem_values_iff.1 h
  refine List.foldlRecOn (outcomes.filter fun o => o.kind = k) _
    (motive := fun m : PathMap Outcome => m[key]? = some o → o ∈ outcomes) (by simp) ?_ hkey
  intro m hm other hother hkey
  rw [Std.ExtTreeMap.getElem?_insert] at hkey
  split at hkey
  · exact Option.some.inj hkey ▸ (List.mem_filter.1 hother).1
  · exact hm hkey

/-- Arranging outcomes brings in no others. -/
theorem Outcome.mem_of_mem_arranged {outcomes : List Outcome} {o : Outcome}
    (h : o ∈ arranged outcomes) : o ∈ outcomes := by
  obtain ⟨k, _, hk⟩ := List.mem_flatMap.1 h
  exact mem_of_mem_ofKind hk

namespace Workspace

/-- What can be done to a workspace, with the tree as it is at the time. -/
inductive Operation where
  | scan (t : Tree)
  | rescan (t : Tree) (path : Path)
  | loadUnder (t : Tree) (root : Path)

/-- The tree as it is at the time of an operation. -/
def Operation.tree : Operation → Tree
  | scan t => t
  | rescan t _ => t
  | loadUnder t _ => t

/-- The entries of a tree that is scanned have names, and a file that is read again is spelled as a
scan finds it. -/
def Operation.Proper (root : Path) : Operation → Prop
  | scan t => t.Named
  | rescan _ path => path.SpelledBelow root
  | loadUnder _ _ => True

/-- The workspace after an operation. One that is refused leaves it as it is. -/
def perform (w : Workspace) : Operation → Workspace
  | .scan t =>
    match w.scan t with
    | .ok (scanned, _) => scanned
    | .error _ => w
  | .rescan t path =>
    match w.rescan t path with
    | .ok (rescanned, _, _) => rescanned
    | .error _ => w
  | .loadUnder t root => w.loadUnder t root

/-- The workspace after some operations. -/
def run (w : Workspace) (operations : List Operation) : Workspace :=
  operations.foldl perform w

/-- What a scan takes in are the outcomes of files that it has found. -/
theorem exists_of_mem_outcomes {w : Workspace} {t : Tree} {files : Files} {o : Outcome}
    (ho : o ∈ Outcome.arranged (w.outcomes t files)) :
    ∃ kind, ∃ file ∈ files.ofKind kind, o = .ofFile (w.setting t) kind file := by
  have hread : ∀ kind, o ∈ (files.ofKind kind).map (Outcome.ofFile (w.setting t) kind) →
      ∃ kind, ∃ file ∈ files.ofKind kind, o = .ofFile (w.setting t) kind file := by
    intro kind ho
    obtain ⟨file, hfile, rfl⟩ := List.mem_map.1 ho
    exact ⟨kind, file, hfile, rfl⟩
  have ho := Outcome.mem_of_mem_arranged ho
  rw [outcomes, List.mem_append, List.mem_append] at ho
  rcases ho with (ho | ho) | ho
  · split at ho
    · exact hread .module ho
    · cases ho
  · exact hread .declaration ho
  · exact hread .platform ho

/-- What holds of a catalog in which modules are only listed, and is kept when a file that was found is
taken in, holds once a scan has taken in what it found. -/
theorem foldl_take_induction {motive : Catalog → Prop} {w : Workspace} {t : Tree} {files : Files}
    (hlisted : motive { Catalog.empty with modules := Modules.empty.setFiles files.modules })
    (htake : ∀ c, motive c → ∀ kind, ∀ file ∈ files.ofKind kind,
      motive (c.take (.ofFile (w.setting t) kind file))) :
    motive ((Outcome.arranged (w.outcomes t files)).foldl Catalog.take
      { Catalog.empty with modules := Modules.empty.setFiles files.modules }) := by
  refine List.foldlRecOn (Outcome.arranged (w.outcomes t files)) Catalog.take
    (motive := motive) hlisted fun c hc o ho => ?_
  obtain ⟨kind, file, hfile, rfl⟩ := exists_of_mem_outcomes ho
  exact htake c hc kind file hfile

/-- A rescan that is not refused leaves the workspace as it is and has no events, or it takes in what
has been read and finds the libraries anew. -/
theorem of_rescan_eq_ok {w rescanned : Workspace} {t : Tree} {path : Path} {changed : Bool}
    {events : List Event} (h : w.rescan t path = .ok (rescanned, changed, events)) :
    let r := (w.targets path).foldl (Rescan.read (w.setting t) path) ⟨w.catalog, [], false⟩
    (changed = false ∧ rescanned = w ∧ events = []) ∨
      (changed = true ∧ events = r.events ∧
        rescanned = { w with catalog := r.catalog.rebuild (w.setting t) w.root }) := by
  unfold rescan at h
  split at h
  · cases h
  · split at h
    · cases h
      exact .inl ⟨rfl, rfl, rfl⟩
    · dsimp only at h
      split at h
      · cases h
        exact .inr ⟨rfl, rfl, rfl⟩
      · cases h
        exact .inl ⟨rfl, rfl, rfl⟩

/-- Reading a file again leaves the workspace as it is, or takes in what has been read and finds the
libraries anew. -/
theorem perform_rescan (w : Workspace) (t : Tree) (path : Path) :
    w.perform (.rescan t path) = w ∨
      w.perform (.rescan t path) =
        { w with
          catalog := (((w.targets path).foldl (Rescan.read (w.setting t) path)
            ⟨w.catalog, [], false⟩).catalog).rebuild (w.setting t) w.root } := by
  rw [perform]
  cases hresult : w.rescan t path with
  | error reason => exact .inl rfl
  | ok result =>
    obtain ⟨_, hsame, _⟩ | ⟨_, _, hnext⟩ := of_rescan_eq_ok hresult
    · exact .inl hsame
    · exact .inr hnext

/-- What holds of a catalog, and is kept when a file is taken in and when one is forgotten, holds
after some files have been read again. -/
theorem Rescan.foldl_read_induction {motive : Catalog → Prop} {s : Setting} {path : Path}
    {targets : List (Path × FileKind)} (r : Rescan) (hr : motive r.catalog)
    (htake : ∀ c, motive c → ∀ target ∈ targets, s.sources.present target.1 = true →
      motive (c.take (.ofFile s target.2 target.1)))
    (hforget : ∀ c, motive c → ∀ target ∈ targets, motive (c.forget target.1 target.2)) :
    motive (targets.foldl (Rescan.read s path) r).catalog := by
  refine List.foldlRecOn targets _ (motive := fun r : Rescan => motive r.catalog) hr ?_
  intro r hr target htarget
  unfold Rescan.read
  split
  · rename_i hpresent
    dsimp only
    split
    · exact hr
    · exact htake r.catalog hr target htarget hpresent
  · exact hforget r.catalog hr target htarget

/-- The catalog is sound, and its libraries have the modules that are known. -/
structure Steady (w : Workspace) (root : Path) : Prop where
  root_eq : w.root = root
  sound : w.catalog.Sound root
  libraries : w.catalog.libraries.Matched w.catalog.modules

variable {w : Workspace} {root : Path}

/-- A workspace that has not been scanned is steady. -/
theorem steady_start (root : Path) (options : Options) : (start root options).Steady root where
  root_eq := rfl
  sound := Catalog.sound_empty root []
  libraries := Libraries.matched_empty _

namespace Steady

/-- A sound catalog makes for a steady workspace once its libraries have been found anew. -/
theorem rebuild (hroot : w.root = root) {c : Catalog} (h : c.Sound root) (s : Setting) :
    ({ w with catalog := c.rebuild s w.root } : Workspace).Steady root where
  root_eq := hroot
  sound := h.rebuild s w.root
  libraries := Catalog.matched_rebuild s w.root h.modules

/-- A scan leaves a workspace steady. -/
theorem scan (h : w.Steady root) {t : Tree} (ht : t.Named) : (w.perform (.scan t)).Steady root := by
  obtain rfl := h.root_eq
  rw [Workspace.perform, Workspace.scan]
  cases hrun : Discovery.run t w.options w.root with
  | error refusal => exact h
  | ok files =>
    refine Steady.rebuild rfl (foldl_take_induction (motive := fun c => c.Sound w.root)
      (Catalog.sound_empty w.root files.modules) fun c hc kind file hfile => ?_) _
    obtain ⟨hspelled, hkind⟩ := Discovery.spelledBelow_of_mem_ofKind ht hrun hfile
    exact hc.take _ hspelled hkind

/-- The files that are read for a changed path are spelled as a scan finds them. -/
theorem spelledBelow_of_mem_targets (h : w.Steady root) {path : Path}
    (hpath : path.SpelledBelow root) :
    ∀ target ∈ w.targets path, target.1.SpelledBelow root ∧
      FileKind.ofFileName? target.1 = some target.2 := by
  intro target htarget
  unfold targets at htarget
  split at htarget
  · rename_i kind hkind
    obtain rfl := List.mem_singleton.1 htarget
    exact ⟨hpath, FileKind.ofFileName?_of_ofPath? hkind⟩
  · obtain ⟨d, hd, rfl⟩ := List.mem_map.1 htarget
    obtain ⟨k, hk⟩ := mem_values_iff.1 (List.mem_filter.1 hd).1
    exact (h.sound.platforms d k hk).2

/-- Reading files again one after the other keeps the catalog sound. -/
theorem sound_foldl_read (s : Setting) (path : Path) {targets : List (Path × FileKind)}
    (htargets : ∀ target ∈ targets, target.1.SpelledBelow root ∧
      FileKind.ofFileName? target.1 = some target.2)
    (r : Rescan) (hr : r.catalog.Sound root) :
    (targets.foldl (Rescan.read s path) r).catalog.Sound root := by
  refine Rescan.foldl_read_induction (motive := fun c => c.Sound root) r hr
    (fun c hc target htarget _ => ?_) fun c hc target htarget => ?_
  · exact hc.take s (htargets target htarget).1 (htargets target htarget).2
  · exact hc.forget target.2 (htargets target htarget).1

/-- A rescan keeps a workspace steady, if the path is spelled as a scan spells it. -/
theorem rescan (h : w.Steady root) (t : Tree) {path : Path} (hpath : path.SpelledBelow root) :
    (w.perform (.rescan t path)).Steady root := by
  have hrescan := sound_foldl_read (w.setting t) path (h.spelledBelow_of_mem_targets hpath)
    ⟨w.catalog, [], false⟩ h.sound
  rcases w.perform_rescan t path with hsame | hnext
  · exact hsame.symm ▸ h
  · exact hnext.symm ▸ Steady.rebuild h.root_eq hrescan _

/-- Asking for modules keeps a workspace steady. -/
theorem loadUnder (h : w.Steady root) (t : Tree) (top : Path) :
    (w.perform (.loadUnder t top)).Steady root := by
  rw [Workspace.perform, Workspace.loadUnder]
  split
  · exact h
  · exact Steady.rebuild h.root_eq (h.sound.loadModules t.sources top) _

/-- Every proper operation keeps a workspace steady. -/
theorem perform (h : w.Steady root) {operation : Operation} (hproper : operation.Proper root) :
    (w.perform operation).Steady root := by
  cases operation with
  | scan t => exact h.scan hproper
  | rescan t path => exact h.rescan t hproper
  | loadUnder t top => exact h.loadUnder t top

end Steady

/-- After any proper operations a workspace is steady. -/
theorem steady_run (root : Path) (options : Options) (operations : List Operation)
    (h : ∀ operation ∈ operations, operation.Proper root) :
    ((start root options).run operations).Steady root :=
  List.foldlRecOn operations Workspace.perform (motive := fun w : Workspace => w.Steady root)
    (steady_start root options) fun _ hw operation hoperation =>
      hw.perform (h operation hoperation)

/-- Whatever has been done to a workspace, the stores of its catalog agree with each other. -/
theorem linked_run (root : Path) (options : Options) (operations : List Operation)
    (h : ∀ operation ∈ operations, operation.Proper root) :
    ((start root options).run operations).catalog.Linked := by
  have hrun := steady_run root options operations h
  exact hrun.sound.linked hrun.libraries

/-- A tree with a module, and with a package declaration and a platform beside it. -/
def mixedTree : Tree :=
  ((Tree.empty.writeFile ⟨"/ws/A.inf"⟩ []).writeFile ⟨"/ws/D.dec"⟩ []).writeFile ⟨"/ws/D.dsc"⟩ []

/-- The tree is scanned, the declaration is removed, and the modules are asked for. -/
def mixedOperations : List Operation :=
  [.scan mixedTree, .rescan (mixedTree.erase ⟨"/ws/D.dec"⟩) ⟨"/ws/D.dec"⟩,
    .loadUnder (mixedTree.erase ⟨"/ws/D.dec"⟩) ⟨"/ws"⟩]

/-- The stores agree after a scan, a rescan of a removed declaration, and a question. -/
theorem linked_mixedOperations :
    (∀ operation ∈ mixedOperations, operation.Proper ⟨"/ws"⟩) ∧
      ((start ⟨"/ws"⟩ .default).run mixedOperations).catalog.Linked := by
  have hnamed : mixedTree.Named :=
    (((Tree.wellFormed_empty.writeFile _ _).writeFile _ _).writeFile _ _).named
  have hpath : Path.SpelledBelow ⟨"/ws/D.dec"⟩ ⟨"/ws"⟩ := ⟨["D.dec"], by decide, by decide⟩
  have hproper : ∀ operation ∈ mixedOperations, operation.Proper ⟨"/ws"⟩ :=
    List.forall_mem_cons.2 ⟨hnamed, List.forall_mem_cons.2 ⟨hpath,
      List.forall_mem_singleton.2 trivial⟩⟩
  exact ⟨hproper, linked_run ⟨"/ws"⟩ .default mixedOperations hproper⟩

end Workspace

end FirmwareIndex
