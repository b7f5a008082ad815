import FirmwareIndex.Proofs.Catalog.Mentions
import FirmwareIndex.Proofs.Workspace.Linked

/-!
# Files that a workspace mentions

Whatever is done to a workspace, its catalog mentions only files that a scan has found or that were
named in a rescan (`Workspace.only_run`), each under the kind of its name (`Workspace.named_run`).
The platforms that are read again because a file that they include has changed were mentioned
before, and so were the modules that are read when they are asked for.
-/

set_option autoImplicit false

namespace FirmwareIndex

/-- A path is below another one if it has further components at most. -/
theorem Path.isUnder_iff {p base : Path} :
    p.isUnder base ↔ ∃ rest, p.components = base.components ++ rest := by
  rw [isUnder, List.isPrefixOf_iff_prefix]
  exact exists_congr fun rest => eq_comm

/-- The file at a place is of a kind by its name. -/
def FileKind.At (k : FileKind) (key : List Component) : Prop :=
  (key.getLast?.bind Component.name?).bind ofName? = some k

/-- Files at one place are of one kind. -/
theorem FileKind.At.eq {p path : Path} {k j : FileKind} (hj : j.At path.components)
    (hk : ofFileName? p = some k) (hsame : path.Same p) : j = k := by
  have hpath : ofFileName? path = some j := hj
  rw [ofFileName?_congr hsame, hk] at hpath
  exact (Option.some.inj hpath).symm

namespace Workspace

/-- The files that an operation takes in, on a workspace with this root and these options, are at
places for which `P` holds. -/
def Operation.Admits (root : Path) (options : Options) (P : FileKind → List Component → Prop) :
    Operation → Prop
  | scan t => ∀ files, Discovery.run t options root = .ok files →
      ∀ k, ∀ file ∈ files.ofKind k, P k file.components
  | rescan _ path => ∀ k, path.isUnder root → FileKind.ofPath? path = some k → P k path.components
  | loadUnder _ _ => True

variable {w : Workspace} {P : FileKind → List Component → Prop} {path : Path}

/-- No operation changes the root or the options. -/
theorem root_options_perform (w : Workspace) (operation : Operation) :
    (w.perform operation).root = w.root ∧ (w.perform operation).options = w.options := by
  cases operation with
  | scan t =>
    rw [perform, scan]
    cases Discovery.run t w.options w.root <;> exact ⟨rfl, rfl⟩
  | rescan t path =>
    rcases w.perform_rescan t path with hsame | hnext
    · rw [hsame]
      exact ⟨rfl, rfl⟩
    · rw [hnext]
      exact ⟨rfl, rfl⟩
  | loadUnder t top =>
    rw [perform, loadUnder]
    split <;> exact ⟨rfl, rfl⟩

/-- No operation changes the root or the options of a workspace. -/
theorem root_options_run (root : Path) (options : Options) (operations : List Operation) :
    ((start root options).run operations).root = root ∧
      ((start root options).run operations).options = options := by
  refine List.foldlRecOn operations perform
    (motive := fun w : Workspace => w.root = root ∧ w.options = options) ⟨rfl, rfl⟩ ?_
  rintro w ⟨rfl, rfl⟩ operation _
  exact w.root_options_perform operation

/-- The components below the root are those behind the components of the root. -/
theorem relative?_eq_some_iff {rest : List Component} :
    w.relative? path = some rest ↔ path.components = w.root.components ++ rest := by
  rw [relative?, List.isPrefixOf?_eq_some_iff_append_eq, eq_comm]

/-- A rescan is refused if the components of the path do not start with those of the root, and only
then. -/
theorem rescan_eq_error_iff {t : Tree} {refusal : Refusal} :
    w.rescan t path = .error refusal ↔
      refusal = .outsideWorkspace path ∧ ¬ path.isUnder w.root := by
  have hunder : path.isUnder w.root ↔ ∃ rest, w.relative? path = some rest :=
    Path.isUnder_iff.trans (exists_congr fun _ => relative?_eq_some_iff.symm)
  rw [hunder]
  unfold rescan
  cases hrelative : w.relative? path with
  | none => simp [eq_comm]
  | some rest =>
    dsimp only
    split
    · simp
    · split <;> simp

/-- A rescan that is refused leaves the workspace as it is. -/
theorem perform_rescan_eq_self (t : Tree) (h : ¬ path.isUnder w.root) :
    w.perform (.rescan t path) = w := by
  rw [perform, rescan_eq_error_iff.2 ⟨rfl, h⟩]

/-- The files that are read for a changed path are at places for which `P` holds. -/
theorem of_mem_targets (h : w.catalog.Only P)
    (hpath : ∀ k, FileKind.ofPath? path = some k → P k path.components) :
    ∀ target ∈ w.targets path, P target.2 target.1.components := by
  intro target htarget
  unfold targets at htarget
  split at htarget
  · rename_i k hk
    obtain rfl := List.mem_singleton.1 htarget
    exact hpath k hk
  · obtain ⟨d, hd, rfl⟩ := List.mem_map.1 htarget
    obtain ⟨key, hkey⟩ := mem_values_iff.1 (List.mem_filter.1 hd).1
    refine h.names d.file .platform ?_
    rw [Catalog.Names, Platforms.get?, h.platforms d key hkey, hkey]
    rfl

/-- An operation mentions only files for which the condition holds, if it takes in only such files.
-/
theorem only_perform (h : w.catalog.Only P) {operation : Operation}
    (hadmits : operation.Admits w.root w.options P) : (w.perform operation).catalog.Only P := by
  cases operation with
  | scan t =>
    rw [perform, scan]
    cases hrun : Discovery.run t w.options w.root with
    | error refusal => exact h
    | ok files =>
      have hlisted := Catalog.only_setFiles (hadmits files hrun .module)
      refine Catalog.Only.rebuild (foldl_take_induction (motive := fun c => c.Only P) hlisted
        fun c hc k file hfile => ?_) _ _
      exact hc.take _ (hadmits files hrun k file hfile)
  | rescan t path =>
    by_cases hunder : path.isUnder w.root
    · have htargets := of_mem_targets h fun k hk => hadmits k hunder hk
      rcases w.perform_rescan t path with hsame | hnext
      · exact hsame.symm ▸ h
      · rw [hnext]
        refine Catalog.Only.rebuild (Rescan.foldl_read_induction (motive := fun c => c.Only P) _ h
          (fun c hc target htarget _ => ?_) fun c hc target htarget => ?_) _ _
        · exact hc.take _ (htargets target htarget)
        · exact hc.forget _ _
    · rw [perform_rescan_eq_self t hunder]
      exact h
  | loadUnder t top =>
    rw [perform, loadUnder]
    split
    · exact h
    · exact (h.loadModules t.sources top).rebuild _ _

/-- Whatever has been done to a workspace, the files that it mentions are those that the operations
have taken in. -/
theorem only_run {root : Path} {options : Options} {operations : List Operation}
    (h : ∀ operation ∈ operations, operation.Admits root options P) :
    ((start root options).run operations).catalog.Only P := by
  have hrun : ((start root options).run operations).root = root ∧
      ((start root options).run operations).options = options ∧
      ((start root options).run operations).catalog.Only P := by
    refine List.foldlRecOn operations perform
      (motive := fun w : Workspace => w.root = root ∧ w.options = options ∧ w.catalog.Only P)
      ⟨rfl, rfl, Catalog.only_setFiles (List.forall_mem_nil _)⟩ ?_
    rintro w ⟨rfl, rfl, hw⟩ operation hoperation
    obtain ⟨hroot, hoptions⟩ := w.root_options_perform operation
    exact ⟨hroot, hoptions, only_perform hw (h operation hoperation)⟩
  exact hrun.2.2

/-- Whatever is done to a workspace, files are taken in under the kinds of their names. -/
theorem Operation.admits_at (root : Path) (options : Options) (operation : Operation) :
    operation.Admits root options FileKind.At := by
  cases operation with
  | scan t => exact fun files hrun k file hfile => Discovery.ofFileName?_of_mem_ofKind hrun hfile
  | rescan t path => exact fun k _ hk => FileKind.ofFileName?_of_ofPath? hk
  | loadUnder t top => trivial

/-- So every file is known under the kind of its name. -/
theorem named_run (root : Path) (options : Options) (operations : List Operation) :
    ((start root options).run operations).catalog.Only FileKind.At :=
  only_run fun operation _ => operation.admits_at root options

end Workspace

end FirmwareIndex
