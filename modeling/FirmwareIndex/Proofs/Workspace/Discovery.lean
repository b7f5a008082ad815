import FirmwareIndex.Proofs.Path.Kind
import FirmwareIndex.Proofs.Path.Ordered
import FirmwareIndex.Proofs.Tree.Walk
import FirmwareIndex.Workspace.Discovery
import Mathlib.Data.List.Perm.Subperm

/-!
# What is found in a workspace

In a well-formed tree the files that are found below a root are those whose directories are all
looked through (`Discovery.mem_ofKind_iff`), each under its path from the root. The bound on the
depth of the search is never reached, since every level of a way has an entry of its own in the
tree.
-/

set_option autoImplicit false

namespace FirmwareIndex

/-- The files of a kind. -/
def Files.ofKind (files : Files) : FileKind → List Path
  | .module => files.modules
  | .declaration => files.declarations
  | .platform => files.platforms

namespace Discovery

/-- The path of what is found. -/
def Finding.path : Finding → Path
  | .file p | .deadEnd p => p

/-- Whether the directories on the way to a file below a path are looked through, given the names of
the way. -/
def Open (o : Options) : Path → List Text → Prop
  | _, [] => False
  | _, [_] => True
  | path, name :: next :: rest =>
    o.excludesName name = false ∧ Tree.byteLength (path.push name).text < Tree.maxPath ∧
      Open o (path.push name) (next :: rest)

variable {t : Tree} {o : Options} {root path q : Path} {names : List Text} {a : Address}

/-- The way to a file has a name at least. -/
theorem Open.ne_nil (h : Open o path names) : names ≠ [] := by
  rintro rfl
  exact h

/-- The files that are found below a directory, so many levels deep. -/
theorem mem_below_iff (h : t.WellFormed) (depth : Nat) (above : List Address) :
    Finding.file q ∈ below t t.names o depth above a path ↔
      ∃ names, names.length ≤ depth ∧ Open o path names ∧ q = path.descend names ∧
        ∃ bytes, t.node? (names.reverse ++ a) = some (.file bytes) := by
  induction depth generalizing above a path with
  | zero =>
    simp only [below, List.not_mem_nil, false_iff]
    rintro ⟨names, hlength, hopen, _⟩
    exact hopen.ne_nil (List.length_eq_zero_iff.1 (Nat.le_zero.1 hlength))
  | succ depth ih =>
    simp only [below, List.mem_flatMap]
    constructor
    · rintro ⟨name, hname, hfound⟩
      obtain ⟨n, hn⟩ := Tree.mem_names.1 hname
      cases n with
      | link target => exact absurd hn (h.link _ target)
      | file bytes =>
        have hvisit : visit t o above (name :: a) (path.push name) = .file := by
          simp only [visit, hn]
        simp only [hvisit, List.mem_singleton, Finding.file.injEq] at hfound
        exact ⟨[name], by simp, trivial, hfound, bytes, hn⟩
      | directory =>
        have hvisit : visit t o above (name :: a) (path.push name) = .enter (name :: a) := by
          simp only [visit, hn]
        simp only [hvisit] at hfound
        split at hfound
        · simp at hfound
        · rename_i hexcluded
          split at hfound
          · simp at hfound
          · rename_i hlong
            obtain ⟨names, hlength, hopen, hq, bytes, hfile⟩ := (ih _).1 hfound
            obtain ⟨next, rest, rfl⟩ := List.exists_cons_of_ne_nil hopen.ne_nil
            refine ⟨name :: next :: rest, Nat.succ_le_succ hlength,
              ⟨by simpa using hexcluded, Nat.lt_of_not_le hlong, hopen⟩, hq, bytes, ?_⟩
            rwa [List.reverse_cons, List.append_assoc, List.singleton_append]
    · rintro ⟨names, hlength, hopen, rfl, bytes, hfile⟩
      obtain ⟨name, rest, rfl⟩ := List.exists_cons_of_ne_nil hopen.ne_nil
      rw [List.reverse_cons, List.append_assoc, List.singleton_append] at hfile
      cases rest with
      | nil =>
        have hvisit : visit t o above (name :: a) (path.push name) = .file := by
          simp only [visit, List.reverse_nil, List.nil_append] at hfile ⊢
          simp only [hfile]
        exact ⟨name, Tree.mem_names.2 ⟨_, hfile⟩, by simp [hvisit, Path.descend]⟩
      | cons next rest =>
        obtain ⟨hexcluded, hshort, hopen⟩ := hopen
        have hdir := h.directory_of_append hfile (by simp)
        have hvisit : visit t o above (name :: a) (path.push name) = .enter (name :: a) := by
          simp only [visit, hdir]
        refine ⟨name, Tree.mem_names.2 ⟨_, hdir⟩, ?_⟩
        simp only [hvisit, hexcluded, Bool.false_eq_true, ↓reduceIte, Nat.not_le.2 hshort]
        exact (ih _).2 ⟨next :: rest, Nat.le_of_succ_le_succ hlength, hopen, rfl, bytes, hfile⟩

/-- Every level of a way has an entry of its own. -/
theorem length_le_size (h : t.WellFormed) {front : List Text} {n : Node}
    (hn : t.node? (front ++ a) = some n) : front.length ≤ t.nodes.size := by
  have hkeys : ∀ (front : List Text) (n : Node), t.node? (front ++ a) = some n →
      ∃ keys : List Address, keys.Nodup ∧ keys.length = front.length ∧
        ∀ key ∈ keys, key ∈ t.nodes ∧ key.length ≤ (front ++ a).length := by
    intro front
    induction front with
    | nil => exact fun _ _ => ⟨[], List.nodup_nil, rfl, fun _ hkey => (nomatch hkey)⟩
    | cons name front ih =>
      intro n hn
      obtain ⟨keys, hnodup, hlength, hmem⟩ := ih _ (h.above name (front ++ a) n hn)
      refine ⟨(name :: front ++ a) :: keys, List.nodup_cons.2 ⟨fun hkey => ?_, hnodup⟩,
        by simp [hlength], fun key hkey => ?_⟩
      · have hle := (hmem _ hkey).2
        simp only [List.cons_append, List.length_cons] at hle
        omega
      · rcases List.mem_cons.1 hkey with rfl | hkey
        · refine ⟨?_, Nat.le_refl _⟩
          rw [Std.ExtTreeMap.mem_iff_isSome_getElem?]
          simp only [Tree.node?, List.cons_append, reduceCtorEq, ↓reduceIte] at hn
          rw [List.cons_append, hn]
          rfl
        · obtain ⟨hnode, hle⟩ := hmem key hkey
          exact ⟨hnode, Nat.le_trans hle (by simp)⟩
  obtain ⟨keys, hnodup, hlength, hmem⟩ := hkeys front n hn
  have hsubset : keys ⊆ t.nodes.keys := by
    intro key hkey
    exact Std.ExtTreeMap.mem_keys.2 (hmem key hkey).1
  rw [← hlength, ← Std.ExtTreeMap.length_keys]
  exact (hnodup.subperm hsubset).length_le

/-- No way is deeper than the tree has entries. -/
theorem size_le_maxDepth (t : Tree) : t.nodes.size ≤ maxDepth t := by
  have hmul : (t.nodes.size + 2) * 1 ≤ (t.nodes.size + 2) * (t.nodes.size + 2) :=
    Nat.mul_le_mul_left _ (by omega)
  unfold maxDepth
  omega

/-- What is found, once the root is known to be a directory. -/
theorem exists_run_eq_ok (o : Options) (hroot : t.lookup root = .ok (a, .directory)) :
    ∃ files, run t o root = .ok files := by
  unfold run runWith
  rw [hroot]
  exact ⟨_, rfl⟩

/-- Something can be found only below a directory. -/
theorem lookup_of_run_eq_ok {files : Files} (h : run t o root = .ok files) :
    ∃ a, t.lookup root = .ok (a, .directory) := by
  unfold run runWith at h
  split at h
  · cases h
  · rename_i a hroot
    exact ⟨a, hroot⟩
  · cases h

/-- The files of a kind are among those that are found below the root. -/
theorem ofKind_of_run_eq_ok {files : Files} (hroot : t.lookup root = .ok (a, .directory))
    (hrun : run t o root = .ok files) (k : FileKind) :
    files.ofKind k =
      ofKind k ((below t t.names o (maxDepth t) [a] a root).filterMap Finding.file?) := by
  unfold run runWith at hrun
  rw [hroot] at hrun
  obtain rfl := Except.ok.inj hrun
  cases k <;> rfl

/-- The files of a kind that a scan finds have a name of that kind. -/
theorem ofFileName?_of_mem_ofKind {files : Files} (hrun : run t o root = .ok files) {k : FileKind}
    (hq : q ∈ files.ofKind k) : FileKind.ofFileName? q = some k := by
  obtain ⟨a, hroot⟩ := lookup_of_run_eq_ok hrun
  rw [ofKind_of_run_eq_ok hroot hrun k] at hq
  exact of_decide_eq_true (List.mem_filter.1 (Path.mem_of_mem_sorted hq)).2

/-- The path of what is found below a path is spelled by names that are pushed to it, also behind
links. -/
theorem exists_push_of_mem_below (h : t.Named) {listing : Address → List Text} (depth : Nat)
    (above : List Address) {finding : Finding}
    (hfinding : finding ∈ below t listing o depth above a path) :
    ∃ (directory : Path) (name : Text), directory.SpelledBelow path ∧ Path.IsName name ∧
      finding.path = directory.push name := by
  induction depth generalizing above a path with
  | zero => cases hfinding
  | succ depth ih =>
    obtain ⟨name, _, hfinding⟩ := List.mem_flatMap.1 hfinding
    dsimp only at hfinding
    have hname : visit t o above (name :: a) (path.push name) ≠ .skip → Path.IsName name := by
      intro hvisit
      unfold visit at hvisit
      split at hvisit
      · contradiction
      all_goals exact h name a _ ‹_›
    have hhere : finding.path = path.push name → Path.IsName name →
        ∃ (directory : Path) (name : Text), directory.SpelledBelow path ∧ Path.IsName name ∧
          finding.path = directory.push name :=
      fun hpath hname => ⟨path, name, ⟨[], by simp, rfl⟩, hname, hpath⟩
    cases hvisit : visit t o above (name :: a) (path.push name) with
    | skip => simp [hvisit] at hfinding
    | deadEnd =>
      rw [hvisit] at hfinding hname
      exact hhere (List.mem_singleton.1 hfinding ▸ rfl) (hname (by simp))
    | file =>
      rw [hvisit] at hfinding hname
      exact hhere (List.mem_singleton.1 hfinding ▸ rfl) (hname (by simp))
    | enter b =>
      rw [hvisit] at hfinding hname
      dsimp only at hfinding
      split at hfinding
      · cases hfinding
      · split at hfinding
        · exact hhere (List.mem_singleton.1 hfinding ▸ rfl) (hname (by simp))
        · obtain ⟨_, last, ⟨names, hnames, rfl⟩, hlast, hpath⟩ := ih _ hfinding
          exact ⟨_, last,
            ⟨name :: names, List.forall_mem_cons.2 ⟨hname (by simp), hnames⟩, rfl⟩, hlast, hpath⟩

/-- The files that a scan finds have a name pushed to a directory below the root. -/
theorem exists_push_of_mem_ofKind (h : t.Named) {files : Files} (hrun : run t o root = .ok files)
    {k : FileKind} (hq : q ∈ files.ofKind k) :
    ∃ (directory : Path) (name : Text), directory.SpelledBelow root ∧ Path.IsName name ∧
      q = directory.push name := by
  obtain ⟨a, hroot⟩ := lookup_of_run_eq_ok hrun
  rw [ofKind_of_run_eq_ok hroot hrun k] at hq
  obtain ⟨hfound, _⟩ := List.mem_filter.1 (Path.mem_of_mem_sorted hq)
  obtain ⟨finding, hfinding, hfile⟩ := List.mem_filterMap.1 hfound
  cases finding with
  | file p =>
    obtain rfl := Option.some.inj hfile
    exact exists_push_of_mem_below h _ _ hfinding
  | deadEnd p => cases hfile

/-- The files of a kind that a scan finds are spelled by their names, and the last name is one of
that kind. -/
theorem spelledBelow_of_mem_ofKind (h : t.Named) {files : Files} (hrun : run t o root = .ok files)
    {k : FileKind} (hq : q ∈ files.ofKind k) :
    q.SpelledBelow root ∧ FileKind.ofFileName? q = some k := by
  refine ⟨?_, ofFileName?_of_mem_ofKind hrun hq⟩
  obtain ⟨_, name, hdirectory, hname, rfl⟩ := exists_push_of_mem_ofKind h hrun hq
  exact hdirectory.push hname

/-- What is found of a kind: the files with a name of that kind whose directories are all looked
through, each under its path from the root. -/
theorem mem_ofKind_iff (h : t.WellFormed) (hroot : t.lookup root = .ok (a, .directory))
    {files : Files} (hrun : run t o root = .ok files) (k : FileKind) :
    q ∈ files.ofKind k ↔
      ∃ names, Open o root names ∧ q = root.descend names ∧
        (∃ bytes, t.node? (names.reverse ++ a) = some (.file bytes)) ∧
        names.getLast?.bind FileKind.ofName? = some k := by
  have hfound : ∀ q, q ∈ (below t t.names o (maxDepth t) [a] a root).filterMap Finding.file? ↔
      ∃ names, Open o root names ∧ q = root.descend names ∧
        ∃ bytes, t.node? (names.reverse ++ a) = some (.file bytes) := by
    intro q
    have hfile : q ∈ (below t t.names o (maxDepth t) [a] a root).filterMap Finding.file? ↔
        Finding.file q ∈ below t t.names o (maxDepth t) [a] a root := by
      rw [List.mem_filterMap]
      constructor
      · rintro ⟨finding, hfinding, hq⟩
        cases finding with
        | file p => exact Option.some.inj hq ▸ hfinding
        | deadEnd p => cases hq
      · exact fun hq => ⟨_, hq, rfl⟩
    rw [hfile, mem_below_iff h]
    constructor
    · rintro ⟨names, _, hnames⟩
      exact ⟨names, hnames⟩
    · rintro ⟨names, hopen, hq, bytes, hnode⟩
      have hlength := length_le_size h hnode
      rw [List.length_reverse] at hlength
      exact ⟨names, Nat.le_trans hlength (size_le_maxDepth t), hopen, hq, bytes, hnode⟩
  have hvalid : ∀ names : List Text, (∃ bytes, t.node? (names.reverse ++ a) = some (.file bytes)) →
      ∀ name ∈ names, Path.IsName name := by
    rintro names ⟨bytes, hnode⟩ name hname
    exact (h.validName_of_append hnode name (List.mem_reverse.2 hname)).toIsName
  rw [ofKind_of_run_eq_ok hroot hrun k, ofKind, Path.mem_sorted]
  · rw [List.mem_filter, hfound, decide_eq_true_eq]
    constructor
    · rintro ⟨⟨names, hopen, rfl, hnode⟩, hkind⟩
      rw [Path.fileName?_descend _ hopen.ne_nil (hvalid names hnode)] at hkind
      exact ⟨names, hopen, rfl, hnode, hkind⟩
    · rintro ⟨names, hopen, rfl, hnode, hkind⟩
      rw [Path.fileName?_descend _ hopen.ne_nil (hvalid names hnode)]
      exact ⟨⟨names, hopen, rfl, hnode⟩, hkind⟩
  · intro p hp q hq hsame
    obtain ⟨names, _, rfl, hnode⟩ := (hfound p).1 (List.mem_filter.1 hp).1
    obtain ⟨others, _, rfl, hnode'⟩ := (hfound q).1 (List.mem_filter.1 hq).1
    rw [Path.eq_of_descend_same (hvalid names hnode) (hvalid others hnode') hsame]

/-- A way that is short enough is looked through unless one of its directories is left out. -/
theorem open_iff (hne : names ≠ []) (hnames : ∀ name ∈ names, Path.IsName name)
    (hshort : Tree.byteLength (root.descend names).text < Tree.maxPath) :
    Open o root names ↔ o.excludesSteps (names.map .name) = false := by
  have hsteps : ∀ names : List Text, o.excludesSteps (names.map .name) =
      names.dropLast.any o.excludesName := by
    intro names
    rw [Options.excludesSteps, ← List.map_dropLast, List.filterMap_map]
    have hname : Component.name? ∘ Component.name = some := rfl
    rw [hname, List.filterMap_some]
  rw [hsteps]
  induction names generalizing root with
  | nil => contradiction
  | cons name rest ih =>
    cases rest with
    | nil => simp [Open]
    | cons next rest =>
      have hrest : Open o (root.push name) (next :: rest) ↔
          (next :: rest).dropLast.any o.excludesName = false :=
        ih (by simp) (fun n hn => hnames n (List.mem_cons_of_mem _ hn)) hshort
      have hlength : Tree.byteLength (root.push name).text < Tree.maxPath :=
        Nat.lt_of_le_of_lt (Tree.byteLength_le_descend (root.push name)
          fun n hn => hnames n (List.mem_cons_of_mem _ hn)) hshort
      rw [List.dropLast_cons_cons, List.any_cons, Bool.or_eq_false_iff]
      exact ⟨fun ⟨hname, _, hopen⟩ => ⟨hname, hrest.1 hopen⟩,
        fun ⟨hname, hopen⟩ => ⟨hname, hlength, hrest.2 hopen⟩⟩

end Discovery

end FirmwareIndex
