import FirmwareIndex.Proofs.Catalog.Sibling
import FirmwareIndex.Proofs.Path.Ordered
import Mathlib.Data.List.Induction

/-!
# Two views of the diagnostics

A document groups its diagnostics by file, and the platforms of a workspace are asked for those of
one file. A group has the diagnostics of all problems in its file, in the order of the document, so
that each problem is in one group (`Document.grouped_diagnostics`). What the platforms report for a
file is what the groups of that file hold, over the documents in the order of their paths, and what
several of them found is reported where it comes first (`Platforms.reports_run`).
-/

set_option autoImplicit false

namespace FirmwareIndex

/-- Items that are listed by their keys are listed once each. -/
theorem perm_flatMap_filter {ι κ : Type} [DecidableEq κ] (key : ι → κ) {keys : List κ}
    (hkeys : keys.Nodup) (items : List ι) (h : ∀ i ∈ items, key i ∈ keys) :
    (keys.flatMap fun k => items.filter fun i => key i = k).Perm items := by
  induction keys generalizing items with
  | nil =>
    have hnil : items = [] := List.eq_nil_iff_forall_not_mem.2 fun i hi => nomatch h i hi
    rw [hnil]
    exact .refl _
  | cons k keys ih =>
    obtain ⟨hk, hkeys⟩ := List.nodup_cons.1 hkeys
    -- the other keys are those of the items that are left
    have hleft : (keys.flatMap fun k' => items.filter fun i => key i = k') =
        keys.flatMap fun k' => (items.filter fun i => ¬ key i = k).filter fun i => key i = k' := by
      refine List.flatMap_congr fun k' hk' => ?_
      rw [List.filter_filter]
      refine List.filter_congr fun i _ => ?_
      have hne : key i = k' → key i ≠ k := fun heq heq' => hk (heq' ▸ heq ▸ hk')
      by_cases heq : key i = k'
      · simp [heq, heq ▸ hne heq]
      · simp [heq]
    have hcovered : ∀ i ∈ items.filter fun i => ¬ key i = k, key i ∈ keys := by
      intro i hi
      obtain ⟨hmem, hdiff⟩ := List.mem_filter.1 hi
      exact (List.mem_cons.1 (h i hmem)).resolve_left (of_decide_eq_true hdiff)
    rw [List.flatMap_cons, hleft]
    refine ((ih hkeys _ hcovered).append_left _).trans ?_
    simpa using List.filter_append_perm (fun i => decide (key i = k)) items

namespace Document

variable {d : Document} {g : Path × List Diagnostic}

/-- Files that are the same place have the same problems. -/
theorem isIn_congr {file file' : Path} (h : file.Same file') :
    (fun p : Problem => decide (p.location.file.Same file)) =
      fun p => decide (p.location.file.Same file') :=
  funext fun _ => decide_eq_decide.2 ⟨fun hp => hp.trans h, fun hp => hp.trans h.symm⟩

/-- The entry for a place in the table of the groups. -/
theorem getElem?_foldl_group (problems : List Problem) (k : List Component) :
    (problems.foldl group ∅)[k]? =
      (problems.find? fun p => p.location.file.components = k).map fun p =>
        (p.location.file,
          (problems.filter fun p => p.location.file.components = k).map Problem.diagnostic) := by
  induction problems using List.reverseRecOn with
  | nil => rfl
  | append_singleton problems p ih =>
    rw [List.foldl_append, List.foldl_cons, List.foldl_nil, group, Std.ExtTreeMap.getElem?_alter,
      List.find?_append, List.filter_append]
    by_cases hk : p.location.file.components = k
    · subst hk
      rw [if_pos Std.ReflCmp.compare_self, ih]
      cases hfind : problems.find? fun q =>
          q.location.file.components = p.location.file.components with
      | none =>
        have hnone : (problems.filter fun q =>
            q.location.file.components = p.location.file.components) = [] := by
          simpa using hfind
        simp [hnone]
      | some first => simp
    · rw [if_neg fun heq => hk (Std.LawfulEqCmp.compare_eq_iff_eq.1 heq), ih]
      simp [hk]

/-- A group has the spelling of the first problem in its file, and the diagnostics of all of
them. -/
theorem mem_diagnostics_iff : g ∈ d.diagnostics ↔
    (d.problems.find? fun p => p.location.file.Same g.1).map (fun p => p.location.file) = some g.1 ∧
      g.2 = (d.problems.filter fun p => p.location.file.Same g.1).map Problem.diagnostic := by
  rw [diagnostics, mem_values_iff]
  simp only [getElem?_foldl_group, Option.map_eq_some_iff]
  constructor
  · rintro ⟨k, p, hfind, rfl⟩
    have hkey : p.location.file.components = k := by simpa using List.find?_some hfind
    subst hkey
    exact ⟨⟨p, hfind, rfl⟩, rfl⟩
  · obtain ⟨file, list⟩ := g
    rintro ⟨⟨p, hfind, rfl⟩, hlist⟩
    exact ⟨_, p, hfind, Prod.ext rfl hlist.symm⟩

/-- The diagnostics in the group of a file, if there is one. -/
def diagnosticsOf (d : Document) (file : Path) : List Diagnostic :=
  ((d.diagnostics.find? fun g => g.1.Same file).map Prod.snd).getD []

/-- The groups divide the diagnostics of a document by file. -/
structure Grouped (d : Document) : Prop where
  /-- The groups are in the order of their paths, and a file has one group. -/
  ordered : Path.Ordered (d.diagnostics.map Prod.fst)
  /-- A group has the diagnostics of all problems in its file, in the order of the document. -/
  group : ∀ g ∈ d.diagnostics,
    g.2 = (d.problems.filter fun p => p.location.file.Same g.1).map Problem.diagnostic
  /-- Every problem is in the group of its own file. -/
  own : ∀ p ∈ d.problems, ∃! g, g ∈ d.diagnostics ∧ p.location.file.Same g.1
  /-- Together the groups have the diagnostic of each problem once. -/
  once : (d.diagnostics.flatMap Prod.snd).Perm (d.problems.map Problem.diagnostic)

/-- The groups of a document are in strict order of their files. -/
theorem ordered_diagnostics (d : Document) : Path.Ordered (d.diagnostics.map Prod.fst) := by
  rw [Path.Ordered, List.pairwise_map]
  refine Path.pairwise_values fun k g hg => ?_
  rw [getElem?_foldl_group] at hg
  obtain ⟨p, hfind, rfl⟩ := Option.map_eq_some_iff.1 hg
  simpa using List.find?_some hfind

/-- A file with a problem has a group, and no other group is of the same place. -/
theorem existsUnique_group {p : Problem} (hp : p ∈ d.problems) :
    ∃! g, g ∈ d.diagnostics ∧ p.location.file.Same g.1 := by
  have hsome : (d.problems.find? fun q => q.location.file.Same p.location.file).isSome :=
    List.find?_isSome.2 ⟨p, hp, decide_eq_true rfl⟩
  obtain ⟨first, hfirst⟩ := Option.isSome_iff_exists.1 hsome
  have hsame : first.location.file.Same p.location.file := by simpa using List.find?_some hfirst
  have hgroup : (first.location.file, (d.problems.filter fun q =>
      q.location.file.Same first.location.file).map Problem.diagnostic) ∈ d.diagnostics :=
    mem_diagnostics_iff.2 ⟨by rw [isIn_congr hsame, hfirst]; rfl, rfl⟩
  refine ⟨_, ⟨hgroup, hsame.symm⟩, ?_⟩
  rintro g ⟨hg, hother⟩
  have hfile : g.1 = first.location.file :=
    (ordered_diagnostics d).different.eq_of_same (List.mem_map_of_mem hg)
      (List.mem_map_of_mem hgroup) (hother.symm.trans hsame.symm)
  exact Prod.ext hfile (by rw [(mem_diagnostics_iff.1 hg).2, hfile])

/-- The diagnostics of every document are divided by file. -/
theorem grouped_diagnostics (d : Document) : d.Grouped where
  ordered := ordered_diagnostics d
  group _ hg := (mem_diagnostics_iff.1 hg).2
  own _ hp := existsUnique_group hp
  once := by
    have hkeys : (d.diagnostics.map fun g => g.1.components).Nodup := by
      have hdiff := (ordered_diagnostics d).different
      rw [Path.Different, List.pairwise_map] at hdiff
      exact List.nodup_iff_pairwise_ne.2 (List.pairwise_map.2 hdiff)
    have hcovered : ∀ p ∈ d.problems,
        p.location.file.components ∈ d.diagnostics.map fun g => g.1.components := by
      intro p hp
      obtain ⟨g, ⟨hg, hsame⟩, _⟩ := existsUnique_group hp
      exact List.mem_map.2 ⟨g, hg, hsame.symm⟩
    have hgroups : d.diagnostics.flatMap Prod.snd =
        ((d.diagnostics.map fun g => g.1.components).flatMap fun k =>
          d.problems.filter fun p => p.location.file.components = k).map Problem.diagnostic := by
      rw [List.flatMap_map, List.map_flatMap]
      exact List.flatMap_congr fun g hg => (mem_diagnostics_iff.1 hg).2
    rw [hgroups]
    exact (perm_flatMap_filter _ hkeys d.problems hcovered).map _

/-- The group of a file has the diagnostics of the problems in it. -/
theorem diagnosticsOf_eq (d : Document) (file : Path) : d.diagnosticsOf file =
    (d.problems.filter fun p => p.location.file.Same file).map Problem.diagnostic := by
  unfold diagnosticsOf
  cases hfind : d.diagnostics.find? fun g => g.1.Same file with
  | none =>
    have hnone : (d.problems.filter fun p => p.location.file.Same file) = [] := by
      refine List.filter_eq_nil_iff.2 fun p hp hsame => ?_
      obtain ⟨g, ⟨hg, hown⟩, _⟩ := existsUnique_group hp
      exact List.find?_eq_none.1 hfind g hg
        (decide_eq_true (hown.symm.trans (of_decide_eq_true hsame)))
    rw [hnone]
    rfl
  | some g =>
    have hsame : g.1.Same file := by simpa using List.find?_some hfind
    simp only [Option.map_some, Option.getD_some]
    rw [(mem_diagnostics_iff.1 (List.mem_of_find?_eq_some hfind)).2, isIn_congr hsame]

end Document

namespace Platforms

/-- A document put in, or that of a file taken out. -/
inductive Change where
  | inserted (d : Document)
  | removed (file : Path)

namespace Change

/-- The file that a change is about. -/
def file : Change → Path
  | .inserted d => d.file
  | .removed file => file

/-- The document that is stored for the file after the change. -/
def document? : Change → Option Document
  | .inserted d => some d
  | .removed _ => none

end Change

/-- The platforms after a document was put in or that of a file was taken out. -/
def change (ps : Platforms) : Change → Platforms
  | .inserted d => ps.insert d
  | .removed file => ps.remove file

/-- The platforms after some changes. -/
def run (ps : Platforms) (changes : List Change) : Platforms :=
  changes.foldl change ps

/-- The document that some changes leave for a file: the one that was put in by the last change that
concerns the file. -/
def last? (changes : List Change) (file : Path) : Option Document :=
  (changes.filter fun c => c.file.Same file).getLast?.bind Change.document?

/-- After some changes the platforms report what the groups of their documents hold. -/
structure Reports (ps : Platforms) (changes : List Change) : Prop where
  /-- The documents are those that the changes leave. -/
  mem_all : ∀ d, d ∈ ps.all ↔ last? changes d.file = some d
  /-- They are in the order of their paths, and a file has one document. -/
  ordered : Path.Ordered (ps.all.map Document.file)
  /-- What is reported for a file is what their groups for it hold, one after the other, and what
  several of them hold is reported where it comes first. -/
  diagnosticsIn : ∀ file : Path,
    ps.diagnosticsIn file = (ps.all.flatMap fun d => d.diagnosticsOf file).eraseDups

variable {ps : Platforms} {changes : List Change}

/-- One more change decides what is stored for its file, and for no other. -/
theorem last?_concat (changes : List Change) (c : Change) (file : Path) :
    last? (changes ++ [c]) file =
      if c.file.Same file then c.document? else last? changes file := by
  rw [last?, List.filter_append]
  split
  · rename_i hsame
    simp [hsame]
  · rename_i hsame
    simp [hsame, last?]

/-- A change decides what is stored for its file, and for no other. -/
theorem get?_change (ps : Platforms) (c : Change) (file : Path) :
    (ps.change c).get? file = if c.file.Same file then c.document? else ps.get? file := by
  cases c with
  | inserted d => exact get?_insert ps d file
  | removed path => exact get?_remove ps path file

/-- Documents are found under the paths of their files. -/
theorem components_of_getElem?_run (changes : List Change) {d : Document} {k : List Component}
    (h : (run empty changes).documents[k]? = some d) : d.file.components = k := by
  induction changes using List.reverseRecOn with
  | nil => simp [run, empty] at h
  | append_singleton changes c ih =>
    rw [run, List.foldl_append] at h
    cases c with
    | inserted d' =>
      rcases of_getElem?_insert h with ⟨hkey, rfl⟩ | ⟨_, h⟩
      · exact hkey
      · exact ih h
    | removed file => exact ih (of_getElem?_remove h).2

/-- After some changes, what is stored for a file is what the last one for it has left. -/
theorem get?_run (changes : List Change) (file : Path) :
    (run empty changes).get? file = last? changes file := by
  induction changes using List.reverseRecOn with
  | nil => simp [run, empty, get?, last?]
  | append_singleton changes c ih =>
    rw [last?_concat, ← ih, run, List.foldl_append]
    exact get?_change _ c file

/-- The diagnostics in a file are those of its groups in all documents, each once. -/
theorem diagnosticsIn_eq (ps : Platforms) (file : Path) :
    ps.diagnosticsIn file = (ps.all.flatMap fun d => d.diagnosticsOf file).eraseDups := by
  simp only [Document.diagnosticsOf_eq, diagnosticsIn]

/-- The two views of the diagnostics agree. -/
theorem reports_run : (∀ d : Document, d.Grouped) ∧
    ∀ changes : List Change, (run empty changes).Reports changes := by
  refine ⟨Document.grouped_diagnostics, fun changes => ⟨fun d => ?_, ?_, diagnosticsIn_eq _⟩⟩
  · rw [← get?_run, all, mem_values_iff]
    constructor
    · rintro ⟨k, hk⟩
      rwa [← components_of_getElem?_run changes hk] at hk
    · exact fun hd => ⟨_, hd⟩
  · rw [Path.Ordered, List.pairwise_map]
    exact Path.pairwise_values fun k d hd => components_of_getElem?_run changes hd

/-- A workspace in which the header of a file names a section that does not exist. -/
def shared : Setting :=
  ⟨(FileSet.empty.write ⟨"/ws/I.inc"⟩ "[Bogus]\n").sources, none⟩

/-- A problem in a file that two platforms include is reported once. -/
example : ((run empty (["/ws/A.dsc", "/ws/B.dsc"].map fun path =>
    .inserted (.ofText shared ⟨path⟩ "!include I.inc\n"))).diagnosticsIn ⟨"/ws/./I.inc"⟩).map
      (fun d => (d.line, d.start, d.stop)) = [(0, 1, 6)] := by
  decide +kernel

end Platforms

end FirmwareIndex
