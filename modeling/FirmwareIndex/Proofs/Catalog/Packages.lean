import FirmwareIndex.Proofs.Catalog.Declarations
import FirmwareIndex.Proofs.Catalog.Described
import FirmwareIndex.Proofs.Path.Spelling
import Mathlib.Data.List.Nodup

/-!
# Declarations of packages

A package stands for the declaration of its file, and there is one package for a file
(`Packages.Proper`). `Packages.described` gives the declaration that the package of a file stands
for. Adding and removing packages changes it for one file, and whatever is done about the platform
description beside a package leaves it as it is. `Declarations.Matches` says that the groups of
declarations have just those of the packages, and it is kept when both change together.
-/

set_option autoImplicit false

namespace FirmwareIndex

namespace Packages

variable {ps : Packages} {p : Package} {path : Path}

/-- The declaration that the package of a file stands for. -/
def described (ps : Packages) (file : Path) : Option ModuleRecord :=
  (ps.find? file).map Package.declaration

/-- There is one package for a file, and it stands for a declaration of that file. -/
structure Proper (ps : Packages) : Prop where
  different : Path.Different (ps.all.map Package.file)
  file : ∀ p ∈ ps.all, p.file = p.declaration.path

/-- What a package stands for is found by any spelling of its file. -/
theorem described_congr (ps : Packages) {file file' : Path} (h : file.Same file') :
    ps.described file = ps.described file' := by
  rw [described, described, ps.find?_congr h]

/-- What is found when a package has taken the place of another one. -/
theorem find?_replace {list : List Package}
    (h : (list.find? fun q => q.file.Same p.file).isSome) (path : Path) :
    ((replace p list).find? fun q => q.file.Same path) =
      if p.file.Same path then some p else list.find? fun q => q.file.Same path := by
  induction list with
  | nil => cases h
  | cons a rest ih =>
    rw [replace]
    by_cases hsame : a.file.Same p.file
    · have hkey : a.file.components = p.file.components := hsame
      rw [if_pos hsame, List.find?_cons, List.find?_cons]
      by_cases hpath : p.file.components = path.components <;> simp [Path.Same, hkey, hpath]
    · rw [List.find?_cons, decide_eq_false hsame] at h
      rw [if_neg hsame, List.find?_cons, List.find?_cons, ih h]
      by_cases hpath : p.file.Same path
      · have hother : ¬ a.file.Same path := fun ha => hsame (ha.trans hpath.symm)
        simp [hpath, hother]
      · simp [hpath]

/-- The package that is found once one has been added. -/
theorem find?_add (ps : Packages) (p : Package) (path : Path) :
    (ps.add p).find? path = if p.file.Same path then some p else ps.find? path := by
  unfold add
  split
  · rename_i old hold
    exact find?_replace (by rw [← find?, hold]; rfl) path
  · rename_i hnone
    rw [find?, List.find?_append, ← find?]
    by_cases hpath : p.file.Same path
    · rw [← ps.find?_congr hpath, hnone]
      simp [hpath]
    · simp [hpath]

/-- What is described when a package has been added. -/
theorem described_add (ps : Packages) (p : Package) (path : Path) :
    (ps.add p).described path =
      if p.file.Same path then some p.declaration else ps.described path := by
  rw [described, find?_add, described]
  split <;> rfl

/-- Nothing but the new package comes in. -/
theorem mem_replace {list : List Package} {q : Package} (h : q ∈ replace p list) :
    q = p ∨ q ∈ list := by
  induction list with
  | nil => cases h
  | cons a rest ih =>
    rw [replace] at h
    split at h
    · rcases List.mem_cons.1 h with h | h
      · exact .inl h
      · exact .inr (List.mem_cons_of_mem a h)
    · rcases List.mem_cons.1 h with h | h
      · exact .inr (h ▸ List.mem_cons_self)
      · exact (ih h).imp_right (List.mem_cons_of_mem a)

/-- A package that is put in the place of another one has its place. -/
theorem map_components_replace (list : List Package) :
    (replace p list).map (fun q => q.file.components) = list.map fun q => q.file.components := by
  induction list with
  | nil => rfl
  | cons a rest ih =>
    rw [replace]
    split
    · rename_i hsame
      have hkey : a.file.components = p.file.components := hsame
      rw [List.map_cons, List.map_cons, hkey]
    · rw [List.map_cons, List.map_cons, ih]

/-- No packages are proper. -/
theorem proper_empty : empty.Proper where
  different := List.Pairwise.nil
  file := by simp [empty]

namespace Proper

/-- A package is found under its file. -/
theorem find?_file (h : ps.Proper) (hp : p ∈ ps.all) : ps.find? p.file = some p := by
  obtain ⟨q, hq⟩ : ∃ q, ps.find? p.file = some q := by
    refine Option.isSome_iff_exists.1 (List.find?_isSome.2 ⟨p, hp, ?_⟩)
    exact decide_eq_true rfl
  have hsame : q.file.Same p.file := by simpa using List.find?_some hq
  have hmem : q ∈ ps.all := List.mem_of_find?_eq_some hq
  have hfile : q.file = p.file :=
    h.different.eq_of_same (List.mem_map_of_mem hmem) (List.mem_map_of_mem hp) hsame
  rw [hq, List.inj_on_of_nodup_map h.different.nodup hmem hp hfile]

/-- Each package stands for its own declaration. -/
theorem described_file (h : ps.Proper) (hp : p ∈ ps.all) :
    ps.described p.file = some p.declaration := by
  rw [described, h.find?_file hp, Option.map_some]

/-- A package of its declaration can be added. -/
theorem add (h : ps.Proper) (hp : p.file = p.declaration.path) : (ps.add p).Proper := by
  unfold Packages.add
  split
  · constructor
    · have hplaces : ((replace p ps.all).map fun q => q.file.components).Nodup := by
        have hall := List.pairwise_map.1 h.different
        rw [map_components_replace]
        exact List.pairwise_map.2 hall
      have hall := List.pairwise_map.1 hplaces
      exact List.pairwise_map.2 hall
    · intro q hq
      rcases mem_replace hq with rfl | hq
      · exact hp
      · exact h.file q hq
  · rename_i hnone
    constructor
    · rw [List.map_append, Path.Different, List.pairwise_append]
      refine ⟨h.different, List.pairwise_singleton _ _, ?_⟩
      intro file hfile other hother
      obtain ⟨q, hq, rfl⟩ := List.mem_map.1 hfile
      rw [List.mem_singleton.1 hother]
      simpa using List.find?_eq_none.1 hnone q hq
    · intro q hq
      rcases List.mem_append.1 hq with hq | hq
      · exact h.file q hq
      · exact List.mem_singleton.1 hq ▸ hp

/-- What is described when a package has been removed. -/
theorem described_remove (h : ps.Proper) (path file : Path) :
    (ps.remove path).described file = if path.Same file then none else ps.described file := by
  have hpairwise : ps.all.Pairwise fun a b =>
      decide (a.file.Same path) = true → decide (b.file.Same path) = false := by
    refine (List.pairwise_map.1 h.different).imp fun {a b} hdiff ha => ?_
    rw [decide_eq_true_eq] at ha
    rw [decide_eq_false_iff_not]
    exact fun hb => hdiff (ha.trans hb.symm)
  rw [described, find?, Packages.remove, eraseP_eq_filter hpairwise, List.find?_filter]
  by_cases hsame : path.Same file
  · rw [if_pos hsame, Option.map_eq_none_iff, List.find?_eq_none]
    intro p _ hp
    obtain ⟨hother, hp⟩ : ¬ p.file.Same path ∧ p.file.Same file := by simpa using hp
    exact hother (hp.trans hsame.symm)
  · have hkept : (fun p : Package => decide ((!decide (p.file.Same path)) = true ∧
        decide (p.file.Same file) = true)) = fun p => decide (p.file.Same file) := by
      funext p
      by_cases hp : p.file.Same file
      · have hother : ¬ p.file.Same path := fun heq => hsame (heq.symm.trans hp)
        simp [hp, hother]
      · simp [hp]
    rw [hkept, if_neg hsame]
    rfl

/-- Removing a package keeps the others proper. -/
theorem remove (h : ps.Proper) (path : Path) : (ps.remove path).Proper where
  different := h.different.sublist (List.eraseP_sublist.map _)
  file p hp := h.file p (List.mem_of_mem_eraseP hp)

/-- Packages that keep their files and declarations stand for the same. -/
theorem map (h : ps.Proper) {f : Package → Package}
    (hf : ∀ p, (f p).file = p.file ∧ (f p).declaration = p.declaration) :
    (Packages.mk (ps.all.map f)).Proper where
  different := by
    have hfile : Package.file ∘ f = Package.file := funext fun p => (hf p).1
    rw [List.map_map, hfile]
    exact h.different
  file p hp := by
    obtain ⟨q, hq, rfl⟩ := List.mem_map.1 hp
    rw [(hf q).1, (hf q).2, h.file q hq]

end Proper

/-- A change that keeps file and declaration does not matter to what is described. -/
theorem described_map (ps : Packages) {f : Package → Package}
    (hf : ∀ p, (f p).file = p.file ∧ (f p).declaration = p.declaration) (path : Path) :
    (Packages.mk (ps.all.map f)).described path = ps.described path := by
  have hfile : (fun q : Package => decide (q.file.Same path)) ∘ f =
      fun q => decide (q.file.Same path) := funext fun p => by rw [Function.comp_apply, (hf p).1]
  have hdeclaration : Package.declaration ∘ f = Package.declaration := funext fun p => (hf p).2
  rw [described, find?, List.find?_map, hfile, Option.map_map, hdeclaration]
  rfl

end Packages

/-- The groups have the declarations of the packages, each once and under its key, and the files are
spelled as they are found below a root. -/
structure Declarations.Matches (d : Declarations) (ps : Packages) (root : Path) : Prop where
  proper : ps.Proper
  spelled : ∀ file r, ps.described file = some r → r.path.SpelledBelow root
  mem_group : ∀ key r, r ∈ d.group key ↔ r.path.tail 2 = key ∧ ps.described r.path = some r
  nodup_group : ∀ key, (d.group key).Nodup

namespace Declarations.Matches

variable {d : Declarations} {ps : Packages} {root path : Path} {r : ModuleRecord}

/-- No declarations are those of no packages. -/
theorem empty (root : Path) : Declarations.empty.Matches .empty root where
  proper := Packages.proper_empty
  spelled file r hr := by cases hr
  mem_group := by
    simp [group, Declarations.empty, Packages.described, Packages.find?, Packages.empty]
  nodup_group := by simp [group, Declarations.empty]

/-- A declaration can be put in together with its package. -/
theorem insert (h : d.Matches ps root) (hr : r.path.SpelledBelow root) :
    (d.insert r).Matches (ps.add (.ofDeclaration r)) root := by
  have hdescribed : ∀ file, (ps.add (.ofDeclaration r)).described file =
      if r.path.Same file then some r else ps.described file := fun file => ps.described_add _ file
  refine ⟨h.proper.add rfl, fun file r' hr' => ?_, fun key r' => ?_, fun key => ?_⟩
  · rw [hdescribed] at hr'
    split at hr'
    · exact Option.some.inj hr' ▸ hr
    · exact h.spelled file r' hr'
  · rw [group_insert, hdescribed]
    have hcomm : r'.path.Same r.path ↔ r.path.Same r'.path := ⟨Eq.symm, Eq.symm⟩
    by_cases hkey : r.path.tail 2 = key
    · rw [if_pos hkey, List.mem_cons, List.mem_filter, decide_eq_true_eq, h.mem_group, hcomm]
      by_cases hsame : r.path.Same r'.path
      · rw [if_pos hsame, Option.some.injEq]
        refine ⟨fun hr' => ?_, fun hr' => .inl hr'.2.symm⟩
        obtain rfl := hr'.resolve_right fun hother => hother.2 hsame
        exact ⟨hkey, rfl⟩
      · have hne : r' ≠ r := fun heq => hsame (heq ▸ rfl)
        simp [hsame, hne]
    · rw [if_neg hkey, h.mem_group]
      refine and_congr_right fun hkey' => ?_
      by_cases hsame : r.path.Same r'.path
      · rw [if_pos hsame, Option.some.injEq]
        -- two spellings of one file would stand under two keys
        refine iff_of_false (fun hr' => ?_) fun heq => hkey (heq ▸ hkey')
        exact hkey (hr.eq_of_same (h.spelled _ r' hr') hsame ▸ hkey')
      · rw [if_neg hsame]
  · rw [group_insert]
    split
    · refine List.nodup_cons.2 ⟨fun hmem => ?_, (h.nodup_group key).filter _⟩
      exact of_decide_eq_true (List.mem_filter.1 hmem).2 rfl
    · exact h.nodup_group key

/-- A declaration can be taken out together with its package. -/
theorem remove (h : d.Matches ps root) (hpath : path.SpelledBelow root) :
    (d.remove path).Matches (ps.remove path) root := by
  have hdescribed := h.proper.described_remove path
  have hone : (d.group (path.tail 2)).Pairwise fun r other =>
      r.path.Same path → ¬ other.path.Same path := by
    refine List.Pairwise.imp_of_mem (fun {r other} hr hother hne hsame hsame' => ?_)
      (List.nodup_iff_pairwise_ne.1 (h.nodup_group _))
    have hr' := ((h.mem_group _ r).1 hr).2
    rw [ps.described_congr (hsame.trans hsame'.symm), ((h.mem_group _ other).1 hother).2] at hr'
    exact hne (Option.some.inj hr').symm
  refine ⟨h.proper.remove path, fun file r hr => ?_, fun key r => ?_, fun key => ?_⟩
  · rw [hdescribed] at hr
    split at hr
    · cases hr
    · exact h.spelled file r hr
  · rw [group_remove hone, hdescribed]
    have hcomm : r.path.Same path ↔ path.Same r.path := ⟨Eq.symm, Eq.symm⟩
    by_cases hkey : path.tail 2 = key
    · rw [if_pos hkey, List.mem_filter, decide_eq_true_eq, h.mem_group, hcomm]
      by_cases hsame : path.Same r.path <;> simp [hsame]
    · rw [if_neg hkey, h.mem_group]
      refine and_congr_right fun hkey' => ?_
      by_cases hsame : path.Same r.path
      · rw [if_pos hsame]
        refine iff_of_false (fun hr => ?_) (by simp)
        exact hkey (hpath.eq_of_same (h.spelled _ r hr) hsame ▸ hkey')
      · rw [if_neg hsame]
  · rw [group_remove hone]
    split
    · exact (h.nodup_group key).filter _
    · exact h.nodup_group key

/-- Packages that stand for the same declarations match the same groups. -/
theorem congr (h : d.Matches ps root) {ps' : Packages} (hproper : ps'.Proper)
    (hsame : ∀ file, ps'.described file = ps.described file) : d.Matches ps' root where
  proper := hproper
  spelled file r hr := h.spelled file r (hsame file ▸ hr)
  mem_group key r := by rw [h.mem_group, hsame]
  nodup_group := h.nodup_group

/-- The declaration of a package is the one that is held for its file. -/
theorem find?_file (h : d.Matches ps root) {p : Package} (hp : p ∈ ps.all) :
    d.find? p.file = some p.declaration := by
  have hdescribed := h.proper.described_file hp
  have hfile := h.proper.file p hp
  have hmem : p.declaration ∈ d.group (p.file.tail 2) :=
    (h.mem_group _ _).2 ⟨by rw [hfile], by rw [← hfile, hdescribed]⟩
  obtain ⟨r, hr⟩ : ∃ r, d.find? p.file = some r := by
    refine Option.isSome_iff_exists.1 (List.find?_isSome.2 ⟨p.declaration, hmem, ?_⟩)
    exact decide_eq_true (congrArg Path.components hfile).symm
  have hsame := List.find?_some hr
  have hr' := ((h.mem_group _ r).1 (List.mem_of_find?_eq_some hr)).2
  rw [ps.described_congr (of_decide_eq_true hsame), hdescribed] at hr'
  rw [hr, Option.some.inj hr']

/-- Every declaration is that of a package. -/
theorem exists_mem_all (h : d.Matches ps root) (hr : r ∈ d.all) :
    ∃ p ∈ ps.all, p.declaration = r := by
  obtain ⟨list, hlist, hr⟩ := List.mem_flatten.1 hr
  obtain ⟨key, hkey⟩ := mem_values_iff.1 hlist
  have hmem : r ∈ d.group key := by rwa [group, hkey]
  obtain ⟨p, hp, hdeclaration⟩ := Option.map_eq_some_iff.1 ((h.mem_group key r).1 hmem).2
  exact ⟨p, List.mem_of_find?_eq_some hp, hdeclaration⟩

end Declarations.Matches

namespace Catalog

/-- A package that looks beside itself keeps its file and its declaration. -/
theorem file_declaration_loadPackage (s : Setting) (ps : Platforms) (p : Package) :
    (loadPackage s ps p).file = p.file ∧ (loadPackage s ps p).declaration = p.declaration := by
  have hload : ∀ q : Package,
      (q.load s).file = q.file ∧ (q.load s).declaration = q.declaration := by
    intro q
    unfold Package.load
    split
    · split <;> exact ⟨rfl, rfl⟩
    · exact ⟨rfl, rfl⟩
  have hpreload : ∀ platform, (p.preload platform).file = p.file ∧
      (p.preload platform).declaration = p.declaration := by
    intro platform
    unfold Package.preload
    split <;> exact ⟨rfl, rfl⟩
  unfold loadPackage
  split
  · exact ⟨(hload _).1.trans (hpreload _).1, (hload _).2.trans (hpreload _).2⟩
  · exact hload p

/-- The package of a file is that of this file. -/
theorem file_packageOf (s : Setting) (ps : Platforms) (file : Path) :
    (packageOf s ps file).file = file :=
  (file_declaration_loadPackage s ps _).1.trans (ModuleRecord.path_ofFile s.sources file)

section Described

variable {s : Setting} {root : Path} {m : Modules} {declarations platforms : List Path}
  {fingerprints : PathMap Text}

/-- The packages of a described catalog have looked beside themselves. -/
theorem sibling_described_ne :
    ∀ p ∈ (described s root m declarations platforms fingerprints).packages.all,
      p.sibling ≠ .unknown := by
  intro p hp
  obtain ⟨file, _, rfl⟩ := List.mem_map.1 hp
  exact sibling_loadPackage_ne s _ _

/-- A described catalog has no packages of other files. -/
theorem find?_described_eq_none {path : Path} (h : ∀ file ∈ declarations, ¬ file.Same path) :
    (described s root m declarations platforms fingerprints).packages.find? path = none := by
  rw [Packages.find?, List.find?_eq_none]
  intro p hp
  obtain ⟨file, hfile, rfl⟩ := List.mem_map.1 hp
  rw [file_packageOf, decide_eq_true_eq]
  exact h file hfile

end Described

/-- A package that has to look beside itself again does not matter to the modules. -/
theorem modules_refreshSibling (c : Catalog) (platform : Path) :
    (c.refreshSibling platform).modules = c.modules := by
  unfold refreshSibling
  split <;> rfl

/-- A package that has to look beside itself again does not matter to the declarations. -/
theorem declarations_refreshSibling (c : Catalog) (platform : Path) :
    (c.refreshSibling platform).declarations = c.declarations := by
  unfold refreshSibling
  split <;> rfl

/-- Looking for a platform description anew changes nothing that packages stand for. -/
theorem exists_refreshSibling_eq (c : Catalog) (h : c.packages.Proper) (platform : Path) :
    ∃ ps : Packages, c.refreshSibling platform = { c with packages := ps } ∧ ps.Proper ∧
      ∀ file, ps.described file = c.packages.described file := by
  unfold refreshSibling
  split
  · exact ⟨c.packages, rfl, h, fun _ => rfl⟩
  · rename_i p hp
    have hmem : p ∈ c.packages.all := List.mem_of_find?_eq_some hp
    refine ⟨_, rfl, h.add rfl, fun file => ?_⟩
    rw [Packages.described_add]
    split
    · rename_i hsame
      have hfile : p.file.Same file := (congrArg Path.components (h.file p hmem)).trans hsame
      rw [← c.packages.described_congr hfile, h.described_file hmem]
      rfl
    · rfl

end Catalog

end FirmwareIndex
