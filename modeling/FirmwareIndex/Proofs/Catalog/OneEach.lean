import FirmwareIndex.Proofs.Catalog.Additions
import FirmwareIndex.Proofs.Catalog.Includes
import FirmwareIndex.Proofs.Catalog.Linked

/-!
# One record of a file

Every store has at most one record of a file (`Catalog.OneEach`), as the stores are kept by place.
The declarations are kept by the end of a text. They are in order as long as no file is named with
another end than before (`Declarations.Separate.insert`).
-/

set_option autoImplicit false

namespace FirmwareIndex

namespace Declarations

/-- Every declaration stands in the group of the end of its path. A file has one declaration in a
group, and no declarations in two groups. -/
structure Separate (d : Declarations) : Prop where
  keyed : d.Keyed
  different : ∀ key, (d.group key).Pairwise fun r other => ¬ r.path.Same other.path
  alone : ∀ r ∈ d.all, ∀ other ∈ d.all, r.path.Same other.path → r.path.tail 2 = other.path.tail 2

variable {d : Declarations} {ps : Packages} {root path : Path} {r : ModuleRecord}

/-- Declarations of files that are spelled as they are found below a root are in order. -/
theorem Matches.separate (h : d.Matches ps root) : d.Separate where
  keyed key r hr := ((h.mem_group key r).1 hr).1
  different key := by
    refine (List.nodup_iff_pairwise_ne.1 (h.nodup_group key)).imp_of_mem ?_
    intro r other hr hother hne hsame
    have hdescribed := ((h.mem_group key r).1 hr).2
    rw [ps.described_congr hsame, ((h.mem_group key other).1 hother).2] at hdescribed
    exact hne (Option.some.inj hdescribed).symm
  alone r hr other hother hsame := by
    have hspelled : ∀ r ∈ d.all, r.path.SpelledBelow root := by
      intro r hr
      obtain ⟨key, hkey⟩ := mem_all_iff.1 hr
      exact h.spelled _ r ((h.mem_group key r).1 hkey).2
    rw [(hspelled r hr).eq_of_same (hspelled other hother) hsame]

namespace Separate

/-- No file has two declarations. -/
theorem different_all (h : d.Separate) :
    d.all.Pairwise fun r other => ¬ r.path.Same other.path := by
  refine different_all_of_groups h.different fun key key' r hr other hother hsame => ?_
  have hends := h.alone r (mem_all_iff.2 ⟨key, hr⟩) other (mem_all_iff.2 ⟨key', hother⟩) hsame
  rw [← h.keyed key r hr, ← h.keyed key' other hother, hends]

/-- A declaration is put in, if the one that is there of its file ends alike. -/
theorem insert (h : d.Separate)
    (hends : ∀ other ∈ d.all, other.path.Same r.path → other.path.tail 2 = r.path.tail 2) :
    (d.insert r).Separate where
  keyed := h.keyed.insert r
  different key := by
    rw [group_insert]
    split
    · refine List.pairwise_cons.2 ⟨fun other hother hsame => ?_, (h.different key).filter _⟩
      exact of_decide_eq_true (List.mem_filter.1 hother).2 hsame.symm
    · exact h.different key
  alone := by
    intro a ha b hb hsame
    cases mem_all_insert ha with
    | inl hnew =>
      subst hnew
      cases mem_all_insert hb with
      | inl hnew' => rw [hnew']
      | inr hb => exact (hends b hb hsame.symm).symm
    | inr ha =>
      cases mem_all_insert hb with
      | inl hnew =>
        rw [hnew] at hsame ⊢
        exact hends a ha hsame
      | inr hb => exact h.alone a ha b hb hsame

/-- Taking out a declaration leaves no file with two of them. -/
theorem remove (h : d.Separate) (path : Path) : (d.remove path).Separate := by
  have hsublist : ∀ key, ((d.remove path).group key).Sublist (d.group key) := by
    intro key
    rw [Declarations.remove, group_setGroup]
    split
    · rename_i hkey
      rw [← hkey]
      exact List.eraseP_sublist
    · exact List.Sublist.refl _
  exact
    { keyed := h.keyed.remove path
      different := fun key => (h.different key).sublist (hsublist key)
      alone := fun a ha b hb => h.alone a (mem_all_remove ha) b (mem_all_remove hb) }

end Separate

end Declarations

namespace Catalog

/-- Every store has at most one record of a file, and the libraries one for a class and a path. -/
structure OneEach (c : Catalog) : Prop where
  files : Path.Different c.modules.files
  modules : ∀ (r : ModuleRecord) (k : List Component), c.modules.records[k]? = some r →
    r.path.components = k
  packages : Path.Different (c.packages.all.map Package.file)
  libraries : c.libraries.all.Pairwise fun a b => a.sameEntry b = false
  platforms : ∀ (d : Document) (k : List Component), c.platforms.documents[k]? = some d →
    d.file.components = k

variable {c : Catalog} {P : FileKind → List Component → Prop}

/-- There is one record of each file once the libraries have been found anew. -/
theorem oneEach_rebuild (h : c.Only P) (hfiles : Path.Different c.modules.files) (s : Setting)
    (root : Path) : (c.rebuild s root).OneEach := by
  have hrebuilt := h.rebuild s root
  refine ⟨hfiles, hrebuilt.modules.keyed, hrebuilt.packages.different, ?_, hrebuilt.platforms⟩
  change (librariesOf root c.modules _).all.Pairwise _
  rw [librariesOf_eq_foldl]
  exact (Libraries.indexed_foldl_add _).1.different

/-- The known modules stay different places when a file is taken in. -/
theorem different_files_take (h : Path.Different c.modules.files) (s : Setting) (k : FileKind)
    (path : Path) : Path.Different (c.take (.ofFile s k path)).modules.files := by
  cases k with
  | module =>
    change Path.Different (c.modules.insert _).files
    rw [Modules.files_insert]
    exact h.addNew _
  | declaration => exact h
  | platform =>
    have hkept : (c.take (.ofFile s .platform path)).modules = c.modules :=
      modules_refreshSibling _ _
    rwa [hkept]

/-- So they do when a file is forgotten. -/
theorem different_files_forget (h : Path.Different c.modules.files) (path : Path) (k : FileKind) :
    Path.Different (c.forget path k).modules.files := by
  cases k with
  | module =>
    change Path.Different (c.modules.forget path).files
    rw [Modules.forget, Modules.files_remove]
    exact h.filter _
  | declaration => exact h
  | platform =>
    have hkept : (c.forget path .platform).modules = c.modules := modules_refreshSibling _ _
    rwa [hkept]

/-- The declarations stay in order when a file is taken in whose known declaration ends alike. -/
theorem separate_take (h : c.declarations.Separate) (s : Setting) {k : FileKind} {path : Path}
    (hends : k = .declaration → ∀ r ∈ c.declarations.all, r.path.Same path →
      r.path.tail 2 = path.tail 2) : (c.take (.ofFile s k path)).declarations.Separate := by
  cases k with
  | module => exact h
  | declaration =>
    change (c.declarations.insert (.ofFile s.sources path)).Separate
    refine h.insert fun r hr hsame => ?_
    rw [ModuleRecord.path_ofFile] at hsame ⊢
    exact hends rfl r hr hsame
  | platform =>
    have hkept : (c.take (.ofFile s .platform path)).declarations = c.declarations :=
      declarations_refreshSibling _ _
    rwa [hkept]

/-- Forgetting a file leaves no file with two declarations. -/
theorem separate_forget (h : c.declarations.Separate) (path : Path) (k : FileKind) :
    (c.forget path k).declarations.Separate := by
  cases k with
  | module => exact h
  | declaration => exact h.remove path
  | platform =>
    have hkept : (c.forget path .platform).declarations = c.declarations :=
      declarations_refreshSibling _ _
    rwa [hkept]

end Catalog

end FirmwareIndex
