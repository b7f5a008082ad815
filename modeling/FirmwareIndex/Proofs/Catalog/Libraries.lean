import FirmwareIndex.Catalog.Update
import FirmwareIndex.Proofs.Catalog.Modules

/-!
# Modules of libraries

A library carries the module at its path. However libraries are learned, from modules or from the
mappings of packages, and however often, each has just the module that is known at its path
(`Libraries.Matched`), and so have those of a catalog whose libraries are found anew
(`Catalog.matched_rebuild`).
-/

set_option autoImplicit false

namespace FirmwareIndex

namespace Libraries

/-- What is learned of a library has its class. -/
theorem className_learned (ls : Libraries) (l : Library) :
    (ls.learned l).className = l.className := by
  unfold learned
  split <;> rfl

/-- What is learned of a library has its path. -/
theorem path_learned (ls : Libraries) (l : Library) : (ls.learned l).path = l.path := by
  unfold learned
  split <;> rfl

/-- A mapping of a package carries the module at its path and the name of the package. -/
theorem of_mem_mappingsOf {root : Path} {m : Modules} {p : Package} {l : Library}
    (h : l ∈ mappingsOf root m p) : l.module = m.get? l.path ∧ l.package = some p.name := by
  obtain ⟨entry, _, hl⟩ := List.mem_flatMap.1 h
  obtain ⟨mapping, _, rfl⟩ := List.mem_map.1 hl
  exact ⟨rfl, rfl⟩

/-- Each library has the module that is known at its path. -/
structure Matched (ls : Libraries) (m : Modules) : Prop where
  all : ∀ l ∈ ls.all, l.module = m.get? l.path
  byClass : ∀ (className : Text) (paths : PathMap Library) (k : List Component) (l : Library),
    ls.byClass[className]? = some paths → paths[k]? = some l →
      l.path.components = k ∧ l.module = m.get? l.path

variable {ls : Libraries} {m : Modules} {l : Library}

/-- No libraries have the modules at their paths. -/
theorem matched_empty (m : Modules) : empty.Matched m where
  all := by simp [empty]
  byClass := by simp [empty]

namespace Matched

/-- A library that is found is at the path and has the module that is known there. -/
theorem get? (h : ls.Matched m) {className : Text} {path : Path}
    (hl : ls.get? className path = some l) : l.path.Same path ∧ l.module = m.get? l.path := by
  obtain ⟨paths, hpaths, hl⟩ := Option.bind_eq_some_iff.1 hl
  exact h.byClass className paths path.components l hpaths hl

/-- A library that is learned again keeps the module at its path. -/
theorem module_learned (h : ls.Matched m) (hl : l.module = m.get? l.path) :
    (ls.learned l).module = m.get? l.path := by
  unfold learned
  split
  · exact hl
  · rename_i old hold
    obtain ⟨hsame, hmodule⟩ := h.get? hold
    rw [m.get?_congr hsame, ← hl] at hmodule
    rw [Library.mergedOver, hmodule, Option.or_self, hl]

/-- A mapping of a package replaces what was learned before. -/
theorem learned_eq_self (h : ls.Matched m) (hl : l.module = m.get? l.path)
    (hpackage : l.package.isSome) : ls.learned l = l := by
  have hmodule := h.module_learned hl
  unfold learned at hmodule ⊢
  split
  · rfl
  · rename_i old hold
    rw [hold] at hmodule
    have hor : l.module.or old.module = l.module := hmodule.trans hl.symm
    rw [Library.mergedOver, hor, Option.or_of_isSome hpackage]

/-- A library with the module at its path keeps all so. -/
theorem add (h : ls.Matched m) (hl : l.module = m.get? l.path) : (ls.add l).Matched m := by
  have hnew : (ls.learned l).module = m.get? (ls.learned l).path := by
    rw [path_learned, h.module_learned hl]
  constructor
  · intro other hother
    rcases List.mem_append.1 hother with hother | hother
    · exact h.all other (List.mem_filter.1 hother).1
    · exact List.mem_singleton.1 hother ▸ hnew
  · intro className paths k other hpaths hother
    rw [Libraries.add, Std.ExtTreeMap.getElem?_alter] at hpaths
    split at hpaths
    · rename_i hclass
      obtain rfl := Option.some.inj hpaths
      rw [Std.LawfulEqCmp.compare_eq_iff_eq.1 hclass] at hother
      rw [Std.ExtTreeMap.getElem?_insert] at hother
      split at hother
      · rename_i hkey
        obtain rfl := Option.some.inj hother
        exact ⟨Std.LawfulEqCmp.compare_eq_iff_eq.1 hkey, hnew⟩
      · cases hold : ls.byClass[className]? with
        | none => simp [hold] at hother
        | some old =>
          rw [hold, Option.getD_some] at hother
          exact h.byClass className old k other hold hother
    · exact h.byClass className paths k other hpaths hother

/-- Libraries with the modules at their paths keep all so. -/
theorem foldl_add (h : ls.Matched m) {list : List Library}
    (hlist : ∀ l ∈ list, l.module = m.get? l.path) : (list.foldl Libraries.add ls).Matched m :=
  List.foldlRecOn list Libraries.add (motive := fun ls : Libraries => ls.Matched m) h
    fun _ hls l hl => hls.add (hlist l hl)

/-- The libraries that a module implements have this module. -/
theorem addModule (h : ls.Matched m) {r : ModuleRecord} (hr : m.get? r.path = some r) :
    (ls.addModule r).Matched m := by
  refine h.foldl_add fun l hl => ?_
  obtain ⟨role, _, rfl⟩ := List.mem_map.1 hl
  exact hr.symm

/-- The mappings of a package have the modules at their paths. -/
theorem addPackage (h : ls.Matched m) (root : Path) (p : Package) :
    (addPackage root m ls p).Matched m :=
  h.foldl_add fun _ hl => (of_mem_mappingsOf hl).1

/-- What is listed for a class has the modules at its paths too. -/
theorem implementations (h : ls.Matched m) {className : Text}
    (hl : l ∈ ls.implementations className) : l.module = m.get? l.path := by
  rw [Libraries.implementations] at hl
  cases hpaths : ls.byClass[className]? with
  | none => simp [hpaths] at hl
  | some paths =>
    rw [hpaths, Option.map_some, Option.getD_some] at hl
    obtain ⟨k, hk⟩ := mem_values_iff.1 hl
    exact (h.byClass className paths k l hpaths hk).2

end Matched

/-- The libraries that the known modules declare have these modules. -/
theorem matched_foldl_addModule (h : m.Coherent) :
    (m.records.values.foldl addModule empty).Matched m := by
  have hstored : ∀ r ∈ m.records.values, m.get? r.path = some r := by
    intro r hr
    obtain ⟨k, hk⟩ := mem_values_iff.1 hr
    rw [Modules.get?, h.keyed r k hk]
    exact hk
  exact List.foldlRecOn _ _ (motive := fun ls : Libraries => ls.Matched m) (matched_empty m)
    fun _ hls r hr => hls.addModule (hstored r hr)

end Libraries

/-- The libraries that are found anew have the modules that are known. -/
theorem Catalog.matched_rebuild (s : Setting) (root : Path) {c : Catalog} (h : c.modules.Coherent) :
    (c.rebuild s root).libraries.Matched c.modules :=
  List.foldlRecOn _ _ (motive := fun ls : Libraries => ls.Matched c.modules)
    (Libraries.matched_foldl_addModule h) fun _ hls p _ => hls.addPackage root p

end FirmwareIndex
