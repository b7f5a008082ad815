import FirmwareIndex.Proofs.Catalog.Groups

/-!
# Include directories of a source

The include directories of a source are collected module by module, and those of a module package by
package, each time without repetitions. All the same they are one list: the directories of all
declarations that the owners of the source refer to, one after the other, of which the first of each
place is kept (`Modules.includes_eq_distinct`). As a declaration stands in the group of the end of
its path and in no other (`Declarations.Keyed`), a directory is among them if one of the stored
declarations that an owner refers to lists it (`Modules.includes_run`).
-/

set_option autoImplicit false

namespace FirmwareIndex

open Modules (Change)

namespace Declarations

variable {d : Declarations} {r : ModuleRecord} {key : Text}

/-- Every declaration stands in the group of the end of its path. -/
def Keyed (d : Declarations) : Prop :=
  ∀ key : Text, ∀ r ∈ d.group key, r.path.tail 2 = key

/-- No declarations stand under no keys. -/
theorem keyed_empty : empty.Keyed := by
  simp [Keyed, group, empty]

namespace Keyed

/-- A group of declarations with its key keeps all under their keys. -/
theorem setGroup (h : d.Keyed) {records : List ModuleRecord}
    (hrecords : ∀ r ∈ records, r.path.tail 2 = key) : (d.setGroup key records).Keyed := by
  intro other r hr
  rw [group_setGroup] at hr
  split at hr
  · rename_i hkey
    exact (hrecords r hr).trans hkey
  · exact h other r hr

/-- A declaration is put under its key. -/
theorem insert (h : d.Keyed) (r : ModuleRecord) : (d.insert r).Keyed :=
  h.setGroup fun other hother => by
    rcases List.mem_cons.1 hother with rfl | hother
    · rfl
    · exact h _ other (List.mem_filter.1 hother).1

/-- Taking out a declaration keeps the others under their keys. -/
theorem remove (h : d.Keyed) (path : Path) : (d.remove path).Keyed :=
  h.setGroup fun r hr => h _ r (List.mem_of_mem_eraseP hr)

/-- A change keeps all declarations under their keys. -/
theorem change (h : d.Keyed) (change : Change) : (d.change change).Keyed := by
  cases change with
  | inserted r => exact h.insert r
  | removed path => exact h.remove path

/-- A reference means all declarations with its key, and no others. -/
theorem mem_resolve_iff (h : d.Keyed) (reference : Text) :
    r ∈ d.resolve reference ↔ r ∈ d.all ∧ r.path.tail 2 = keyOf reference := by
  rw [mem_all_iff]
  constructor
  · exact fun hr => ⟨⟨_, hr⟩, h _ r hr⟩
  · rintro ⟨⟨key, hr⟩, hkey⟩
    obtain rfl := h key r hr
    rwa [resolve, ← hkey]

end Keyed

/-- After any changes, every declaration stands under its key. -/
theorem keyed_run (changes : List Change) : (run empty changes).Keyed :=
  List.foldlRecOn changes _ keyed_empty fun _ h change _ => h.change change

end Declarations

namespace Modules

variable (m : Modules) (d : Declarations) (source : Path)

/-- The include directories of all declarations that the owners of a source refer to, one after the
other. -/
def includesListed : List Path :=
  (m.ownersOf source).flatMap fun r => r.packages.flatMap fun reference =>
    (d.resolve reference).flatMap ModuleRecord.includes

/-- Directories that are left out module by module are left out of the whole list. -/
theorem includes_eq_distinct : m.includes d source = Path.distinct (m.includesListed d source) := by
  rw [includes, configurations, List.flatMap_map, includesListed]
  exact Path.distinct_flatMap_distinct (m.ownersOf source) fun r =>
    r.packages.flatMap fun reference => (d.resolve reference).flatMap ModuleRecord.includes

/-- The directories that are listed for a source, by owner, reference and declaration. -/
theorem mem_includesListed_iff {dir : Path} :
    dir ∈ m.includesListed d source ↔ ∃ owner ∈ m.ownersOf source, ∃ reference ∈ owner.packages,
      ∃ r ∈ d.resolve reference, dir ∈ r.includes := by
  simp only [includesListed, List.mem_flatMap]

/-- The include directories of a source are one list, in the order of its owners, of the packages
that each of them refers to and of the declarations of a package, of which the first of each place
is kept. They are different places, and a directory is one of them if a stored declaration lists it
that some owner refers to. -/
theorem includes_run (changes : List Change) :
    m.includes (.run .empty changes) source =
        Path.distinct (m.includesListed (.run .empty changes) source) ∧
      Path.Different (m.includes (.run .empty changes) source) ∧
      ∀ dir : Path, (∃ p ∈ m.includes (.run .empty changes) source, p.Same dir) ↔
        ∃ owner ∈ m.ownersOf source, ∃ reference ∈ owner.packages,
          ∃ r ∈ (Declarations.run .empty changes).all,
            r.path.tail 2 = Declarations.keyOf reference ∧ ∃ p ∈ r.includes, p.Same dir := by
  refine ⟨includes_eq_distinct m _ source, ?_, fun dir => ?_⟩
  · rw [includes_eq_distinct]
    exact Path.different_distinct _
  · rw [includes_eq_distinct, Path.exists_mem_distinct_same]
    simp only [mem_includesListed_iff, (Declarations.keyed_run changes).mem_resolve_iff]
    constructor
    · rintro ⟨p, ⟨owner, howner, reference, href, r, ⟨hr, hkey⟩, hp⟩, hsame⟩
      exact ⟨owner, howner, reference, href, r, hr, hkey, p, hp, hsame⟩
    · rintro ⟨owner, howner, reference, href, r, hr, hkey, p, hp, hsame⟩
      exact ⟨p, ⟨owner, howner, reference, href, r, ⟨hr, hkey⟩, hp⟩, hsame⟩

end Modules

end FirmwareIndex
