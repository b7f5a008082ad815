import FirmwareIndex.Catalog.Modules
import FirmwareIndex.Proofs.Path.Distinct

/-!
# Owners of sources

The owners of a source are kept beside the records of the modules. `Modules.Coherent` says that they
agree with the records: a source is owned by the modules that list it, once by each. Adding and
removing records keeps it so, in whatever order that is done. Modules with the same records
therefore have the same owners up to their order (`Modules.Coherent.ownersOf_perm`).
-/

set_option autoImplicit false

namespace FirmwareIndex

namespace ModuleRecord

/-- The record of a file is that of the path it was read from. -/
@[simp]
theorem path_ofFile (s : Sources) (p : Path) : (ofFile s p).path = p := by
  unfold ofFile
  split <;> rfl

/-- A record lists each of its sources once. -/
theorem different_sources (s : Sources) (p : Path) : Path.Different (ofFile s p).sources := by
  unfold ofFile
  split
  · exact Path.different_distinct _
  · exact List.Pairwise.nil

end ModuleRecord

namespace Modules

section Owners

variable {r : ModuleRecord} {sources : List Path}

/-- The owners of a source once a module has been put in front of those of its own sources. -/
theorem getD_foldl_addOwner (h : Path.Different sources) (owners : PathMap (List ModuleRecord))
    (source : Path) :
    (sources.foldl (addOwner r) owners)[source.components]?.getD [] =
      if sources.any fun s => s.Same source then r :: owners[source.components]?.getD []
      else owners[source.components]?.getD [] := by
  induction sources generalizing owners with
  | nil => rfl
  | cons s rest ih =>
    obtain ⟨hs, hrest⟩ := List.pairwise_cons.1 h
    rw [List.foldl_cons, ih hrest, addOwner, Std.ExtTreeMap.getElem?_alter]
    by_cases hsame : s.Same source
    · have hkey : s.components = source.components := hsame
      have hany : (rest.any fun s => s.Same source) = false :=
        List.any_eq_false.2 fun q hq => by
          simpa using fun h : q.Same source => hs q hq (hkey.trans h.symm)
      simp [hsame, hkey, hany]
    · have hkey : ¬ s.components = source.components := hsame
      simp [hsame, hkey]

/-- The owners of a source once a module has been taken from those of its own sources. -/
theorem getD_foldl_dropOwner (path : Path) (owners : PathMap (List ModuleRecord))
    (source : Path) :
    (sources.foldl (dropOwner path) owners)[source.components]?.getD [] =
      if sources.any fun s => s.Same source then
        (owners[source.components]?.getD []).filter fun r => ¬ r.path.Same path
      else owners[source.components]?.getD [] := by
  have hdrop : ∀ (owners : PathMap (List ModuleRecord)) (s : Path),
      (dropOwner path owners s)[source.components]?.getD [] =
        if s.Same source then
          (owners[source.components]?.getD []).filter fun r => ¬ r.path.Same path
        else owners[source.components]?.getD [] := by
    intro owners s
    rw [dropOwner, Std.ExtTreeMap.getElem?_alter]
    by_cases hkey : s.components = source.components
    · simp only [Path.Same, hkey, Std.ReflCmp.compare_self, ↓reduceIte]
      split <;> simp_all
    · simp [Path.Same, hkey]
  induction sources generalizing owners with
  | nil => rfl
  | cons s rest ih =>
    rw [List.foldl_cons, ih, hdrop]
    by_cases hsame : s.Same source <;> simp [hsame]

end Owners

/-- Records and owners agree. -/
structure Coherent (m : Modules) : Prop where
  /-- A record stands under its place. -/
  keyed : ∀ (r : ModuleRecord) (k : List Component), m.records[k]? = some r → r.path.components = k
  /-- A record lists each of its sources once. -/
  sources : ∀ (r : ModuleRecord) (k : List Component), m.records[k]? = some r → Path.Different r.sources
  /-- No module owns a source twice. -/
  nodup : ∀ source, (m.ownersOf source).Nodup
  /-- A source is owned by the modules that list it. -/
  mem_ownersOf : ∀ source r, r ∈ m.ownersOf source ↔ m.get? r.path = some r ∧ r.owns source

/-- With no records, there is nothing to agree about. -/
theorem coherent_setFiles (files : List Path) : (empty.setFiles files).Coherent where
  keyed := by simp [setFiles, empty]
  sources := by simp [setFiles, empty]
  nodup := by simp [ownersOf, setFiles, empty]
  mem_ownersOf := by simp [ownersOf, get?, setFiles, empty]

/-- Only the record of the file is removed. -/
@[simp]
theorem records_remove (m : Modules) (path : Path) :
    (m.remove path).records = m.records.erase path.components := by
  unfold remove
  split
  · rename_i hnone
    apply Std.ExtTreeMap.ext_getElem?
    intro k
    rw [Std.ExtTreeMap.getElem?_erase]
    split
    · rename_i hk
      rw [← Std.LawfulEqCmp.compare_eq_iff_eq.1 hk]
      exact hnone
    · rfl
  · rfl

/-- Removing a record leaves the file known. -/
@[simp]
theorem files_remove (m : Modules) (path : Path) : (m.remove path).files = m.files := by
  unfold remove
  split <;> rfl

/-- Only the record of the file is put in. -/
@[simp]
theorem records_insert (m : Modules) (r : ModuleRecord) :
    (m.insert r).records = m.records.insert r.path.components r := by
  apply Std.ExtTreeMap.ext_getElem?
  intro k
  simp only [insert, records_remove, Std.ExtTreeMap.getElem?_insert, Std.ExtTreeMap.getElem?_erase]
  split <;> rfl

/-- The file of a record becomes known. -/
@[simp]
theorem files_insert (m : Modules) (r : ModuleRecord) :
    (m.insert r).files = Path.addNew m.files r.path := by
  simp [insert]

/-- A record is found by any spelling of its file. -/
theorem get?_congr (m : Modules) {p q : Path} (h : p.Same q) : m.get? p = m.get? q := by
  have hkey : p.components = q.components := h
  rw [get?, get?, hkey]

/-- What is found when a record has been removed. -/
theorem get?_remove (m : Modules) (path p : Path) :
    (m.remove path).get? p = if path.Same p then none else m.get? p := by
  rw [get?, records_remove, Std.ExtTreeMap.getElem?_erase, get?]
  by_cases hkey : path.components = p.components <;> simp [Path.Same, hkey]

/-- What is found when a record has been put in. -/
theorem get?_insert (m : Modules) (r : ModuleRecord) (p : Path) :
    (m.insert r).get? p = if r.path.Same p then some r else m.get? p := by
  rw [get?, records_insert, Std.ExtTreeMap.getElem?_insert, get?]
  by_cases hkey : r.path.components = p.components <;> simp [Path.Same, hkey]

/-- The records that are left are those of other files. -/
theorem get?_remove_eq_some {m : Modules} {path p : Path} {r : ModuleRecord} :
    (m.remove path).get? p = some r ↔ m.get? p = some r ∧ ¬ path.Same p := by
  rw [get?_remove]
  by_cases hsame : path.Same p <;> simp [hsame]

/-- The files below a directory are the known ones that lie there. -/
theorem mem_filesUnder {m : Modules} {root file : Path} :
    file ∈ m.filesUnder root ↔ file ∈ m.files ∧ file.isUnder root := by
  rw [filesUnder, List.mem_filter]

/-- The files that are to be read are those without a record. -/
theorem mem_pending {m : Modules} {root file : Path} :
    file ∈ m.pending root ↔ file ∈ m.filesUnder root ∧ m.get? file = none := by
  rw [pending, List.mem_filter, Option.isNone_iff_eq_none]

/-- The files that are to be read are known. -/
theorem mem_files_of_mem_pending {m : Modules} {root file : Path} (h : file ∈ m.pending root) :
    file ∈ m.files :=
  (mem_filesUnder.1 (mem_pending.1 h).1).1

/-- A new record comes first among the owners of its sources, and what the file had owned before it
owns no more. -/
theorem ownersOf_insert (m : Modules) {r : ModuleRecord} (hr : Path.Different r.sources)
    (source : Path) :
    (m.insert r).ownersOf source =
      if r.owns source then r :: (m.remove r.path).ownersOf source
      else (m.remove r.path).ownersOf source :=
  getD_foldl_addOwner hr _ source

namespace Coherent

variable {m m' : Modules}

/-- The owners of a source that are left when a file is removed, in their order. -/
theorem ownersOf_remove (h : m.Coherent) (path source : Path) :
    (m.remove path).ownersOf source =
      (m.ownersOf source).filter fun r => ¬ r.path.Same path := by
  -- a module that is not taken off the list was not on it
  have hkeep : (∀ r, m.get? path = some r → ¬ r.owns source) →
      m.ownersOf source = (m.ownersOf source).filter fun r => ¬ r.path.Same path := by
    intro hnone
    refine (List.filter_eq_self.2 fun r hr => ?_).symm
    obtain ⟨hget, howns⟩ := (h.mem_ownersOf source r).1 hr
    exact decide_eq_true fun hsame : r.path.Same path =>
      hnone r (get?_congr m hsame ▸ hget) howns
  unfold remove
  split
  · rename_i hnone
    exact hkeep fun r hr => by rw [hnone] at hr; cases hr
  · rename_i old hold
    simp only [ownersOf, getD_foldl_dropOwner]
    split
    · rfl
    · rename_i howns
      refine hkeep fun r hr => ?_
      rw [hold, Option.some.injEq] at hr
      exact hr ▸ howns

/-- Only the removed module ceases to own its sources. -/
theorem mem_ownersOf_remove (h : m.Coherent) (path source : Path) (r : ModuleRecord) :
    r ∈ (m.remove path).ownersOf source ↔ r ∈ m.ownersOf source ∧ ¬ r.path.Same path := by
  rw [h.ownersOf_remove, List.mem_filter, decide_eq_true_eq]

/-- Removing a record keeps records and owners in agreement. -/
theorem remove (h : m.Coherent) (path : Path) : (m.remove path).Coherent where
  keyed r k hk := by
    rw [records_remove, Std.ExtTreeMap.getElem?_erase] at hk
    split at hk
    · cases hk
    · exact h.keyed r k hk
  sources r k hk := by
    rw [records_remove, Std.ExtTreeMap.getElem?_erase] at hk
    split at hk
    · cases hk
    · exact h.sources r k hk
  nodup source := by
    rw [h.ownersOf_remove]
    exact (h.nodup source).filter _
  mem_ownersOf source r := by
    have hcomm : r.path.Same path ↔ path.Same r.path := ⟨Eq.symm, Eq.symm⟩
    rw [h.mem_ownersOf_remove, h.mem_ownersOf, get?_remove, hcomm]
    by_cases hsame : path.Same r.path <;> simp [hsame]

/-- The list of known files does not matter to records and owners. -/
theorem setFiles (h : m.Coherent) (files : List Path) : (m.setFiles files).Coherent :=
  ⟨h.keyed, h.sources, h.nodup, h.mem_ownersOf⟩

/-- Forgetting a file keeps records and owners in agreement. -/
theorem forget (h : m.Coherent) (path : Path) : (m.forget path).Coherent :=
  (h.setFiles _).remove path

/-- Putting in a record keeps records and owners in agreement, if it lists each source once. -/
theorem insert (h : m.Coherent) {r : ModuleRecord} (hr : Path.Different r.sources) :
    (m.insert r).Coherent := by
  have hm := h.remove r.path
  have howners : ∀ source, (m.insert r).ownersOf source =
      if r.owns source then r :: (m.remove r.path).ownersOf source
      else (m.remove r.path).ownersOf source := m.ownersOf_insert hr
  refine ⟨fun r' k hk => ?_, fun r' k hk => ?_, fun source => ?_, fun source r' => ?_⟩
  · rw [records_insert, Std.ExtTreeMap.getElem?_insert] at hk
    split at hk
    · rename_i hkey
      obtain rfl : r = r' := Option.some.inj hk
      exact Std.LawfulEqCmp.compare_eq_iff_eq.1 hkey
    · exact h.keyed r' k hk
  · rw [records_insert, Std.ExtTreeMap.getElem?_insert] at hk
    split at hk
    · exact Option.some.inj hk ▸ hr
    · exact h.sources r' k hk
  · rw [howners]
    split
    · refine List.nodup_cons.2 ⟨fun hmem => ?_, hm.nodup source⟩
      exact ((h.mem_ownersOf_remove r.path source r).1 hmem).2 rfl
    · exact hm.nodup source
  · have hold : r'.path.Same r.path → r' ∉ (m.remove r.path).ownersOf source := by
      intro hsame hmem
      exact ((h.mem_ownersOf_remove r.path source r').1 hmem).2 hsame
    rw [howners, get?_insert]
    by_cases hsame : r.path.Same r'.path
    · by_cases heq : r = r'
      · subst heq
        by_cases howns : r.owns source <;> simp [howns, hsame, hold]
      · have hmem := hold (Eq.symm hsame)
        by_cases howns : r.owns source <;> simp [howns, hsame, hmem, heq, Ne.symm heq]
    · have hne : r' ≠ r := fun heq => hsame (heq ▸ rfl)
      have hget : (m.remove r.path).get? r'.path = m.get? r'.path := by
        rw [get?_remove, if_neg hsame]
      rw [if_neg hsame, ← hget, ← hm.mem_ownersOf]
      by_cases howns : r.owns source <;> simp [howns, hne]

/-- Modules with the same records have the same owners up to their order. -/
theorem ownersOf_perm (h : m.Coherent) (h' : m'.Coherent) (hrecords : m.records = m'.records)
    (source : Path) : (m.ownersOf source).Perm (m'.ownersOf source) := by
  refine (List.perm_ext_iff_of_nodup (h.nodup source) (h'.nodup source)).2 ?_
  intro r
  rw [h.mem_ownersOf, h'.mem_ownersOf, get?, get?, hrecords]

end Coherent

/-- The modules of some files, all of which have been read. -/
structure Holds (m : Modules) (s : Sources) (files : List Path) : Prop where
  known : m.files.Perm files
  records : m.records = Path.table (.ofFile s) files
  coherent : m.Coherent

namespace Holds

variable {m : Modules} {s s' : Sources} {files files' : List Path} {p : Path}

/-- The modules of files that read the same are the same. -/
theorem congr (h : m.Holds s files)
    (hread : ∀ q ∈ files, ModuleRecord.ofFile s' q = ModuleRecord.ofFile s q) : m.Holds s' files where
  known := h.known
  records := by rw [h.records, Path.table_congr hread]
  coherent := h.coherent

/-- Reading a file of the list, known or new, puts its record in the place of the older one. -/
theorem insert (h : m.Holds s files) (halike : Path.AlikeExcept p files files') (hp : p ∈ files')
    (hread : ∀ q ∈ files, q ≠ p → ModuleRecord.ofFile s' q = ModuleRecord.ofFile s q) :
    (m.insert (.ofFile s' p)).Holds s' files' where
  known := by
    rw [files_insert, ModuleRecord.path_ofFile]
    have hdiff : Path.Different m.files :=
      (h.known.pairwise_iff fun hdiff hsame => hdiff hsame.symm).2 halike.different
    have hnodup : (Path.addNew m.files p).Nodup := (hdiff.addNew p).nodup
    refine (List.perm_ext_iff_of_nodup hnodup halike.different'.nodup).2 ?_
    intro q
    by_cases hold : p ∈ files
    · rw [Path.addNew_eq_self (h.known.mem_iff.2 hold) rfl, h.known.mem_iff,
        halike.mem_iff (iff_of_true hp hold)]
    · have hnone : ∀ q ∈ m.files, ¬ q.Same p := by
        intro q hq hsame
        exact hold (halike.same q (h.known.mem_iff.1 hq) hsame ▸ h.known.mem_iff.1 hq)
      rw [Path.addNew_eq_append hnone, List.mem_append, List.mem_singleton, h.known.mem_iff]
      by_cases hq : q = p
      · simp [hq, hp]
      · simp [hq, halike.mem q hq]
  records := by
    rw [records_insert, ModuleRecord.path_ofFile, h.records, halike.table_insert hp hread]
  coherent := h.coherent.insert (ModuleRecord.different_sources s' p)

/-- Without a file that is gone, the modules are those of the other files. -/
theorem forget (h : m.Holds s files) (halike : Path.AlikeExcept p files files') (hp : p ∉ files')
    (hread : ∀ q ∈ files, q ≠ p → ModuleRecord.ofFile s' q = ModuleRecord.ofFile s q) :
    (m.forget p).Holds s' files' where
  known := by
    have hforget : (m.forget p).files = m.files.filter fun file => ¬ file.Same p := by
      rw [Modules.forget, files_remove]
    rw [hforget]
    refine (List.perm_ext_iff_of_nodup
      ((h.known.nodup_iff.2 halike.different.nodup).filter _) halike.different'.nodup).2 fun q => ?_
    rw [List.mem_filter, decide_eq_true_eq, h.known.mem_iff]
    by_cases hq : q = p
    · simp [hq, hp, Path.Same]
    · rw [halike.mem q hq]
      exact and_iff_left_of_imp fun hmem hsame => hq (halike.same q hmem hsame)
  records := by
    rw [Modules.forget, records_remove]
    exact (congrArg (fun m => m.erase p.components) h.records).trans (halike.table_erase hp hread)
  coherent := h.coherent.forget p

end Holds

end Modules

end FirmwareIndex
