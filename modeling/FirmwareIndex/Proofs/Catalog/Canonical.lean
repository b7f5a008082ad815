import FirmwareIndex.Proofs.Catalog.Includes
import FirmwareIndex.Proofs.Catalog.Mappings
import FirmwareIndex.Proofs.Path.Canonical
import FirmwareIndex.Proofs.Tree.Spelled

/-!
# Stores of two spellings of a file

A record has the paths of its sources and its include directories, all of them spelled from the path
of its file. Read from two spellings of the file, it is the same record but for these spellings
(`ModuleRecord.canonical_ofFile`). The stores look at places alone, so they make the same of both
records: modules (`Modules.respells_insert`), declarations, provided that both paths end alike
(`Declarations.respells_insert`), and libraries (`Libraries.respells_foldl_add`).
-/

set_option autoImplicit false

namespace FirmwareIndex

/-! ## Records -/

/-- The record with the canonical spellings of its paths. -/
def ModuleRecord.canonical (r : ModuleRecord) : ModuleRecord :=
  { r with
    path := r.path.canonical
    directory := r.directory.canonical
    sources := r.sources.map Path.canonical
    includes := r.includes.map Path.canonical }

namespace ModuleRecord

variable {r r' : ModuleRecord} {p q : Path}

/-- Records of a file in two spellings are the same but for spellings. -/
theorem canonical_ofSections (h : p.Same q) (sections : Sections) :
    (ofSections p sections).canonical = (ofSections q sections).canonical := by
  have hjoin : ∀ reference : Text, (p.directory.join reference).canonical =
      (q.directory.join reference).canonical := fun reference =>
    Path.canonical_congr (Path.join_congr (Path.directory_congr h) reference)
  simp only [canonical, ofSections, Path.distinct_map_canonical, List.map_map, Function.comp_def,
    hjoin, Path.canonical_congr h, Path.canonical_congr (Path.directory_congr h)]

/-- The record of a file is the same for all spellings of the file that are read alike. -/
theorem canonical_ofFile {s : Sources} (h : p.Same q) (hread : s.read p = s.read q) :
    (ofFile s p).canonical = (ofFile s q).canonical := by
  unfold ofFile
  rw [hread]
  split
  · exact canonical_ofSections h _
  · simp only [canonical, empty, Path.canonical_congr h,
      Path.canonical_congr (Path.directory_congr h)]

/-- Records that are the same but for spellings are of one file. -/
theorem path_of_canonical (h : r.canonical = r'.canonical) : r.path.Same r'.path := by
  simp only [canonical, mk.injEq] at h
  exact Path.canonical_eq_iff.1 h.1

/-- Records that are the same but for spellings are in one directory. -/
theorem directory_of_canonical (h : r.canonical = r'.canonical) :
    r.directory.Same r'.directory := by
  simp only [canonical, mk.injEq] at h
  exact Path.canonical_eq_iff.1 h.2.1

/-- Whether a record lists a source is seen in its canonical spelling. -/
theorem owns_of_canonical (h : r.canonical = r'.canonical) (source : Path) :
    r.owns source = r'.owns source := by
  have hsources : r.sources.map Path.canonical = r'.sources.map Path.canonical := by
    simp only [canonical, mk.injEq] at h
    exact h.2.2.2.1
  rw [owns, owns, Path.any_same_eq_contains, Path.any_same_eq_contains, hsources]

/-- The records that are not those of a file are seen in their canonical spellings. -/
theorem map_canonical_filter (h : p.Same q) (records : List ModuleRecord) :
    (records.filter fun r => ¬ r.path.Same p).map canonical =
      (records.filter fun r => ¬ r.path.Same q).map canonical := by
  simp only [decide_not, Path.decide_same_congr h]

end ModuleRecord

/-! ## Modules and declarations -/

/-- Two stores have the same modules, spelled in two ways. -/
structure Modules.Respells (m m' : Modules) : Prop where
  files : m.files.map Path.canonical = m'.files.map Path.canonical
  records : ∀ key : List Component, m.records[key]?.map ModuleRecord.canonical =
    m'.records[key]?.map ModuleRecord.canonical
  owners : ∀ source, (m.ownersOf source).map ModuleRecord.canonical =
    (m'.ownersOf source).map ModuleRecord.canonical

namespace Modules

variable {m m' : Modules} {r r' : ModuleRecord}

/-- Every store has its own modules. -/
theorem Respells.refl (m : Modules) : m.Respells m :=
  ⟨rfl, fun _ => rfl, fun _ => rfl⟩

/-- A module is forgotten in any of its spellings. -/
theorem forget_congr {p q : Path} (h : p.Same q) (m : Modules) : m.forget p = m.forget q := by
  have hkey : p.components = q.components := h
  have hdrop : dropOwner p = dropOwner q := by
    funext owners source
    simp only [dropOwner, decide_not, Path.decide_same_congr h]
  simp only [forget, remove, get?, decide_not, Path.decide_same_congr h, hkey, hdrop]

/-- The records in their order are the same. -/
theorem Respells.values (h : m.Respells m') :
    m.records.values.map ModuleRecord.canonical = m'.records.values.map ModuleRecord.canonical := by
  refine List.forall₂_eq_eq_eq ▸ List.forall₂_map_left_iff.2 (List.forall₂_map_right_iff.2 ?_)
  refine forall₂_values fun key => ?_
  have hkey := h.records key
  generalize m.records[key]? = entry, m'.records[key]? = entry' at hkey
  cases entry <;> cases entry' <;> simp_all

/-- A record that is spelled in two ways is put into a store of modules. -/
theorem respells_insert (hm : m.Coherent) (h : r.canonical = r'.canonical)
    (hr : Path.Different r.sources) (hr' : Path.Different r'.sources) :
    (m.insert r).Respells (m.insert r') := by
  have hsame := ModuleRecord.path_of_canonical h
  have hkey : r.path.components = r'.path.components := hsame
  refine ⟨?_, fun key => ?_, fun source => ?_⟩
  · rw [files_insert, files_insert, Path.addNew_map_canonical, Path.addNew_map_canonical,
      Path.canonical_congr hsame]
  · rw [records_insert, records_insert, Std.ExtTreeMap.getElem?_insert,
      Std.ExtTreeMap.getElem?_insert, hkey]
    split
    · exact congrArg some h
    · rfl
  · have hrest : ((m.remove r.path).ownersOf source).map ModuleRecord.canonical =
        ((m.remove r'.path).ownersOf source).map ModuleRecord.canonical := by
      rw [hm.ownersOf_remove, hm.ownersOf_remove, ModuleRecord.map_canonical_filter hsame]
    rw [ownersOf_insert m hr, ownersOf_insert m hr', ModuleRecord.owns_of_canonical h]
    split
    · rw [List.map_cons, List.map_cons, h, hrest]
    · exact hrest

end Modules

/-- Two stores have the same declarations under each key, spelled in two ways. -/
def Declarations.Respells (d d' : Declarations) : Prop :=
  ∀ key, (d.group key).map ModuleRecord.canonical = (d'.group key).map ModuleRecord.canonical

namespace Declarations

variable {d d' : Declarations} {m m' : Modules} {r r' : ModuleRecord}

/-- A declaration is put into its group, if both of its spellings end alike. -/
theorem respells_insert (h : r.canonical = r'.canonical) (htail : r.path.tail 2 = r'.path.tail 2) :
    (d.insert r).Respells (d.insert r') := by
  intro key
  rw [group_insert, group_insert, htail]
  split
  · rw [List.map_cons, List.map_cons, h,
      ModuleRecord.map_canonical_filter (ModuleRecord.path_of_canonical h)]
  · rfl

/-- The include directories of a source are the same if its owners and the declarations are. -/
theorem Respells.includes (h : d.Respells d') (hm : m.Respells m') (source : Path) :
    (m.includes d source).map Path.canonical = (m'.includes d' source).map Path.canonical := by
  have hflat : ∀ records : List ModuleRecord,
      (records.flatMap ModuleRecord.includes).map Path.canonical =
        (records.map ModuleRecord.canonical).flatMap ModuleRecord.includes := by
    intro records
    rw [List.map_flatMap, List.flatMap_map]
    rfl
  have hlisted : ∀ (m : Modules) (d : Declarations),
      (m.includesListed d source).map Path.canonical =
        ((m.ownersOf source).map ModuleRecord.canonical).flatMap fun r =>
          r.packages.flatMap fun reference =>
            ((d.resolve reference).map ModuleRecord.canonical).flatMap ModuleRecord.includes := by
    intro m d
    simp only [Modules.includesListed, List.map_flatMap, List.flatMap_map, ← hflat]
    rfl
  have hresolve : ∀ reference, (d.resolve reference).map ModuleRecord.canonical =
      (d'.resolve reference).map ModuleRecord.canonical := fun reference => h _
  rw [Modules.includes_eq_distinct, Modules.includes_eq_distinct, Path.distinct_map_canonical,
    Path.distinct_map_canonical, hlisted, hlisted, hm.owners]
  simp only [hresolve]

end Declarations

/-! ## Libraries -/

/-- The library with the canonical spellings of its paths. -/
def Library.canonical (l : Library) : Library :=
  { l with path := l.path.canonical, module := l.module.map ModuleRecord.canonical }

/-- Two stores have the same library for each class and path, spelled in two ways. -/
def Libraries.Respells (ls ls' : Libraries) : Prop :=
  ∀ className key, (ls.keyed? className key).map Library.canonical =
    (ls'.keyed? className key).map Library.canonical

/-- The class and the place of a library do not depend on spellings. -/
theorem Library.isAt_canonical (l : Library) (className : Text) (key : List Component) :
    l.canonical.isAt className key = l.isAt className key := by
  rw [Library.isAt, Library.isAt, Library.canonical, Path.components_canonical]

namespace Libraries

variable {ls ls' : Libraries} {l l' : Library} {list list' : List Library}

/-- What two stores learn of one library is the same but for spellings. -/
theorem Respells.learned (h : ls.Respells ls') (hl : l.canonical = l'.canonical) :
    (ls.learned l).canonical = (ls'.learned l').canonical := by
  have hmerged : ∀ new old : Library,
      (new.mergedOver old).canonical = new.canonical.mergedOver old.canonical := by
    intro new old
    cases hnew : new.module <;> simp [Library.mergedOver, Library.canonical, hnew]
  have hfields := hl
  simp only [Library.canonical, Library.mk.injEq] at hfields
  have hkey : l.path.components = l'.path.components := Path.canonical_eq_iff.1 hfields.2.1
  have hold := h l.className l.path.components
  have hget : ∀ (ls : Libraries) (l : Library),
      ls.get? l.className l.path = ls.keyed? l.className l.path.components := fun _ _ => rfl
  rw [Libraries.learned, Libraries.learned, hget, hget, ← hfields.1, ← hkey]
  generalize ls.keyed? l.className l.path.components = old,
    ls'.keyed? l.className l.path.components = old' at hold
  cases old <;> cases old'
  · exact hl
  · cases hold
  · cases hold
  · rename_i old old'
    dsimp only
    rw [hmerged, hmerged, hl, Option.some.inj hold]

/-- Stores that are the same but for spellings stay so when one library is added. -/
theorem Respells.add (h : ls.Respells ls') (hl : l.canonical = l'.canonical) :
    (ls.add l).Respells (ls'.add l') := by
  intro className key
  rw [keyed?_add, keyed?_add, ← l.isAt_canonical, hl, l'.isAt_canonical]
  split
  · exact congrArg some (h.learned hl)
  · exact h className key

/-- The same libraries are learned, one after the other. -/
theorem respells_foldl_add (h : ls.Respells ls')
    (hlist : list.map Library.canonical = list'.map Library.canonical) :
    (list.foldl Libraries.add ls).Respells (list'.foldl Libraries.add ls') := by
  induction list generalizing ls ls' list' with
  | nil =>
    obtain rfl := List.map_eq_nil_iff.1 hlist.symm
    exact h
  | cons l rest ih =>
    obtain ⟨l', rest', rfl, hl, hrest⟩ := List.map_eq_cons_iff.1 hlist.symm
    rw [List.foldl_cons, List.foldl_cons]
    exact ih (h.add hl.symm) hrest.symm

/-- The libraries of a class in their order are the same. -/
theorem Respells.implementations (h : ls.Respells ls') (className : Text) :
    (ls.implementations className).map Library.canonical =
      (ls'.implementations className).map Library.canonical := by
  refine List.forall₂_eq_eq_eq ▸ List.forall₂_map_left_iff.2 (List.forall₂_map_right_iff.2 ?_)
  refine forall₂_implementations fun key => ?_
  have hkey := h className key
  generalize ls.keyed? className key = entry, ls'.keyed? className key = entry' at hkey
  cases entry <;> cases entry' <;> simp_all

/-- A module declares the same libraries, however it is spelled. -/
theorem map_canonical_rolesOf {r r' : ModuleRecord} (h : r.canonical = r'.canonical) :
    (rolesOf r).map Library.canonical = (rolesOf r').map Library.canonical := by
  have hroles : r.libraryRoles = r'.libraryRoles := by
    simp only [ModuleRecord.canonical, ModuleRecord.mk.injEq] at h
    exact h.2.2.2.2.2.2.2.2.2.2.2.2
  simp only [rolesOf, List.map_map, hroles]
  refine List.map_congr_left fun role _ => ?_
  simp only [Function.comp_apply, Library.canonical, Option.map_some, h,
    Path.canonical_congr (ModuleRecord.path_of_canonical h)]

end Libraries

end FirmwareIndex
