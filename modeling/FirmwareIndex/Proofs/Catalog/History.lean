import FirmwareIndex.Proofs.Catalog.Modules

/-!
# Modules after any operations

Whatever is done to the modules comes down to records that are put in and taken out one after the
other. The history of these changes says all there is to know: the record of a file is the one that
was put in last, unless it has been taken out since, and the owners of a source are the stored
records that list it, the one put in last in front (`Modules.recounts_run`).
-/

set_option autoImplicit false

namespace FirmwareIndex.Modules

/-- A record put in, or the record of a file taken out. -/
inductive Change where
  | inserted (r : ModuleRecord)
  | removed (path : Path)

namespace Change

/-- The file that a change is about. -/
def path : Change → Path
  | inserted r => r.path
  | removed path => path

/-- The record that is put in, if one is. -/
def record? : Change → Option ModuleRecord
  | inserted r => some r
  | removed _ => none

/-- The modules after a change. -/
def apply (m : Modules) : Change → Modules
  | inserted r => m.insert r
  | removed path => m.remove path

/-- The record that is put in lists each of its sources once. -/
def Proper (change : Change) : Prop :=
  ∀ r, change.record? = some r → Path.Different r.sources

end Change

/-- What can be done to the modules. Records come from reading a file. -/
inductive Operation where
  | setFiles (files : List Path)
  | insert (s : Sources) (path : Path)
  | remove (path : Path)
  | forget (path : Path)
  | loadUnder (s : Sources) (root : Path)

namespace Operation

/-- The modules after an operation. -/
def apply (m : Modules) : Operation → Modules
  | setFiles files => m.setFiles files
  | insert s path => m.insert (.ofFile s path)
  | remove path => m.remove path
  | forget path => m.forget path
  | loadUnder s root => m.loadUnder s root

/-- The changes that an operation makes, in order. -/
def changes (m : Modules) : Operation → List Change
  | setFiles _ => []
  | insert s path => [.inserted (.ofFile s path)]
  | remove path => [.removed path]
  | forget path => [.removed path]
  | loadUnder s root => (m.pending root).map fun file => .inserted (.ofFile s file)

end Operation

/-- The modules after some operations. -/
def run (m : Modules) (operations : List Operation) : Modules :=
  operations.foldl Operation.apply m

/-- The changes that some operations make, the last one first. -/
def history (m : Modules) : List Operation → List Change
  | [] => []
  | operation :: rest => history (operation.apply m) rest ++ (operation.changes m).reverse

/-- The record of a file by the last change that is about it. -/
def lastRecord? (past : List Change) (path : Path) : Option ModuleRecord :=
  (past.find? fun change => change.path.Same path).bind Change.record?

/-- The records that were put in, are stored, and list a source: each once, the last one first. -/
def storedOwners (m : Modules) (past : List Change) (source : Path) : List ModuleRecord :=
  ((past.filterMap Change.record?).filter fun r =>
    m.get? r.path = some r ∧ r.owns source).eraseDups

/-- What a history, the last change first, says about the modules. -/
structure Recounts (m : Modules) (past : List Change) : Prop where
  get? : ∀ path, m.get? path = lastRecord? past path
  /-- A source is owned by the stored modules that list it. -/
  mem_ownersOf : ∀ source r, r ∈ m.ownersOf source ↔ m.get? r.path = some r ∧ r.owns source
  ownersOf : ∀ source, m.ownersOf source = storedOwners m past source
  hasOwner : ∀ source, m.hasOwner source ↔ storedOwners m past source ≠ []

/-- It does not matter whether a list is filtered or freed of repetitions first. -/
theorem filter_eraseDups {α : Type} [DecidableEq α] (p : α → Bool) (list : List α) :
    list.eraseDups.filter p = (list.filter p).eraseDups := by
  induction hn : list.length using Nat.strongRecOn generalizing list with
  | _ n ih =>
    cases list with
    | nil => rfl
    | cons a rest =>
      have hshort : (rest.filter fun b => !b == a).length < n := by
        have := List.length_filter_le (fun b => !b == a) rest
        rw [List.length_cons] at hn
        omega
      have hrest := ih _ hshort _ rfl
      rw [List.eraseDups_cons, List.filter_cons, List.filter_cons, hrest, List.filter_filter]
      cases hp : p a with
      | true =>
        rw [if_pos rfl, if_pos rfl, List.eraseDups_cons, List.filter_filter]
        simp only [Bool.and_comm]
      | false =>
        rw [if_neg Bool.false_ne_true, if_neg Bool.false_ne_true]
        congr 1
        refine List.filter_congr fun b _ => ?_
        by_cases hb : b = a <;> simp [hb, hp]

section Step

variable {m : Modules} {past : List Change}

/-- A record that is taken out is no owner any more. -/
theorem storedOwners_removed (path source : Path) :
    storedOwners (m.remove path) (.removed path :: past) source =
      (storedOwners m past source).filter fun other => ¬ other.path.Same path := by
  rw [storedOwners, storedOwners, filter_eraseDups, List.filter_filter]
  congr 1
  refine List.filter_congr fun other _ => ?_
  have hcomm : other.path.Same path ↔ path.Same other.path := ⟨Eq.symm, Eq.symm⟩
  by_cases hsame : path.Same other.path <;> simp [get?_remove, hsame, hcomm]

/-- A record that is put in comes first among the owners of its sources, and replaces an older one.
-/
theorem storedOwners_inserted (r : ModuleRecord) (source : Path) :
    storedOwners (m.insert r) (.inserted r :: past) source =
      if r.owns source then
        r :: (storedOwners m past source).filter fun other => ¬ other.path.Same r.path
      else (storedOwners m past source).filter fun other => ¬ other.path.Same r.path := by
  have hstored : (m.insert r).get? r.path = some r := by
    simp [get?_insert, Path.Same]
  -- any other record of the file is stored no more
  have hother : ∀ other, other ≠ r →
      ((m.insert r).get? other.path = some other ↔
        m.get? other.path = some other ∧ ¬ other.path.Same r.path) := by
    intro other hne
    have hcomm : other.path.Same r.path ↔ r.path.Same other.path := ⟨Eq.symm, Eq.symm⟩
    rw [get?_insert, hcomm]
    by_cases hsame : r.path.Same other.path <;> simp [hsame, Ne.symm hne]
  rw [storedOwners, storedOwners, filter_eraseDups, List.filter_filter, List.filterMap_cons,
    Change.record?, List.filter_cons]
  by_cases howns : r.owns source
  · rw [if_pos howns, if_pos (by simp [hstored, howns]), List.eraseDups_cons, List.filter_filter]
    congr 2
    refine List.filter_congr fun other _ => ?_
    by_cases hr : other = r
    · simp [hr, Path.Same]
    · by_cases hsame : other.path.Same r.path <;> simp [hother other hr, hr, hsame]
  · rw [if_neg howns, if_neg (by simp [howns])]
    congr 1
    refine List.filter_congr fun other _ => ?_
    by_cases hr : other = r
    · simp [hr, howns]
    · by_cases hsame : other.path.Same r.path <;> simp [hother other hr, hsame]

/-- A change keeps records and owners in agreement, if its record lists each source once. -/
theorem Coherent.change (hm : m.Coherent) {change : Change} (hproper : change.Proper) :
    (change.apply m).Coherent := by
  cases change with
  | inserted r => exact hm.insert (hproper r rfl)
  | removed path => exact hm.remove path

/-- After one more change the history goes on with it. -/
theorem Recounts.change (h : Recounts m past) (hm : m.Coherent) {change : Change}
    (hproper : change.Proper) : Recounts (change.apply m) (change :: past) := by
  have howners : ∀ source, (change.apply m).ownersOf source =
      storedOwners (change.apply m) (change :: past) source := by
    intro source
    cases change with
    | inserted r =>
      exact (m.ownersOf_insert (hproper r rfl) source).trans (by
        rw [hm.ownersOf_remove, h.ownersOf]; exact (storedOwners_inserted r source).symm)
    | removed path =>
      exact (hm.ownersOf_remove path source).trans (by
        rw [h.ownersOf]; exact (storedOwners_removed path source).symm)
  refine ⟨fun p => ?_, (hm.change hproper).mem_ownersOf, howners, fun source => ?_⟩
  · rw [lastRecord?, List.find?_cons]
    cases change with
    | inserted r =>
      rw [Change.apply, get?_insert, Change.path]
      by_cases hsame : r.path.Same p
      · simp [hsame, Change.record?]
      · simp [hsame, h.get?, lastRecord?]
    | removed path =>
      rw [Change.apply, get?_remove, Change.path]
      by_cases hsame : path.Same p
      · simp [hsame, Change.record?]
      · simp [hsame, h.get?, lastRecord?]
  · rw [Modules.hasOwner, howners, decide_eq_true_eq]

/-- The changes of an operation are all there is to it, but for the list of known files. -/
theorem Recounts.changes (h : Recounts m past) (hm : m.Coherent) (changes : List Change)
    (hproper : ∀ change ∈ changes, change.Proper) :
    (changes.foldl Change.apply m).Coherent ∧
      Recounts (changes.foldl Change.apply m) (changes.reverse ++ past) := by
  induction changes generalizing m past with
  | nil => exact ⟨hm, h⟩
  | cons change rest ih =>
    have hchange : change.Proper := hproper change (by simp)
    have hrest := ih (h.change hm hchange) (hm.change hchange) fun c hc => hproper c (by simp [hc])
    rwa [List.reverse_cons, List.append_assoc, List.singleton_append]

/-- The records that operations put in list each of their sources once. -/
theorem proper_changes (m : Modules) (operation : Operation) :
    ∀ change ∈ operation.changes m, change.Proper := by
  have hfile : ∀ s path, (Change.inserted (.ofFile s path)).Proper := by
    intro s path r hr
    exact Option.some.inj hr ▸ ModuleRecord.different_sources s path
  intro change hchange
  cases operation with
  | setFiles files => cases hchange
  | insert s path => exact List.mem_singleton.1 hchange ▸ hfile s path
  | remove path => exact List.mem_singleton.1 hchange ▸ fun _ hr => nomatch hr
  | forget path => exact List.mem_singleton.1 hchange ▸ fun _ hr => nomatch hr
  | loadUnder s root =>
    obtain ⟨file, _, rfl⟩ := List.mem_map.1 hchange
    exact hfile s file

/-- An operation makes its changes, on modules whose known files may be others. -/
theorem exists_files_apply (m : Modules) (operation : Operation) :
    ∃ files, operation.apply m =
      ((operation.changes m).foldl Change.apply { m with files := files }) := by
  cases operation with
  | setFiles files => exact ⟨files, rfl⟩
  | insert s path => exact ⟨m.files, rfl⟩
  | remove path => exact ⟨m.files, rfl⟩
  | forget path => exact ⟨_, rfl⟩
  | loadUnder s root =>
    refine ⟨m.files, ?_⟩
    rw [Operation.changes, List.foldl_map]
    rfl

/-- An operation keeps the history and the modules in step. -/
theorem Recounts.operation (h : Recounts m past) (hm : m.Coherent) (operation : Operation) :
    (operation.apply m).Coherent ∧
      Recounts (operation.apply m) ((operation.changes m).reverse ++ past) := by
  obtain ⟨files, hfiles⟩ := exists_files_apply m operation
  have hpast : Recounts { m with files := files } past :=
    ⟨h.get?, h.mem_ownersOf, h.ownersOf, h.hasOwner⟩
  rw [hfiles]
  exact hpast.changes (hm.setFiles files) _ (proper_changes m operation)

end Step

/-- After any operations the modules are as their history tells. -/
theorem recounts_run (operations : List Operation) :
    Recounts (run empty operations) (history empty operations) := by
  have hrun : ∀ (m : Modules) (past : List Change), m.Coherent → Recounts m past →
      Recounts (run m operations) (history m operations ++ past) := by
    induction operations with
    | nil => exact fun m past _ h => h
    | cons operation rest ih =>
      intro m past hm h
      obtain ⟨hnext, hpast⟩ := h.operation hm operation
      rw [history, List.append_assoc]
      exact ih _ _ hnext hpast
  have hempty : Recounts empty [] := by
    refine ⟨?_, ?_, ?_, ?_⟩ <;> simp [get?, ownersOf, hasOwner, storedOwners, lastRecord?, empty]
  simpa using hrun empty [] (coherent_setFiles []) hempty

end FirmwareIndex.Modules
