import FirmwareIndex.Proofs.Catalog.History
import FirmwareIndex.Proofs.Catalog.Mentions
import FirmwareIndex.Proofs.Path.Tail

/-!
# Declarations after any changes

A declaration is known by the place of its file, but it stands in the group of the end of its path.
As long as the paths of the records are written without `.` pieces and backslashes, files that are
the same place have the same end, so that the groups are the records that the history of the changes
leaves, divided by the ends of their paths (`Declarations.Divides`). This is all that is needed to
say what the declarations are after any changes, what a reference finds and what a removal takes
out (`Declarations.accounts_run`).
-/

set_option autoImplicit false

namespace FirmwareIndex.Declarations

open Modules (Change)

/-- The declarations after a record was put in or the record of a file was taken out. -/
def change (d : Declarations) : Change → Declarations
  | .inserted r => d.insert r
  | .removed path => d.remove path

/-- The declarations after some changes. -/
def run (d : Declarations) (changes : List Change) : Declarations :=
  changes.foldl change d

/-- The record is that of the file of a path, and stands in the group of the path. -/
def Answers (r : ModuleRecord) (path : Path) : Prop :=
  r.path.Same path ∧ r.path.tail 2 = path.tail 2

instance (r : ModuleRecord) (path : Path) : Decidable (Answers r path) :=
  inferInstanceAs (Decidable (_ ∧ _))

/-- The records that a history leaves, the last change of which comes first. The record that was put
in last comes first. -/
def remaining : List Change → List ModuleRecord
  | [] => []
  | .inserted r :: past => r :: (remaining past).filter fun other => ¬ other.path.Same r.path
  | .removed path :: past => (remaining past).filter fun r => ¬ Answers r path

/-- What a history, the last change first, says about the declarations. -/
structure Accounts (d : Declarations) (past : List Change) : Prop where
  all : d.all.Perm (remaining past)
  /-- A file has one declaration. -/
  different : d.all.Pairwise fun r other => ¬ r.path.Same other.path
  /-- A reference finds the declarations with its last two pieces, the newest first. -/
  resolve : ∀ reference : Text, d.resolve reference =
    (remaining past).filter fun r => r.path.componentPieces.rtake 2 =
      (Text.pieces (Text.slashed (Text.trim reference))).rtake 2
  /-- A removal takes out the declaration of the file, if there is one. -/
  find? : ∀ (path : Path) (r : ModuleRecord), path.Undotted →
    (d.find? path = some r ↔ r ∈ d.all ∧ r.path.Same path)
  /-- However the path is written, only the group of its end is looked through. -/
  find?_group : ∀ (path : Path) (r : ModuleRecord),
    d.find? path = some r ↔ r ∈ d.all ∧ Answers r path
  /-- All others stay. -/
  all_remove : ∀ path : Path,
    (d.remove path).all.Perm (d.all.filter fun r => d.find? path ≠ some r)
  /-- They also stay in their order. -/
  resolve_remove : ∀ (path : Path) (reference : Text),
    (d.remove path).resolve reference =
      (d.resolve reference).filter fun r => d.find? path ≠ some r
  isEmpty : d.isEmpty = true ↔ d.size = 0

/-- The groups are some records, divided by the ends of their paths, in the order of the records. -/
structure Divides (d : Declarations) (records : List ModuleRecord) : Prop where
  undotted : ∀ r ∈ records, r.path.Undotted
  different : records.Pairwise fun r other => ¬ r.path.Same other.path
  group : ∀ key, d.group key = records.filter fun r => r.path.tail 2 = key
  nonempty : ∀ key : Text, d.groups[key]? ≠ some []

/-- No groups are no records, divided. -/
theorem divides_empty : empty.Divides [] where
  undotted := by simp
  different := .nil
  group := by simp [Declarations.group, empty]
  nonempty := by simp [empty]

/-- Records that are each of another file are listed once each. -/
theorem nodup_of_different {records : List ModuleRecord}
    (h : records.Pairwise fun r other => ¬ r.path.Same other.path) : records.Nodup :=
  List.nodup_iff_pairwise_ne.2 <| h.imp fun {r other} hne (heq : r = other) =>
    hne (congrArg (fun r : ModuleRecord => r.path.components) heq)

/-- If no file has two declarations in a group, or declarations in two groups, then no file has two
declarations. -/
theorem different_all_of_groups {d : Declarations}
    (hgroup : ∀ key, (d.group key).Pairwise fun r other => ¬ r.path.Same other.path)
    (hcross : ∀ key key', ∀ r ∈ d.group key, ∀ other ∈ d.group key',
      r.path.Same other.path → key = key') :
    d.all.Pairwise fun r other => ¬ r.path.Same other.path := by
  rw [Declarations.all, values_eq_map_snd, List.pairwise_flatten]
  have hget : ∀ entry ∈ d.groups.toList, d.group entry.1 = entry.2 := by
    intro entry hentry
    rw [group, Std.ExtTreeMap.mem_toList_iff_getElem?_eq_some.1 hentry, Option.getD_some]
  constructor
  · intro list hlist
    obtain ⟨entry, hentry, rfl⟩ := List.mem_map.1 hlist
    rw [← hget entry hentry]
    exact hgroup entry.1
  · rw [List.pairwise_map]
    refine Std.ExtTreeMap.ordered_keys_toList.imp_of_mem fun {a b} ha hb hlt r hr other hother => ?_
    rw [← hget a ha] at hr
    rw [← hget b hb] at hother
    intro hsame
    have hkeys : a.1 = b.1 := hcross a.1 b.1 r hr other hother hsame
    simp [hkeys] at hlt

namespace Divides

variable {d : Declarations} {records : List ModuleRecord} {r : ModuleRecord}

/-- All declarations are the records, and no others. -/
theorem mem_all_iff (h : d.Divides records) : r ∈ d.all ↔ r ∈ records := by
  rw [Declarations.mem_all_iff]
  simp [h.group]

/-- No file has two declarations. -/
theorem different_all (h : d.Divides records) :
    d.all.Pairwise fun r other => ¬ r.path.Same other.path := by
  have hmem : ∀ key, ∀ r ∈ d.group key, r ∈ records ∧ r.path.tail 2 = key := by
    intro key r hr
    rw [h.group, List.mem_filter, decide_eq_true_eq] at hr
    exact hr
  refine different_all_of_groups (fun key => ?_) fun key key' r hr other hother hsame => ?_
  · rw [h.group]
    exact h.different.filter _
  · -- records of one file would stand in one group
    obtain ⟨hr, hkey⟩ := hmem key r hr
    obtain ⟨hother, hkey'⟩ := hmem key' other hother
    rw [← hkey, ← hkey', (h.undotted r hr).tail_eq_of_same (h.undotted other hother) hsame]

/-- All declarations are the records, each as often. -/
theorem perm_all (h : d.Divides records) : d.all.Perm records :=
  (List.perm_ext_iff_of_nodup (nodup_of_different h.different_all)
    (nodup_of_different h.different)).2 fun _ => h.mem_all_iff

/-- A reference means the records whose paths end in its last two pieces, in their order. -/
theorem resolve (h : d.Divides records) (reference : Text) :
    d.resolve reference = records.filter fun r => r.path.componentPieces.rtake 2 =
      (Text.pieces (Text.slashed (Text.trim reference))).rtake 2 := by
  rw [Declarations.resolve, h.group]
  refine List.filter_congr fun r hr => ?_
  rw [keyOf, decide_eq_decide, Path.tail_eq_tail_iff, (h.undotted r hr).pieces_normalized]
  rfl

/-- A file has one record. -/
theorem eq_of_same (h : d.Divides records) {other : ModuleRecord} (hr : r ∈ records)
    (hother : other ∈ records) (hsame : r.path.Same other.path) : r = other := by
  by_contra hne
  have : Std.Symm fun r other : ModuleRecord => ¬ r.path.Same other.path :=
    ⟨fun _ _ hne hsame => hne (Eq.symm hsame)⟩
  exact h.different.forall hr hother hne hsame

/-- A path is answered by the record of its file that stands in its group. -/
theorem find?_eq_some_iff (h : d.Divides records) (path : Path) :
    d.find? path = some r ↔ r ∈ records ∧ Answers r path := by
  rw [find?, h.group]
  constructor
  · intro hfound
    have hsame := List.find?_some hfound
    obtain ⟨hmem, hkey⟩ := List.mem_filter.1 (List.mem_of_find?_eq_some hfound)
    exact ⟨hmem, of_decide_eq_true hsame, of_decide_eq_true hkey⟩
  · rintro ⟨hmem, hsame, hkey⟩
    have hgroup : r ∈ records.filter fun r => r.path.tail 2 = path.tail 2 :=
      List.mem_filter.2 ⟨hmem, decide_eq_true hkey⟩
    cases hfound : (records.filter fun r => r.path.tail 2 = path.tail 2).find? fun r =>
      r.path.Same path with
    | none => exact absurd (decide_eq_true hsame) (List.find?_eq_none.1 hfound r hgroup)
    | some other =>
      have hsame' := List.find?_some hfound
      have hmem' := (List.mem_filter.1 (List.mem_of_find?_eq_some hfound)).1
      rw [h.eq_of_same hmem hmem' (Eq.trans hsame (of_decide_eq_true hsame').symm)]

/-- There are no declarations if there are none to count. -/
theorem isEmpty_iff (h : d.Divides records) : d.isEmpty = true ↔ d.size = 0 := by
  rw [isEmpty, Std.ExtTreeMap.isEmpty_iff, size, List.length_eq_zero_iff]
  constructor
  · intro hgroups
    rw [Declarations.all, hgroups]
    rfl
  · intro hall
    refine Std.ExtTreeMap.ext_getElem? fun key => ?_
    cases hkey : d.groups[key]? with
    | none => simp
    | some list =>
      obtain ⟨r, hr⟩ := List.exists_mem_of_ne_nil list fun heq => h.nonempty key (heq ▸ hkey)
      have hmem : r ∈ d.all :=
        Declarations.mem_all_iff.2 ⟨key, by rwa [Declarations.group, hkey, Option.getD_some]⟩
      rw [hall] at hmem
      cases hmem

/-- A record that is put in comes first, in place of an older one of its file. -/
theorem insert (h : d.Divides records) (hr : r.path.Undotted) :
    (d.insert r).Divides (r :: records.filter fun other => ¬ other.path.Same r.path) where
  undotted := by
    intro other hother
    rcases List.mem_cons.1 hother with rfl | hother
    · exact hr
    · exact h.undotted other (List.mem_filter.1 hother).1
  different := by
    refine List.pairwise_cons.2 ⟨fun other hother hsame => ?_, h.different.filter _⟩
    exact of_decide_eq_true (List.mem_filter.1 hother).2 (Eq.symm hsame)
  group key := by
    rw [group_insert, h.group]
    split
    · rename_i hkey
      rw [List.filter_cons_of_pos (by simpa using hkey), List.filter_filter, List.filter_filter]
      simp only [Bool.and_comm]
    · rename_i hkey
      rw [List.filter_cons_of_neg (by simpa using hkey), List.filter_filter]
      refine List.filter_congr fun other hother => ?_
      -- a record of another group is of another file
      have hother : other.path.tail 2 = key → ¬ other.path.Same r.path := fun hkey' hsame =>
        hkey (((h.undotted other hother).tail_eq_of_same hr hsame 2).symm.trans hkey')
      by_cases hkey' : other.path.tail 2 = key <;> simp [hkey', hother]
  nonempty := nonempty_setGroup h.nonempty _ _

/-- A record is taken out by a path that it answers. -/
theorem remove (h : d.Divides records) (path : Path) :
    (d.remove path).Divides (records.filter fun r => ¬ Answers r path) where
  undotted r hr := h.undotted r (List.mem_filter.1 hr).1
  different := h.different.filter _
  group key := by
    have hone : (d.group (path.tail 2)).Pairwise fun r other =>
        r.path.Same path → ¬ other.path.Same path := by
      rw [h.group]
      exact (h.different.filter _).imp fun hne hsame hsame' => hne (Eq.trans hsame hsame'.symm)
    rw [group_remove hone, h.group, List.filter_filter, List.filter_filter]
    split
    · rename_i hkey
      refine List.filter_congr fun r _ => ?_
      by_cases hkey' : r.path.tail 2 = key <;> simp [Answers, hkey, hkey']
    · rename_i hkey
      refine List.filter_congr fun r _ => ?_
      by_cases hkey' : r.path.tail 2 = key <;> simp [Answers, hkey', Ne.symm hkey]
  nonempty := nonempty_setGroup h.nonempty _ _

/-- What is left of the records is all but the one that is found. -/
theorem filter_answers (h : d.Divides records) (path : Path) :
    (records.filter fun r => ¬ Answers r path) =
      records.filter fun r => d.find? path ≠ some r := by
  refine List.filter_congr fun r hr => ?_
  rw [decide_eq_decide, not_iff_not, h.find?_eq_some_iff]
  exact (and_iff_right hr).symm

/-- Groups that are what a history leaves say what the history says. -/
theorem accounts {past : List Change} (h : d.Divides (remaining past)) : Accounts d past where
  all := h.perm_all
  different := h.different_all
  resolve := h.resolve
  find? path r hpath := by
    rw [h.find?_eq_some_iff, h.mem_all_iff]
    refine and_congr_right fun hr => ⟨And.left, fun hsame => ⟨hsame, ?_⟩⟩
    exact (h.undotted r hr).tail_eq_of_same hpath hsame 2
  find?_group path r := by
    rw [h.find?_eq_some_iff, h.mem_all_iff]
  all_remove path := by
    refine (h.remove path).perm_all.trans ?_
    rw [h.filter_answers]
    exact (h.perm_all.filter _).symm
  resolve_remove path reference := by
    rw [(h.remove path).resolve, h.resolve, h.filter_answers, List.filter_filter,
      List.filter_filter]
    simp only [Bool.and_comm]
  isEmpty := h.isEmpty_iff

/-- One more change leaves what the history with this change leaves. -/
theorem change {past : List Change} (h : d.Divides (remaining past)) {change : Change}
    (hundotted : ∀ r, .inserted r = change → r.path.Undotted) :
    (d.change change).Divides (remaining (change :: past)) := by
  cases change with
  | inserted r => exact h.insert (hundotted r rfl)
  | removed path => exact h.remove path

end Divides

/-- After any changes with records whose paths have no `.` pieces and no backslashes the declarations
are as their history tells. -/
theorem accounts_run (changes : List Change)
    (h : ∀ r, .inserted r ∈ changes → r.path.Undotted) :
    Accounts (run empty changes) changes.reverse := by
  refine Divides.accounts ?_
  induction changes using List.reverseRecOn with
  | nil => exact divides_empty
  | append_singleton front last ih =>
    rw [run, List.foldl_append, List.foldl_cons, List.foldl_nil, List.reverse_append]
    exact (ih fun r hr => h r (List.mem_append_left _ hr)).change fun r hr => h r (by simp [hr])

/-- Two copies of a declaration, the first of which is put in again, and another one that is taken
out again. -/
def copies : List Change :=
  [.inserted (.empty ⟨"a/MdePkg/MdePkg.dec"⟩), .inserted (.empty ⟨"MdePkg/Other.dec"⟩),
   .inserted (.empty ⟨"b/MdePkg/MdePkg.dec"⟩), .removed ⟨"MdePkg//Other.dec"⟩,
   .inserted (.empty ⟨"a/MdePkg//MdePkg.dec"⟩)]

/-- The copy that was put in last is found first. -/
theorem accounts_copies : Accounts (run empty copies) copies.reverse ∧
    (run empty copies).resolve " MdePkg\\MdePkg.dec " =
      [.empty ⟨"a/MdePkg//MdePkg.dec"⟩, .empty ⟨"b/MdePkg/MdePkg.dec"⟩] := by
  have h := accounts_run copies (by simp [copies, ModuleRecord.empty]; decide)
  refine ⟨h, ?_⟩
  rw [h.resolve]
  decide

end FirmwareIndex.Declarations
