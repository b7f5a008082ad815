import FirmwareIndex.Catalog.Packages
import FirmwareIndex.Proofs.Catalog.Modules

/-!
# Declarations and packages of files

The package declarations are kept in groups, of which the newest one stands first, and the packages
in the order in which they became known. `Declarations.Holds` says that the groups have the
declarations of some files. Reading one of these files again, or a new one, and removing one keep
this in line with the files (`Declarations.Holds.insert`, `Declarations.Holds.remove`); the packages
of files keep their places.
-/

set_option autoImplicit false

namespace FirmwareIndex

/-- Erasing the only entry of a kind leaves the entries of the other kind. -/
theorem eraseP_eq_filter {α : Type} {p : α → Bool} {list : List α}
    (h : list.Pairwise fun a b => p a = true → p b = false) :
    list.eraseP p = list.filter fun a => !p a := by
  induction list with
  | nil => rfl
  | cons a rest ih =>
    obtain ⟨ha, hrest⟩ := List.pairwise_cons.1 h
    cases hp : p a with
    | true =>
      have hothers : rest.filter (fun b => !p b) = rest :=
        List.filter_eq_self.2 fun b hb => by rw [ha b hb hp, Bool.not_false]
      rw [List.eraseP_cons_of_pos hp, List.filter_cons_of_neg (by simp [hp]), hothers]
    | false =>
      rw [List.eraseP_cons_of_neg (by simp [hp]), List.filter_cons_of_pos (by simp [hp]), ih hrest]

namespace Declarations

variable {d d' : Declarations} {s s' : Sources} {files files' : List Path} {p : Path}

/-- The groups have the declarations of some files, each once and under its key. -/
structure Holds (d : Declarations) (s : Sources) (files : List Path) : Prop where
  mem : ∀ key r, r ∈ d.group key ↔ ∃ file ∈ files, ModuleRecord.ofFile s file = r ∧ file.tail 2 = key
  nodup : ∀ key, (d.group key).Nodup
  nonempty : ∀ key : Text, d.groups[key]? ≠ some []

/-- Only the group under the key is another one. -/
theorem group_setGroup (d : Declarations) (key : Text) (records : List ModuleRecord) (other : Text) :
    (d.setGroup key records).group other = if key = other then records else d.group other := by
  unfold setGroup group
  by_cases hkey : key = other
  · subst hkey
    split <;> simp_all
  · have hcompare : compare key other ≠ .eq := by
      intro heq
      exact hkey (Std.LawfulEqCmp.compare_eq_iff_eq.1 heq)
    split <;> simp [Std.ExtTreeMap.getElem?_erase, Std.ExtTreeMap.getElem?_insert, hcompare]

/-- A record comes first in its group, without an older one of its file, and no other group changes.
-/
theorem group_insert (d : Declarations) (r : ModuleRecord) (key : Text) :
    (d.insert r).group key =
      if r.path.tail 2 = key then r :: (d.group key).filter fun other => ¬ other.path.Same r.path
      else d.group key := by
  simp only [insert, group_setGroup]
  split
  · rename_i hkey
    rw [hkey]
  · rfl

/-- Removing a file removes all of its declarations when there is at most one. -/
theorem group_remove (hone : (d.group (p.tail 2)).Pairwise fun r other =>
    r.path.Same p → ¬ other.path.Same p) (key : Text) :
    (d.remove p).group key =
      if p.tail 2 = key then (d.group key).filter fun r => ¬ r.path.Same p else d.group key := by
  have hpairwise : (d.group (p.tail 2)).Pairwise fun r other =>
      decide (r.path.Same p) = true → decide (other.path.Same p) = false := by
    simpa using hone
  simp only [remove, group_setGroup, eraseP_eq_filter hpairwise]
  split
  · rename_i hkey
    rw [hkey]
    simp
  · rfl

/-- A group that is set does not stay behind empty. -/
theorem nonempty_setGroup (h : ∀ key : Text, d.groups[key]? ≠ some []) (key : Text)
    (records : List ModuleRecord) (other : Text) :
    (d.setGroup key records).groups[other]? ≠ some [] := by
  unfold setGroup
  by_cases hkey : key = other
  · subst hkey
    split <;> simp_all
  · have hcompare : compare key other ≠ .eq := by
      intro heq
      exact hkey (Std.LawfulEqCmp.compare_eq_iff_eq.1 heq)
    split
    · simpa [Std.ExtTreeMap.getElem?_erase, hcompare] using h other
    · simpa [Std.ExtTreeMap.getElem?_insert, hcompare] using h other

/-- No declarations are those of no files. -/
theorem holds_empty (s : Sources) : empty.Holds s [] where
  mem := by simp [group, empty]
  nodup := by simp [group, empty]
  nonempty := by simp [empty]

namespace Holds

/-- The declarations of files that read the same are the same. -/
theorem congr (h : d.Holds s files)
    (hread : ∀ q ∈ files, ModuleRecord.ofFile s' q = ModuleRecord.ofFile s q) : d.Holds s' files where
  mem key r := by
    rw [h.mem]
    exact exists_congr fun file => and_congr_right fun hfile => by rw [hread file hfile]
  nodup := h.nodup
  nonempty := h.nonempty

/-- Apart from one file, the same declarations belong to lists that are alike but for that file. -/
theorem others_iff (halike : Path.AlikeExcept p files files')
    (hread : ∀ q ∈ files, q ≠ p → ModuleRecord.ofFile s' q = ModuleRecord.ofFile s q) (key : Text)
    (r : ModuleRecord) :
    (∃ file ∈ files', file ≠ p ∧ ModuleRecord.ofFile s' file = r ∧ file.tail 2 = key) ↔
      ∃ file ∈ files, file ≠ p ∧ ModuleRecord.ofFile s file = r ∧ file.tail 2 = key := by
  apply exists_congr
  intro file
  by_cases hfile : file = p
  · simp [hfile]
  · rw [halike.mem file hfile]
    exact and_congr_right fun hmem => by rw [hread file hmem hfile]

/-- Where a record stands that is not that of one file. -/
theorem mem_and_not_same (h : d.Holds s files) (halike : Path.AlikeExcept p files files')
    (key : Text) (r : ModuleRecord) :
    (r ∈ d.group key ∧ ¬ r.path.Same p) ↔
      ∃ file ∈ files, file ≠ p ∧ ModuleRecord.ofFile s file = r ∧ file.tail 2 = key := by
  rw [h.mem]
  constructor
  · rintro ⟨⟨file, hfile, rfl, hkey⟩, hsame⟩
    rw [ModuleRecord.path_ofFile] at hsame
    exact ⟨file, hfile, fun heq => hsame (heq ▸ rfl), rfl, hkey⟩
  · rintro ⟨file, hfile, hne, rfl, hkey⟩
    refine ⟨⟨file, hfile, rfl, hkey⟩, ?_⟩
    intro hsame
    rw [ModuleRecord.path_ofFile] at hsame
    exact hne (halike.same file hfile hsame)

/-- In a group that the declaration of a file does not belong to there is nothing of that file. -/
theorem mem_of_ne (h : d.Holds s files) {key : Text} (hkey : p.tail 2 ≠ key) (r : ModuleRecord) :
    r ∈ d.group key ↔
      ∃ file ∈ files, file ≠ p ∧ ModuleRecord.ofFile s file = r ∧ file.tail 2 = key := by
  rw [h.mem]
  apply exists_congr
  intro file
  apply and_congr_right
  intro _
  exact ⟨fun hr => ⟨fun heq => hkey (heq ▸ hr.2), hr⟩, fun hr => hr.2⟩

/-- Reading a file of the list puts its declaration in the place of the older one. -/
theorem insert (h : d.Holds s files) (halike : Path.AlikeExcept p files files') (hp : p ∈ files')
    (hread : ∀ q ∈ files, q ≠ p → ModuleRecord.ofFile s' q = ModuleRecord.ofFile s q) :
    (d.insert (.ofFile s' p)).Holds s' files' := by
  have hgroup : ∀ key, (d.insert (.ofFile s' p)).group key =
      if p.tail 2 = key then .ofFile s' p :: (d.group key).filter fun r => ¬ r.path.Same p
      else d.group key := by
    intro key
    rw [group_insert, ModuleRecord.path_ofFile]
  have hself : ∀ key r, (∃ file ∈ files', ModuleRecord.ofFile s' file = r ∧ file.tail 2 = key) ↔
      (ModuleRecord.ofFile s' p = r ∧ p.tail 2 = key) ∨
        ∃ file ∈ files', file ≠ p ∧ ModuleRecord.ofFile s' file = r ∧ file.tail 2 = key := by
    intro key r
    constructor
    · rintro ⟨file, hfile, hr⟩
      by_cases heq : file = p
      · exact .inl (heq ▸ hr)
      · exact .inr ⟨file, hfile, heq, hr⟩
    · rintro (hr | ⟨file, hfile, _, hr⟩)
      · exact ⟨p, hp, hr⟩
      · exact ⟨file, hfile, hr⟩
  refine ⟨fun key r => ?_, fun key => ?_, nonempty_setGroup h.nonempty _ _⟩
  · rw [hgroup, hself, others_iff halike hread]
    split
    · rename_i hkey
      rw [List.mem_cons, List.mem_filter, decide_eq_true_eq, h.mem_and_not_same halike]
      simp only [hkey, and_true, eq_comm]
    · rename_i hkey
      rw [h.mem_of_ne hkey]
      simp [hkey]
  · rw [hgroup]
    split
    · refine List.nodup_cons.2 ⟨fun hmem => ?_, (h.nodup key).filter _⟩
      have hsame := (List.mem_filter.1 hmem).2
      rw [ModuleRecord.path_ofFile] at hsame
      simp [Path.Same] at hsame
    · exact h.nodup key

/-- Without the record of a file, the declarations are those of the other files. -/
theorem remove (h : d.Holds s files) (halike : Path.AlikeExcept p files files') (hp : p ∉ files')
    (hread : ∀ q ∈ files, q ≠ p → ModuleRecord.ofFile s' q = ModuleRecord.ofFile s q) :
    (d.remove p).Holds s' files' := by
  have honly : ∀ key, ∀ r ∈ d.group key, r.path.Same p → r = .ofFile s p := by
    intro key r hr hsame
    obtain ⟨file, hfile, rfl, _⟩ := (h.mem key r).1 hr
    rw [ModuleRecord.path_ofFile] at hsame
    rw [halike.same file hfile hsame]
  have hone : (d.group (p.tail 2)).Pairwise fun r other =>
      r.path.Same p → ¬ other.path.Same p := by
    refine List.Pairwise.imp_of_mem (fun {a b} ha hb hne hsame hsame' => ?_)
      (List.nodup_iff_pairwise_ne.1 (h.nodup _))
    exact hne ((honly _ a ha hsame).trans (honly _ b hb hsame').symm)
  have hgroup := group_remove hone
  have hself : ∀ key r, (∃ file ∈ files', ModuleRecord.ofFile s' file = r ∧ file.tail 2 = key) ↔
      ∃ file ∈ files', file ≠ p ∧ ModuleRecord.ofFile s' file = r ∧ file.tail 2 = key := by
    intro key r
    apply exists_congr
    intro file
    apply and_congr_right
    intro hfile
    exact ⟨fun hr => ⟨fun heq => hp (heq ▸ hfile), hr⟩, fun hr => hr.2⟩
  refine ⟨fun key r => ?_, fun key => ?_, nonempty_setGroup h.nonempty _ _⟩
  · rw [hgroup, hself, others_iff halike hread]
    split
    · rw [List.mem_filter, decide_eq_true_eq, h.mem_and_not_same halike]
    · rename_i hkey
      rw [h.mem_of_ne hkey]
  · rw [hgroup]
    split
    · exact (h.nodup key).filter _
    · exact h.nodup key

/-- Groups hold the declarations of the files that have been read one after the other. -/
theorem foldl_insert (h : d.Holds s files) {others : List Path}
    (hdiff : Path.Different (files ++ others)) :
    (others.foldl (fun d file => d.insert (.ofFile s file)) d).Holds s (files ++ others) := by
  induction others generalizing d files with
  | nil => rwa [List.append_nil]
  | cons p rest ih =>
    rw [List.append_cons] at hdiff ⊢
    have hfront : Path.Different (files ++ [p]) := (List.pairwise_append.1 hdiff).1
    refine ih (h.insert ⟨(List.pairwise_append.1 hfront).1, hfront, fun q hq => ?_, ?_⟩ (by simp)
      fun _ _ _ => rfl) hdiff
    · simp [hq]
    · exact fun q hq hsame => absurd hsame
        ((List.pairwise_append.1 hfront).2.2 q hq p (by simp))

/-- Groups of the same files have the same declarations under the same keys, up to their order. -/
theorem group_perm (h : d.Holds s files) (h' : d'.Holds s files) (key : Text) :
    (d.group key).Perm (d'.group key) := by
  refine (List.perm_ext_iff_of_nodup (h.nodup key) (h'.nodup key)).2 ?_
  intro r
  rw [h.mem, h'.mem]

/-- Declarations of the same files have the same keys. -/
theorem mem_groups_iff (h : d.Holds s files) (h' : d'.Holds s files) (key : Text) :
    key ∈ d.groups ↔ key ∈ d'.groups := by
  have hmem : ∀ {d : Declarations}, (∀ key : Text, d.groups[key]? ≠ some []) →
      (key ∈ d.groups ↔ d.group key ≠ []) := by
    intro d hnonempty
    rw [Std.ExtTreeMap.mem_iff_isSome_getElem?, group]
    cases hgroup : d.groups[key]? with
    | none => simp
    | some records =>
      have hne : records ≠ [] := fun heq => hnonempty key (heq ▸ hgroup)
      simpa using hne
  rw [hmem h.nonempty, hmem h'.nonempty, not_iff_not]
  have hperm := h.group_perm h' key
  exact ⟨fun hnil => (hnil ▸ hperm).nil_eq.symm, fun hnil => (hnil ▸ hperm).eq_nil⟩

end Holds

end Declarations

namespace Packages

variable {f : Path → Package} {files : List Path}

/-- The package of a known file is put in the place of the older one. -/
theorem add_map (hf : ∀ file, (f file).file = file) (hdiff : Path.Different files) {p : Package}
    (hp : ∃ file ∈ files, file.Same p.file) :
    (Packages.mk (files.map f)).add p =
      ⟨files.map fun file => if file.Same p.file then p else f file⟩ := by
  have hreplace : replace p (files.map f) =
      files.map fun file => if file.Same p.file then p else f file := by
    clear hp
    induction files with
    | nil => rfl
    | cons file rest ih =>
      obtain ⟨hfile, hrest⟩ := List.pairwise_cons.1 hdiff
      rw [List.map_cons, List.map_cons, replace, hf]
      split
      · rename_i hsame
        congr 1
        refine List.map_congr_left fun other hother => (if_neg fun hsame' => ?_).symm
        have hcross : file.Same other := hsame.trans hsame'.symm
        exact hfile other hother hcross
      · rw [ih hrest]
  unfold add
  split
  · exact congrArg Packages.mk hreplace
  · rename_i hnone
    obtain ⟨file, hfile, hsame⟩ := hp
    have hnot := List.find?_eq_none.1 hnone (f file) (List.mem_map_of_mem hfile)
    rw [hf] at hnot
    exact absurd (decide_eq_true hsame) hnot

/-- The packages of files without that of a file that is removed. -/
theorem remove_map (hf : ∀ file, (f file).file = file) (hdiff : Path.Different files) (path : Path) :
    (Packages.mk (files.map f)).remove path =
      ⟨(files.filter fun file => ¬ file.Same path).map f⟩ := by
  have hpairwise : (files.map f).Pairwise fun a b =>
      decide (a.file.Same path) = true → decide (b.file.Same path) = false := by
    refine List.pairwise_map.2 (hdiff.imp ?_)
    intro a b hne hsame
    rw [hf, decide_eq_true_eq] at hsame
    rw [hf, decide_eq_false_iff_not]
    exact fun hsame' => hne (hsame.trans hsame'.symm)
  rw [remove, eraseP_eq_filter hpairwise, List.filter_map]
  simp only [Function.comp_def, hf, decide_not]

end Packages

end FirmwareIndex
