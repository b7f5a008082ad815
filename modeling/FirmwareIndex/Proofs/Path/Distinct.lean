import FirmwareIndex.Proofs.Path.Ordered
import Mathlib.Data.List.Induction

/-!
# Paths without repetitions

`Path.distinct` keeps the first path of each place. What it makes of a list that goes on after
another one is what is left of the second list without the places of the first
(`Path.distinct_append`). So it comes to the same whether the parts of a list have been freed of
repetitions before or not (`Path.distinct_flatMap_distinct`).
-/

set_option autoImplicit false

namespace FirmwareIndex.Path

variable {paths : List Path} {p : Path}

/-- A place that is listed is not listed again. -/
theorem addNew_eq_self {q : Path} (hq : q ∈ paths) (hsame : q.Same p) : addNew paths p = paths := by
  have hany : paths.any (fun q => q.Same p) = true :=
    List.any_eq_true.2 ⟨q, hq, decide_eq_true hsame⟩
  rw [addNew, if_pos hany]

/-- A place that is not listed comes last. -/
theorem addNew_eq_append (h : ∀ q ∈ paths, ¬ q.Same p) : addNew paths p = paths ++ [p] := by
  have hany : ¬ paths.any (fun q => q.Same p) = true := by
    simpa using h
  rw [addNew, if_neg hany]

/-- Nothing but the new path is listed in addition. -/
theorem mem_addNew {q : Path} (h : q ∈ addNew paths p) : q ∈ paths ∨ q = p := by
  unfold addNew at h
  split at h
  · exact .inl h
  · exact (List.mem_append.1 h).imp_right List.mem_singleton.1

/-- A new path that is the place of an earlier one is left out, and any other one is put at the end. -/
theorem addNew_cases (paths : List Path) (p : Path) :
    ((∃ q ∈ paths, q.Same p) ∧ addNew paths p = paths) ∨
      ((∀ q ∈ paths, ¬ q.Same p) ∧ addNew paths p = paths ++ [p]) := by
  by_cases hp : ∃ q ∈ paths, q.Same p
  · obtain ⟨q, hq, hsame⟩ := hp
    exact .inl ⟨⟨q, hq, hsame⟩, addNew_eq_self hq hsame⟩
  · have hnone : ∀ q ∈ paths, ¬ q.Same p := fun q hq hsame => hp ⟨q, hq, hsame⟩
    exact .inr ⟨hnone, addNew_eq_append hnone⟩

/-- A place is among the paths with a new one if it was before or is that of the new one. -/
theorem exists_mem_addNew_same (paths : List Path) (p q : Path) :
    (∃ r ∈ addNew paths p, r.Same q) ↔ (∃ r ∈ paths, r.Same q) ∨ p.Same q := by
  rcases addNew_cases paths p with ⟨⟨r, hr, hsame⟩, heq⟩ | ⟨_, heq⟩
  · rw [heq]
    exact ⟨.inl, fun h => h.elim id fun hq => ⟨r, hr, Eq.trans hsame hq⟩⟩
  · rw [heq]
    simp [or_and_right, exists_or]

/-- A list of different places stays one when a path is added. -/
theorem Different.addNew (h : Different paths) (p : Path) : Different (addNew paths p) := by
  rcases addNew_cases paths p with ⟨_, heq⟩ | ⟨hnone, heq⟩
  · rwa [heq]
  · rw [heq]
    refine List.pairwise_append.2 ⟨h, List.pairwise_singleton _ _, ?_⟩
    intro q hq r hr
    rw [List.mem_singleton.1 hr]
    exact hnone q hq

/-- One more path at the end is listed if its place is new. -/
theorem distinct_concat (paths : List Path) (p : Path) :
    distinct (paths ++ [p]) = addNew (distinct paths) p := by
  rw [distinct, List.foldl_append]
  rfl

/-- Without those that come again, all paths are different places. -/
theorem different_distinct (paths : List Path) : Different (distinct paths) := by
  induction paths using List.reverseRecOn with
  | nil => exact .nil
  | append_singleton front p ih =>
    rw [distinct_concat]
    exact ih.addNew p

/-- No place is lost. -/
theorem exists_mem_distinct_same (paths : List Path) (q : Path) :
    (∃ r ∈ distinct paths, r.Same q) ↔ ∃ r ∈ paths, r.Same q := by
  induction paths using List.reverseRecOn with
  | nil => rfl
  | append_singleton front p ih =>
    rw [distinct_concat, exists_mem_addNew_same, ih]
    simp [or_and_right, exists_or]

/-- Paths that are different places stay as they are. -/
theorem Different.distinct_eq (h : Different paths) : distinct paths = paths := by
  induction paths using List.reverseRecOn with
  | nil => rfl
  | append_singleton front p ih =>
    obtain ⟨hfront, -, hp⟩ := List.pairwise_append.1 h
    rw [distinct_concat, ih hfront, addNew_eq_append fun q hq => hp q hq p (List.mem_singleton_self p)]

/-- A new path comes after some paths as it comes after what they leave of others. -/
theorem addNew_append_filter (found others : List Path) (p : Path) :
    addNew (found ++ others.filter fun q => ∀ r ∈ found, ¬ r.Same q) p =
      found ++ (addNew others p).filter fun q => ∀ r ∈ found, ¬ r.Same q := by
  by_cases hfound : ∃ r ∈ found, r.Same p
  · -- the path is left out on both sides
    obtain ⟨r, hr, hsame⟩ := hfound
    rw [addNew_eq_self (List.mem_append_left _ hr) hsame]
    rcases addNew_cases others p with ⟨_, heq⟩ | ⟨_, heq⟩
    · rw [heq]
    · rw [heq, List.filter_append, List.filter_cons_of_neg (by simpa using ⟨r, hr, hsame⟩),
        List.filter_nil, List.append_nil]
  · have hnew : ∀ r ∈ found, ¬ r.Same p := fun r hr hsame => hfound ⟨r, hr, hsame⟩
    rcases addNew_cases others p with ⟨⟨q, hq, hqp⟩, heq⟩ | ⟨hnone, heq⟩
    · have hleft : q ∈ others.filter fun q => ∀ r ∈ found, ¬ r.Same q :=
        List.mem_filter.2 ⟨hq, decide_eq_true fun r hr hrq => hnew r hr (Eq.trans hrq hqp)⟩
      rw [heq, addNew_eq_self (List.mem_append_right _ hleft) hqp]
    · have hneither : ∀ q ∈ found ++ others.filter fun q => ∀ r ∈ found, ¬ r.Same q,
          ¬ q.Same p := fun q hq =>
        (List.mem_append.1 hq).elim (hnew q) fun hq => hnone q (List.mem_filter.1 hq).1
      rw [heq, addNew_eq_append hneither, List.filter_append,
        List.filter_cons_of_pos (by simpa using hnew), List.filter_nil, List.append_assoc]

/-- Paths added to a list are those of their own places that the list does not have. -/
theorem foldl_addNew (found paths : List Path) :
    paths.foldl addNew found =
      found ++ (distinct paths).filter fun q => ∀ r ∈ found, ¬ r.Same q := by
  induction paths using List.reverseRecOn with
  | nil => simp [distinct]
  | append_singleton front p ih =>
    rw [List.foldl_append, List.foldl_cons, List.foldl_nil, ih, addNew_append_filter,
      distinct_concat]

/-- Of the second of two lists only the places stay that the first one has not. -/
theorem distinct_append (front back : List Path) :
    distinct (front ++ back) =
      distinct front ++ (distinct back).filter fun q => ∀ r ∈ distinct front, ¬ r.Same q := by
  rw [distinct, List.foldl_append]
  exact foldl_addNew (distinct front) back

/-- Repetitions within the parts of a list make no difference. -/
theorem distinct_flatMap_distinct {α : Type} (list : List α) (f : α → List Path) :
    distinct (list.flatMap fun a => distinct (f a)) = distinct (list.flatMap f) := by
  induction list with
  | nil => rfl
  | cons a rest ih =>
    rw [List.flatMap_cons, List.flatMap_cons, distinct_append, distinct_append, ih,
      (different_distinct (f a)).distinct_eq]

end FirmwareIndex.Path
