import FirmwareIndex.Path.Basic
import Mathlib.Data.List.Forall2
import Mathlib.Data.List.Pairwise

/-!
# Paths in order

A list of paths in strict order has one path for each of its places, so it is known by its members
(`Path.Ordered.eq_of_mem_iff`). Sorting gives such a list. A table with an entry for each path of
such a list lists the entries in the order of the paths (`Path.values_table`).
-/

set_option autoImplicit false

namespace FirmwareIndex

/-- The values of a table in the order of its entries. -/
theorem values_eq_map_snd {κ α : Type} {cmp : κ → κ → Ordering} [Std.TransCmp cmp]
    (m : Std.ExtTreeMap κ α cmp) : m.values = m.toList.map Prod.snd := by
  obtain ⟨⟨q⟩⟩ := m
  induction q using Quotient.ind with
  | _ tree =>
    change tree.inner.values = (Std.DTreeMap.Internal.Impl.Const.toList tree.inner).map Prod.snd
    rw [Std.DTreeMap.Internal.Impl.values_eq_map_snd,
      Std.DTreeMap.Internal.Impl.Const.toList_eq_toListModel_map, List.map_map]
    rfl

/-- The values of a table are those that it has for some key. -/
theorem mem_values_iff {κ α : Type} {cmp : κ → κ → Ordering} [Std.TransCmp cmp]
    [Std.LawfulEqCmp cmp] {m : Std.ExtTreeMap κ α cmp} {v : α} :
    v ∈ m.values ↔ ∃ k : κ, m[k]? = some v := by
  rw [values_eq_map_snd, List.mem_map]
  constructor
  · rintro ⟨⟨k, v⟩, hmem, rfl⟩
    exact ⟨k, Std.ExtTreeMap.mem_toList_iff_getElem?_eq_some.1 hmem⟩
  · rintro ⟨k, hk⟩
    exact ⟨(k, v), Std.ExtTreeMap.mem_toList_iff_getElem?_eq_some.2 hk, rfl⟩

/-- Under one key a table lists no more than the entry for it. -/
theorem filter_toList {κ α : Type} {cmp : κ → κ → Ordering} [Std.TransCmp cmp]
    [Std.LawfulEqCmp cmp] [DecidableEq κ] (m : Std.ExtTreeMap κ α cmp) (k : κ) :
    (m.toList.filter fun entry => entry.1 = k) = (m[k]?.map fun v => (k, v)).toList := by
  have hdistinct : m.toList.Pairwise fun a b => a.1 ≠ b.1 :=
    Std.ExtTreeMap.ordered_keys_toList.imp fun {a b} hlt heq => by
      have hself : cmp a.1 a.1 = .eq := Std.ReflCmp.compare_self
      rw [← heq, hself] at hlt
      cases hlt
  cases hentry : m[k]? with
  | none =>
    refine List.filter_eq_nil_iff.2 fun entry hmem hkey => ?_
    have hsome := Std.ExtTreeMap.mem_toList_iff_getElem?_eq_some.1 hmem
    rw [of_decide_eq_true hkey, hentry] at hsome
    cases hsome
  | some v =>
    obtain ⟨front, back, hlist⟩ :=
      List.append_of_mem (Std.ExtTreeMap.mem_toList_iff_getElem?_eq_some.2 hentry)
    rw [hlist, List.pairwise_append, List.pairwise_cons] at hdistinct
    obtain ⟨_, ⟨hback, _⟩, hfront⟩ := hdistinct
    have hnone : ∀ entry ∈ front, ¬ decide (entry.1 = k) = true := fun entry hmem hkey =>
      hfront entry hmem (k, v) List.mem_cons_self (of_decide_eq_true hkey)
    have hnone' : ∀ entry ∈ back, ¬ decide (entry.1 = k) = true := fun entry hmem hkey =>
      hback entry hmem (of_decide_eq_true hkey).symm
    rw [hlist, List.filter_append, List.filter_eq_nil_iff.2 hnone, List.filter_cons_of_pos (by simp),
      List.filter_eq_nil_iff.2 hnone']
    rfl

/-- The values of a table are those of its keys, in their order. -/
theorem values_eq_filterMap_keys {κ α : Type} {cmp : κ → κ → Ordering} [Std.TransCmp cmp]
    [Std.LawfulEqCmp cmp] (m : Std.ExtTreeMap κ α cmp) :
    m.values = m.keys.filterMap fun k => m[k]? := by
  have hentry : ∀ entry ∈ m.toList, ((fun k => m[k]?) ∘ Prod.fst) entry = (some ∘ Prod.snd) entry :=
    fun entry hentry => Std.ExtTreeMap.mem_toList_iff_getElem?_eq_some.1 hentry
  rw [values_eq_map_snd, ← Std.ExtTreeMap.map_fst_toList_eq_keys, List.filterMap_map,
    List.filterMap_congr hentry, List.filterMap_eq_map]

/-- The keys of tables that have entries for the same keys. -/
theorem keys_congr {κ α β : Type} {cmp : κ → κ → Ordering} [Std.TransCmp cmp]
    [Std.LawfulEqCmp cmp] {m : Std.ExtTreeMap κ α cmp} {m' : Std.ExtTreeMap κ β cmp}
    (h : ∀ k : κ, m[k]?.isSome = m'[k]?.isSome) : m.keys = m'.keys := by
  have hirrefl : ∀ k : κ, cmp k k ≠ .lt := by
    intro k
    have heq : cmp k k = .eq := Std.ReflCmp.compare_self
    simp [heq]
  have hnodup : ∀ {γ : Type} (m : Std.ExtTreeMap κ γ cmp), m.keys.Nodup := by
    intro γ m
    refine List.nodup_iff_pairwise_ne.2 (Std.ExtTreeMap.ordered_keys.imp ?_)
    rintro a b hlt rfl
    exact hirrefl a hlt
  refine List.Perm.eq_of_pairwise (fun a b _ _ hab hba => ?_) Std.ExtTreeMap.ordered_keys
    Std.ExtTreeMap.ordered_keys ((List.perm_ext_iff_of_nodup (hnodup m) (hnodup m')).2 fun k => ?_)
  · exact absurd (Std.TransCmp.lt_trans hab hba) (hirrefl a)
  · rw [Std.ExtTreeMap.mem_keys, Std.ExtTreeMap.mem_keys, Std.ExtTreeMap.mem_iff_isSome_getElem?,
      Std.ExtTreeMap.mem_iff_isSome_getElem?, h]

/-- Tables whose entries correspond, key by key, have values that correspond in order. -/
theorem forall₂_values {κ α β : Type} {cmp : κ → κ → Ordering} [Std.TransCmp cmp]
    [Std.LawfulEqCmp cmp] {m : Std.ExtTreeMap κ α cmp} {m' : Std.ExtTreeMap κ β cmp}
    {R : α → β → Prop} (h : ∀ k : κ, Option.Rel R m[k]? m'[k]?) :
    List.Forall₂ R m.values m'.values := by
  have hsome : ∀ k : κ, m[k]?.isSome = m'[k]?.isSome := by
    intro k
    have hk := h k
    generalize m[k]? = entry, m'[k]? = entry' at hk ⊢
    cases hk <;> rfl
  rw [values_eq_filterMap_keys, values_eq_filterMap_keys, keys_congr hsome]
  induction m'.keys with
  | nil => exact .nil
  | cons k rest ih =>
    have hk := h k
    rw [List.filterMap_cons, List.filterMap_cons]
    generalize m[k]? = entry, m'[k]? = entry' at hk ⊢
    cases hk with
    | none => exact ih
    | some hrel => exact .cons hrel ih

/-- The entry under a key once some items have been put into a table where an older entry stays: the
one that was there, or else that of the first item under the key. -/
theorem getElem?_foldl_insertIfNew {κ α ι : Type} {cmp : κ → κ → Ordering} [Std.TransCmp cmp]
    [Std.LawfulEqCmp cmp] [DecidableEq κ] (key : ι → κ) (value : ι → α) (items : List ι)
    (m : Std.ExtTreeMap κ α cmp) (k : κ) :
    (items.foldl (fun m i => m.insertIfNew (key i) (value i)) m)[k]? =
      m[k]?.or ((items.find? fun i => key i = k).map value) := by
  induction items generalizing m with
  | nil => simp
  | cons i rest ih =>
    rw [List.foldl_cons, ih, Std.ExtTreeMap.getElem?_insertIfNew, List.find?_cons]
    by_cases hk : key i = k
    · subst hk
      cases hentry : m[key i]? with
      | none =>
        have habsent : key i ∉ m := by simpa using hentry
        simp [habsent]
      | some v =>
        have hpresent : key i ∈ m := by simp [Std.ExtTreeMap.mem_iff_isSome_getElem?, hentry]
        simp [hpresent]
    · simp [hk]

namespace Path

/-- No two of the paths are the same place. -/
def Different (paths : List Path) : Prop :=
  paths.Pairwise fun p q => ¬ p.Same q

/-- The paths are in strict order. -/
def Ordered (paths : List Path) : Prop :=
  paths.Pairwise fun p q => p.order q = .lt

/-- The table of what `f` gives for each path. -/
def table {α : Type} (f : Path → α) (paths : List Path) : PathMap α :=
  paths.foldl (fun m p => m.insert p.components (f p)) ∅

/-- No path comes before itself. -/
theorem order_ne_lt_self (p : Path) : p.order p ≠ .lt := by
  simp [order]

/-- The order of paths is transitive. -/
theorem order_trans {p q r : Path} (hpq : p.order q = .lt) (hqr : q.order r = .lt) :
    p.order r = .lt := by
  unfold order at *
  exact Std.TransCmp.lt_trans hpq hqr

/-- Paths in strict order are different places. -/
theorem Ordered.different {paths : List Path} (h : Ordered paths) : Different paths := by
  apply h.imp
  intro p q hlt hsame
  have heq : p.order q = .eq := by
    rw [order, Std.LawfulEqCmp.compare_eq_iff_eq]
    exact hsame
  rw [heq] at hlt
  contradiction

/-- A list of different places has no path twice. -/
theorem Different.nodup {paths : List Path} (h : Different paths) : paths.Nodup :=
  List.nodup_iff_pairwise_ne.2 (h.imp fun hdiff heq => hdiff (congrArg components heq))

/-- A path of a list of different places is known by its place. -/
theorem Different.eq_of_same {paths : List Path} (h : Different paths) {p q : Path}
    (hp : p ∈ paths) (hq : q ∈ paths) (hsame : p.Same q) : p = q := by
  by_contra hne
  have hsymm : Std.Symm fun p q : Path => ¬ p.Same q := ⟨fun _ _ hdiff hsame => hdiff hsame.symm⟩
  exact h.forall hp hq hne hsame

/-- A list in strict order is known by its members. -/
theorem Ordered.eq_of_mem_iff {a b : List Path} (ha : Ordered a) (hb : Ordered b)
    (h : ∀ p, p ∈ a ↔ p ∈ b) : a = b := by
  refine List.Perm.eq_of_pairwise (fun p q _ _ hpq hqp => ?_) ha hb
    ((List.perm_ext_iff_of_nodup ha.different.nodup hb.different.nodup).2 h)
  exact absurd (order_trans hpq hqp) (order_ne_lt_self p)

/-- Two lists of different places have the same paths but for `p`, and have no other path at its
place. -/
structure AlikeExcept (p : Path) (paths paths' : List Path) : Prop where
  different : Different paths
  different' : Different paths'
  mem : ∀ q, q ≠ p → (q ∈ paths' ↔ q ∈ paths)
  same : ∀ q ∈ paths, q.Same p → q = p

namespace AlikeExcept

variable {p q : Path} {paths paths' : List Path}

/-- Of the other list, too, only `p` is at the place of `p`. -/
theorem same' (h : AlikeExcept p paths paths') (hq : q ∈ paths') (hsame : q.Same p) : q = p := by
  by_contra hne
  exact hne (h.same q ((h.mem q hne).1 hq) hsame)

/-- Lists that agree about `p` too have the same paths. -/
theorem mem_iff (h : AlikeExcept p paths paths') (hp : p ∈ paths' ↔ p ∈ paths) (q : Path) :
    q ∈ paths' ↔ q ∈ paths := by
  by_cases hq : q = p
  · rw [hq, hp]
  · exact h.mem q hq

/-- Lists in strict order that agree about `p` too are equal. -/
theorem eq_of_ordered (h : AlikeExcept p paths paths') (hordered : Ordered paths)
    (hordered' : Ordered paths') (hp : p ∈ paths' ↔ p ∈ paths) : paths' = paths :=
  hordered'.eq_of_mem_iff hordered (h.mem_iff hp)

end AlikeExcept

section Table

variable {α β : Type} {f g : Path → α} {paths : List Path} {k : List Component} {v : α}

/-- The entries that are put into a table under different keys, and those that were there. -/
theorem getElem?_foldl_insert_eq_some {ι : Type} {key : ι → List Component} {f : ι → α}
    {items : List ι} (h : items.Pairwise fun i j => key i ≠ key j) (m : PathMap α) :
    (items.foldl (fun m i => m.insert (key i) (f i)) m)[k]? = some v ↔
      (∃ i ∈ items, key i = k ∧ f i = v) ∨ (m[k]? = some v ∧ ∀ i ∈ items, key i ≠ k) := by
  induction items generalizing m with
  | nil => simp
  | cons i rest ih =>
    obtain ⟨hi, hrest⟩ := List.pairwise_cons.1 h
    rw [List.foldl_cons, ih hrest, Std.ExtTreeMap.getElem?_insert]
    by_cases hk : key i = k
    · have hdiff : ∀ j ∈ rest, key j ≠ k := fun j hj heq => hi j hj (hk.trans heq.symm)
      have hnone : ¬ ∃ j ∈ rest, key j = k ∧ f j = v := fun ⟨j, hj, heq, _⟩ => hdiff j hj heq
      simpa [hnone, hk] using fun _ => hdiff
    · simp [hk]

/-- A table of different places has an entry for each path and no others. -/
theorem getElem?_table_eq_some (h : Different paths) :
    (table f paths)[k]? = some v ↔ ∃ p ∈ paths, p.components = k ∧ f p = v := by
  have hentry := getElem?_foldl_insert_eq_some (f := f) (k := k) (v := v) h ∅
  simpa [table] using hentry

/-- The entry of a listed path. -/
theorem getElem?_table_of_mem (h : Different paths) {p : Path} (hp : p ∈ paths) :
    (table f paths)[p.components]? = some (f p) :=
  (getElem?_table_eq_some h).2 ⟨p, hp, rfl, rfl⟩

/-- There is no entry for a place that is not listed. -/
theorem getElem?_table_eq_none (h : Different paths) :
    (table f paths)[k]? = none ↔ ∀ p ∈ paths, p.components ≠ k := by
  rw [Option.eq_none_iff_forall_ne_some]
  constructor
  · exact fun hnone p hp hk => hnone (f p) (hk ▸ getElem?_table_of_mem h hp)
  · intro hk v hv
    obtain ⟨p, hp, heq, _⟩ := (getElem?_table_eq_some h).1 hv
    exact hk p hp heq

/-- A table of what `f` gives is known by the places that it is made for. -/
theorem table_perm {paths' : List Path} (h : Different paths) (hperm : paths.Perm paths') :
    table f paths = table f paths' := by
  have h' : Different paths' :=
    (hperm.pairwise_iff fun hdiff hsame => hdiff hsame.symm).1 h
  apply Std.ExtTreeMap.ext_getElem?
  intro k
  apply Option.ext
  intro v
  rw [getElem?_table_eq_some h, getElem?_table_eq_some h']
  simp only [hperm.mem_iff]

/-- The entry under a key is known by what the paths with that key are given. -/
theorem getElem?_table_congr (h : Different paths) (hf : ∀ p ∈ paths, p.components = k → f p = g p) :
    (table f paths)[k]? = (table g paths)[k]? := by
  apply Option.ext
  intro v
  rw [getElem?_table_eq_some h, getElem?_table_eq_some h]
  refine exists_congr fun p => and_congr_right fun hp => and_congr_right fun hk => ?_
  rw [hf p hp hk]

/-- A table is known by what its paths are given. -/
theorem table_congr (h : ∀ p ∈ paths, f p = g p) : table f paths = table g paths := by
  have hfold : ∀ m : PathMap α, paths.foldl (fun m p => m.insert p.components (f p)) m =
      paths.foldl (fun m p => m.insert p.components (g p)) m := by
    induction paths with
    | nil => exact fun _ => rfl
    | cons p rest ih =>
      intro m
      rw [List.foldl_cons, List.foldl_cons, h p (by simp), ih fun q hq => h q (by simp [hq])]
  exact hfold ∅

/-- Entering a path again, or for the first time, leads to the table of the list that has it. -/
theorem AlikeExcept.table_insert {paths' : List Path} {p : Path} (h : AlikeExcept p paths paths')
    (hp : p ∈ paths') (hf : ∀ q ∈ paths, q ≠ p → g q = f q) :
    (table f paths).insert p.components (g p) = table g paths' := by
  apply Std.ExtTreeMap.ext_getElem?
  intro k
  apply Option.ext
  intro v
  rw [Std.ExtTreeMap.getElem?_insert, getElem?_table_eq_some h.different']
  by_cases hk : p.components = k
  · have hsame : ∀ q ∈ paths', q.components = k → q = p := by
      intro q hq heq
      exact h.same' hq (heq.trans hk.symm)
    rw [if_pos (Std.LawfulEqCmp.compare_eq_iff_eq.2 hk), Option.some.injEq]
    constructor
    · exact fun hv => ⟨p, hp, hk, hv⟩
    · rintro ⟨q, hq, heq, hv⟩
      exact hsame q hq heq ▸ hv
  · rw [if_neg fun heq => hk (Std.LawfulEqCmp.compare_eq_iff_eq.1 heq),
      getElem?_table_eq_some h.different]
    apply exists_congr
    intro q
    by_cases hq : q = p
    · simp [hq, hk]
    · rw [h.mem q hq]
      exact and_congr_right fun hmem => by rw [hf q hmem hq]

/-- Erasing a path leads to the table of the list that does not have it. -/
theorem AlikeExcept.table_erase {paths' : List Path} {p : Path} (h : AlikeExcept p paths paths')
    (hp : p ∉ paths') (hf : ∀ q ∈ paths, q ≠ p → g q = f q) :
    (table f paths).erase p.components = table g paths' := by
  apply Std.ExtTreeMap.ext_getElem?
  intro k
  apply Option.ext
  intro v
  rw [Std.ExtTreeMap.getElem?_erase, getElem?_table_eq_some h.different']
  by_cases hk : p.components = k
  · rw [if_pos (Std.LawfulEqCmp.compare_eq_iff_eq.2 hk)]
    refine iff_of_false (by simp) ?_
    rintro ⟨q, hq, heq, _⟩
    exact hp (h.same' hq (heq.trans hk.symm) ▸ hq)
  · rw [if_neg fun heq => hk (Std.LawfulEqCmp.compare_eq_iff_eq.1 heq),
      getElem?_table_eq_some h.different]
    apply exists_congr
    intro q
    by_cases hq : q = p
    · simp [hq, hk]
    · rw [h.mem q hq]
      exact and_congr_right fun hmem => by rw [hf q hmem hq]

/-- A table with its entries under the places of paths lists them in the order of these paths. -/
theorem pairwise_values {m : PathMap α} {path : α → Path}
    (h : ∀ k v, m[k]? = some v → (path v).components = k) :
    m.values.Pairwise fun a b => (path a).order (path b) = .lt := by
  rw [values_eq_map_snd, List.pairwise_map]
  refine Std.ExtTreeMap.ordered_keys_toList.imp_of_mem fun {a b} ha hb hlt => ?_
  have hkey : ∀ c ∈ m.toList, (path c.2).components = c.1 := fun c hc =>
    h c.1 c.2 (Std.ExtTreeMap.mem_toList_iff_getElem?_eq_some.1 hc)
  rw [order, hkey a ha, hkey b hb]
  exact hlt

/-- A table for paths in strict order lists its entries in the order of the paths. -/
theorem values_table (h : Ordered paths) : (table f paths).values = paths.map f := by
  have hlist : (table f paths).toList = paths.map fun p => (p.components, f p) := by
    have hordered : (paths.map fun p => (p.components, f p)).Pairwise
        (fun a b => compare a.1 b.1 = .lt) := List.pairwise_map.2 h
    refine List.Perm.eq_of_pairwise (fun a b _ _ hab hba => ?_)
      Std.ExtTreeMap.ordered_keys_toList hordered ?_
    · have hlt : compare a.1 a.1 = .lt := Std.TransCmp.lt_trans hab hba
      simp at hlt
    · have hnodup : ∀ l : List (List Component × α), l.Pairwise (fun a b => compare a.1 b.1 = .lt) →
          l.Nodup := fun l hl => List.nodup_iff_pairwise_ne.2 (hl.imp fun hlt heq => by
            simp [heq] at hlt)
      refine (List.perm_ext_iff_of_nodup (hnodup _ Std.ExtTreeMap.ordered_keys_toList)
        (hnodup _ hordered)).2 fun ⟨k, v⟩ => ?_
      rw [Std.ExtTreeMap.mem_toList_iff_getElem?_eq_some, getElem?_table_eq_some h.different]
      simp
  rw [values_eq_map_snd, hlist, List.map_map]
  rfl

end Table

section Sorted

variable {paths : List Path}

/-- The table that sorting goes through has each path under its place. -/
theorem getElem?_sorted {k : List Component} {p : Path}
    (h : (paths.foldl (fun m p => m.insertIfNew p.components p) (∅ : PathMap Path))[k]? = some p) :
    p ∈ paths ∧ p.components = k := by
  rw [getElem?_foldl_insertIfNew, Std.ExtTreeMap.getElem?_empty, Option.none_or,
    Option.map_id'] at h
  have hk := List.find?_some h
  exact ⟨List.mem_of_find?_eq_some h, of_decide_eq_true hk⟩

/-- Sorting brings in no other path. -/
theorem mem_of_mem_sorted {p : Path} (h : p ∈ sorted paths) : p ∈ paths := by
  obtain ⟨k, hk⟩ := mem_values_iff.1 h
  exact (getElem?_sorted hk).1

/-- Sorting loses no place. -/
theorem exists_mem_sorted_same {p : Path} (h : p ∈ paths) : ∃ q ∈ sorted paths, q.Same p := by
  have hsome : (paths.foldl (fun m p => m.insertIfNew p.components p)
      (∅ : PathMap Path))[p.components]?.isSome = true := by
    rw [getElem?_foldl_insertIfNew, Std.ExtTreeMap.getElem?_empty, Option.none_or,
      Option.isSome_map, List.find?_isSome]
    exact ⟨p, h, decide_eq_true rfl⟩
  obtain ⟨q, hq⟩ := Option.isSome_iff_exists.1 hsome
  exact ⟨q, mem_values_iff.2 ⟨_, hq⟩, (getElem?_sorted hq).2⟩

/-- Paths that are known by their places are all left by sorting. -/
theorem mem_sorted (h : ∀ p ∈ paths, ∀ q ∈ paths, p.Same q → p = q) {p : Path} :
    p ∈ sorted paths ↔ p ∈ paths := by
  refine ⟨mem_of_mem_sorted, ?_⟩
  intro hp
  obtain ⟨q, hq, hsame⟩ := exists_mem_sorted_same hp
  exact h q (mem_of_mem_sorted hq) p hp hsame ▸ hq

/-- Sorted paths are in strict order. -/
theorem ordered_sorted (paths : List Path) : Ordered (sorted paths) :=
  pairwise_values fun _ _ hp => (getElem?_sorted hp).2

/-- Sorting paths that are known by their places does not depend on the order they come in. -/
theorem sorted_perm {paths' : List Path} (h : ∀ p ∈ paths, ∀ q ∈ paths, p.Same q → p = q)
    (hperm : paths.Perm paths') : sorted paths = sorted paths' := by
  refine (ordered_sorted paths).eq_of_mem_iff (ordered_sorted paths') fun p => ?_
  have h' : ∀ p ∈ paths', ∀ q ∈ paths', p.Same q → p = q := fun p hp q hq =>
    h p (hperm.mem_iff.2 hp) q (hperm.mem_iff.2 hq)
  rw [mem_sorted h, mem_sorted h', hperm.mem_iff]

end Sorted

end Path

end FirmwareIndex
