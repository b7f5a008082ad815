import FirmwareIndex.Proofs.Catalog.Mappings
import Mathlib.Data.List.Induction

/-!
# Libraries after any additions

However libraries are learned, one by one, from modules or from the mappings of packages, it comes
down to additions that follow one another. The list of all libraries and the table of those of each
class are two views of the same libraries (`Libraries.Indexed`). The history of the additions says
all there is to know: a library is the last addition for its class and path, with the module and the
package of the last addition that had one, and the libraries stand in the order of their last
additions (`Libraries.reflects_run`).
-/

set_option autoImplicit false

namespace FirmwareIndex

/-- Leaving out items that are not looked for does not change what is found. -/
theorem find?_filter_of_imp {α : Type} {p q : α → Bool} (h : ∀ a, q a = true → p a = true)
    (list : List α) : (list.filter p).find? q = list.find? q := by
  induction list with
  | nil => rfl
  | cons a rest ih =>
    cases hq : q a with
    | true => rw [List.filter_cons_of_pos (h a hq), List.find?_cons_of_pos hq,
        List.find?_cons_of_pos hq]
    | false =>
      rw [List.find?_cons_of_neg (by simp [hq]), ← ih, List.filter_cons]
      split
      · exact List.find?_cons_of_neg (by simp [hq])
      · rfl

namespace Library

/-- Two libraries are one entry if they have one class and one place. -/
theorem sameEntry_iff {a b : Library} :
    a.sameEntry b = true ↔ a.className = b.className ∧ a.path.components = b.path.components := by
  simp only [sameEntry, Bool.and_eq_true, decide_eq_true_eq]
  rfl

/-- A library is its own entry. -/
theorem sameEntry_self (l : Library) : l.sameEntry l = true :=
  sameEntry_iff.2 ⟨rfl, rfl⟩

/-- It does not matter which of two libraries comes first. -/
theorem sameEntry_comm (a b : Library) : a.sameEntry b = b.sameEntry a := by
  rw [Bool.eq_iff_iff, sameEntry_iff, sameEntry_iff]
  exact and_congr eq_comm eq_comm

/-- Libraries of one entry have the same entry in common with any other. -/
theorem sameEntry_congr {a b : Library} (h : a.sameEntry b = true) (other : Library) :
    a.sameEntry other = b.sameEntry other := by
  obtain ⟨hclass, hpath⟩ := sameEntry_iff.1 h
  rw [Bool.eq_iff_iff, sameEntry_iff, sameEntry_iff, hclass, hpath]

/-- What it means that a library is of a class and at a place. -/
theorem isAt_iff {className : Text} {key : List Component} {l : Library} :
    l.isAt className key = true ↔ l.className = className ∧ l.path.components = key := by
  simp [isAt]

end Library

namespace Libraries

/-- What can be done to the libraries. A package gives its mappings once the platform description
beside it has been looked for. -/
inductive Operation where
  | add (l : Library)
  | addModule (r : ModuleRecord)
  | addPackage (s : Setting) (root : Path) (m : Modules) (p : Package)

namespace Operation

/-- The libraries after an operation. -/
def apply (ls : Libraries) : Operation → Libraries
  | add l => ls.add l
  | addModule r => ls.addModule r
  | addPackage s root m p => Libraries.addPackage root m ls (p.load s)

/-- The libraries that an operation adds, in order. -/
def additions : Operation → List Library
  | add l => [l]
  | addModule r => rolesOf r
  | addPackage s root m p => mappingsOf root m (p.load s)

end Operation

/-- The libraries after some operations. -/
def run (ls : Libraries) (operations : List Operation) : Libraries :=
  operations.foldl Operation.apply ls

/-- The libraries that some operations add, in order. -/
def history (operations : List Operation) : List Library :=
  operations.flatMap Operation.additions

/-- The last additions for each entry, in order. -/
def lastAdditions : List Library → List Library
  | [] => []
  | l :: later =>
    if later.any l.sameEntry then lastAdditions later else l :: lastAdditions later

/-- What the last addition for the entry of a library says, of those that say anything. -/
def lastSaid? {α : Type} (past : List Library) (f : Library → Option α) (l : Library) : Option α :=
  ((past.filter l.sameEntry).filterMap f).getLast?

/-- What is known of an entry after some additions, the last of which for it is `l`: all that `l`
says, with the last module and the last package that were said. -/
def settled (past : List Library) (l : Library) : Library :=
  { l with
    module := lastSaid? past Library.module l
    package := lastSaid? past Library.package l }

/-- What a history of additions says about the libraries. -/
structure Reflects (ls : Libraries) (past : List Library) : Prop where
  /-- There is one library for a class and a path. -/
  different : ls.all.Pairwise fun a b => a.sameEntry b = false
  /-- The libraries are those that were added, in the order of their last additions. -/
  all : ls.all = (lastAdditions past).map (settled past)
  /-- An addition takes the library off the list that the table has for its entry, and no other. -/
  all_add : ∀ l : Library, (ls.add l).all =
    (ls.all.filter fun other => ls.get? l.className l.path ≠ some other) ++ [ls.learned l]
  /-- Those of a class are listed by path. -/
  perm_implementations : ∀ className : Text,
    (ls.implementations className).Perm (ls.all.filter fun l => l.className = className)
  ordered_implementations : ∀ className : Text,
    (ls.implementations className).Pairwise fun a b => a.path.order b.path = .lt
  /-- The classes are those that there is a library of. -/
  grouped : ∀ className : Text, ls.grouped[className]? =
    if ls.all.any fun l => l.className = className then some (ls.implementations className) else none

/-- The list of all libraries and the table of those of each class have the same libraries. -/
structure Indexed (ls : Libraries) : Prop where
  different : ls.all.Pairwise fun a b => a.sameEntry b = false
  keyed? : ∀ (className : Text) (key : List Component),
    ls.keyed? className key = ls.all.find? (Library.isAt className key)
  /-- A class is entered with its first library. -/
  entered : ∀ className : Text,
    className ∈ ls.byClass ↔ ∃ l ∈ ls.all, l.className = className

section Indexed

variable {ls : Libraries}

/-- No libraries are indexed. -/
theorem indexed_empty : empty.Indexed where
  different := .nil
  keyed? := by simp [Libraries.keyed?, empty]
  entered := by simp [empty]

/-- What is learned of a library is the entry of that library. -/
theorem sameEntry_learned (ls : Libraries) (l : Library) : (ls.learned l).sameEntry l = true :=
  Library.sameEntry_iff.2 ⟨className_learned ls l, by rw [path_learned]⟩

/-- What is learned of a library has the entry of the library. -/
theorem sameEntry_learned_right (ls : Libraries) (other l : Library) :
    other.sameEntry (ls.learned l) = other.sameEntry l := by
  rw [Library.sameEntry_comm, Library.sameEntry_congr (sameEntry_learned ls l),
    Library.sameEntry_comm]

/-- All libraries after an addition. -/
theorem all_add (ls : Libraries) (l : Library) :
    (ls.add l).all = (ls.all.filter fun other => !other.sameEntry l) ++ [ls.learned l] := by
  simp only [add, sameEntry_learned_right]

/-- What is learned of a library is of its class and at its path. -/
theorem isAt_learned (ls : Libraries) (l : Library) (className : Text) (key : List Component) :
    (ls.learned l).isAt className key = l.isAt className key := by
  rw [Bool.eq_iff_iff, Library.isAt_iff, Library.isAt_iff, className_learned, path_learned]

/-- After an addition another library is found only under the class and path of the addition. -/
theorem find?_all_add (ls : Libraries) (l : Library) (className : Text) (key : List Component) :
    (ls.add l).all.find? (Library.isAt className key) =
      if l.isAt className key then some (ls.learned l)
      else ls.all.find? (Library.isAt className key) := by
  rw [all_add, List.find?_append, List.find?_singleton, isAt_learned]
  by_cases hat : l.isAt className key = true
  · -- the libraries that are kept are of other entries
    have hnone : (ls.all.filter fun a => !a.sameEntry l).find? (Library.isAt className key) =
        none := by
      refine List.find?_eq_none.2 fun a ha hata => ?_
      rw [Library.isAt_iff, ← (Library.isAt_iff.1 hat).1, ← (Library.isAt_iff.1 hat).2,
        ← Library.sameEntry_iff] at hata
      simp [hata] at ha
    rw [if_pos hat, if_pos hat, hnone, Option.none_or]
  · have hkept : (ls.all.filter fun a => !a.sameEntry l).find? (Library.isAt className key) =
        ls.all.find? (Library.isAt className key) := by
      refine find?_filter_of_imp (fun a hata => ?_) _
      have hdiff : ¬ a.sameEntry l = true := by
        intro hsame
        rw [Library.sameEntry_iff] at hsame
        rw [Library.isAt_iff, hsame.1, hsame.2, ← Library.isAt_iff] at hata
        exact hat hata
      simpa using hdiff
    rw [if_neg hat, if_neg hat, hkept, Option.or_none]

/-- The classes after an addition are those before it and that of the addition. -/
theorem exists_mem_all_add (ls : Libraries) (l : Library) (className : Text) :
    (∃ a ∈ (ls.add l).all, a.className = className) ↔
      l.className = className ∨ ∃ a ∈ ls.all, a.className = className := by
  rw [all_add]
  constructor
  · rintro ⟨a, ha, hclass⟩
    rcases List.mem_append.1 ha with ha | ha
    · exact .inr ⟨a, (List.mem_filter.1 ha).1, hclass⟩
    · rw [List.mem_singleton.1 ha, className_learned] at hclass
      exact .inl hclass
  · rintro (hclass | ⟨a, ha, hclass⟩)
    · exact ⟨ls.learned l, by simp, by rw [className_learned, hclass]⟩
    · by_cases hsame : a.sameEntry l = true
      · refine ⟨ls.learned l, by simp, ?_⟩
        rw [className_learned, ← (Library.sameEntry_iff.1 hsame).1, hclass]
      · exact ⟨a, by simp [ha, hsame], hclass⟩

/-- Adding a library adds its class. -/
theorem mem_byClass_add (ls : Libraries) (l : Library) (className : Text) :
    className ∈ (ls.add l).byClass ↔ l.className = className ∨ className ∈ ls.byClass := by
  rw [add, Std.ExtTreeMap.mem_alter, className_learned]
  by_cases hclass : l.className = className
  · simp [hclass]
  · simp [hclass]

namespace Indexed

/-- Adding a library keeps the list and the table in step. -/
theorem add (h : ls.Indexed) (l : Library) : (ls.add l).Indexed where
  different := by
    rw [all_add, List.pairwise_append]
    refine ⟨h.different.filter _, List.pairwise_singleton _ _, fun a ha b hb => ?_⟩
    obtain rfl := List.mem_singleton.1 hb
    rw [sameEntry_learned_right]
    simpa using (List.mem_filter.1 ha).2
  keyed? className key := by
    rw [keyed?_add, find?_all_add, h.keyed?]
  entered className := by
    rw [mem_byClass_add, h.entered, exists_mem_all_add]

/-- A library of the list is found by its class and path. -/
theorem find?_isAt (h : ls.Indexed) {className : Text} {key : List Component} {l : Library} :
    ls.all.find? (Library.isAt className key) = some l ↔
      l ∈ ls.all ∧ l.className = className ∧ l.path.components = key := by
  constructor
  · intro hfind
    exact ⟨List.mem_of_find?_eq_some hfind, Library.isAt_iff.1 (List.find?_some hfind)⟩
  · rintro ⟨hmem, hat⟩
    obtain ⟨other, hother⟩ := Option.isSome_iff_exists.1
      (List.find?_isSome.2 ⟨l, hmem, Library.isAt_iff.2 hat⟩)
    have hother' := Library.isAt_iff.1 (List.find?_some hother)
    have hsame : other.sameEntry l = true :=
      Library.sameEntry_iff.2 ⟨hother'.1.trans hat.1.symm, hother'.2.trans hat.2.symm⟩
    have hsymm : Std.Symm fun a b : Library => a.sameEntry b = false :=
      ⟨fun a b hab => (b.sameEntry_comm a).trans hab⟩
    have heq : other = l := by
      by_contra hne
      rw [h.different.forall (List.mem_of_find?_eq_some hother) hmem hne] at hsame
      cases hsame
    rw [hother, heq]

/-- The table has the library of the list for an entry. -/
theorem get?_eq_some_iff (h : ls.Indexed) {l other : Library} :
    ls.get? l.className l.path = some other ↔ other ∈ ls.all ∧ other.sameEntry l = true := by
  have hkeyed : ls.get? l.className l.path =
      ls.all.find? (Library.isAt l.className l.path.components) := h.keyed? _ _
  rw [hkeyed, h.find?_isAt, Library.sameEntry_iff]

/-- An added library comes last, and the older one for its entry is gone. -/
theorem all_add_eq_filter (h : ls.Indexed) (l : Library) : (ls.add l).all =
    (ls.all.filter fun other => ls.get? l.className l.path ≠ some other) ++ [ls.learned l] := by
  rw [all_add]
  congr 1
  refine List.filter_congr fun other hother => ?_
  have hentry : ls.get? l.className l.path = some other ↔ other.sameEntry l = true :=
    h.get?_eq_some_iff.trans (and_iff_right hother)
  simp [hentry]

/-- The entries of the table of a class are its libraries by path. -/
theorem getElem?_byClass (h : ls.Indexed) (className : Text) (key : List Component) (l : Library) :
    (ls.byClass[className]?.getD ∅)[key]? = some l ↔
      l ∈ ls.all ∧ l.className = className ∧ l.path.components = key := by
  rw [← h.find?_isAt, ← h.keyed?, Libraries.keyed?]
  cases ls.byClass[className]? <;> simp

/-- The libraries of a class are in strict order of their paths. -/
theorem ordered_implementations (h : ls.Indexed) (className : Text) :
    (ls.implementations className).Pairwise fun a b => a.path.order b.path = .lt := by
  rw [implementations_eq_values]
  exact Path.pairwise_values fun key l hl => ((h.getElem?_byClass className key l).1 hl).2.2

/-- The libraries of a class are those of all that have it. -/
theorem mem_implementations (h : ls.Indexed) {className : Text} {l : Library} :
    l ∈ ls.implementations className ↔ l ∈ ls.all ∧ l.className = className := by
  rw [implementations_eq_values, mem_values_iff]
  simp only [h.getElem?_byClass]
  exact ⟨fun ⟨_, hl, hclass, _⟩ => ⟨hl, hclass⟩, fun ⟨hl, hclass⟩ => ⟨_, hl, hclass, rfl⟩⟩

/-- Each library of a class is listed as often for the class as among all. -/
theorem perm_implementations (h : ls.Indexed) (className : Text) :
    (ls.implementations className).Perm (ls.all.filter fun l => l.className = className) := by
  have hnodup : (ls.implementations className).Nodup := by
    refine List.nodup_iff_pairwise_ne.2 ((h.ordered_implementations className).imp ?_)
    rintro a b hlt rfl
    exact Path.order_ne_lt_self a.path hlt
  have hall : ls.all.Nodup := by
    refine List.nodup_iff_pairwise_ne.2 (h.different.imp ?_)
    rintro a b hdiff rfl
    rw [a.sameEntry_self] at hdiff
    cases hdiff
  refine (List.perm_ext_iff_of_nodup hnodup (hall.filter _)).2 fun l => ?_
  rw [h.mem_implementations, List.mem_filter, decide_eq_true_eq]

/-- The group of a class has its libraries, and a class without any has no group. -/
theorem getElem?_grouped (h : ls.Indexed) (className : Text) : ls.grouped[className]? =
    if ls.all.any fun l => l.className = className then some (ls.implementations className)
    else none := by
  have hany : (ls.all.any fun l => l.className = className) = true ↔ className ∈ ls.byClass := by
    simp [h.entered]
  rw [grouped, Std.ExtTreeMap.getElem?_map, implementations]
  by_cases hclass : className ∈ ls.byClass
  · rw [if_pos (hany.2 hclass), Std.ExtTreeMap.getElem?_eq_some_getElem hclass]
    rfl
  · rw [if_neg (mt hany.1 hclass), Std.ExtTreeMap.getElem?_eq_none hclass]
    rfl

end Indexed

end Indexed

section History

variable {α : Type} {past : List Library} {ls : Libraries}

/-- One more addition comes last, and those for its entry before it are not the last ones. -/
theorem lastAdditions_concat (past : List Library) (l : Library) :
    lastAdditions (past ++ [l]) =
      ((lastAdditions past).filter fun other => !other.sameEntry l) ++ [l] := by
  induction past with
  | nil => rfl
  | cons a rest ih =>
    rw [List.cons_append, lastAdditions, lastAdditions, ih, List.any_append]
    cases hlater : rest.any a.sameEntry with
    | true => rw [Bool.true_or, if_pos rfl, if_pos rfl]
    | false =>
      rw [Bool.false_or, if_neg Bool.false_ne_true, List.filter_cons]
      cases hsame : a.sameEntry l <;> simp [hsame]

/-- Every entry that something was added for has a last addition. -/
theorem exists_mem_lastAdditions {l : Library} (h : l ∈ past) :
    ∃ last ∈ lastAdditions past, last.sameEntry l = true := by
  induction past using List.reverseRecOn with
  | nil => cases h
  | append_singleton past a ih =>
    rw [lastAdditions_concat]
    by_cases hsame : a.sameEntry l = true
    · exact ⟨a, by simp, hsame⟩
    · rcases List.mem_append.1 h with h | h
      · obtain ⟨last, hlast, hentry⟩ := ih h
        have hother : ¬ last.sameEntry a = true := by
          intro hlasta
          rw [Library.sameEntry_congr hlasta] at hentry
          exact hsame hentry
        exact ⟨last, by simp [hlast, hother], hentry⟩
      · rw [List.mem_singleton.1 h, Library.sameEntry_self] at hsame
        exact absurd rfl hsame

/-- The last word on an entry is the same for every library of that entry. -/
theorem lastSaid?_congr {a b : Library} (h : a.sameEntry b = true) (past : List Library)
    (f : Library → Option α) : lastSaid? past f a = lastSaid? past f b := by
  have hentry : a.sameEntry = b.sameEntry := funext (Library.sameEntry_congr h)
  rw [lastSaid?, lastSaid?, hentry]

/-- One more addition has the last word on its entry, if it says anything. -/
theorem lastSaid?_concat (past : List Library) (l : Library) (f : Library → Option α)
    (other : Library) :
    lastSaid? (past ++ [l]) f other =
      if other.sameEntry l then (f l).or (lastSaid? past f other) else lastSaid? past f other := by
  rw [lastSaid?, List.filter_append, List.filterMap_append, List.getLast?_append]
  cases hsame : other.sameEntry l with
  | false => simp [hsame, lastSaid?]
  | true => cases hf : f l <;> simp [hsame, hf, lastSaid?]

/-- Nothing was said about an entry that nothing was added for. -/
theorem lastSaid?_eq_none {l : Library} (h : ∀ other ∈ past, l.sameEntry other = false)
    (f : Library → Option α) : lastSaid? past f l = none := by
  have hfilter : past.filter l.sameEntry = [] :=
    List.filter_eq_nil_iff.2 fun other hother => by simp [h other hother]
  rw [lastSaid?, hfilter]
  rfl

/-- What is known of an entry is that entry. -/
theorem sameEntry_settled (past : List Library) (l other : Library) :
    (settled past l).sameEntry other = l.sameEntry other :=
  rfl

/-- What an addition leads to is what the history says that ends with it. -/
theorem learned_eq_settled (h : ls.Indexed) (hall : ls.all = (lastAdditions past).map (settled past))
    (l : Library) : ls.learned l = settled (past ++ [l]) l := by
  have hself := l.sameEntry_self
  unfold learned
  cases hget : ls.get? l.className l.path with
  | none =>
    have hother : ∀ other ∈ past, l.sameEntry other = false := by
      intro other hother
      by_contra hsame
      rw [Bool.not_eq_false] at hsame
      obtain ⟨last, hlast, hentry⟩ := exists_mem_lastAdditions hother
      have hmem : settled past last ∈ ls.all := hall ▸ List.mem_map_of_mem hlast
      have hat : last.sameEntry l = true := by
        rw [Library.sameEntry_congr hentry, Library.sameEntry_comm, hsame]
      have hfound : ls.get? l.className l.path = some (settled past last) :=
        h.get?_eq_some_iff.2 ⟨hmem, hat⟩
      rw [hget] at hfound
      cases hfound
    simp only [settled, lastSaid?_concat, if_pos hself, lastSaid?_eq_none hother, Option.or_none]
  | some old =>
    obtain ⟨hmem, hsame⟩ := h.get?_eq_some_iff.1 hget
    rw [hall] at hmem
    obtain ⟨last, _, rfl⟩ := List.mem_map.1 hmem
    rw [sameEntry_settled] at hsame
    simp only [Library.mergedOver, settled, lastSaid?_concat, if_pos hself, lastSaid?_congr hsame]

/-- After one more addition the history goes on with it. -/
theorem all_add_eq (h : ls.Indexed) (hall : ls.all = (lastAdditions past).map (settled past))
    (l : Library) :
    (ls.add l).all = (lastAdditions (past ++ [l])).map (settled (past ++ [l])) := by
  rw [all_add, lastAdditions_concat, List.map_append, List.map_singleton,
    learned_eq_settled h hall l, hall, List.filter_map]
  congr 1
  refine List.map_congr_left fun other hother => ?_
  have hdiff : other.sameEntry l = false := by
    simpa [sameEntry_settled] using (List.mem_filter.1 hother).2
  simp only [settled, lastSaid?_concat, hdiff, if_neg Bool.false_ne_true]

/-- After some additions the two views agree with each other and with the history. -/
theorem indexed_foldl_add (additions : List Library) :
    (additions.foldl add empty).Indexed ∧
      (additions.foldl add empty).all = (lastAdditions additions).map (settled additions) := by
  induction additions using List.reverseRecOn with
  | nil => exact ⟨indexed_empty, rfl⟩
  | append_singleton past l ih =>
    obtain ⟨hindexed, hall⟩ := ih
    rw [List.foldl_append]
    exact ⟨hindexed.add l, all_add_eq hindexed hall l⟩

end History

/-- Operations make their additions one after the other. -/
theorem run_eq_foldl (ls : Libraries) (operations : List Operation) :
    ls.run operations = (history operations).foldl add ls := by
  rw [run, history, List.foldl_flatMap]
  congr 1
  funext ls operation
  cases operation <;> rfl

/-- After any operations the libraries are as the history of their additions tells. -/
theorem reflects_run (operations : List Operation) :
    Reflects (run empty operations) (history operations) := by
  obtain ⟨hindexed, hall⟩ := indexed_foldl_add (history operations)
  rw [run_eq_foldl]
  exact ⟨hindexed.different, hall, hindexed.all_add_eq_filter, hindexed.perm_implementations,
    hindexed.ordered_implementations, hindexed.getElem?_grouped⟩

end Libraries

/-- The libraries that are found anew are those of the modules and then those of the packages. -/
theorem Catalog.librariesOf_eq_foldl (root : Path) (m : Modules) (ps : List Package) :
    librariesOf root m ps =
      (m.records.values.flatMap Libraries.rolesOf ++
        ps.flatMap (Libraries.mappingsOf root m)).foldl Libraries.add .empty := by
  rw [List.foldl_append, List.foldl_flatMap, List.foldl_flatMap]
  rfl

end FirmwareIndex
