import FirmwareIndex.Proofs.Catalog.Described
import FirmwareIndex.Proofs.Catalog.Libraries

/-!
# The order of packages

A mapping of a package replaces all that was learned of its class and path before, so the library of
a class at a path is that of the last mapping (`Libraries.keyed?_librariesOf`). When a package comes
behind others instead of before them, the libraries of every class are the same, in the same order,
but for those that the package and one of the others both map (`Library.Reordered`). So it is when
a package declaration is taken in that was not there before
(`Catalog.reordered_take_declaration`).
-/

set_option autoImplicit false

namespace FirmwareIndex

/-- Whether a library is of a class and at the path with a key. -/
def Library.isAt (className : Text) (key : List Component) (l : Library) : Bool :=
  l.className = className && l.path.components = key

/-- A library after and before a change of the order of packages: they are of one class at one path,
with one module, and they are the same unless the first is a mapping of the package that has come
last, and the second one of a package that it has come behind. -/
structure Library.Reordered (root : Path) (m : Modules) (last : Package) (overtaken : List Package)
    (l l' : Library) : Prop where
  entry : l.sameEntry l' = true
  module : l.module = l'.module
  same : l = l' ∨ l ∈ Libraries.mappingsOf root m last ∧
    ∃ p ∈ overtaken, l' ∈ Libraries.mappingsOf root m p

namespace Libraries

open Catalog (librariesOf)

/-- The library of a class at the path with a key. -/
def keyed? (ls : Libraries) (className : Text) (key : List Component) : Option Library :=
  ls.byClass[className]?.bind fun paths => paths[key]?

variable {ls ls' : Libraries} {m : Modules} {root : Path} {className : Text} {key : List Component}

/-- Adding a library changes what is found for its class and place, and nothing else. -/
theorem keyed?_add (ls : Libraries) (l : Library) (className : Text) (key : List Component) :
    (ls.add l).keyed? className key =
      if l.isAt className key then some (ls.learned l) else ls.keyed? className key := by
  rw [keyed?, add, Std.ExtTreeMap.getElem?_alter, className_learned, path_learned]
  by_cases hclass : l.className = className
  · rw [if_pos (Std.LawfulEqCmp.compare_eq_iff_eq.2 hclass), Option.bind_some,
      Std.ExtTreeMap.getElem?_insert, hclass]
    by_cases hkey : l.path.components = key
    · simp [Library.isAt, hclass, hkey]
    · cases hpaths : ls.byClass[className]? <;> simp [Library.isAt, keyed?, hclass, hkey, hpaths]
  · simp [Library.isAt, keyed?, hclass]

/-- The last of some mappings for a class and path is what is learned from them. -/
theorem keyed?_foldl_add (h : ls.Matched m) {list : List Library}
    (hlist : ∀ l ∈ list, l.module = m.get? l.path ∧ l.package.isSome) (className : Text)
    (key : List Component) :
    (list.foldl add ls).keyed? className key =
      (list.filter (Library.isAt className key)).getLast?.or (ls.keyed? className key) := by
  induction list generalizing ls with
  | nil => rfl
  | cons l rest ih =>
    obtain ⟨⟨hmodule, hpackage⟩, hrest⟩ := List.forall_mem_cons.1 hlist
    rw [List.foldl_cons, ih (h.add hmodule) hrest, keyed?_add, h.learned_eq_self hmodule hpackage,
      List.filter_cons]
    by_cases hat : l.isAt className key = true
    · rw [if_pos hat, if_pos hat, List.getLast?_cons]
      cases (rest.filter (Library.isAt className key)).getLast? <;> rfl
    · rw [if_neg hat, if_neg hat]

/-- The library of a class at a path is that of the last mapping, and of the modules where there is
no mapping. -/
theorem keyed?_librariesOf (h : m.Coherent) (root : Path) (packages : List Package)
    (className : Text) (key : List Component) :
    (librariesOf root m packages).keyed? className key =
      ((packages.flatMap (mappingsOf root m)).filter (Library.isAt className key)).getLast?.or
        ((m.records.values.foldl addModule empty).keyed? className key) := by
  have hmappings : ∀ l ∈ packages.flatMap (mappingsOf root m),
      l.module = m.get? l.path ∧ l.package.isSome := by
    intro l hl
    obtain ⟨p, _, hl⟩ := List.mem_flatMap.1 hl
    obtain ⟨hmodule, hpackage⟩ := of_mem_mappingsOf hl
    exact ⟨hmodule, by rw [hpackage]; rfl⟩
  rw [← keyed?_foldl_add (matched_foldl_addModule h) hmappings, List.foldl_flatMap]
  rfl

/-- When a package comes behind others, their libraries correspond. -/
theorem rel_keyed?_librariesOf (h : m.Coherent) (root : Path) (front overtaken : List Package)
    (last : Package) (className : Text) (key : List Component) :
    Option.Rel (Library.Reordered root m last overtaken)
      ((librariesOf root m (front ++ overtaken ++ [last])).keyed? className key)
      ((librariesOf root m (front ++ last :: overtaken)).keyed? className key) := by
  have hself : ∀ entry : Option Library,
      Option.Rel (Library.Reordered root m last overtaken) entry entry := by
    intro entry
    cases entry with
    | none => exact .none
    | some l => exact .some ⟨by simp [Library.sameEntry, Path.Same], rfl, .inl rfl⟩
  have hfound : ∀ {list : List Library} {l : Library},
      (list.filter (Library.isAt className key)).getLast? = some l →
        l ∈ list ∧ l.className = className ∧ l.path.components = key := by
    intro list l hl
    obtain ⟨hmem, hat⟩ := List.mem_filter.1 (List.mem_of_getLast? hl)
    exact ⟨hmem, by simpa [Library.isAt] using hat⟩
  rw [keyed?_librariesOf h, keyed?_librariesOf h]
  simp only [List.flatMap_append, List.flatMap_cons, List.flatMap_nil, List.append_nil,
    List.filter_append, List.getLast?_append, Option.or_assoc]
  cases hlast : ((mappingsOf root m last).filter (Library.isAt className key)).getLast? with
  | none => exact hself _
  | some l =>
    cases hovertaken :
        ((overtaken.flatMap (mappingsOf root m)).filter (Library.isAt className key)).getLast? with
    | none => exact hself _
    | some l' =>
      -- both map the class and the path, so each is the last in its own order
      obtain ⟨hmem, hclass, hkey⟩ := hfound hlast
      obtain ⟨hmem', hclass', hkey'⟩ := hfound hovertaken
      obtain ⟨p, hp, hmapped⟩ := List.mem_flatMap.1 hmem'
      have hsame : l.path.Same l'.path := hkey.trans hkey'.symm
      refine .some ⟨?_, ?_, .inr ⟨hmem, p, hp, hmapped⟩⟩
      · simp [Library.sameEntry, hclass, hclass', hsame]
      · rw [(of_mem_mappingsOf hmem).1, (of_mem_mappingsOf hmapped).1, m.get?_congr hsame]

/-- The libraries of a class are the values of its table, which is empty if there is none. -/
theorem implementations_eq_values (ls : Libraries) (className : Text) :
    ls.implementations className = (ls.byClass[className]?.getD ∅).values := by
  rw [implementations]
  cases ls.byClass[className]? with
  | none => rfl
  | some paths => rfl

/-- Libraries that correspond, one by one, are listed in the same order for a class. -/
theorem forall₂_implementations {R : Library → Library → Prop}
    (h : ∀ key, Option.Rel R (ls.keyed? className key) (ls'.keyed? className key)) :
    List.Forall₂ R (ls.implementations className) (ls'.implementations className) := by
  have hentry : ∀ (ls : Libraries) (key : List Component),
      (ls.byClass[className]?.getD ∅)[key]? = ls.keyed? className key := by
    intro ls key
    rw [keyed?]
    cases ls.byClass[className]? <;> simp
  rw [implementations_eq_values, implementations_eq_values]
  refine forall₂_values fun key => ?_
  rw [hentry, hentry]
  exact h key

end Libraries

/-- A catalog that has taken in a new package declaration and another that has the same modules, and
the new package before some of the others. -/
theorem Catalog.reordered_take_declaration {c c' : Catalog} {s : Setting} {root file : Path}
    {front behind : List Package} {new : Package} (hall : c.packages.all = front ++ behind)
    (hfind : c.packages.find? file = none) (hlooked : ∀ p ∈ c.packages.all, p.sibling ≠ .unknown)
    (hnew : packageOf s c.platforms file = new) (hall' : c'.packages.all = front ++ new :: behind)
    (hlibraries' : c'.libraries = librariesOf root c'.modules c'.packages.all)
    (hcoherent : c'.modules.Coherent) (hrecords : c.modules.records = c'.modules.records) :
    ((c.take (.ofFile s .declaration file)).rebuild s root).packages.all =
        front ++ behind ++ [new] ∧
      ∀ className, List.Forall₂ (Library.Reordered root c'.modules new behind)
        (((c.take (.ofFile s .declaration file)).rebuild s root).libraries.implementations className)
        (c'.libraries.implementations className) := by
  obtain ⟨hpackages, hlibraries⟩ := @rebuild_take_declaration s root c file hfind hlooked
  rw [hall, hnew] at hpackages hlibraries
  refine ⟨congrArg Packages.all hpackages, fun className => ?_⟩
  rw [hlibraries, hlibraries', hall', librariesOf_congr hrecords]
  exact Libraries.forall₂_implementations fun key =>
    Libraries.rel_keyed?_librariesOf hcoherent root front behind new className key

end FirmwareIndex
