import FirmwareIndex.Proofs.Catalog.Mappings
import FirmwareIndex.Proofs.Path.Under
import FirmwareIndex.Proofs.Platform.Dismissed
import FirmwareIndex.Proofs.Platform.Expansion
import FirmwareIndex.Proofs.Platform.Reduced

/-!
# Paths under the root of the workspace

A platform may map a library class to a path under the macro that stands for the root of the
workspace. The macro has been replaced by the text of the root when a package has its mappings
learned, and the path of a module is then read from the root once more. So the library is looked for
below the root and the names of the root again, which is the place that the path alone leads to only
if the root is that of the file system (`Mapping.rooted_same_iff`).
-/

set_option autoImplicit false

namespace FirmwareIndex

namespace Libraries

variable {root : Path} {m : Modules} {p : Package} {r : Reduced} {arch className path : Text}

/-- Whether a library is of a class and for an architecture. -/
def isFor (arch className : Text) (l : Library) : Bool :=
  l.arch = arch && l.className = className

/-- The mappings of one architecture to the libraries for an architecture and a class. -/
theorem filter_map_ofMapping (entry : Text × List LibraryClass) :
    (entry.2.map (ofMapping root m p entry.1)).filter (isFor arch className) =
      if entry.1 = arch then
        (entry.2.filter fun l => l.className = className).map (ofMapping root m p entry.1)
      else [] := by
  have hfor : ∀ l : LibraryClass, isFor arch className (ofMapping root m p entry.1 l) =
      (decide (entry.1 = arch) && decide (l.className = className)) := fun _ => rfl
  simp only [List.filter_map, Function.comp_def, hfor]
  split
  · rename_i heq
    simp only [decide_eq_true heq, Bool.true_and]
  · rename_i hne
    simp [hne]

/-- The libraries for an architecture and a class come from the mappings of the one to the other. -/
theorem filter_flatMap_ofMapping (entries : List (Text × List LibraryClass)) :
    (entries.flatMap fun entry => entry.2.map (ofMapping root m p entry.1)).filter
        (isFor arch className) =
      (entries.filter fun entry => entry.1 = arch).flatMap fun entry =>
        (entry.2.filter fun l => l.className = className).map (ofMapping root m p entry.1) := by
  induction entries with
  | nil => rfl
  | cons entry rest ih =>
    rw [List.flatMap_cons, List.filter_append, filter_map_ofMapping, ih]
    by_cases heq : entry.1 = arch <;> simp [heq]

/-- The classes that a platform gives a package for an architecture. -/
theorem getElem?_libraryClasses (hplatform : p.platform? = some r) (arch : Text) :
    p.libraryClasses[arch]? = r.libraries[arch]?.map fun classes =>
      classes.toList.map fun c => ⟨c.1, c.2⟩ := by
  rw [Package.libraryClasses, hplatform, Std.ExtTreeMap.getElem?_map]

/-- A package whose platform maps a class for an architecture has one mapping of them. -/
theorem filter_mappingsOf (hplatform : p.platform? = some r)
    (hlibrary : r.library? arch className = some path) (root : Path) (m : Modules) :
    (mappingsOf root m p).filter (isFor arch className) =
      [ofMapping root m p arch ⟨className, path⟩] := by
  obtain ⟨classes, hclasses, hpath⟩ := Option.bind_eq_some_iff.1 hlibrary
  have hentry := filter_toList classes className
  rw [hpath] at hentry
  have hmapped : (classes.toList.map fun c => (⟨c.1, c.2⟩ : LibraryClass)).filter
      (fun l => l.className = className) = [⟨className, path⟩] := by
    rw [List.filter_map]
    simp only [Function.comp_def]
    rw [hentry]
    rfl
  rw [mappingsOf, filter_flatMap_ofMapping, filter_toList, getElem?_libraryClasses hplatform,
    hclasses]
  simp [hmapped]

/-- What is learned for a class and a path stays learned. -/
theorem isSome_get?_foldl_add {list : List Library} {l : Library} (hl : l ∈ list) (ls : Libraries) :
    ((list.foldl add ls).get? l.className l.path).isSome := by
  have hkeeps : ∀ (list : List Library) (ls : Libraries), (ls.get? l.className l.path).isSome →
      ((list.foldl add ls).get? l.className l.path).isSome := by
    intro list ls hls
    refine List.foldlRecOn list add
      (motive := fun ls : Libraries => (ls.get? l.className l.path).isSome) hls ?_
    intro ls hls other _
    change ((ls.add other).keyed? l.className l.path.components).isSome
    rw [keyed?_add]
    split
    · rfl
    · exact hls
  obtain ⟨front, back, rfl⟩ := List.append_of_mem hl
  rw [List.foldl_append, List.foldl_cons]
  refine hkeeps back _ ?_
  change ((add _ l).keyed? l.className l.path.components).isSome
  rw [keyed?_add, if_pos (by simp [Library.isAt])]
  rfl

/-- The scan of a package learns one library of a class for an architecture, at a path, with the
module that is known there. -/
structure Maps (root : Path) (m : Modules) (p : Package) (arch className : Text) (path : Path) :
    Prop where
  mapping : (mappingsOf root m p).filter (isFor arch className) =
    [⟨className, path, arch, some p.name, m.get? path⟩]
  learned : ∀ ls : Libraries, ((addPackage root m ls p).get? className path).isSome

/-- The mapping of a class to the path of a module leads below the root. -/
theorem maps_of_library? (hplatform : p.platform? = some r)
    (hlibrary : r.library? arch className = some path) (hpath : Entry.isModulePath path = true)
    (root : Path) (m : Modules) : Maps root m p arch className (root.join path) := by
  have hmapping : (mappingsOf root m p).filter (isFor arch className) =
      [⟨className, root.join path, arch, some p.name, m.get? (root.join path)⟩] := by
    rw [filter_mappingsOf hplatform hlibrary, ofMapping, if_pos hpath]
  refine ⟨hmapping, fun ls => ?_⟩
  have hmem : (⟨className, root.join path, arch, some p.name, m.get? (root.join path)⟩ : Library) ∈
      mappingsOf root m p :=
    List.mem_of_mem_filter (hmapping ▸ List.mem_singleton_self _)
  exact isSome_get?_foldl_add hmem ls

end Libraries

namespace Machine

variable {s : Setting} {m : Machine} {name : Text}

/-- A line changes the macros only where it adds a definition. -/
theorem macros_effect (r : Reading) (here : Place) (opened : List Path) :
    (r.effect s opened here).reading.macros = r.macros ∨
      (r.effect s opened here).reading = r.define here := by
  cases heffect : r.effect s opened here with
  | enter file text r' =>
    obtain ⟨_, _, _, _, _, _, rfl⟩ := effect_eq_enter heffect
    exact .inl rfl
  | carry r' =>
    obtain ⟨cause, offending, rfl⟩ | rfl := effect_eq_carry heffect
    · exact .inl rfl
    · cases LineKind.ofText here.line.text with
      | header => exact .inl (congrArg Choices.macros (Reading.choices_header r here))
      | definition => exact .inr rfl
      | openCondition | ignored | inclusion target => exact .inl rfl
      | branch =>
        refine .inl ?_
        simp only [Effect.reading, Reading.plain, Reading.branch]
        split <;> rfl
      | closeCondition =>
        refine .inl ?_
        simp only [Effect.reading, Reading.plain, Reading.closeCondition]
        split <;> rfl
      | content =>
        simp only [Effect.reading, Reading.plain, Reading.content]
        split
        · exact .inl rfl
        · rename_i a _
          split
          · exact .inr rfl
          · refine .inl ?_
            unfold Reading.library
            split <;> rfl
          · exact .inl (congrArg Choices.macros (Reading.choices_component r here a.scopes))
          · exact .inl rfl
          · exact .inl rfl
          · exact .inl rfl
          · exact .inl rfl
          · exact .inl (congrArg Choices.macros (Reading.choices_pcd r here a.kind a.scopes))

/-- A line that adds no definition of a name leaves the macro of the name as it is. -/
theorem getElem?_macros_effect (r : Reading) (here : Place) (opened : List Path)
    (h : ∀ d ∈ (r.effect s opened here).reading.document.definitions, d.name ≠ name) :
    (r.effect s opened here).reading.macros[name]? = r.macros[name]? := by
  rcases macros_effect (s := s) r here opened with hsame | hdefine
  · rw [hsame]
  · rw [hdefine] at h ⊢
    unfold Reading.define at h ⊢
    split
    · rfl
    · rename_i defined value hdefinition
      rw [hdefinition] at h
      have hne : defined ≠ name := h _ (List.mem_append_right _ (List.mem_singleton_self _))
      rw [Std.ExtTreeMap.getElem?_insert,
        if_neg fun heq => hne (Std.LawfulEqCmp.compare_eq_iff_eq.1 heq)]

/-- A macro that no definition names is what it was at the start. -/
theorem getElem?_macros_iterate_step (n : Nat)
    (h : ∀ d ∈ ((step s)^[n] m).reading.document.definitions, d.name ≠ name) :
    ((step s)^[n] m).reading.macros[name]? = m.reading.macros[name]? := by
  induction n with
  | zero => rfl
  | succ n ih =>
    rw [Function.iterate_succ_apply'] at h ⊢
    cases hnext : ((step s)^[n] m).next? with
    | none =>
      rw [reading_step hnext] at h ⊢
      exact ih h
    | some v =>
      rw [reading_step_of_next?_eq_some hnext] at h ⊢
      rw [getElem?_macros_effect _ _ _ h]
      refine ih fun d hd => h d ?_
      exact (Reading.begins_effect _ _ s _).definitions.subset hd

end Machine

/-- The path under the macro that stands for the root of the workspace. -/
def rooted (path : Text) : Text :=
  '$' :: '(' :: (Reading.workspaceMacro ++ ')' :: '/' :: path)

/-- The mapping of a class to a path for an architecture, in a platform file or in a file that it
includes, where its line is visited. It is the first one of the class for the architecture. -/
structure Mapping (s : Setting) (arch className path : Text) where
  file : Path
  text : Text
  steps : Nat
  visit : Visit
  scopes : List Scope
  next : ((Machine.step s)^[steps] (.start s file text)).next? = some visit
  kind : visit.kind = .content
  active : visit.reading.active = some ⟨.libraryClasses, scopes⟩
  arches : ∃ scope ∈ scopes, scope.arch = arch
  entry : Entry.libraryClass? visit.text = some ⟨className, path⟩
  first : ∀ o ∈ visit.reading.document.libraries, ¬ (o.arch = arch ∧ o.className = className)

/-- The name of the macro, letter by letter. -/
theorem workspaceMacro_eq :
    Reading.workspaceMacro = ['W', 'O', 'R', 'K', 'S', 'P', 'A', 'C', 'E'] := by
  decide +kernel

namespace Mapping

variable {s : Setting} {root : Path} {arch className path : Text}

/-- The document of the platform file. -/
def document (map : Mapping s arch className path) : Document :=
  .ofText s map.file map.text

/-- The path with the macros replaced that are known on its line. -/
def expanded (map : Mapping s arch className path) : Text :=
  map.visit.reading.macros.expand path

/-- No definition before the mapping gives another meaning to the root of the workspace. -/
def KeepsRoot (map : Mapping s arch className path) : Prop :=
  ∀ d ∈ map.visit.reading.document.definitions, d.name ≠ Reading.workspaceMacro

/-- The mapping is that of the reduced document. -/
theorem library?_document (map : Mapping s arch className path) :
    (Reduced.ofDocument map.document).library? arch className = some map.expanded := by
  have hnew : ((Machine.step s)^[map.steps + 1] (.start s map.file map.text)).reading.document.libraries =
      map.visit.reading.document.libraries ++ map.scopes.map fun scope =>
        ⟨scope.arch, scope.moduleType, className, map.expanded, map.visit.location⟩ := by
    have hentry : Entry.libraryClass? map.visit.here.line.text = some ⟨className, path⟩ := map.entry
    rw [Function.iterate_succ_apply', Machine.reading_step_of_next?_eq_some map.next,
      ← Machine.reading_of_next?_eq_some map.next, Reading.effect_of_content s _ _ map.kind,
      Reading.content, map.active]
    simp only [Reading.library, hentry]
    rfl
  obtain ⟨later, hlater⟩ :=
    (Document.begins_ofText s map.file map.text (map.steps + 1)).libraries
  have hfirst : map.visit.reading.document.libraries.find?
      (fun o => o.arch = arch && o.className = className) = none := by
    refine List.find?_eq_none.2 fun o ho htrue => map.first o ho ?_
    simpa using htrue
  obtain ⟨scope, hscope, harch⟩ := map.arches
  have hfound : (map.scopes.find? fun scope => scope.arch = arch).isSome :=
    List.find?_isSome.2 ⟨scope, hscope, decide_eq_true harch⟩
  obtain ⟨found, hfound⟩ := Option.isSome_iff_exists.1 hfound
  rw [(Reduced.firstWins_ofDocument map.document).libraries, document, ← hlater, hnew,
    List.append_assoc, List.find?_append, hfirst, Option.none_or, List.find?_append, List.find?_map]
  simp [hfound]

/-- The library is looked for where the path leads to from the root, once its macros have been
replaced. -/
theorem maps (map : Mapping s arch className path) {p : Package}
    (hp : p.platform? = some (.ofDocument map.document))
    (hpath : Entry.isModulePath path = true) (root : Path) (m : Modules) :
    Libraries.Maps root m p arch className (root.join map.expanded) :=
  Libraries.maps_of_library? hp map.library?_document (Macros.isModulePath_expand hpath) root m

/-- Behind the macro of the root the path is written behind the text of the root. -/
theorem expanded_rooted (map : Mapping s arch className (rooted path)) (hroot : s.root = some root)
    (hkeeps : map.KeepsRoot) :
    map.expanded = root.text ++ '/' :: map.visit.reading.macros.expand path := by
  have hreading := Machine.reading_of_next?_eq_some map.next
  have hmacro : map.visit.reading.macros[Reading.workspaceMacro]? = some root.text := by
    have hstart : (Machine.start s map.file map.text).reading.macros[Reading.workspaceMacro]? =
        some root.text := by
      simp only [Machine.start, Reading.start, hroot]
      exact Std.ExtTreeMap.getElem?_insert_self
    have hkept := Machine.getElem?_macros_iterate_step (m := .start s map.file map.text) map.steps
      (fun d hd => hkeeps d (hreading ▸ hd))
    rw [hreading, hkept, hstart]
  have hword : ∀ c ∈ Reading.workspaceMacro, Text.isWord c = true := by
    rw [workspaceMacro_eq]
    simp [Text.isWord]
  have hslash : Macros.Outside '/' := by unfold Macros.Outside; decide
  have hrest : map.visit.reading.macros.expand ('/' :: path) =
      '/' :: map.visit.reading.macros.expand path := Macros.expand_append hslash [] path
  have hexpanded : map.expanded = map.visit.reading.macros.expand
      ('$' :: '(' :: (Reading.workspaceMacro ++ ')' :: '/' :: path)) := rfl
  rw [hexpanded, Macros.expand_reference hword (by simp [workspaceMacro_eq]), hrest, Macros.value,
    hmacro]
  rfl

/-- The path of a module is looked for below the root if it is mapped alone, and behind the text of
the root, from the root, if it is mapped under the macro that stands for the root. The two are
different places, unless the root is that of the file system. -/
theorem rooted_same_iff (hroot : s.root = some root) (habsolute : root.isAbsolute = true)
    (alone : Mapping s arch className path) (under : Mapping s arch className (rooted path))
    (hmacros : under.visit.reading.macros.expand path = alone.expanded) (hkeeps : under.KeepsRoot)
    (hpath : Entry.isModulePath path = true) {p p' : Package}
    (hp : p.platform? = some (.ofDocument alone.document))
    (hp' : p'.platform? = some (.ofDocument under.document)) (m : Modules) :
    Libraries.Maps root m p arch className (root.join alone.expanded) ∧
      Libraries.Maps root m p' arch className (root.join (root.text ++ '/' :: alone.expanded)) ∧
      ('\\' ∉ root.text → .up ∉ root.components → alone.expanded.Trimmed →
        .up ∉ Path.referenced alone.expanded →
          (root.join (root.text ++ '/' :: alone.expanded)).components =
              root.components ++ root.components.tail ++ Path.referenced alone.expanded ∧
            ((root.join (root.text ++ '/' :: alone.expanded)).Same (root.join alone.expanded) ↔
              root.components = [.root])) := by
  have hunder : under.expanded = root.text ++ '/' :: alone.expanded := by
    rw [under.expanded_rooted hroot hkeeps, hmacros]
  have hrooted : Entry.isModulePath (rooted path) = true := by
    obtain ⟨front, hfront⟩ := List.isSuffixOf_iff_suffix.1 hpath
    refine List.isSuffixOf_iff_suffix.2 (List.IsSuffix.trans ⟨front, hfront⟩ ?_)
    have hsuffix : path <:+ rooted path :=
      ⟨'$' :: '(' :: (Reading.workspaceMacro ++ [')', '/']), by simp [rooted]⟩
    exact hsuffix.map Char.toLower
  have hne : alone.expanded ≠ [] := by
    intro hnil
    have hmodule : Entry.isModulePath alone.expanded = true := Macros.isModulePath_expand hpath
    rw [hnil] at hmodule
    cases hmodule
  refine ⟨alone.maps hp hpath root m, hunder ▸ under.maps hp' hrooted root m, ?_⟩
  intro hplain hup htrimmed hclimbs
  exact ⟨Path.components_join_under habsolute hplain hup htrimmed hne hclimbs,
    Path.join_under_same_iff habsolute hplain hup htrimmed hne hclimbs⟩

end Mapping

namespace Mapping

/-- A platform description with one mapping of a class. -/
def writtenText (path : Text) : Text :=
  "[LibraryClasses]\nFooLib|".toList ++ (path ++ "\n".toList)

/-- A workspace without files. -/
def rootAlone : Setting :=
  ⟨FileSet.empty.sources, some ⟨"/ws"⟩⟩

/-- The platform file beside a package declaration. -/
def platformFile : Path :=
  ⟨"/ws/FooPkg/FooPkg.dsc"⟩

/-- What has been read when the mapping is reached. -/
def reached (path : Text) : Machine :=
  (Machine.step rootAlone)^[1] (.start rootAlone platformFile (writtenText path))

/-- The mapping of a platform description with one mapping. -/
def ofWritten (path line : Text)
    (frames : (reached path).frames = [⟨platformFile, [⟨1, line, line⟩]⟩])
    (kind : LineKind.ofText line = .content)
    (active : (reached path).reading.active = some ⟨.libraryClasses, [.common]⟩)
    (entry : Entry.libraryClass? line = some ⟨"FooLib", path⟩)
    (first : (reached path).reading.document.libraries = []) :
    Mapping rootAlone commonArch "FooLib" path where
  file := platformFile
  text := writtenText path
  steps := 1
  visit := ⟨⟨platformFile, ⟨1, line, line⟩⟩, (reached path).reading⟩
  scopes := [.common]
  next := by
    change (reached path).next? = _
    rw [Machine.next?, frames]
  kind := kind
  active := active
  arches := ⟨.common, List.mem_singleton_self _, rfl⟩
  entry := entry
  first := by
    rw [first]
    exact List.forall_mem_nil _

/-- The mapping of a path as it is written. -/
def aloneMapping : Mapping rootAlone commonArch "FooLib" "FooPkg/Foo.inf" :=
  ofWritten "FooPkg/Foo.inf" "FooLib|FooPkg/Foo.inf" (by decide +kernel) (by decide +kernel)
    (by decide +kernel) (by decide +kernel) (by decide +kernel)

/-- The mapping of the same path under the macro. -/
def underMapping : Mapping rootAlone commonArch "FooLib" (rooted "FooPkg/Foo.inf") :=
  ofWritten (rooted "FooPkg/Foo.inf") "FooLib|$(WORKSPACE)/FooPkg/Foo.inf" (by decide +kernel)
    (by decide +kernel) (by decide +kernel) (by decide +kernel) (by decide +kernel)

/-- The package beside which a platform has been found. -/
def packageWith (d : Document) : Package where
  name := "FooPkg"
  file := ⟨"/ws/FooPkg/FooPkg.dec"⟩
  root := ⟨"/ws/FooPkg"⟩
  declaration := .empty ⟨"/ws/FooPkg/FooPkg.dec"⟩
  sibling := .loaded (.ofDocument d)

/-- Below `/ws` the path is looked for under the macro at another place than alone. -/
theorem not_same_rooted :
    Libraries.Maps ⟨"/ws"⟩ .empty (packageWith aloneMapping.document) commonArch "FooLib"
        ⟨"/ws/FooPkg/Foo.inf"⟩ ∧
      Libraries.Maps ⟨"/ws"⟩ .empty (packageWith underMapping.document) commonArch "FooLib"
        ⟨"/ws/ws/FooPkg/Foo.inf"⟩ ∧
      ¬ (⟨"/ws/ws/FooPkg/Foo.inf"⟩ : Path).Same ⟨"/ws/FooPkg/Foo.inf"⟩ := by
  have hexpanded : aloneMapping.expanded = "FooPkg/Foo.inf".toList := by decide +kernel
  have hunder : underMapping.visit.reading.macros.expand "FooPkg/Foo.inf" =
      aloneMapping.expanded := by
    decide +kernel
  have hkeeps : underMapping.KeepsRoot := by
    have hnone : underMapping.visit.reading.document.definitions = [] := by decide +kernel
    rw [KeepsRoot, hnone]
    exact List.forall_mem_nil _
  have hplatform : ∀ d : Document, (packageWith d).platform? = some (.ofDocument d) := fun _ => rfl
  have hws : rootAlone.root = some ⟨"/ws"⟩ := rfl
  obtain ⟨halone, hrooted, hsame⟩ := rooted_same_iff hws (by decide) aloneMapping underMapping hunder
    hkeeps (by decide +kernel) (hplatform aloneMapping.document) (hplatform underMapping.document)
    .empty
  have hjoin : Path.join ⟨"/ws"⟩ "FooPkg/Foo.inf".toList = ⟨"/ws/FooPkg/Foo.inf"⟩ := by
    decide +kernel
  have hjoin' : Path.join ⟨"/ws"⟩ ("/ws".toList ++ '/' :: "FooPkg/Foo.inf".toList) =
      ⟨"/ws/ws/FooPkg/Foo.inf"⟩ := by
    decide +kernel
  simp only [hexpanded, hjoin, hjoin'] at halone hrooted hsame
  refine ⟨halone, hrooted, fun heq => ?_⟩
  have hroot := (hsame (by decide +kernel) (by decide +kernel) ?_ (by decide +kernel)).2.1 heq
  · exact absurd hroot (by decide +kernel)
  · exact ⟨by simp; decide, by simp; decide⟩

/-- A workspace with a package and the platform beside it, which maps a class to a path. -/
def withPlatform (path : Text) : Setting :=
  ⟨(FileSet.empty.write platformFile (writtenText path)).sources, some ⟨"/ws"⟩⟩

/-- The paths of the libraries that the scan of the package learns. -/
def scanned (path : Text) : List Path :=
  let p := (Package.ofDeclaration (.empty ⟨"/ws/FooPkg/FooPkg.dec"⟩)).load (withPlatform path)
  (Libraries.addPackage ⟨"/ws"⟩ .empty .empty p).all.map Library.path

/-- The macro of the root does not lead to the root: the names of the root come twice. -/
theorem scanned_rooted_ne :
    scanned "FooPkg/Foo.inf" = [⟨"/ws/FooPkg/Foo.inf"⟩] ∧
      scanned (rooted "FooPkg/Foo.inf") = [⟨"/ws/ws/FooPkg/Foo.inf"⟩] := by
  decide +kernel

end Mapping

end FirmwareIndex
