import FirmwareIndex.Catalog.Platforms
import FirmwareIndex.Proofs.Path.Ordered
import FirmwareIndex.Proofs.Platform.Components
import FirmwareIndex.Proofs.Text.Names
import FirmwareIndex.Proofs.Text.Pieces

/-!
# Reduced documents

Under each of its keys a reduced document has what the first entry under this key says, and it has
no other keys (`Reduced.firstWins_ofDocument`). Headers give architectures as `common` or in
capitals, and the name space of a setting ends at the first dot, in every document that is read
(`Document.IsRead.formed`). So settings of different items are never merged, and the names of
architectures that a platform compares in any case are looked up in capitals in its reduced form
(`Platforms.choose_eq_reduced`).
-/

set_option autoImplicit false

namespace FirmwareIndex

/-- The paths of the modules that are built for an architecture, in the order of the document. -/
def Document.builtFor (d : Document) (arch : Text) : List Text :=
  (d.components.filter fun c => c.arch = arch).map BuiltModule.path

namespace Reduced

/-- The implementation of a class on an architecture, if there is one. -/
def library? (r : Reduced) (arch className : Text) : Option Text :=
  r.libraries[arch]?.bind fun classes => classes[className]?

/-- Under each key stands what the first entry of a document under this key says, and there are no
other keys. -/
structure FirstWins (r : Reduced) (d : Document) : Prop where
  file : r.file = d.file
  definitions : ∀ name, r.definitions[name]? =
    (d.definitions.find? fun e => e.name = name).map Definition.value
  libraries : ∀ arch className, r.library? arch className =
    (d.libraries.find? fun o => o.arch = arch && o.className = className).map Override.path
  arches : ∀ arch, arch ∈ r.libraries ↔ ∃ o ∈ d.libraries, o.arch = arch
  libraryClasses : ∀ className, r.libraryClasses[className]? =
    (d.libraries.find? fun o => o.className = className).map Override.path
  /-- The paths of an architecture stand in the order in which they first occur, each once. -/
  components : ∀ arch, r.components[arch]? =
    if d.builtFor arch = [] then none else some (d.builtFor arch).eraseDups
  pcds : ∀ key, r.pcds[key]? =
    (d.pcds.find? fun p => p.qualifiedName = key).map fun p => p.value.getD []

/-- A choice is added for its class on its architecture, unless there is one. -/
theorem getElem?_addLibrary (m : TextMap (TextMap Text)) (o : Override) (arch className : Text) :
    ((addLibrary m o)[arch]?.bind fun classes => classes[className]?) =
      (m[arch]?.bind fun classes => classes[className]?).or
        (if o.arch = arch && o.className = className then some o.path else none) := by
  rw [addLibrary, Std.ExtTreeMap.getElem?_alter]
  by_cases harch : o.arch = arch
  · subst harch
    have hnew := getElem?_foldl_insertIfNew Override.className Override.path [o]
      (m[o.arch]?.getD ∅) className
    have hold : (m[o.arch]?.getD ∅)[className]? =
        m[o.arch]?.bind fun classes => classes[className]? := by
      cases m[o.arch]? <;> simp
    rw [List.foldl_cons, List.foldl_nil, hold] at hnew
    rw [if_pos Std.ReflCmp.compare_self, Option.bind_some, hnew, List.find?_singleton]
    by_cases hclass : o.className = className <;> simp [hclass]
  · simp [harch]

/-- The first choice for a class on an architecture stays. -/
theorem getElem?_addLibraries (overrides : List Override) (arch className : Text)
    (m : TextMap (TextMap Text)) :
    ((overrides.foldl addLibrary m)[arch]?.bind fun classes => classes[className]?) =
      (m[arch]?.bind fun classes => classes[className]?).or
        ((overrides.find? fun o => o.arch = arch && o.className = className).map
          Override.path) := by
  induction overrides generalizing m with
  | nil => simp
  | cons o rest ih =>
    rw [List.foldl_cons, ih, getElem?_addLibrary, List.find?_cons, Option.or_assoc]
    cases (o.arch = arch && o.className = className : Bool) <;> rfl

/-- The table has the architectures it had and those of the choices that are added. -/
theorem mem_addLibraries (overrides : List Override) (arch : Text) (m : TextMap (TextMap Text)) :
    arch ∈ overrides.foldl addLibrary m ↔ arch ∈ m ∨ ∃ o ∈ overrides, o.arch = arch := by
  induction overrides generalizing m with
  | nil => simp
  | cons o rest ih =>
    rw [List.foldl_cons, ih, addLibrary, Std.ExtTreeMap.mem_alter]
    by_cases harch : o.arch = arch
    · simp [harch]
    · simp [harch]

/-- A list with one more item, each once. -/
theorem eraseDups_append_singleton (paths : List Text) (path : Text) :
    (paths ++ [path]).eraseDups =
      if paths.eraseDups.contains path then paths.eraseDups else paths.eraseDups ++ [path] := by
  rw [List.eraseDups_append, List.removeAll]
  by_cases hpath : path ∈ paths <;> simp [hpath, List.eraseDups_cons]

/-- The paths of an architecture are listed once each, in the order in which they come. -/
theorem getElem?_addComponents (components : List BuiltModule) (arch : Text) :
    (components.foldl (fun m c => addComponent m c.arch c.path)
        (∅ : TextMap (List Text)))[arch]? =
      let paths := (components.filter fun c => c.arch = arch).map BuiltModule.path
      if paths = [] then none else some paths.eraseDups := by
  dsimp only
  -- a path is added at the end of its list, so the last component is the one to take off
  induction components using List.reverseRecOn with
  | nil => simp
  | append_singleton front c ih =>
    rw [List.foldl_append, List.foldl_cons, List.foldl_nil, addComponent,
      Std.ExtTreeMap.getElem?_alter, List.filter_append, List.map_append]
    by_cases harch : c.arch = arch
    · subst harch
      generalize hpaths : (front.filter fun e => e.arch = c.arch).map BuiltModule.path = paths at ih
      have hlisted : (if paths = [] then none else some paths.eraseDups).getD [] =
          paths.eraseDups := by
        split
        · rename_i hnil
          rw [hnil]
          rfl
        · rfl
      rw [if_pos Std.ReflCmp.compare_self, ih, hlisted]
      simp [eraseDups_append_singleton]
    · simp [harch, ih]

/-- The reduced form of a document has what its first entries say. -/
theorem firstWins_ofDocument (d : Document) : (ofDocument d).FirstWins d where
  file := rfl
  definitions name :=
    (getElem?_foldl_insertIfNew Definition.name Definition.value d.definitions ∅ name).trans
      (by simp)
  libraries arch className :=
    (getElem?_addLibraries d.libraries arch className ∅).trans (by simp)
  arches arch := (mem_addLibraries d.libraries arch ∅).trans (by simp)
  libraryClasses className :=
    (getElem?_foldl_insertIfNew Override.className Override.path d.libraries ∅ className).trans
      (by simp)
  components arch := getElem?_addComponents d.components arch
  pcds key :=
    (getElem?_foldl_insertIfNew PcdSetting.qualifiedName (fun p => p.value.getD []) d.pcds ∅
      key).trans (by simp)

end Reduced

/-! ## What headers and settings can say -/

/-- The architectures that headers give: `common`, and names in capitals. -/
def IsArchitecture (arch : Text) : Prop :=
  arch = commonArch ∨ Text.upper arch = arch

/-- Headers give `common` or a name in capitals. -/
theorem Header.isArchitecture_archOf (parts : List Text) : IsArchitecture (archOf parts) := by
  unfold archOf
  split
  · exact .inr (Text.upper_upper _)
  · exact .inl rfl

/-- The name space of a setting ends at the first dot. -/
theorem PcdEntry.notMem_space {t : Text} {e : PcdEntry} (h : ofText? t = some e) :
    '.' ∉ e.space := by
  unfold ofText? at h
  dsimp only at h
  split at h
  · cases h
  · rename_i left right hcut
    split at h
    · cases h
    · obtain rfl := Option.some.inj h
      exact fun hmem => (Text.cut?_eq_some_iff.1 hcut).2 (Text.mem_of_mem_trim hmem)

/-- The full names of settings with such name spaces tell the settings apart. -/
theorem PcdSetting.qualifiedName_inj {p q : PcdSetting} (hp : '.' ∉ p.space) (hq : '.' ∉ q.space) :
    p.qualifiedName = q.qualifiedName ↔ p.space = q.space ∧ p.name = q.name := by
  have hcut : ∀ r : PcdSetting, '.' ∉ r.space →
      Text.cut? '.' r.qualifiedName = some (r.space, r.name) := fun r hr =>
    Text.cut?_eq_some_iff.2 ⟨rfl, hr⟩
  constructor
  · intro heq
    have hsides : some (p.space, p.name) = some (q.space, q.name) := by
      rw [← hcut p hp, heq, hcut q hq]
    simpa using hsides
  · rintro ⟨hspace, hname⟩
    rw [qualifiedName, hspace, hname]
    rfl

/-- The scopes, choices and settings are such as headers and lines of settings give them. -/
structure Gathered.Formed (g : Gathered) : Prop where
  active : ∀ a, g.active = some a → ∀ s ∈ a.scopes, IsArchitecture s.arch
  block : ∀ b, g.block = some b → ∀ p ∈ b.pcds, '.' ∉ p.entry.space
  libraries : ∀ o ∈ g.libraries, IsArchitecture o.arch
  components : ∀ c ∈ g.components, ∀ p ∈ c.pcds, '.' ∉ p.space
  pcds : ∀ p ∈ g.pcds, '.' ∉ p.space

namespace Gathered

variable {g : Gathered}

/-- Closing a block keeps all as headers and lines give it. -/
theorem Formed.close (h : g.Formed) (scopes : List Scope) : (g.close scopes).Formed := by
  cases hblock : g.block with
  | none => rwa [close_of_none hblock]
  | some b =>
    rw [close_of_some hblock]
    refine ⟨h.active, (fun _ hb => nomatch hb), h.libraries, ?_, h.pcds⟩
    refine List.forall_mem_append.2 ⟨h.components, List.forall_mem_map.2 fun s _ => ?_⟩
    exact List.forall_mem_map.2 fun p hp => h.block b hblock p hp

/-- A section whose scopes are as headers give them keeps all so. -/
theorem Formed.activate (h : g.Formed) {active : Option Active}
    (hactive : ∀ a, active = some a → ∀ s ∈ a.scopes, IsArchitecture s.arch) :
    Formed { g with active := active } :=
  ⟨hactive, h.block, h.libraries, h.components, h.pcds⟩

/-- A block whose settings are as lines give them keeps all so. -/
theorem Formed.withBlock (h : g.Formed) {b : Block}
    (hb : ∀ p ∈ b.pcds, '.' ∉ p.entry.space) : Formed { g with block := some b } := by
  refine ⟨h.active, fun b' hb' => ?_, h.libraries, h.components, h.pcds⟩
  obtain rfl := Option.some.inj hb'
  exact hb

end Gathered

/-- The scopes of a section are for the architectures of its header. -/
theorem Active.isArchitecture_ofHeader? {line : Text} {a : Active} (h : ofHeader? line = some a) :
    ∀ s ∈ a.scopes, IsArchitecture s.arch := by
  have hqualifiers : ∀ {qualifiers : List Qualifier}, ofQualifiers? qualifiers = some a →
      a.scopes = qualifiers.map Qualifier.scope := by
    intro qualifiers hopen
    unfold ofQualifiers? at hopen
    split at hopen
    · cases hopen
    · obtain ⟨kind, _, rfl⟩ := Option.map_eq_some_iff.1 hopen
      rfl
  unfold ofHeader? at h
  dsimp only at h
  split at h
  · cases h
  · split at h
    · rw [hqualifiers h, Qualifier.ofBody, List.map_map]
      exact List.forall_mem_map.2 fun t _ => Header.isArchitecture_archOf _
    · cases h

/-- What a block is told about settings is cut at the first dot. -/
theorem Block.formed_told {b : Block} (h : ∀ p ∈ b.pcds, '.' ∉ p.entry.space) (r : Reading)
    (here : Place) : ∀ p ∈ (b.told r here).pcds, '.' ∉ p.entry.space := by
  unfold told
  split
  · exact h
  · unfold toldEntry
    split
    · exact h
    · exact h
    · refine List.forall_mem_append.2 ⟨h, fun p hp => ?_⟩
      obtain ⟨e, he, rfl⟩ := Option.map_eq_some_iff.1 (Option.mem_toList.1 hp)
      exact PcdEntry.notMem_space he
    · exact h

namespace Reading

variable {r : Reading} (h : r.gathered.Formed) (here : Place)

include h

/-- A header keeps all as headers and lines give it. -/
theorem formed_header : (r.header here).gathered.Formed := by
  rw [gathered_header]
  exact (h.close _).activate fun _ ha => Active.isArchitecture_ofHeader? ha

/-- The choice of an implementation has the architecture of a scope. -/
theorem formed_library {a : Active} (ha : r.active = some a) :
    (r.library here a.scopes).gathered.Formed := by
  unfold library
  split
  · exact h
  · refine ⟨h.active, h.block, ?_, h.components, h.pcds⟩
    exact List.forall_mem_append.2 ⟨h.libraries, List.forall_mem_map.2 (h.active a ha)⟩

/-- The space of a setting has no dot in it. -/
theorem formed_pcd (kind : SectionName) (scopes : List Scope) :
    (r.pcd here kind scopes).gathered.Formed := by
  unfold pcd
  split
  · exact h
  · rename_i e he
    refine ⟨h.active, h.block, h.libraries, h.components, ?_⟩
    exact List.forall_mem_append.2
      ⟨h.pcds, List.forall_mem_map.2 fun _ _ => PcdEntry.notMem_space he⟩

/-- A line of a section of components keeps all as headers and lines give it. -/
theorem formed_component (scopes : List Scope) : (r.component here scopes).gathered.Formed := by
  unfold component
  split
  · rename_i b hb
    rw [gathered_insideBlock here hb]
    split
    · exact h.close scopes
    · exact h.withBlock (Block.formed_told (h.block b hb) r here)
  · have hstart : ∀ p ∈ (Block.start (r.macros.expand (here.line.text.takeWhile isPathPart))
        (r.location here)).pcds, '.' ∉ p.entry.space := fun _ hp => nomatch hp
    by_cases htoken : here.line.text.takeWhile isPathPart = []
    · rw [startComponent_eq, if_pos htoken]
      exact h
    · rw [Visit.gathered_startComponent (v := ⟨here, r⟩) htoken]
      split
      · exact h.withBlock hstart
      · exact (h.withBlock hstart).close scopes

/-- Content keeps all as headers and lines give it. -/
theorem formed_content : (r.content here).gathered.Formed := by
  unfold content
  split
  · exact h
  · rename_i a ha
    split
    · rwa [gathered_define]
    · exact formed_library h here ha
    · exact formed_component h here a.scopes
    · exact ⟨h.active, h.block, h.libraries, h.components, h.pcds⟩
    · exact h
    · exact h
    · exact h
    · exact formed_pcd h here a.kind a.scopes

/-- Every line keeps all as headers and lines give it. -/
theorem formed_effect (s : Setting) (opened : List Path) :
    (r.effect s opened here).reading.gathered.Formed := by
  by_cases hheader : LineKind.ofText here.line.text = .header
  · rw [effect, hheader]
    exact formed_header h here
  · by_cases hcontent : LineKind.ofText here.line.text = .content
    · rw [effect, hcontent]
      exact formed_content h here
    · rwa [gathered_effect r here s opened hheader hcontent]

/-- The end of the file keeps all as headers and lines give it. -/
theorem formed_finish : r.finish.gathered.Formed := by
  rw [gathered_finish]
  exact h.close _

end Reading

namespace Document

/-- The settings of the platform and those of single components. -/
def settings (d : Document) : List PcdSetting :=
  d.pcds ++ d.components.flatMap BuiltModule.pcds

/-- The document is that of a platform file, or of a text that such a file might have. -/
def IsRead (d : Document) : Prop :=
  ∃ s file, d = ofFile s file ∨ ∃ text, d = ofText s file text

/-- What headers and lines of settings have given to a document that is read. -/
theorem IsRead.formed {d : Document} (h : d.IsRead) :
    (∀ o ∈ d.libraries, IsArchitecture o.arch) ∧ ∀ p ∈ d.settings, '.' ∉ p.space := by
  have htext : ∀ (s : Setting) (file : Path) (text : Text),
      (Machine.readingOf s file text).finish.gathered.Formed := by
    intro s file text
    have hreads := Machine.reads_readingOf s file text
    refine Reading.formed_finish (hreads.preserves (motive := fun r => r.gathered.Formed)
      (fun r opened here hr => Reading.formed_effect hr here s opened) ?_)
    exact ⟨(fun _ ha => nomatch ha), (fun _ hb => nomatch hb), List.forall_mem_nil _,
      List.forall_mem_nil _, List.forall_mem_nil _⟩
  have hread : ∀ (s : Setting) (file : Path) (text : Text),
      (∀ o ∈ (ofText s file text).libraries, IsArchitecture o.arch) ∧
        ∀ p ∈ (ofText s file text).settings, '.' ∉ p.space := by
    intro s file text
    have hformed := htext s file text
    exact ⟨hformed.libraries, List.forall_mem_append.2
      ⟨hformed.pcds, List.forall_mem_flatMap.2 hformed.components⟩⟩
  obtain ⟨s, file, rfl | ⟨text, rfl⟩⟩ := h
  · unfold ofFile
    split
    · exact hread s file _
    · exact ⟨List.forall_mem_nil _, List.forall_mem_nil _⟩
  · exact hread s file text

/-- Reducing a document merges nothing that it should not: the first entry under a key counts, there
are no other keys, and settings that are read have one key just if they set the same item. -/
theorem reduced_firstWins (d : Document) :
    (Reduced.ofDocument d).FirstWins d ∧
      (d.IsRead → ∀ p ∈ d.settings, ∀ q ∈ d.settings,
        (p.qualifiedName = q.qualifiedName ↔ p.space = q.space ∧ p.name = q.name)) :=
  ⟨Reduced.firstWins_ofDocument d, fun hread p hp q hq =>
    PcdSetting.qualifiedName_inj (hread.formed.2 p hp) (hread.formed.2 q hq)⟩

/-- A platform file with a setting that is written in two ways. -/
def spacedSetting : Document :=
  ofText ⟨FileSet.empty.sources, none⟩ ⟨"/ws/P.dsc"⟩ "[PcdsDynamic]\nA.B|1\nA . B|2\n"

/-- The two settings have one space, one name and two values. -/
theorem pcds_spacedSetting : spacedSetting.pcds =
    [⟨.pcdsDynamic, commonArch, "A", "B", some "1".toList, ⟨⟨"/ws/P.dsc"⟩, 1, none, none⟩⟩,
      ⟨.pcdsDynamic, commonArch, "A", "B", some "2".toList, ⟨⟨"/ws/P.dsc"⟩, 2, none, none⟩⟩] := by
  decide +kernel

/-- Both are settings of one item, and the first counts. -/
theorem reduced_spacedSetting :
    spacedSetting.IsRead ∧ ∃ p ∈ spacedSetting.settings, ∃ q ∈ spacedSetting.settings,
      p ≠ q ∧ (p.qualifiedName = q.qualifiedName ↔ p.space = q.space ∧ p.name = q.name) ∧
      (Reduced.ofDocument spacedSetting).pcds["A.B".toList]? = some "1".toList := by
  have hread : spacedSetting.IsRead := ⟨_, _, .inr ⟨_, rfl⟩⟩
  have hsettings : ∀ p ∈ spacedSetting.pcds, p ∈ spacedSetting.settings :=
    fun p hp => List.mem_append_left _ hp
  rw [pcds_spacedSetting] at hsettings
  obtain ⟨hfirst, hsecond⟩ := List.forall_mem_cons.1 hsettings
  have hsecond := List.forall_mem_singleton.1 hsecond
  refine ⟨hread, _, hfirst, _, hsecond, by decide,
    (reduced_firstWins spacedSetting).2 hread _ hfirst _ hsecond, ?_⟩
  rw [(reduced_firstWins spacedSetting).1.pcds, pcds_spacedSetting]
  decide

end Document

/-- An architecture that is not the common one has the name of one that a header gives just if its
capitals are the same text. -/
theorem IsArchitecture.sameName_eq {arch asked : Text} (h : IsArchitecture arch)
    (hasked : Text.upper asked ≠ "COMMON") :
    Text.sameName arch asked = decide (arch = Text.upper asked) := by
  have hcommon : Text.upper commonArch = "COMMON" := by decide
  rw [Bool.eq_iff_iff, Text.sameName_iff, decide_eq_true_eq]
  rcases h with rfl | hupper
  · refine iff_of_false (fun heq => hasked (heq ▸ hcommon)) fun heq => hasked ?_
    rw [← Text.upper_upper, ← heq, hcommon]
  · rw [hupper]

/-- What a platform chooses for an architecture, whatever the case of its letters, is what its
reduced form has for it in capitals, or else what this has for the common architecture. -/
theorem Platforms.choose_eq_reduced {d : Document} (h : d.IsRead) (className : Text) {arch : Text}
    (harch : Text.upper arch ≠ "COMMON") :
    (choose d.libraries className arch).map Override.path =
        ((Reduced.ofDocument d).library? (Text.upper arch) className).or
          ((Reduced.ofDocument d).library? commonArch className) ∧
      (choose d.libraries className arch = none ↔
        (Reduced.ofDocument d).library? (Text.upper arch) className = none ∧
          (Reduced.ofDocument d).library? commonArch className = none) := by
  have hnamed : d.libraries.find? (fun o => o.className = className && Text.sameName o.arch arch) =
      d.libraries.find? fun o => o.arch = Text.upper arch && o.className = className :=
    List.find?_congr fun o ho => by rw [(h.formed.1 o ho).sameName_eq harch, Bool.and_comm]
  have hcommon : d.libraries.find? (fun o => o.className = className && o.arch = commonArch) =
      d.libraries.find? fun o => o.arch = commonArch && o.className = className :=
    List.find?_congr fun o _ => Bool.and_comm _ _
  have hlibraries := (Reduced.firstWins_ofDocument d).libraries
  have hpath : (choose d.libraries className arch).map Override.path =
      ((Reduced.ofDocument d).library? (Text.upper arch) className).or
        ((Reduced.ofDocument d).library? commonArch className) := by
    rw [choose, hnamed, hcommon, hlibraries, hlibraries, Option.map_or]
  refine ⟨hpath, ?_⟩
  rw [← Option.map_eq_none_iff, hpath, Option.or_eq_none_iff]

/-- A platform file with a choice for one architecture. -/
def choiceForX64 : Document :=
  .ofText ⟨FileSet.empty.sources, none⟩ ⟨"/ws/P.dsc"⟩ "[LibraryClasses.X64]\nFooLib|A.inf\n"

/-- The choice is there for the name of the architecture in small letters. -/
theorem Platforms.choose_choiceForX64 :
    choiceForX64.IsRead ∧ Text.upper "x64" ≠ "COMMON" ∧
      (choose choiceForX64.libraries "FooLib" "x64").map Override.path = some "A.inf".toList := by
  have hread : choiceForX64.IsRead := ⟨_, _, .inr ⟨_, rfl⟩⟩
  have harch : Text.upper "x64" ≠ "COMMON" := by decide
  refine ⟨hread, harch, ?_⟩
  rw [(choose_eq_reduced hread "FooLib" harch).1]
  decide +kernel

end FirmwareIndex
