import FirmwareIndex.Catalog.Platforms
import FirmwareIndex.Proofs.Platform.Gathered
import FirmwareIndex.Proofs.Platform.Visited
import FirmwareIndex.Proofs.Section.Lines
import FirmwareIndex.Proofs.Text.Names
import FirmwareIndex.Source.FileSet
import Mathlib

/-!
# Headers that name the common architecture

A header of library classes may leave the architecture out or say `common` for it. The choices that
stand below it are the same but for the spelling of their architecture, which is in capitals if it
was written (`Document.ofText_qualified`). That makes no difference where an architecture is asked
for by its name, but only the choices whose header left it out are for all architectures
(`Platforms.resolve_qualified`, `Platforms.choose_common_ne`).
-/

set_option autoImplicit false

namespace FirmwareIndex

/-- The architecture of a header that says `common`, in any case of its letters. -/
def writtenCommon : Text :=
  Text.upper commonArch

/-- A line stays as it is, or it is a header of library classes that names no architecture and comes
to name the common one. -/
inductive Line.Qualified : Line → Line → Prop where
  | same (l : Line) : Qualified l l
  | common {l l' : Line} {name word : Text} (header : LineKind.ofText l.text = .header)
      (header' : LineKind.ofText l'.text = .header) (body : Header.body l.text = name)
      (body' : Header.body l'.text = name ++ '.' :: word)
      (hname : Text.sameName name "LibraryClasses") (hword : Text.sameName word commonArch) :
      Qualified l l'

/-- Some headers of library classes that name no architecture come to name the common one. -/
def Text.Qualified (t t' : Text) : Prop :=
  List.Forall₂ Line.Qualified (Line.ofText t) (Line.ofText t')

/-- A choice stays as it is, or its common architecture is one that was written. -/
def Override.Qualified (o o' : Override) : Prop :=
  o' = o ∨ (o.arch = commonArch ∧ o' = { o with arch := writtenCommon })

/-- The active section stays as it is, or the common architecture of its library classes is one
that was written. -/
def Active.Qualified (a a' : Option Active) : Prop :=
  a' = a ∨ (a = some ⟨.libraryClasses, [.common]⟩ ∧
    a' = some ⟨.libraryClasses, [⟨writtenCommon, none⟩]⟩)

/-- What the choices of a platform depend on while it is read. -/
structure Choices where
  active : Option Active
  conditions : List Text
  macros : Macros
  libraries : List Override

/-- The choices of a reading. -/
def Reading.choices (r : Reading) : Choices :=
  ⟨r.active, r.conditions, r.macros, r.document.libraries⟩

/-- The same has been read but for common architectures that were written. -/
structure Choices.Alike (c c' : Choices) : Prop where
  active : Active.Qualified c.active c'.active
  conditions : c'.conditions = c.conditions
  macros : c'.macros = c.macros
  libraries : List.Forall₂ Override.Qualified c.libraries c'.libraries

namespace Reading

variable (r : Reading) (here : Place)

/-! ## What the operations do to the choices -/

/-- Problems do not matter to the choices. -/
@[simp]
theorem choices_note (cause : Cause) (offending : Text) :
    (r.note here cause offending).choices = r.choices :=
  rfl

/-- The choices of a component are not those of the platform. -/
@[simp]
theorem choices_closeBlock (scopes : List Scope) : (r.closeBlock scopes).choices = r.choices := by
  unfold closeBlock
  split <;> rfl

/-- A block that a header closes does not matter to the choices. -/
@[simp]
theorem choices_abandonBlock : (r.abandonBlock here).choices = r.choices := by
  unfold abandonBlock
  split
  · rfl
  · rw [choices_closeBlock, choices_note]

/-- A block that the file leaves open does not matter to the choices. -/
@[simp]
theorem choices_finish : r.finish.choices = r.choices := by
  unfold finish
  split
  · rfl
  · rw [choices_abandonBlock]

/-- Components do not matter to the choices of the platform. -/
@[simp]
theorem choices_component (scopes : List Scope) :
    (r.component here scopes).choices = r.choices := by
  unfold component
  split
  · unfold insideBlock
    split
    · exact r.choices_closeBlock scopes
    · unfold blockPart
      dsimp only
      split <;> rfl
    · unfold blockEntry
      split
      · rfl
      · split <;> rfl
      · split <;> rfl
      · rfl
  · have hnote : ∀ written, (r.noteModule here written).choices = r.choices := by
      intro written
      unfold noteModule
      split <;> rfl
    have hopen : ∀ (r : Reading) path, (r.openBlock here path).choices = r.choices :=
      fun _ _ => rfl
    rw [startComponent_eq]
    dsimp only
    split
    · rfl
    · split
      · rw [hopen, hnote]
      · rw [choices_closeBlock, hopen, hnote]

/-- Settings do not matter to the choices. -/
@[simp]
theorem choices_pcd (kind : SectionName) (scopes : List Scope) :
    (r.pcd here kind scopes).choices = r.choices := by
  unfold pcd
  split <;> rfl

/-- A header only changes the section. -/
theorem choices_header :
    (r.header here).choices = { r.choices with active := Active.ofHeader? here.line.text } := by
  have hnotes : ∀ (names : List Text) (r : Reading),
      (names.foldl (fun r name => r.note here (.unknownSection name) name) r).choices =
        r.choices := by
    intro names r
    refine List.foldlRecOn names _ (motive := fun next : Reading => next.choices = r.choices) rfl ?_
    exact fun next hnext name _ => hnext
  have hactivate : ∀ (r : Reading) (active : Option Active),
      (r.activate active).choices = { r.choices with active := active } := fun _ _ => rfl
  have hmixed : ∀ (r : Reading) qualifiers, (r.noteMixed here qualifiers).choices = r.choices := by
    intro r qualifiers
    unfold noteMixed
    split <;> rfl
  rw [header_eq, Active.ofHeader?]
  split
  · rw [hactivate, choices_note, choices_abandonBlock]
  · unfold enterSection
    split
    · rename_i hknown
      rw [hactivate, hmixed, choices_abandonBlock, if_pos hknown]
    · rename_i hunknown
      rw [hactivate, hnotes, hmixed, choices_abandonBlock, if_neg hunknown]

end Reading

namespace Active

variable {line name word : Text}

/-- A header with one qualifier opens the section that it names. -/
theorem ofHeader?_eq {base : Text} {kind : SectionName} {scope : Scope}
    (hblank : ∀ c ∈ Header.body line, Text.isBlank c = false) (hcomma : ',' ∉ Header.body line)
    (hqualifier : Qualifier.ofText (Header.body line) = ⟨base, scope⟩)
    (hkind : SectionName.ofText? base = some kind) (hne : Header.body line ≠ []) :
    ofHeader? line = some ⟨kind, [scope]⟩ := by
  have hqualifiers : Qualifier.ofBody (Text.trim (Header.body line)) = [⟨base, scope⟩] := by
    rw [Text.trim_eq_self hblank, Qualifier.ofBody, List.splitOn_eq_singleton hcomma,
      List.map_singleton, hqualifier]
  have hknown : Qualifier.unknown [⟨base, scope⟩] = [] := by
    simp [Qualifier.unknown, hkind]
  rw [ofHeader?, hqualifiers, Text.trim_eq_self hblank]
  simp [hne, hknown, ofQualifiers?, hkind]

/-- The section of library classes is named in any case of its letters. -/
theorem ofText?_libraryClasses (hname : Text.sameName name "LibraryClasses")
    (hblank : ∀ c ∈ name, Text.isBlank c = false) :
    SectionName.ofText? name = some .libraryClasses := by
  have hlower : Text.lower name = Text.lower "LibraryClasses" := of_decide_eq_true hname
  have hwritten : SectionName.ofText? "LibraryClasses" = some .libraryClasses := by decide
  have htrim : Text.trim "LibraryClasses" = "LibraryClasses".toList := by decide
  rw [← hwritten, SectionName.ofText?, SectionName.ofText?, Text.trim_eq_self hblank, htrim]
  simp only [Text.sameName, hlower]

/-- The section that a header of library classes without an architecture opens. -/
theorem ofHeader?_plain (hname : Text.sameName name "LibraryClasses")
    (body : Header.body line = name) : ofHeader? line = some ⟨.libraryClasses, [.common]⟩ := by
  obtain ⟨hblank, habsent⟩ := Text.letters_of_sameName hname (by decide)
  subst body
  refine ofHeader?_eq hblank (habsent _ (by decide)) ?_ (ofText?_libraryClasses hname hblank) ?_
  · rw [Qualifier.ofText, List.splitOn_eq_singleton (habsent _ (by decide)), List.headD_cons,
      Text.trim_eq_self hblank]
    rfl
  · intro hnil
    rw [hnil] at hname
    cases Text.sameName_nil hname

/-- The section that it opens when it says `common`. -/
theorem ofHeader?_common (hname : Text.sameName name "LibraryClasses")
    (hword : Text.sameName word commonArch) (body : Header.body line = name ++ '.' :: word) :
    ofHeader? line = some ⟨.libraryClasses, [⟨writtenCommon, none⟩]⟩ := by
  obtain ⟨hblank, habsent⟩ := Text.letters_of_sameName hname (by decide)
  obtain ⟨hblank', habsent'⟩ := Text.letters_of_sameName hword (by decide)
  have hne : word ≠ [] := by
    rintro rfl
    cases Text.sameName_nil hword
  have hparts : (name ++ '.' :: word).splitOn '.' = [name, word] := by
    rw [List.splitOn_append_cons_self, List.splitOn_eq_singleton (habsent _ (by decide)),
      List.splitOn_eq_singleton (habsent' _ (by decide))]
    rfl
  have harch : Header.archOf [name, word] = writtenCommon := by
    have hpart : Header.part? [name, word] 1 = some word := by
      simp [Header.part?, Text.trim_eq_self hblank', Option.filter, hne]
    rw [Header.archOf, hpart]
    exact Text.sameName_iff.1 hword
  refine ofHeader?_eq ?_ ?_ ?_ (ofText?_libraryClasses hname hblank) (by simp [body])
  · rw [body]
    intro c hc
    rcases List.mem_append.1 hc with hc | hc
    · exact hblank c hc
    · rcases List.mem_cons.1 hc with rfl | hc
      · decide
      · exact hblank' c hc
  · rw [body]
    simp [habsent ',' (by decide), habsent' ',' (by decide)]
  · rw [body, Qualifier.ofText, hparts, harch, List.headD_cons, Text.trim_eq_self hblank]
    rfl

end Active

namespace Choices.Alike

variable {r r' : Reading} {here here' : Place}

/-- What has been read is the same as itself. -/
theorem refl (r : Reading) : r.choices.Alike r.choices where
  active := .inl rfl
  conditions := rfl
  macros := rfl
  libraries := List.forall₂_same.2 fun _ _ => .inl rfl

/-- A definition keeps readings alike. -/
theorem define (h : r.choices.Alike r'.choices) (here : Place) :
    (r.define here).choices.Alike (r'.define here).choices := by
  have hmacros : r'.macros = r.macros := h.macros
  unfold Reading.define
  split
  · exact h
  · refine ⟨h.active, h.conditions, ?_, h.libraries⟩
    simp only [Reading.choices, hmacros]

/-- A choice keeps readings alike, whether or not its common architecture was written. -/
theorem library (h : r.choices.Alike r'.choices) (here : Place) {scopes scopes' : List Scope}
    (hscopes : scopes' = scopes ∨
      (scopes = [.common] ∧ scopes' = [⟨writtenCommon, none⟩])) :
    (r.library here scopes).choices.Alike (r'.library here scopes').choices := by
  have hmacros : r'.macros = r.macros := h.macros
  have hlocation : r'.location here = r.location here := by
    have hconditions : r'.conditions = r.conditions := h.conditions
    rw [Reading.location, Reading.location, Reading.context, Reading.context, hconditions]
  unfold Reading.library
  split
  · exact h
  · refine ⟨h.active, h.conditions, h.macros, ?_⟩
    refine List.rel_append h.libraries ?_
    rw [hmacros, hlocation]
    rcases hscopes with rfl | ⟨rfl, rfl⟩
    · exact List.forall₂_same.2 fun _ _ => .inl rfl
    · exact .cons (.inr ⟨rfl, rfl⟩) .nil

/-- Content keeps readings alike. -/
theorem content (h : r.choices.Alike r'.choices) (here : Place) :
    (r.content here).choices.Alike (r'.content here).choices := by
  rcases h.active with hactive | ⟨hactive, hactive'⟩
  · have hactive : r'.active = r.active := hactive
    unfold Reading.content
    rw [hactive]
    split
    · exact h
    · split
      · exact h.define here
      · exact h.library here (.inl rfl)
      · simpa using h
      · exact h
      · exact h
      · exact h
      · exact h
      · simpa using h
  · have hactive : r.active = some ⟨.libraryClasses, [.common]⟩ := hactive
    have hactive' : r'.active = some ⟨.libraryClasses, [⟨writtenCommon, none⟩]⟩ := hactive'
    unfold Reading.content
    rw [hactive, hactive']
    exact h.library here (.inr ⟨rfl, rfl⟩)

/-- A line that includes no file leads to alike choices. -/
theorem plain (h : r.choices.Alike r'.choices) {file : Path} {l l' : Line} (hl : l.Qualified l') :
    (r.plain ⟨file, l⟩ (LineKind.ofText l.text)).choices.Alike
      (r'.plain ⟨file, l'⟩ (LineKind.ofText l'.text)).choices := by
  have hconditions : r'.conditions = r.conditions := h.conditions
  cases hl with
  | common header header' body body' hname hword =>
    rw [header, header', Reading.plain, Reading.plain, Reading.choices_header,
      Reading.choices_header]
    refine ⟨.inr ⟨?_, ?_⟩, h.conditions, h.macros, h.libraries⟩
    · exact Active.ofHeader?_plain hname body
    · exact Active.ofHeader?_common hname hword body'
  | same =>
    unfold Reading.plain
    split
    · rw [Reading.choices_header, Reading.choices_header]
      exact ⟨.inl rfl, h.conditions, h.macros, h.libraries⟩
    · exact h.define _
    · refine ⟨h.active, ?_, h.macros, h.libraries⟩
      simp only [Reading.openCondition, Reading.choices, hconditions]
    · unfold Reading.branch
      rw [hconditions]
      split
      · exact h
      · exact ⟨h.active, rfl, h.macros, h.libraries⟩
    · unfold Reading.closeCondition
      rw [hconditions]
      split
      · exact h
      · exact ⟨h.active, rfl, h.macros, h.libraries⟩
    · exact h.content _
    · exact h
    · exact h

end Choices.Alike

/-- Two effects are the same but for common architectures that were written. -/
inductive Effect.Alike : Effect → Effect → Prop where
  | carry {r r' : Reading} (h : r.choices.Alike r'.choices) : Alike (.carry r) (.carry r')
  | enter {file : Path} {text : Text} {r r' : Reading} (h : r.choices.Alike r'.choices) :
      Alike (.enter file text r) (.enter file text r')

namespace Choices.Alike

variable {s : Setting} {opened : List Path} {r r' : Reading} {file : Path}

/-- An include leads to the same file. -/
theorem inclusion (h : r.choices.Alike r'.choices) (here : Place) (target : Text) :
    (r.inclusion s opened here target).Alike (r'.inclusion s opened here target) := by
  have hmacros : r'.macros = r.macros := h.macros
  unfold Reading.inclusion
  rw [hmacros]
  split
  · exact .carry h
  · dsimp only
    split
    · exact .carry h
    · split
      · exact .carry h
      · exact .enter h

/-- A line, or a header that comes to name the common architecture, keeps readings alike. -/
theorem effect (h : r.choices.Alike r'.choices) {l l' : Line} (hl : l.Qualified l') :
    (r.effect s opened ⟨file, l⟩).Alike (r'.effect s opened ⟨file, l'⟩) := by
  have hplain : (r.plain ⟨file, l⟩ (LineKind.ofText l.text)).choices.Alike
      (r'.plain ⟨file, l'⟩ (LineKind.ofText l'.text)).choices := h.plain hl
  unfold Reading.effect
  cases hl with
  | same =>
    cases hkind : LineKind.ofText l.text with
    | inclusion target => exact h.inclusion _ target
    | header | definition | openCondition | branch | closeCondition | ignored | content =>
      rw [hkind] at hplain
      exact .carry hplain
  | common header header' =>
    rw [header, header'] at hplain
    simp only [header, header']
    exact .carry hplain

end Choices.Alike

/-- A reading can be repeated with headers that name the common architecture, and makes the same
choices. -/
theorem Reads.qualified {s : Setting} {opened : List Path} {file : Path} {lines lines' : List Line}
    {r r₁ r' : Reading} (h : Reads s opened file lines r r₁)
    (hlines : List.Forall₂ Line.Qualified lines lines') (hr : r.choices.Alike r'.choices) :
    ∃ r₁', Reads s opened file lines' r' r₁' ∧ r₁.choices.Alike r₁'.choices := by
  induction h generalizing lines' r' with
  | done =>
    cases hlines
    exact ⟨r', .done, hr⟩
  | @carry opened file l lines r r₁ r₂ effect _ ih =>
    cases hlines with
    | @cons _ l' _ _ hl hlines =>
      have halike : (r.effect s (file :: opened) ⟨file, l⟩).Alike
          (r'.effect s (file :: opened) ⟨file, l'⟩) := hr.effect hl
      rw [effect] at halike
      cases heffect : r'.effect s (file :: opened) ⟨file, l'⟩ with
      | carry next =>
        rw [heffect] at halike
        cases halike with
        | carry hnext =>
          obtain ⟨last, hreads, hlast⟩ := ih hlines hnext
          exact ⟨last, .carry heffect hreads, hlast⟩
      | enter target text next =>
        rw [heffect] at halike
        cases halike
  | @enter opened file target l lines text r r₁ r₂ r₃ effect _ _ ihInner ihRest =>
    cases hlines with
    | @cons _ l' _ _ hl hlines =>
      have halike : (r.effect s (file :: opened) ⟨file, l⟩).Alike
          (r'.effect s (file :: opened) ⟨file, l'⟩) := hr.effect hl
      rw [effect] at halike
      cases heffect : r'.effect s (file :: opened) ⟨file, l'⟩ with
      | carry next =>
        rw [heffect] at halike
        cases halike
      | enter target' text' next =>
        rw [heffect] at halike
        cases halike with
        | enter hnext =>
          -- the lines of an included file stay as they are
          have hsame : List.Forall₂ Line.Qualified (Line.ofText text) (Line.ofText text) :=
            List.forall₂_same.2 fun l _ => .same l
          obtain ⟨closed, hinner, hclosed⟩ := ihInner hsame hnext
          obtain ⟨last, hreads, hlast⟩ := ihRest hlines hclosed
          exact ⟨last, .enter heffect hinner hreads, hlast⟩

/-- When headers of library classes come to name the common architecture, the choices of a platform
are the same but for the spelling of that architecture. -/
theorem Document.ofText_qualified (s : Setting) (file : Path) {text text' : Text}
    (h : text.Qualified text') :
    List.Forall₂ Override.Qualified (Document.ofText s file text).libraries
      (Document.ofText s file text').libraries := by
  obtain ⟨r', hreads, halike⟩ := (Machine.reads_readingOf s file text).qualified h (.refl _)
  have hfinish : ∀ r : Reading, r.finish.document.libraries = r.document.libraries := fun r =>
    congrArg Choices.libraries r.choices_finish
  rw [Machine.ofText_eq_finish, Machine.ofText_eq_finish, Machine.readingOf_eq hreads, hfinish,
    hfinish]
  exact halike.libraries

namespace Override.Qualified

variable {o o' : Override} {os os' : List Override} {className arch : Text}

/-- The class stays as it is. -/
theorem className_eq (h : o.Qualified o') : o'.className = o.className := by
  rcases h with rfl | ⟨_, rfl⟩ <;> rfl

/-- The path stays as it is. -/
theorem path_eq (h : o.Qualified o') : o'.path = o.path := by
  rcases h with rfl | ⟨_, rfl⟩ <;> rfl

/-- The architecture has the same name. -/
theorem sameName_arch (h : o.Qualified o') (arch : Text) :
    Text.sameName o'.arch arch = Text.sameName o.arch arch := by
  rcases h with rfl | ⟨harch, rfl⟩
  · rfl
  · have hlower : Text.lower writtenCommon = Text.lower commonArch := by decide
    simp only [Text.sameName, hlower, harch]

/-- The first choices that are looked for by what the spelling of an architecture does not change
are the same. -/
theorem find? (h : List.Forall₂ Override.Qualified os os') {p : Override → Bool}
    (hp : ∀ o o', o.Qualified o' → p o' = p o) :
    Option.Rel Override.Qualified (os.find? p) (os'.find? p) := by
  induction h with
  | nil => exact .none
  | @cons o o' os os' ho _ ih =>
    rw [List.find?_cons, List.find?_cons, hp o o' ho]
    cases p o with
    | true => exact .some ho
    | false => exact ih

/-- What is chosen for an architecture that is asked for by its name is the same. -/
theorem choose (h : List.Forall₂ Override.Qualified os os')
    (hnamed : Text.sameName commonArch arch ∨
      ∃ o ∈ os, o.className = className ∧ Text.sameName o.arch arch) :
    Option.Rel Override.Qualified (Platforms.choose os className arch)
      (Platforms.choose os' className arch) := by
  have hfirst := find? h (p := fun o => o.className = className && Text.sameName o.arch arch)
    fun o o' ho => by rw [ho.className_eq, ho.sameName_arch]
  -- a choice for all architectures would be one for the common architecture too
  have hcommon : ∀ os : List Override, Text.sameName commonArch arch →
      os.find? (fun o => o.className = className && Text.sameName o.arch arch) = none →
      os.find? (fun o => o.className = className && o.arch = commonArch) = none := by
    intro os harch hnone
    rw [List.find?_eq_none] at hnone ⊢
    intro o ho hfound
    obtain ⟨hclass, hspelled⟩ : o.className = className ∧ o.arch = commonArch := by
      simpa using hfound
    exact hnone o ho (by simp [hclass, hspelled, harch])
  unfold Platforms.choose
  generalize hfound : (os.find? fun o => o.className = className && Text.sameName o.arch arch) =
    found at hfirst
  generalize hfound' : (os'.find? fun o => o.className = className && Text.sameName o.arch arch) =
    found' at hfirst
  cases hfirst with
  | some ho => exact .some ho
  | none =>
    rcases hnamed with harch | ⟨o, ho, hclass, harch⟩
    · rw [hcommon os harch hfound, hcommon os' harch hfound']
      exact .none
    · refine absurd ?_ (List.find?_eq_none.1 hfound o ho)
      simp [hclass, harch]

/-- The reduced choices for other architectures are the same. -/
theorem getElem?_foldl_addLibrary (h : List.Forall₂ Override.Qualified os os')
    (harch : arch ≠ commonArch) (hwritten : arch ≠ writtenCommon) :
    ∀ m m' : TextMap (TextMap Text), m'[arch]? = m[arch]? →
      (os'.foldl Reduced.addLibrary m')[arch]? = (os.foldl Reduced.addLibrary m)[arch]? := by
  induction h with
  | nil => exact fun _ _ hm => hm
  | @cons o o' os os' ho _ ih =>
    intro m m' hm
    refine ih _ _ ?_
    simp only [Reduced.addLibrary, Std.ExtTreeMap.getElem?_alter]
    rcases ho with rfl | ⟨hcommon, rfl⟩
    · by_cases hkey : o'.arch = arch
      · rw [hkey, hm]
      · simp [hkey, hm]
    · simp [hcommon, Ne.symm harch, Ne.symm hwritten, hm]

end Override.Qualified

/-- When headers of library classes come to name the common architecture, a platform is given the
same library for an architecture that is asked for by its name: for the common one, and for one that
the platform makes a choice for. What it chooses for other architectures by their names stays the
same too. -/
theorem Platforms.resolve_qualified (s : Setting) (file : Path) {text text' : Text}
    (h : text.Qualified text') {ps ps' : Platforms}
    (hps : ps.get? file = some (.ofText s file text))
    (hps' : ps'.get? file = some (.ofText s file text')) (libraries : Libraries)
    (className arch : Text) :
    (Text.sameName commonArch arch ∨ (∃ o ∈ (Document.ofText s file text).libraries,
        o.className = className ∧ Text.sameName o.arch arch) →
      ps'.resolve libraries file className arch = ps.resolve libraries file className arch) ∧
    (arch ≠ commonArch → arch ≠ writtenCommon →
      (Reduced.ofDocument (.ofText s file text')).libraries[arch]? =
        (Reduced.ofDocument (.ofText s file text)).libraries[arch]?) := by
  have hlibraries := Document.ofText_qualified s file h
  refine ⟨fun hnamed => ?_, fun harch hwritten => ?_⟩
  · have hchosen := Override.Qualified.choose hlibraries hnamed
    rw [resolve, resolve, hps, hps', Option.bind_some, Option.bind_some]
    generalize choose (Document.ofText s file text).libraries className arch = chosen at hchosen
    generalize choose (Document.ofText s file text').libraries className arch = chosen' at hchosen
    cases hchosen with
    | some ho => rw [Option.bind_some, Option.bind_some, ho.path_eq]
    | none => rfl
  · exact Override.Qualified.getElem?_foldl_addLibrary hlibraries harch hwritten ∅ ∅ rfl

/-- The header of a section with a body. -/
def Header.write (body : Text) : Text :=
  '[' :: body ++ [']']

/-- The body of a header that is made of letters and dots is what was put between its brackets. -/
theorem Header.bare_write {body : Text} (h : ∀ c ∈ body, c.isAlpha ∨ c = '.') :
    Line.Bare (write body) ∧ Header.body (write body) = body := by
  have hbare : Line.Bare (write body) := by
    refine ⟨by simp [write], fun c hc => ?_⟩
    rcases List.mem_cons.1 hc with rfl | hc
    · decide
    rcases List.mem_append.1 hc with hc | hc
    · rcases h c hc with halpha | rfl
      · refine ⟨Text.isBlank_of_isAlpha halpha, ?_, ?_⟩
        · rintro rfl
          exact absurd halpha (by decide)
        · rintro rfl
          exact absurd halpha (by decide)
      · decide
    · rw [List.mem_singleton.1 hc]
      decide
  have hbracket : ∀ c ∈ body, c ≠ '[' ∧ c ≠ ']' := by
    intro c hc
    rcases h c hc with halpha | rfl
    · constructor
      · rintro rfl
        exact absurd halpha (by decide)
      · rintro rfl
        exact absurd halpha (by decide)
    · decide
  have hopened : (write body).dropWhile (· = '[') = body ++ [']'] := by
    cases body with
    | nil => rfl
    | cons c body => simp [write, (hbracket c (by simp)).1]
  refine ⟨hbare, ?_⟩
  rw [Header.body, Text.trim_eq_self fun c hc => (hbare.chars c hc).1, hopened, Text.before,
    List.takeWhile_append_of_pos fun c hc => by simp [(hbracket c hc).2]]
  simp

/-- A header of library classes that names no architecture may come to name the common one. -/
theorem Text.qualified_append {front name word : Text} (hfront : Line.Complete front)
    (hname : Text.sameName name "LibraryClasses") (hword : Text.sameName word commonArch)
    (back : Text) :
    Text.Qualified (front ++ (Header.write name ++ ['\n'] ++ back))
      (front ++ (Header.write (name ++ '.' :: word) ++ ['\n'] ++ back)) := by
  have halpha := Text.isAlpha_of_sameName hname (by decide)
  have halpha' := Text.isAlpha_of_sameName hword (by decide)
  have hchars : ∀ c ∈ name, c.isAlpha ∨ c = '.' := fun c hc => .inl (halpha c hc)
  have hchars' : ∀ c ∈ name ++ '.' :: word, c.isAlpha ∨ c = '.' := by
    intro c hc
    rcases List.mem_append.1 hc with hc | hc
    · exact hchars c hc
    · exact (List.mem_cons.1 hc).symm.imp (halpha' c) id
  obtain ⟨hbare, hbody⟩ := Header.bare_write hchars
  obtain ⟨hbare', hbody'⟩ := Header.bare_write hchars'
  unfold Text.Qualified
  rw [hfront.ofText_append, hfront.ofText_append, hbare.complete.ofText_append,
    hbare'.complete.ofText_append, hbare.ofText_eq, hbare'.ofText_eq, hbare.breaks_eq,
    hbare'.breaks_eq]
  refine List.rel_append (List.forall₂_same.2 fun l _ => .same l) ?_
  refine List.Forall₂.cons ?_ (List.forall₂_same.2 fun l _ => .same l)
  exact .common rfl rfl hbody hbody' hname hword

/-- A platform file with a choice for one architecture and one for all. -/
def plainHeader : Text :=
  "[LibraryClasses.X64]\nFooLib|B.inf\n[LibraryClasses]\nFooLib|A.inf\n"

/-- The same file, where the header of the choice for all architectures says `common`. -/
def commonHeader : Text :=
  "[LibraryClasses.X64]\nFooLib|B.inf\n[LibraryClasses.Common]\nFooLib|A.inf\n"

/-- The second file is the first one with the common architecture named. -/
theorem qualified_plainHeader : plainHeader.Qualified commonHeader := by
  have hfront : Line.Complete "[LibraryClasses.X64]\nFooLib|B.inf\n" :=
    .inr ⟨"[LibraryClasses.X64]\nFooLib|B.inf", "FooLib|B.inf", by decide, by decide, by decide⟩
  have hname : Text.sameName "LibraryClasses" "LibraryClasses" := by decide
  have hword : Text.sameName "Common" commonArch := by decide
  have hplain : plainHeader = "[LibraryClasses.X64]\nFooLib|B.inf\n".toList ++
      (Header.write "LibraryClasses" ++ ['\n'] ++ "FooLib|A.inf\n".toList) := by decide +kernel
  have hcommon : commonHeader = "[LibraryClasses.X64]\nFooLib|B.inf\n".toList ++
      (Header.write ("LibraryClasses".toList ++ '.' :: "Common".toList) ++ ['\n'] ++
        "FooLib|A.inf\n".toList) := by decide +kernel
  rw [hplain, hcommon]
  exact Text.qualified_append hfront hname hword "FooLib|A.inf\n"

/-- A workspace without files. -/
def noFiles : Setting :=
  ⟨FileSet.empty.sources, none⟩

/-- The library for the one architecture is found as before. -/
theorem Platforms.resolve_commonHeader :
    plainHeader.Qualified commonHeader ∧ ∃ ps ps' : Platforms,
      ps.get? ⟨"/ws/P.dsc"⟩ = some (.ofText noFiles ⟨"/ws/P.dsc"⟩ plainHeader) ∧
      ps'.get? ⟨"/ws/P.dsc"⟩ = some (.ofText noFiles ⟨"/ws/P.dsc"⟩ commonHeader) ∧
      (∃ o ∈ (Document.ofText noFiles ⟨"/ws/P.dsc"⟩ plainHeader).libraries,
        o.className = "FooLib".toList ∧ Text.sameName o.arch "X64") ∧
      ∀ libraries, ps'.resolve libraries ⟨"/ws/P.dsc"⟩ "FooLib" "X64" =
        ps.resolve libraries ⟨"/ws/P.dsc"⟩ "FooLib" "X64" := by
  have hget : ∀ text, (empty.insert (.ofText noFiles ⟨"/ws/P.dsc"⟩ text)).get? ⟨"/ws/P.dsc"⟩ =
      some (.ofText noFiles ⟨"/ws/P.dsc"⟩ text) := by
    intro text
    rw [get?, insert, Document.file_ofText, Std.ExtTreeMap.getElem?_insert_self]
  have hnamed : ∃ o ∈ (Document.ofText noFiles ⟨"/ws/P.dsc"⟩ plainHeader).libraries,
      o.className = "FooLib".toList ∧ Text.sameName o.arch "X64" := by decide +kernel
  exact ⟨qualified_plainHeader, _, _, hget plainHeader, hget commonHeader, hnamed, fun libraries =>
    (resolve_qualified noFiles ⟨"/ws/P.dsc"⟩ qualified_plainHeader (hget plainHeader)
      (hget commonHeader) libraries "FooLib" "X64").1 (.inr hnamed)⟩

/-- But the choice is no longer one for all architectures, and it is missing among the reduced
choices for the common one. -/
theorem Platforms.choose_common_ne :
    plainHeader.Qualified commonHeader ∧
    (choose (Document.ofText noFiles ⟨"/ws/P.dsc"⟩ plainHeader).libraries "FooLib" "IA32").map
      Override.path = some "A.inf".toList ∧
    choose (Document.ofText noFiles ⟨"/ws/P.dsc"⟩ commonHeader).libraries "FooLib" "IA32" = none ∧
    (Reduced.ofDocument (.ofText noFiles ⟨"/ws/P.dsc"⟩ plainHeader)).libraries[commonArch]? =
      some ((∅ : TextMap Text).insert "FooLib" "A.inf") ∧
    (Reduced.ofDocument (.ofText noFiles ⟨"/ws/P.dsc"⟩ commonHeader)).libraries[commonArch]? =
      none := by
  refine ⟨qualified_plainHeader, ?_, ?_, ?_, ?_⟩ <;> decide +kernel

end FirmwareIndex
