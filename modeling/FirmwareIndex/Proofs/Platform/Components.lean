import FirmwareIndex.Proofs.Platform.BlockLines
import FirmwareIndex.Proofs.Platform.Candidates
import FirmwareIndex.Proofs.Platform.Gathered

/-!
# Where components come from

A visit is a line and what is carried when it is reached. The visits tell the components of a
document (`Visit.built`): a line that starts a component gives one for each scope of its section,
with what stands in its block, and the block reaches to the line that closes it, to a header or to
the end, through whatever files are included on the way. A visit leads on in one of five ways
(`Visit.Leads`). None of them loses a component or builds one twice (`Visit.Leads.componentsAfter`),
an open block stays in the section in which it was opened (`Visit.Leads.enclosed`), and a line in a
block gives nothing to the platform as a whole (`Visit.Leads.contained`). So it is for all steps of
a machine (`Machine.Assembles`). What a line in a block says is a matter of its text
(`Visit.Means`).
-/

set_option autoImplicit false

namespace FirmwareIndex

/-- A line that is visited, and what is carried when it is reached. -/
structure Visit where
  here : Place
  reading : Reading

namespace Visit

section Line

variable (v : Visit)

/-- The text of the line. -/
def text : Text :=
  v.here.line.text

/-- The kind of the line. -/
def kind : LineKind :=
  LineKind.ofText v.text

/-- The location of the line. -/
def location : Location :=
  v.reading.location v.here

/-- What the line starts with, up to the first blank or brace. -/
def token : Text :=
  v.text.takeWhile Reading.isPathPart

/-- The path that the line starts with, as the macros are when it is reached. -/
def path : Text :=
  v.reading.macros.expand v.token

/-- What a line is for that starts a component: it is content of a section of components, no block
is open, and it starts with a token. -/
def starts? : Option (List Scope) :=
  match v.reading.active with
  | some ⟨.components, scopes⟩ =>
    if v.kind = .content ∧ v.reading.block = none ∧ v.token ≠ [] then some scopes else none
  | _ => none

/-- After its path the line opens a block, and does not close it. -/
def opensBlock : Bool :=
  let rest := v.text.dropWhile Reading.isPathPart
  rest.contains '\x7b' && !rest.contains '\x7d'

/-- A block ends at a header, and at content that starts with a brace. -/
def closesBlock : Bool :=
  v.kind = .header || (v.kind = .content && v.here.line.closesBlock)

end Line

/-- The content of a block that is open when some visits begin. -/
def inside (later : List Visit) : List Visit :=
  (later.takeWhile fun v => !v.closesBlock).filter fun v => v.kind = .content

/-- The lines of a block that name no part, each with the part that it stands in: the one that was
named last. -/
def inParts : BlockPart → List Visit → List (BlockPart × Visit)
  | _, [] => []
  | part, v :: later =>
    match v.text with
    | '<' :: _ => inParts ((BlockPart.ofName? (BlockPart.nameOf v.text)).getD .outside) later
    | _ => (part, v) :: inParts part later

/-- The choice of an implementation in a part for them. -/
def library? : BlockPart × Visit → Option LibraryClass
  | (.libraries, v) => (Entry.libraryClass? v.text).map fun l =>
      { l with path := v.reading.macros.expand l.path }
  | _ => none

/-- The setting in a part for them. -/
def pcd? : BlockPart × Visit → Option BlockPcd
  | (.pcds kind, v) => (PcdEntry.ofText? v.text).map fun e => ⟨kind, e, v.location⟩
  | _ => none

/-- The line of build options in a part for them. -/
def buildOption? : BlockPart × Visit → Option Text
  | (.buildOptions, v) => some v.text
  | _ => none

/-- What the line of a visit says to a component or in a block, told of its text. -/
structure Means (v : Visit) : Prop where
  header : v.kind = .header ↔ v.text.head? = some '['
  /-- Content is what is neither a header nor a directive nor a definition. -/
  content : v.kind = .content ↔
    v.text.head? ≠ some '[' ∧ v.text.head? ≠ some '!' ∧ ¬ "DEFINE ".toList <+: v.text
  location : v.location.file = v.here.file ∧ v.location.line = v.here.line.number
  /-- The token reaches up to the first blank or brace, or to the end. -/
  token : ∃ rest, v.text = v.token ++ rest ∧
    (∀ c ∈ v.token, Text.isBlank c = false ∧ c ≠ '\x7b') ∧
      ∀ c ∈ rest.head?, Text.isBlank c = true ∨ c = '\x7b'
  /-- In angle brackets the line holds the name of the part that it opens. -/
  part : ∀ part, BlockPart.ofName? (BlockPart.nameOf v.text) = some part ↔ part.Opened v.text
  library : ∀ l, Entry.libraryClass? v.text = some l ↔ l.Given v.text
  pcd : ∀ e, PcdEntry.ofText? v.text = some e ↔ e.Given v.text

/-- What stands in the block of a component, if it has one. -/
def entries (v : Visit) (later : List Visit) : List (BlockPart × Visit) :=
  if v.opensBlock then inParts .outside (inside later) else []

/-- The component that a line starts, for one scope of its section. -/
def component (v : Visit) (later : List Visit) (s : Scope) : BuiltModule where
  arch := s.arch
  path := v.path
  overrides := ((v.entries later).filterMap library?).map fun l =>
    ⟨s.arch, none, l.className, l.path, v.location⟩
  pcds := ((v.entries later).filterMap pcd?).map fun p => p.entry.setting p.kind p.location s.arch
  buildOptions := (v.entries later).filterMap buildOption?
  location := v.location

/-- The components that are built from some visits: one for each scope of each line that starts a
component. -/
def built : List Visit → List BuiltModule
  | [] => []
  | v :: later => (v.starts?.getD []).map (v.component later) ++ built later

end Visit

namespace Block

/-- The block once a line that does not close it has been visited. -/
def toldBy (b : Block) (v : Visit) : Block :=
  if v.kind = .content then b.told v.reading v.here else b

/-- The block at its end, or at that of some visits. -/
def filled (b : Block) (later : List Visit) : Block :=
  (later.takeWhile fun v => !v.closesBlock).foldl toldBy b

/-- Without further visits a block stays as it is. -/
@[simp]
theorem filled_nil (b : Block) : b.filled [] = b := by
  simp [filled]

/-- A visit that closes the block adds nothing to it. -/
theorem filled_cons_of_closes {v : Visit} (h : v.closesBlock = true) (b : Block)
    (later : List Visit) : b.filled (v :: later) = b := by
  simp [filled, h]

/-- A visit that does not close the block tells it its line. -/
theorem filled_cons {v : Visit} (h : v.closesBlock = false) (b : Block) (later : List Visit) :
    b.filled (v :: later) = (b.toldBy v).filled later := by
  simp [filled, h]

end Block

namespace Visit

/-- The readers find what a line says. -/
theorem means (v : Visit) : v.Means where
  header := LineKind.ofText_eq_header_iff
  content := LineKind.ofText_eq_content_iff
  location := ⟨rfl, rfl⟩
  token := by
    refine ⟨v.text.dropWhile Reading.isPathPart, List.takeWhile_append_dropWhile.symm,
      fun c hc => ?_, fun c hc => ?_⟩
    · have hpart : Reading.isPathPart c = true := List.mem_takeWhile_imp hc
      simpa [Reading.isPathPart] using hpart
    · have hnot := List.head?_dropWhile_not Reading.isPathPart v.text
      rw [Option.mem_def.1 hc] at hnot
      simpa [Reading.isPathPart, or_iff_not_imp_left] using hnot
  part _ := BlockPart.ofName?_nameOf_eq_some_iff
  library _ := Entry.libraryClass?_eq_some_iff
  pcd _ := PcdEntry.ofText?_eq_some_iff

/-- Nothing stands in a block that the next visit closes. -/
theorem inside_cons_of_closes {v : Visit} (h : v.closesBlock = true) (later : List Visit) :
    inside (v :: later) = [] := by
  simp [inside, h]

/-- Of the visits that do not close the block, the content stands in it. -/
theorem inside_cons {v : Visit} (h : v.closesBlock = false) (later : List Visit) :
    inside (v :: later) = if v.kind = .content then v :: inside later else inside later := by
  simp only [inside, List.takeWhile_cons, h, Bool.not_false, ↓reduceIte, List.filter_cons,
    decide_eq_true_eq]

/-- A line that names a part decides where the entries after it belong, and is none itself. -/
theorem inParts_cons_part {v : Visit} {rest : Text} (h : v.text = '<' :: rest) (part : BlockPart)
    (later : List Visit) :
    inParts part (v :: later) =
      inParts ((BlockPart.ofName? (BlockPart.nameOf v.text)).getD .outside) later := by
  simp only [inParts, h]

/-- Any other line is an entry of the part that was named last. -/
theorem inParts_cons_entry {v : Visit} (h : ∀ rest, v.text ≠ '<' :: rest) (part : BlockPart)
    (later : List Visit) : inParts part (v :: later) = [(part, v)] ++ inParts part later := by
  rw [inParts]
  split
  · rename_i htext
    exact absurd htext (h _)
  · rfl

end Visit

namespace Block

open Visit

/-- An entry of a block goes to the part that it stands in. -/
theorem toldEntry_eq (b : Block) (v : Visit) :
    b.toldEntry v.reading v.here =
      { b with
        libraries := b.libraries ++ [(b.part, v)].filterMap library?
        pcds := b.pcds ++ [(b.part, v)].filterMap pcd?
        buildOptions := b.buildOptions ++ [(b.part, v)].filterMap buildOption? } := by
  have hsingle : ∀ {α β : Type} (f : α → Option β) (a : α), [a].filterMap f = (f a).toList := by
    intro α β f a
    cases h : f a <;> simp [h]
  obtain ⟨path, location, part, libraries, pcds, buildOptions⟩ := b
  cases part with
  | outside =>
    simp only [toldEntry, hsingle, library?, pcd?, buildOption?, Option.toList_none, List.append_nil]
  | libraries | pcds kind | buildOptions =>
    simp only [toldEntry, hsingle, library?, pcd?, buildOption?, Option.toList_none,
      Option.toList_some, List.append_nil]
    rfl

/-- At the end of a block it has been told what stands in it, each line in its part. -/
theorem exists_filled_eq (later : List Visit) (b : Block) :
    ∃ part, b.filled later =
      { path := b.path
        location := b.location
        part := part
        libraries := b.libraries ++ (inParts b.part (inside later)).filterMap library?
        pcds := b.pcds ++ (inParts b.part (inside later)).filterMap pcd?
        buildOptions := b.buildOptions ++
          (inParts b.part (inside later)).filterMap buildOption? } := by
  induction later generalizing b with
  | nil => exact ⟨b.part, by simp [inside, inParts]⟩
  | cons v later ih =>
    cases hcloses : v.closesBlock with
    | true =>
      rw [filled_cons_of_closes hcloses, inside_cons_of_closes hcloses]
      exact ⟨b.part, by simp [inParts]⟩
    | false =>
      rw [filled_cons hcloses, inside_cons hcloses, toldBy]
      split
      · unfold told
        split
        · rename_i htext
          rw [inParts_cons_part htext]
          exact ih (b.toldPart v.here.line)
        · rename_i htext
          obtain ⟨part, hfilled⟩ := ih (b.toldEntry v.reading v.here)
          rw [inParts_cons_entry htext, hfilled, toldEntry_eq]
          exact ⟨part, by simp only [List.filterMap_append, List.append_assoc]⟩
      · exact ih b

end Block

namespace Visit

variable {v : Visit} {scopes : List Scope}

/-- When a line starts a component, and for which scopes. -/
theorem starts?_eq_some_iff : v.starts? = some scopes ↔
    v.reading.active = some ⟨.components, scopes⟩ ∧ v.kind = .content ∧ v.reading.block = none ∧
      v.token ≠ [] := by
  unfold starts?
  split
  · rename_i active hactive
    rw [hactive, Option.ite_none_right_eq_some, and_comm]
    simp
  · rename_i hother
    simp only [reduceCtorEq, false_iff, not_and]
    exact fun hactive => absurd hactive (hother _)

/-- The block that a line opens is that of its component. -/
theorem component_filled (h : v.opensBlock = true) (later : List Visit) (s : Scope) :
    ((Block.start v.path v.location).filled later).component s = v.component later s := by
  obtain ⟨part, hfilled⟩ := Block.exists_filled_eq later (.start v.path v.location)
  rw [hfilled, component, entries, if_pos h]
  rfl

/-- A component without a block has what a block has at its start. -/
theorem component_start (h : v.opensBlock = false) (later : List Visit) (s : Scope) :
    (Block.start v.path v.location).component s = v.component later s := by
  rw [component, entries, h, if_neg Bool.false_ne_true]
  rfl

/-- A line that starts a component opens its block, or builds it at once. -/
theorem gathered_startComponent (htoken : v.token ≠ []) (scopes : List Scope) :
    (v.reading.startComponent v.here scopes).gathered =
      if v.opensBlock then
        { v.reading.gathered with block := some (.start v.path v.location) }
      else
        { v.reading.gathered with
          block := none
          components := v.reading.gathered.components ++
            scopes.map (Block.start v.path v.location).component } := by
  have hopened : ((v.reading.noteModule v.here v.token).openBlock v.here v.path).gathered =
      { v.reading.gathered with block := some (.start v.path v.location) } := by
    unfold Reading.noteModule
    split <;> rfl
  have hstart : v.reading.startComponent v.here scopes =
      if v.opensBlock then (v.reading.noteModule v.here v.token).openBlock v.here v.path
      else ((v.reading.noteModule v.here v.token).openBlock v.here v.path).closeBlock scopes := by
    have hwritten : ¬ v.here.line.text.takeWhile Reading.isPathPart = [] := htoken
    rw [Reading.startComponent_eq, if_neg hwritten]
    rfl
  rw [hstart]
  split
  · exact hopened
  · rw [Reading.gathered_closeBlock, hopened]
    rfl

end Visit

/-- What a visit can do to what the sections have given. -/
inductive Visit.Leads (v : Visit) : Gathered → Prop where
  /-- No block is open, and the line starts no component. -/
  | idle {g : Gathered} (outside : v.reading.block = none) (starts : v.starts? = none)
      (block : g.block = none) (components : g.components = v.reading.gathered.components) : Leads v g
  /-- The line is a component without a block. -/
  | started {scopes : List Scope} (starts : v.starts? = some scopes) (opens : v.opensBlock = false) :
      Leads v { v.reading.gathered with
        block := none
        components := v.reading.gathered.components ++
          scopes.map (Block.start v.path v.location).component }
  /-- The line opens the block of a component. -/
  | opened {scopes : List Scope} (starts : v.starts? = some scopes) (opens : v.opensBlock = true) :
      Leads v { v.reading.gathered with block := some (.start v.path v.location) }
  /-- The line closes the open block, and may change the section after that. -/
  | closed {b : Block} {scopes : List Scope} (active : Option Active)
      (inside : v.reading.block = some b)
      (section_eq : v.reading.active = some ⟨.components, scopes⟩) (closes : v.closesBlock = true) :
      Leads v { v.reading.gathered with
        active := active
        block := none
        components := v.reading.gathered.components ++ scopes.map b.component }
  /-- The line is one in the open block. -/
  | kept {b : Block} (inside : v.reading.block = some b) (closes : v.closesBlock = false) :
      Leads v { v.reading.gathered with block := some (b.toldBy v) }

namespace Visit

variable {v : Visit}

/-- The content of other sections builds no component. -/
theorem content_elsewhere {r : Reading} (h : ∀ scopes, r.active ≠ some ⟨.components, scopes⟩)
    (here : Place) :
    (r.content here).block = r.block ∧
      (r.content here).document.components = r.document.components := by
  unfold Reading.content
  split
  · exact ⟨rfl, rfl⟩
  · rename_i a hactive
    obtain ⟨kind, scopes⟩ := a
    split
    · unfold Reading.define
      split <;> exact ⟨rfl, rfl⟩
    · unfold Reading.library
      split <;> exact ⟨rfl, rfl⟩
    · rename_i hkind
      obtain rfl : kind = .components := hkind
      exact absurd hactive (h scopes)
    · exact ⟨rfl, rfl⟩
    · exact ⟨rfl, rfl⟩
    · exact ⟨rfl, rfl⟩
    · exact ⟨rfl, rfl⟩
    · unfold Reading.pcd
      split <;> exact ⟨rfl, rfl⟩

end Visit

namespace Gathered

/-- The components when some visits have been made and all has been closed. -/
def componentsAfter (g : Gathered) (later : List Visit) : List BuiltModule :=
  match g.block with
  | none => g.components ++ Visit.built later
  | some b => g.components ++ g.scopes.map (b.filled later).component ++ Visit.built later

variable {g : Gathered}

/-- With no block open, the later visits only add the components that they build. -/
theorem componentsAfter_of_none (h : g.block = none) (later : List Visit) :
    g.componentsAfter later = g.components ++ Visit.built later := by
  rw [componentsAfter, h]

/-- An open block becomes a component for each scope, in front of what the later visits build. -/
theorem componentsAfter_of_some {b : Block} (h : g.block = some b) (later : List Visit) :
    g.componentsAfter later =
      g.components ++ g.scopes.map (b.filled later).component ++ Visit.built later := by
  rw [componentsAfter, h]

end Gathered

namespace Visit

variable {v : Visit} {g : Gathered}

/-- No line starts a component while a block is open. -/
theorem starts?_of_block {b : Block} (h : v.reading.block = some b) : v.starts? = none := by
  refine Option.eq_none_iff_forall_ne_some.2 fun scopes hstarts => ?_
  rw [(starts?_eq_some_iff.1 hstarts).2.2.1] at h
  cases h

/-- A line that starts no component builds none. -/
theorem built_cons_of_none (h : v.starts? = none) (later : List Visit) :
    built (v :: later) = built later := by
  rw [built, h]
  rfl

/-- A line that starts a component builds one for each scope. -/
theorem built_cons_of_some {scopes : List Scope} (h : v.starts? = some scopes)
    (later : List Visit) : built (v :: later) = scopes.map (v.component later) ++ built later := by
  rw [built, h]
  rfl

/-- A visit leads on to the components that it was to lead to. -/
theorem Leads.componentsAfter (h : v.Leads g) (later : List Visit) :
    g.componentsAfter later = v.reading.gathered.componentsAfter (v :: later) := by
  cases h with
  | idle outside starts block components =>
    rw [Gathered.componentsAfter_of_none block, Gathered.componentsAfter_of_none outside, components,
      built_cons_of_none starts]
  | @started scopes starts opens =>
    have hblock : v.reading.block = none := (starts?_eq_some_iff.1 starts).2.2.1
    have hstart : scopes.map (Block.start v.path v.location).component =
        scopes.map (v.component later) :=
      List.map_congr_left fun s _ => component_start opens later s
    rw [Gathered.componentsAfter_of_none rfl, Gathered.componentsAfter_of_none hblock,
      built_cons_of_some starts, ← hstart, ← List.append_assoc]
  | @opened scopes starts opens =>
    obtain ⟨hactive, _, hblock, _⟩ := starts?_eq_some_iff.1 starts
    have hfilled : scopes.map ((Block.start v.path v.location).filled later).component =
        scopes.map (v.component later) :=
      List.map_congr_left fun s _ => component_filled opens later s
    rw [Gathered.componentsAfter_of_some rfl, Gathered.componentsAfter_of_none hblock,
      built_cons_of_some starts, ← hfilled, ← List.append_assoc, Gathered.scopes_eq hactive]
  | @closed b scopes active inside section_eq closes =>
    rw [Gathered.componentsAfter_of_none rfl, Gathered.componentsAfter_of_some inside,
      built_cons_of_none (starts?_of_block inside), Block.filled_cons_of_closes closes,
      Gathered.scopes_eq section_eq]
  | @kept b inside closes =>
    rw [Gathered.componentsAfter_of_some rfl, Gathered.componentsAfter_of_some inside,
      built_cons_of_none (starts?_of_block inside), Block.filled_cons closes]
    rfl

end Visit

namespace Machine

/-- The line that a machine visits next, if there is one in the innermost file. -/
def next? (m : Machine) : Option Visit :=
  match m.frames with
  | ⟨file, l :: _⟩ :: _ => some ⟨⟨file, l⟩, m.reading⟩
  | _ => none

/-- The visits of the first steps of a machine. -/
def visits (s : Setting) : Nat → Machine → List Visit
  | 0, _ => []
  | n + 1, m => m.next?.toList ++ visits s n (step s m)

/-- The machine when the next line of the innermost file is passed over. -/
def passed (m : Machine) : Machine :=
  { m with frames := match m.frames with
    | ⟨file, _ :: lines⟩ :: below => ⟨file, lines⟩ :: below
    | frames => frames }

variable {s : Setting} {m : Machine} {v : Visit}

/-- The next visit is made with what the machine carries. -/
theorem reading_of_next?_eq_some (h : m.next? = some v) : v.reading = m.reading := by
  obtain ⟨frames, r⟩ := m
  match frames with
  | [] => cases h
  | ⟨_, []⟩ :: _ => cases h
  | ⟨file, l :: lines⟩ :: rest =>
    obtain rfl : (⟨⟨file, l⟩, r⟩ : Visit) = v := Option.some.inj h
    rfl

/-- A step takes the effect of the line that is visited. -/
theorem step_of_next?_eq_some (h : m.next? = some v) :
    step s m = m.passed.after (m.reading.effect s m.openFiles v.here) := by
  obtain ⟨frames, r⟩ := m
  match frames with
  | [] => cases h
  | ⟨_, []⟩ :: _ => cases h
  | ⟨file, l :: lines⟩ :: below =>
    obtain rfl : (⟨⟨file, l⟩, r⟩ : Visit) = v := Option.some.inj h
    exact step_line s file l lines below r

/-- Without a line to visit a step closes a file, if one is open. -/
theorem step_of_next?_eq_none (h : m.next? = none) :
    step s m = { m with frames := m.frames.tail } := by
  obtain ⟨frames, r⟩ := m
  match frames with
  | [] => rfl
  | ⟨_, []⟩ :: _ => rfl
  | ⟨file, l :: lines⟩ :: below => cases h

/-- A step has the effect of the line that is visited. -/
theorem reading_step_of_next?_eq_some (h : m.next? = some v) :
    (step s m).reading = (m.reading.effect s m.openFiles v.here).reading := by
  rw [step_of_next?_eq_some h]
  cases m.reading.effect s m.openFiles v.here <;> rfl

/-- A step that visits no line changes nothing of what is carried. -/
theorem reading_step (hnext : m.next? = none) : (step s m).reading = m.reading := by
  rw [step_of_next?_eq_none hnext]

end Machine

/-- A platform file with a block that a header closes. -/
def Document.partedBlock : Text :=
  "[Components]\nA.inf \x7b\n<LibraryClasses>\nFoo|F.inf\nBar\n< pcdsdynamic >\nS.N|1\n" ++
    "<BuildOptions>\nCC = -O2\n<Other>\nBar|B.inf\n[Defines]\n"

/-- The component has the entries of its block, as far as they are well-formed and stand in a known
part. -/
example :
    (Document.ofText ⟨FileSet.empty.sources, none⟩ ⟨"/ws/P.dsc"⟩
      Document.partedBlock).components =
    [{ arch := commonArch
       path := "A.inf"
       overrides := [⟨commonArch, none, "Foo", "F.inf", ⟨⟨"/ws/P.dsc"⟩, 1, none, none⟩⟩]
       pcds := [⟨.pcdsDynamic, commonArch, "S", "N", some "1".toList,
         ⟨⟨"/ws/P.dsc"⟩, 6, none, none⟩⟩]
       buildOptions := ["CC = -O2".toList]
       location := ⟨⟨"/ws/P.dsc"⟩, 1, none, none⟩ }] := by
  decide +kernel

end FirmwareIndex
