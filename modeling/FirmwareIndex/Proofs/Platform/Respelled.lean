import FirmwareIndex.Proofs.Path.Canonical
import FirmwareIndex.Proofs.Platform.Candidates
import FirmwareIndex.Proofs.Platform.Components
import FirmwareIndex.Proofs.Platform.Continued
import FirmwareIndex.Proofs.Platform.Positions
import FirmwareIndex.Proofs.Tree.Spelled

/-!
# Documents of two spellings of a file

Read from two spellings of a platform file, the documents agree: they say the same, with problems at
the same places, and what they include are the same places (`Document.agrees_ofFile`). Only the
paths in them are spelled in two ways. It is enough that spellings that are akin are read alike,
since every path that is asked for is reached from the directory of a file that is open, or from the
root.
-/

set_option autoImplicit false

namespace FirmwareIndex

/-! ## Problems without their spellings -/

/-- The location with the canonical spelling of its file. -/
def Location.canonical (l : Location) : Location :=
  { l with file := l.file.canonical }

namespace Cause

/-- The problem is about the platform file itself, and quotes its path. -/
def isUnreadable : Cause → Bool
  | .unreadable _ => true
  | _ => false

/-- The problem spells a path, in its message or in what it quotes. -/
def Spells : Cause → Bool
  | .recursiveInclude _ | .unreadableInclude _ _ | .unreadable _ => true
  | _ => false

/-- The cause with the canonical spelling of its path. -/
def canonical : Cause → Cause
  | .recursiveInclude file => .recursiveInclude file.canonical
  | .unreadableInclude file reason => .unreadableInclude file.canonical reason
  | cause => cause

/-- Whether a problem is about the platform file does not depend on spellings. -/
@[simp]
theorem isUnreadable_canonical (c : Cause) : c.canonical.isUnreadable = c.isUnreadable := by
  cases c <;> rfl

/-- Whether a problem spells a path does not depend on spellings. -/
@[simp]
theorem spells_canonical (c : Cause) : c.canonical.Spells = c.Spells := by
  cases c <;> rfl

/-- A problem that spells no path stays as it is. -/
theorem canonical_of_not_spells {c : Cause} (h : c.Spells = false) : c.canonical = c := by
  cases c <;> first | rfl | cases h

end Cause

namespace Problem

/-- The problem with the canonical spellings of its paths. -/
def canonical (p : Problem) : Problem where
  location := p.location.canonical
  cause := p.cause.canonical
  offending := if p.cause.isUnreadable then p.location.file.canonical.text else p.offending
  lineText := p.lineText

variable {p q : Problem} {here there : Place}

/-- Problems at one place that are the same but for spellings have one canonical spelling. -/
theorem canonical_congr (hlocation : p.location.canonical = q.location.canonical)
    (hcause : p.cause.canonical = q.cause.canonical) (hoffending : p.offending = q.offending)
    (hline : p.lineText = q.lineText) : p.canonical = q.canonical := by
  have hfile : p.location.file.canonical = q.location.file.canonical :=
    congrArg Location.file hlocation
  have hkind : p.cause.isUnreadable = q.cause.isUnreadable := by
    rw [← Cause.isUnreadable_canonical, hcause, Cause.isUnreadable_canonical]
  rw [canonical, canonical, hlocation, hcause, hoffending, hline, hfile, hkind]

/-- A problem that spells no path looks the same to an editor, wherever it is read from. -/
theorem diagnostic_eq_of_canonical (h : p.canonical = q.canonical) (hp : p.cause.Spells = false) :
    p.diagnostic = q.diagnostic := by
  simp only [canonical, Location.canonical, Problem.mk.injEq, Location.mk.injEq] at h
  obtain ⟨⟨_, hnumber, hcolumn, _⟩, hcause, hoffending, hline⟩ := h
  have hspells : q.cause.Spells = false := by
    rw [← Cause.spells_canonical, ← hcause, Cause.spells_canonical, hp]
  have hkind : q.cause.isUnreadable = false := by
    generalize q.cause = cause at hspells
    cases cause <;> first | rfl | cases hspells
  rw [Cause.canonical_of_not_spells hp, Cause.canonical_of_not_spells hspells] at hcause
  simp only [hcause, hkind, Bool.false_eq_true, if_false] at hoffending
  unfold diagnostic report Report.diagnostic Report.start Report.width
  dsimp only
  rw [hcause, hoffending, hnumber, hcolumn, hline]

/-- Problems that say the same at one place are the same but for spellings. -/
theorem canonical_eq_of_said (h : p.said = q.said) (hfile : here.file.Same there.file)
    (hnumber : here.line.number = there.line.number) (hp : p.location.IsOn here)
    (hq : q.location.IsOn there) : p.canonical = q.canonical := by
  simp only [said, Location.said, Problem.mk.injEq, Location.mk.injEq] at h
  obtain ⟨⟨_, _, hcolumn, hcontext⟩, hcause, hoffending, hline⟩ := h
  refine canonical_congr ?_ (congrArg Cause.canonical hcause) hoffending hline
  rw [Location.canonical, Location.canonical, hp.1, hp.2, hq.1, hq.2, Path.canonical_congr hfile,
    hnumber, hcolumn, hcontext]

/-- Problems that say the same on one line have the same canonical spelling. -/
theorem map_canonical_of_said {ps qs : List Problem} (h : ps.map said = qs.map said)
    (hfile : here.file.Same there.file) (hnumber : here.line.number = there.line.number)
    (hp : ∀ p ∈ ps, p.location.IsOn here) (hq : ∀ q ∈ qs, q.location.IsOn there) :
    ps.map canonical = qs.map canonical := by
  induction ps generalizing qs with
  | nil =>
    obtain rfl := List.map_eq_nil_iff.1 h.symm
    rfl
  | cons p ps ih =>
    obtain ⟨q, qs, rfl, hsaid, hrest⟩ := List.map_eq_cons_iff.1 h.symm
    obtain ⟨hphere, hpshere⟩ := List.forall_mem_cons.1 hp
    obtain ⟨hqthere, hqsthere⟩ := List.forall_mem_cons.1 hq
    rw [List.map_cons, List.map_cons, ih hrest.symm hpshere hqsthere,
      canonical_eq_of_said hsaid.symm hfile hnumber hphere hqthere]

end Problem

/-! ## Documents and readings that agree -/

/-- The description with the canonical spelling of its file. -/
def Reduced.canonical (r : Reduced) : Reduced :=
  { r with file := r.file.canonical }

namespace Document

/-- What a document says, without its problems and without any path. -/
def spoken (d : Document) : Document :=
  { d.said with file := ⟨[]⟩, problems := [] }

/-- Two documents say the same at the same places, which may be spelled in two ways. -/
structure Agrees (d e : Document) : Prop where
  file : d.file.Same e.file
  spoken : d.spoken = e.spoken
  included : d.included.map Path.canonical = e.included.map Path.canonical
  problems : d.problems.map Problem.canonical = e.problems.map Problem.canonical

namespace Agrees

variable {d e d' e' : Document}

/-- Every document agrees with itself. -/
theorem refl (d : Document) : d.Agrees d :=
  ⟨rfl, rfl, rfl, rfl⟩

/-- One document after another says what both say. -/
theorem spoken_followedBy (d e : Document) :
    (d.followedBy e).spoken = d.spoken.followedBy e.spoken := by
  simp only [Document.spoken, Document.said, followedBy, List.map_append, List.append_nil]

/-- Documents that agree, after documents that agree, agree. -/
theorem followedBy (h : d.Agrees e) (h' : d'.Agrees e') :
    (d.followedBy d').Agrees (e.followedBy e') where
  file := h.file
  spoken := by rw [spoken_followedBy, spoken_followedBy, h.spoken, h'.spoken]
  included := by
    simp only [Document.followedBy, List.map_append, h.included, h'.included]
  problems := by
    simp only [Document.followedBy, List.map_append, h.problems, h'.problems]

/-- The same problems stand in a file, however it is spelled. -/
theorem problemsIn (h : d.Agrees e) (file : Path) :
    (d.problems.filter fun p => p.location.file.Same file).map Problem.canonical =
      (e.problems.filter fun p => p.location.file.Same file).map Problem.canonical := by
  have hcanonical : ∀ ps : List Problem,
      (ps.filter fun p => p.location.file.Same file).map Problem.canonical =
        (ps.map Problem.canonical).filter fun p => p.location.file.Same file := by
    intro ps
    rw [List.filter_map]
    refine congrArg _ (List.filter_congr fun p _ => decide_eq_decide.2 ?_)
    change p.location.file.Same file ↔ p.location.file.canonical.Same file
    rw [Path.Same, Path.Same, Path.components_canonical]
  rw [hcanonical, hcanonical, h.problems]

/-- Without places the documents are the same, apart from the spelling of their file. -/
theorem ofDocument (h : d.Agrees e) :
    (Reduced.ofDocument d).canonical = (Reduced.ofDocument e).canonical := by
  have hfold : ∀ {α β : Type} (f : β → α → β) (g : α → α) (init : β) (entries : List α),
      (∀ b a, f b (g a) = f b a) → (entries.map g).foldl f init = entries.foldl f init := by
    intro α β f g init entries hg
    rw [List.foldl_map]
    exact congrArg (fun step => entries.foldl step init) (funext₂ hg)
  have hspoken : ∀ d : Document, { Reduced.ofDocument d with file := ⟨[]⟩ } =
      Reduced.ofDocument d.spoken := by
    intro d
    simp only [Reduced.ofDocument, Document.spoken, Document.said, Reduced.mk.injEq, true_and]
    exact ⟨(hfold _ Definition.said _ _ fun _ _ => rfl).symm,
      (hfold _ Override.said _ _ fun _ _ => rfl).symm,
      (hfold _ Override.said _ _ fun _ _ => rfl).symm,
      (hfold _ BuiltModule.said _ _ fun _ _ => rfl).symm,
      (hfold _ PcdSetting.said _ _ fun _ _ => rfl).symm⟩
  have hreduced : { Reduced.ofDocument d with file := (⟨[]⟩ : Path) } =
      { Reduced.ofDocument e with file := ⟨[]⟩ } := by
    rw [hspoken, hspoken, h.spoken]
  have hfile : (Reduced.ofDocument d).file.canonical = (Reduced.ofDocument e).file.canonical :=
    Path.canonical_congr h.file
  rw [Reduced.canonical, Reduced.canonical, hfile]
  exact congrArg (fun r : Reduced => { r with file := (Reduced.ofDocument e).file.canonical })
    hreduced

end Agrees

end Document

namespace Reading

variable {r q : Reading} {here there : Place}

/-- A block that is open after a line was opened by it, or was open before. -/
theorem location_block_plain {kind : LineKind} {b : Block}
    (h : (r.plain here kind).block = some b) :
    b.location = (r.block.map Block.location).getD (r.location here) := by
  have hkept : (r.plain here kind).block = r.block →
      b.location = (r.block.map Block.location).getD (r.location here) := by
    intro hblock
    rw [← hblock, h]
    rfl
  by_cases hheader : kind = .header
  · rw [hheader] at h
    have hnone : (r.header here).gathered.block = none := by
      rw [gathered_header, Gathered.close]
      split
      · assumption
      · rfl
    exact absurd (hnone.symm.trans h) (by simp)
  by_cases hcontent : kind = .content
  · subst hcontent
    by_cases hactive : ∃ scopes, r.active = some ⟨.components, scopes⟩
    · obtain ⟨scopes, hactive⟩ := hactive
      have hcomponent : r.plain here .content = r.component here scopes := by
        rw [plain, content, hactive]
      rw [hcomponent, component] at h
      cases hblock : r.block with
      | some b₀ =>
        rw [hblock] at h
        have hinside := congrArg Gathered.block (gathered_insideBlock here hblock scopes)
        rw [show (r.insideBlock here scopes b₀).gathered.block = some b from h] at hinside
        split at hinside
        · rw [Gathered.close_of_some hblock] at hinside
          cases hinside
        · obtain rfl := Option.some.inj hinside
          change (b₀.told r here).location = b₀.location
          unfold Block.told Block.toldPart Block.toldEntry
          split
          · rfl
          · split <;> rfl
      | none =>
        rw [hblock] at h
        simp only [startComponent_eq] at h
        split at h
        · exact absurd (hblock.symm.trans h) (by simp)
        · have hplace : ∀ written, (r.noteModule here written).location here = r.location here := by
            intro written
            unfold noteModule
            split <;> rfl
          split at h
          · obtain rfl := Option.some.inj h
            exact hplace _
          · exact absurd h (by simp [closeBlock, openBlock])
    · exact hkept (Visit.content_elsewhere (fun scopes hscopes => hactive ⟨scopes, hscopes⟩)
        here).1
  · exact hkept (congrArg Gathered.block (gathered_plain r here hheader hcontent))

/-- Two readings are at the same point of documents that agree. -/
structure Agrees (r q : Reading) : Prop where
  document : r.document.Agrees q.document
  carried : r.fresh.said = q.fresh.said
  /-- The open blocks were opened at one place. -/
  opened : r.block.map (fun b => b.location.canonical) =
    q.block.map fun b => b.location.canonical

namespace Agrees

/-- Readings that agree have the same open conditions. -/
theorem conditions (h : r.Agrees q) : r.conditions = q.conditions := by
  have hconditions := congrArg Reading.conditions h.carried
  exact hconditions

/-- Readings that agree know the same macros. -/
theorem macros (h : r.Agrees q) : r.macros = q.macros := by
  have hmacros := congrArg Reading.macros h.carried
  exact hmacros

/-- At one place, readings that agree give one location. -/
theorem location (h : r.Agrees q) (hfile : here.file.Same there.file)
    (hline : here.line = there.line) :
    (r.location here).canonical = (q.location there).canonical := by
  simp only [Location.canonical, Reading.location, context, Path.canonical_congr hfile, hline,
    h.conditions]

/-- Readings that agree do so when the same problem is noted at one place. -/
theorem note (h : r.Agrees q) (hfile : here.file.Same there.file) (hline : here.line = there.line)
    {cause cause' : Cause} (hcause : cause.canonical = cause'.canonical) (offending : Text) :
    (r.note here cause offending).Agrees (q.note there cause' offending) where
  document :=
    { file := h.document.file
      spoken := h.document.spoken
      included := h.document.included
      problems := by
        have hproblem := Problem.canonical_congr (p := ⟨r.location here, cause, offending,
          here.line.raw⟩) (q := ⟨q.location there, cause', offending, there.line.raw⟩)
          (h.location hfile hline) hcause rfl (by rw [hline])
        simp only [Reading.note, List.map_append, h.document.problems, List.map_cons, List.map_nil,
          hproblem] }
  carried := h.carried
  opened := h.opened

/-- Readings that agree do so when they visit one place. -/
theorem visit (h : r.Agrees q) {file file' : Path} (hfile : file.Same file') :
    (r.visit file).Agrees (q.visit file') where
  document :=
    { file := h.document.file
      spoken := h.document.spoken
      included := by
        simp only [Reading.visit, List.map_append, h.document.included, List.map_cons,
          List.map_nil, Path.canonical_congr hfile]
      problems := h.document.problems }
  carried := h.carried
  opened := h.opened

/-- Lines of one place that say the same are documents that agree, if nothing was said before. -/
theorem document_plain (h : r.Agrees q) (hfile : here.file.Same there.file)
    (hline : here.line = there.line) (kind : LineKind) :
    (r.fresh.plain here kind).said = (q.fresh.plain there kind).said ∧
      (r.fresh.plain here kind).document.Agrees (q.fresh.plain there kind).document := by
  have hsaid : (r.fresh.plain here kind).said = (q.fresh.plain there kind).said := by
    rw [said_plain, said_plain, h.carried, Place.said, Place.said, hline]
  have hnew : ∀ (r : Reading) (here : Place), ∀ p ∈ (r.fresh.plain here kind).document.problems,
      p.location.IsOn here := by
    intro r here p hp
    rcases (adds_plain r.fresh here kind).problems p hp with hp | hp
    · cases hp
    · exact hp.isOn.1
  have hdocument : (r.fresh.plain here kind).document.said =
      (q.fresh.plain there kind).document.said := congrArg Reading.document hsaid
  refine ⟨hsaid, ?_, ?_, ?_, ?_⟩
  · have hfiles : ∀ (r : Reading) (here : Place),
        (r.fresh.plain here kind).document.file = ⟨[]⟩ := fun r here =>
      congrArg Prod.fst (files_plain r.fresh here kind)
    rw [hfiles, hfiles]
    rfl
  · rw [Document.spoken, Document.spoken, hdocument]
  · rw [included_plain, included_plain]
    rfl
  · have hproblems : (r.fresh.plain here kind).document.problems.map Problem.said =
        (q.fresh.plain there kind).document.problems.map Problem.said :=
      congrArg Document.problems hdocument
    exact Problem.map_canonical_of_said hproblems hfile (by rw [hline]) (hnew r here) (hnew q there)

/-- Readings that agree still do after a line of one place that includes no file. -/
theorem plain (h : r.Agrees q) (hfile : here.file.Same there.file) (hline : here.line = there.line)
    (kind : LineKind) : (r.plain here kind).Agrees (q.plain there kind) := by
  have honto : ∀ (r : Reading) (here : Place),
      r.plain here kind = (r.fresh.plain here kind).onto r.document := by
    intro r here
    rw [onto_plain, onto_fresh]
  obtain ⟨hsaid, hdocument⟩ := h.document_plain hfile hline kind
  refine ⟨?_, ?_, ?_⟩
  · rw [honto r, honto q]
    exact h.document.followedBy hdocument
  · rw [honto r, honto q]
    exact congrArg (fun r : Reading => { r with document := (Document.empty ⟨[]⟩).said }) hsaid
  · have hblock : (r.plain here kind).block.map Block.said =
        (q.plain there kind).block.map Block.said := by
      rw [honto r, honto q]
      exact congrArg Reading.block hsaid
    cases hr : (r.plain here kind).block with
    | none =>
      rw [hr] at hblock
      rw [Option.map_eq_none_iff.1 hblock.symm]
    | some b =>
      rw [hr] at hblock
      obtain ⟨b', hq, _⟩ := Option.map_eq_some_iff.1 hblock.symm
      rw [hq, Option.map_some, Option.map_some, location_block_plain hr, location_block_plain hq]
      -- the block was opened before, or on this line
      have hopened := h.opened
      cases hrblock : r.block <;> cases hqblock : q.block <;> rw [hrblock, hqblock] at hopened
      · exact congrArg some (h.location hfile hline)
      · cases hopened
      · cases hopened
      · exact hopened

/-- Readings that agree are finished with documents that agree. -/
theorem finish (h : r.Agrees q) : r.finish.document.Agrees q.finish.document := by
  have hdocument : r.fresh.finish.document.Agrees q.fresh.finish.document := by
    have hsaid : r.fresh.finish.document.said = q.fresh.finish.document.said :=
      said_finish_document h.carried
    refine ⟨?_, ?_, ?_, ?_⟩
    · have hfiles : ∀ r : Reading, r.fresh.finish.document.file = ⟨[]⟩ := fun r =>
        congrArg Prod.fst (files_finish r.fresh)
      rw [hfiles, hfiles]
      rfl
    · rw [Document.spoken, Document.spoken, hsaid]
    · rw [included_finish, included_finish]
      rfl
    · have hblock : r.block.map Block.said = q.block.map Block.said :=
        congrArg Reading.block h.carried
      have hopened := h.opened
      have hcontext : r.fresh.context = q.fresh.context := by
        rw [context, context]
        exact congrArg (fun conditions : List Text => if conditions = [] then none
          else some (" && ".toList.intercalate conditions)) h.conditions
      rw [problems_finish, problems_finish]
      change ((r.block.map _).toList).map _ = ((q.block.map _).toList).map _
      cases hr : r.block <;> cases hq : q.block <;> rw [hr, hq] at hblock hopened
      · rfl
      · cases hblock
      · cases hblock
      · rename_i b b'
        simp only [Option.map_some, Option.some.injEq, Block.said, Block.mk.injEq,
          Location.canonical, Location.mk.injEq] at hblock hopened
        obtain ⟨hpath, _⟩ := hblock
        obtain ⟨hfile, hnumber, _, _⟩ := hopened
        refine congrArg (fun p => [p]) (Problem.canonical_congr ?_ ?_ hpath hpath)
        · simp only [Location.canonical, hfile, hnumber, hcontext]
        · dsimp only
          rw [hpath]
  rw [document_finish r, document_finish q]
  exact h.document.followedBy hdocument

end Agrees

end Reading

/-! ## Machines that agree -/

namespace Machine

variable {s : Setting} {m m' : Machine} {p q : Path} {target : Text}

/-- The paths that a target may mean beside two spellings of a file: the first ones are akin, and
the others are the same. -/
theorem candidates_congr (root : Option Path) (macros : Macros) (h : p.Same q) (target : Text) :
    (candidates root macros p target).1.Akin (candidates root macros q target).1 ∧
      (candidates root macros p target).2 = (candidates root macros q target).2 := by
  simp only [candidates]
  split
  · exact ⟨.inl rfl, rfl⟩
  · refine ⟨Path.akin_join_directory h _, List.filter_congr fun f _ => ?_⟩
    rw [decide_not, decide_not, Path.decide_same_congr (Path.join_congr (Path.directory_congr h) _)]

/-- A target beside two spellings of a file means one file, and that is read alike, if the paths
that come first are. -/
theorem resolve_respelled (macros : Macros) (h : p.Same q)
    (halike : s.sources.ReadsAlike (candidates s.root macros p target).1
      (candidates s.root macros q target).1) :
    (resolve s macros p target).Same (resolve s macros q target) ∧
      s.sources.ReadsAlike (resolve s macros p target) (resolve s macros q target) := by
  obtain ⟨hakin, hothers⟩ := candidates_congr s.root macros h target
  unfold resolve
  generalize candidates s.root macros p target = asked at halike hakin hothers
  generalize candidates s.root macros q target = asked' at halike hakin hothers
  obtain ⟨first, others⟩ := asked
  obtain ⟨first', others'⟩ := asked'
  obtain rfl : others = others' := hothers
  dsimp only at halike hakin ⊢
  rw [List.find?_cons, List.find?_cons, halike.present]
  cases s.sources.present first' with
  | true => exact ⟨hakin.same, halike⟩
  | false =>
    cases others.find? s.sources.present with
    | none => exact ⟨hakin.same, halike⟩
    | some f => exact ⟨rfl, rfl, rfl⟩

/-- Two machines have the same lines of the same files to read, and their readings agree. -/
structure Agrees (m m' : Machine) : Prop where
  frames : List.Forall₂ (fun f g => f.file.Same g.file ∧ f.lines = g.lines) m.frames m'.frames
  reading : m.reading.Agrees m'.reading

namespace Agrees

/-- Machines that agree have the same places open. -/
theorem openFiles (h : m.Agrees m') :
    m.openFiles.map Path.canonical = m'.openFiles.map Path.canonical := by
  obtain ⟨frames, r⟩ := m
  obtain ⟨frames', r'⟩ := m'
  have hframes : List.Forall₂ (fun f g => f.file.Same g.file ∧ f.lines = g.lines) frames frames' :=
    h.frames
  simp only [Machine.openFiles, List.map_map]
  clear h
  induction hframes with
  | nil => rfl
  | cons hframe _ ih =>
    rw [List.map_cons, List.map_cons, ih]
    exact congrArg (· :: _) (Path.canonical_congr hframe.1)

/-- An include leads machines that agree to machines that agree. -/
theorem enter (h : m.Agrees m') {here there : Place} (hfile : here.file.Same there.file)
    (hline : here.line = there.line) (htarget : target ≠ [] →
      s.sources.ReadsAlike (candidates s.root m.reading.macros here.file target).1
        (candidates s.root m'.reading.macros there.file target).1) :
    (m.enter s here target).Agrees (m'.enter s there target) := by
  rw [enter_eq, enter_eq]
  simp only [Reading.inclusion]
  split
  · exact ⟨h.frames, by rw [hline]; exact h.reading.note hfile hline rfl _⟩
  · rename_i hne
    obtain ⟨hsame, halike⟩ := resolve_respelled m.reading.macros hfile
      (by simpa [h.reading.macros] using htarget hne)
    rw [h.reading.macros] at hsame halike ⊢
    generalize resolve s m'.reading.macros here.file target = file at hsame halike
    generalize resolve s m'.reading.macros there.file target = file' at hsame halike
    rw [Path.any_same_eq_contains, Path.any_same_eq_contains, h.openFiles,
      Path.canonical_congr hsame, halike.read]
    split
    · refine ⟨h.frames, h.reading.note hfile hline ?_ _⟩
      rw [Cause.canonical, Cause.canonical, Path.canonical_congr hsame]
    · cases s.sources.read file' with
      | error reason =>
        refine ⟨h.frames, h.reading.note hfile hline ?_ _⟩
        rw [Cause.canonical, Cause.canonical, Path.canonical_congr hsame]
      | ok text => exact ⟨.cons ⟨hsame, rfl⟩ h.frames, h.reading.visit hsame⟩

/-- Machines that agree still do after a step, if what they ask for is read alike. -/
theorem step (h : m.Agrees m') (halike : ∀ f g, m.Asks s f → m'.Asks s g → f.Akin g →
    s.sources.ReadsAlike f g) : (Machine.step s m).Agrees (Machine.step s m') := by
  obtain ⟨frames, r⟩ := m
  obtain ⟨frames', r'⟩ := m'
  obtain ⟨hframes, hreading⟩ := h
  dsimp only at hframes hreading
  cases hframes with
  | nil => exact ⟨.nil, hreading⟩
  | @cons frame frame' rest rest' hframe hrest =>
    obtain ⟨file, lines⟩ := frame
    obtain ⟨file', lines'⟩ := frame'
    obtain ⟨hfile, hlines⟩ := hframe
    dsimp only at hfile hlines
    subst hlines
    cases lines with
    | nil => exact ⟨hrest, hreading⟩
    | cons l lines =>
      have hpassed : Agrees ⟨⟨file, lines⟩ :: rest, r⟩ ⟨⟨file', lines⟩ :: rest', r'⟩ :=
        ⟨.cons ⟨hfile, rfl⟩ hrest, hreading⟩
      change (Machine.line s ⟨⟨file, lines⟩ :: rest, r⟩ ⟨file, l⟩).Agrees
        (Machine.line s ⟨⟨file', lines⟩ :: rest', r'⟩ ⟨file', l⟩)
      have hplace : (Place.mk file l).file.Same (Place.mk file' l).file := hfile
      have hplain := hreading.plain hplace rfl
      unfold Machine.line
      dsimp only
      cases hkind : LineKind.ofText l.text with
      | inclusion target =>
        refine hpassed.enter hfile rfl fun htarget => ?_
        have hasks : ∀ (f : Path) (frames : List Frame) (r : Reading),
            Asks s ⟨⟨f, l :: lines⟩ :: frames, r⟩ (candidates s.root r.macros f target).1 :=
          fun f frames r => ⟨f, l, lines, frames, rfl, target, hkind, htarget, List.mem_cons_self⟩
        have hakin : (candidates s.root r.macros file target).1.Akin
            (candidates s.root r'.macros file' target).1 := by
          rw [hreading.macros]
          exact (candidates_congr s.root r'.macros hfile target).1
        exact halike _ _ (hasks file rest r) (hasks file' rest' r') hakin
      | ignored => exact hpassed
      | header => exact ⟨hpassed.frames, hplain .header⟩
      | definition => exact ⟨hpassed.frames, hplain .definition⟩
      | openCondition => exact ⟨hpassed.frames, hplain .openCondition⟩
      | branch => exact ⟨hpassed.frames, hplain .branch⟩
      | closeCondition => exact ⟨hpassed.frames, hplain .closeCondition⟩
      | content => exact ⟨hpassed.frames, hplain .content⟩

/-- Machines that agree do so after any number of steps, if akin candidates are read alike. -/
theorem iterate_step (h : m.Agrees m') (halike : ∀ n f g, ((Machine.step s)^[n] m).Asks s f →
    ((Machine.step s)^[n] m').Asks s g → f.Akin g → s.sources.ReadsAlike f g) (n : Nat) :
    ((Machine.step s)^[n] m).Agrees ((Machine.step s)^[n] m') := by
  induction n with
  | zero => exact h
  | succ n ih =>
    rw [Function.iterate_succ_apply', Function.iterate_succ_apply']
    exact ih.step (halike n)

/-- Two spellings of a platform file are started in machines that agree. -/
theorem start (s : Setting) (h : p.Same q) (text : Text) :
    (Machine.start s p text).Agrees (Machine.start s q text) where
  frames := .cons ⟨h, rfl⟩ .nil
  reading :=
    { document := ⟨h, rfl, rfl, rfl⟩
      carried := rfl
      opened := rfl }

end Agrees

/-- What is carried at the end of two spellings of a file agrees. -/
theorem agrees_readingOf (h : p.Same q) {text : Text}
    (halike : ∀ n f g, ((step s)^[n] (start s p text)).Asks s f →
      ((step s)^[n] (start s q text)).Asks s g → f.Akin g → s.sources.ReadsAlike f g) :
    (readingOf s p text).Agrees (readingOf s q text) := by
  obtain ⟨n, hn⟩ := exists_iterate_step_start s p text
  obtain ⟨n', hn'⟩ := exists_iterate_step_start s q text
  have hrun := (Agrees.start s h text).iterate_step halike (n' + n)
  rw [Function.iterate_add_apply, hn, iterate_step_halted, Nat.add_comm,
    Function.iterate_add_apply, hn', iterate_step_halted] at hrun
  exact hrun.reading

end Machine

/-- The documents of two spellings of a file agree, if the two are read alike, and what is asked for
in spellings that are akin is, too. -/
theorem Document.agrees_ofFile {s : Setting} {p q : Path} (h : p.Same q)
    (hread : s.sources.read p = s.sources.read q)
    (halike : ∀ f g, Document.Candidate s p f → Document.Candidate s q g → f.Akin g →
      s.sources.ReadsAlike f g) : (Document.ofFile s p).Agrees (Document.ofFile s q) := by
  unfold Document.ofFile
  cases htext : s.sources.read q with
  | error reason =>
    rw [hread, htext]
    refine ⟨h, rfl, rfl, congrArg (fun p => [p]) ?_⟩
    simp only [Problem.canonical, Location.canonical, Location.startOf, Cause.canonical,
      Cause.isUnreadable, Path.canonical_congr h, if_true]
  | ok text =>
    rw [hread, htext]
    dsimp only
    rw [Machine.ofText_eq_finish, Machine.ofText_eq_finish]
    refine (Machine.agrees_readingOf h fun n f g hf hg => ?_).finish
    exact halike f g ⟨text, hread.trans htext, n, hf⟩ ⟨text, htext, n, hg⟩

end FirmwareIndex
