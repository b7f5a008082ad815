import FirmwareIndex.Proofs.Platform.Appended
import FirmwareIndex.Proofs.Platform.Qualified
import FirmwareIndex.Proofs.Platform.Unknown

/-!
# What follows a header with an unknown name

After a header with an unknown name no section is active and no block is open, and this stays so up
to the next header (`Machine.idle_iterate_step`): a line of content is noted and gives nothing. The
machine is compared with one that passes over the header. Beside each other they read the same lines
up to the next header, and from there on they give the same (`Machine.Parallel`): if the content in
between is passed over too, always, and if it is read in the section before, provided that it
defines no macro (`Machine.dismisses_of_unknown`). This is what becomes of every such header of a
platform file (`Document.dismisses_ofText`).
-/

set_option autoImplicit false

namespace FirmwareIndex

/-! ## Lines that are neither headers nor content -/

/-- Two changes to what an effect carries, one after the other. -/
theorem Effect.map_map (f g : Reading → Reading) (e : Effect) :
    (e.map f).map g = e.map fun r => g (f r) := by
  cases e <;> rfl

namespace Reading

/-- What is carried apart from the document, the section and the open block. -/
def bare (r : Reading) : Reading :=
  r.settled.fresh

variable (r : Reading) (d : Document) (here : Place) (s : Setting) (opened : List Path)

/-- A settled reading has the conditions that were open. -/
@[simp]
theorem conditions_settled : r.settled.conditions = r.conditions := by
  obtain ⟨document, active, conditions, macros, block⟩ := r
  cases block <;> rfl

/-- A settled reading has the macros that were known. -/
@[simp]
theorem macros_settled : r.settled.macros = r.macros := by
  obtain ⟨document, active, conditions, macros, block⟩ := r
  cases block <;> rfl

/-- A settled reading stays as it is. -/
@[simp]
theorem settled_settled : r.settled.settled = r.settled := by
  obtain ⟨document, active, conditions, macros, block⟩ := r
  cases block <;> rfl

/-- Only conditions and macros are left in a bare reading. -/
theorem bare_eq : r.bare = ⟨.empty ⟨[]⟩, none, r.conditions, r.macros, none⟩ := by
  obtain ⟨document, active, conditions, macros, block⟩ := r
  cases block <;> rfl

/-- A bare reading has nothing of the document before it. -/
theorem bare_onto : (r.onto d).bare = r.bare := by
  rw [bare_eq, bare_eq]
  rfl

/-- A definition does the same to a settled reading. -/
theorem settled_define : (r.define here).settled = (r.settled.define here).settled := by
  unfold define
  cases Entry.definition? here.line.text with
  | none => simp
  | some definition =>
    obtain ⟨document, active, conditions, macros, block⟩ := r
    cases block <;> rfl

/-- A branch does the same to a settled reading. -/
theorem settled_branch : (r.branch here).settled = (r.settled.branch here).settled := by
  simp only [branch, conditions_settled]
  split
  · simp
  · obtain ⟨document, active, conditions, macros, block⟩ := r
    cases block <;> rfl

/-- The end of a condition does the same to a settled reading. -/
theorem settled_closeCondition :
    (r.closeCondition here).settled = (r.settled.closeCondition here).settled := by
  simp only [closeCondition, conditions_settled]
  split
  · simp
  · obtain ⟨document, active, conditions, macros, block⟩ := r
    cases block <;> rfl

/-- A condition that is opened does the same to a settled reading. -/
theorem settled_openCondition :
    (r.openCondition here).settled = (r.settled.openCondition here).settled := by
  obtain ⟨document, active, conditions, macros, block⟩ := r
  cases block <;> rfl

/-- A file that is included does the same to a settled reading. -/
theorem settled_visit (file : Path) : (r.visit file).settled = (r.settled.visit file).settled := by
  obtain ⟨document, active, conditions, macros, block⟩ := r
  cases block <;> rfl

/-- What is neither a header nor content does the same to a settled reading. -/
theorem settled_plain {kind : LineKind} (hheader : kind ≠ .header) (hcontent : kind ≠ .content) :
    (r.plain here kind).settled = (r.settled.plain here kind).settled := by
  cases kind with
  | header | content => contradiction
  | definition => exact settled_define r here
  | openCondition => exact settled_openCondition r here
  | branch => exact settled_branch r here
  | closeCondition => exact settled_closeCondition r here
  | ignored | inclusion target => exact (settled_settled r).symm

/-- An include does the same to a settled reading. -/
theorem settled_inclusion (target : Text) :
    (r.inclusion s opened here target).map settled =
      (r.settled.inclusion s opened here target).map settled := by
  have hnote : ∀ cause offending, (r.note here cause offending).settled =
      (r.settled.note here cause offending).settled := by
    simp
  simp only [inclusion, macros_settled]
  split
  · exact congrArg Effect.carry (hnote _ _)
  · split
    · exact congrArg Effect.carry (hnote _ _)
    · cases s.sources.read (Machine.resolve s r.macros here.file target) with
      | error reason => exact congrArg Effect.carry (hnote _ _)
      | ok text => exact congrArg (Effect.enter _ text) (settled_visit r _)

/-- A line that is neither a header nor content looks neither at the section nor at the block. -/
theorem settled_effect (hheader : LineKind.ofText here.line.text ≠ .header)
    (hcontent : LineKind.ofText here.line.text ≠ .content) :
    (r.effect s opened here).map settled = (r.settled.effect s opened here).map settled := by
  unfold effect
  split
  · exact settled_inclusion r here s opened _
  · exact congrArg Effect.carry (settled_plain r here hheader hcontent)

/-- Nor does it look at the document. -/
theorem bare_effect (hheader : LineKind.ofText here.line.text ≠ .header)
    (hcontent : LineKind.ofText here.line.text ≠ .content) :
    (r.effect s opened here).map bare = (r.bare.effect s opened here).map bare := by
  have honto : r.settled = r.bare.onto r.settled.document := (onto_fresh r.settled).symm
  calc
    (r.effect s opened here).map bare = ((r.effect s opened here).map settled).map fresh :=
      (Effect.map_map settled fresh _).symm
    _ = (r.settled.effect s opened here).map bare := by
      rw [settled_effect r here s opened hheader hcontent]
      exact Effect.map_map settled fresh _
    _ = ((r.bare.effect s opened here).map (onto · r.settled.document)).map bare := by
      rw [onto_effect, ← honto]
    _ = (r.bare.effect s opened here).map bare := by
      rw [Effect.map_map]
      simp only [bare_onto]

/-! ## Headers and content -/

/-- Problems that were noted do not matter to a fresh reading. -/
theorem fresh_unnoted : r.unnoted.fresh = r.fresh :=
  rfl

/-- A section is opened in a fresh reading as in any other. -/
theorem fresh_activate (active : Option Active) :
    (r.activate active).fresh = r.fresh.activate active :=
  rfl

/-- After a header, a fresh reading has only its section, the conditions and the macros. -/
theorem fresh_header :
    (r.header here).fresh = r.bare.activate (Active.ofHeader? here.line.text) := by
  rw [← fresh_unnoted, unnoted_header, fresh_activate]
  rfl

/-- Content outside of all sections is a problem, and nothing else. -/
theorem content_of_active_eq_none {r : Reading} (h : r.active = none) (here : Place) :
    r.content here = r.note here .noSection here.line.text := by
  rw [content, h]

/-- Content neither opens nor closes a condition. -/
theorem conditions_content : (r.content here).conditions = r.conditions := by
  unfold content
  split
  · rfl
  · rename_i a _
    split
    · unfold define
      split <;> rfl
    · unfold library
      split <;> rfl
    · exact congrArg Choices.conditions (choices_component r here a.scopes)
    · rfl
    · rfl
    · rfl
    · rfl
    · exact congrArg Choices.conditions (choices_pcd r here a.kind a.scopes)

/-- Content that defines no macro leaves a bare reading as it is. -/
theorem bare_content {r : Reading} {here : Place}
    (hmacros : (r.content here).macros = r.macros) : (r.content here).bare = r.bare := by
  rw [bare_eq, bare_eq, conditions_content, hmacros]

/-- No section is active and no block is open. -/
structure Idle (r : Reading) : Prop where
  active : r.active = none
  block : r.block = none

/-- Only a header makes a section active. -/
theorem Idle.effect {r : Reading} (h : r.Idle) {here : Place}
    (hheader : LineKind.ofText here.line.text ≠ .header) :
    (r.effect s opened here).reading.Idle := by
  by_cases hcontent : LineKind.ofText here.line.text = .content
  · rw [effect_of_content s opened r hcontent, content_of_active_eq_none h.active]
    exact ⟨h.active, h.block⟩
  · have hgathered := gathered_effect r here s opened hheader hcontent
    have hactive := congrArg Gathered.active hgathered
    have hblock := congrArg Gathered.block hgathered
    exact ⟨hactive.trans h.active, hblock.trans h.block⟩

end Reading

namespace Machine

/-! ## Steps and passed lines -/

/-- One step in which content is passed over. -/
def stepPast (s : Setting) (m : Machine) : Machine :=
  match m.next? with
  | some v => if v.kind = .content then m.passed else step s m
  | none => step s m

variable {s : Setting} {m m' : Machine} {v : Visit} {f : Reading → Reading}

/-- Which line comes next is a matter of the frames. -/
theorem next?_eq_of_frames (h : m.frames = m'.frames) :
    m'.next? = m.next?.map fun v => ⟨v.here, m'.reading⟩ := by
  obtain ⟨frames, r⟩ := m
  obtain ⟨frames', r'⟩ := m'
  obtain rfl : frames = frames' := h
  match frames with
  | [] => rfl
  | ⟨_, []⟩ :: _ => rfl
  | ⟨file, l :: lines⟩ :: below => rfl

/-- The first steps of a machine visit no header. -/
def Quiet (s : Setting) (m : Machine) (k : Nat) : Prop :=
  ∀ j < k, ∀ v, ((step s)^[j] m).next? = some v → v.kind ≠ .header

/-- The content that the first steps of a machine visit defines no macro. -/
def KeepsMacros (s : Setting) (m : Machine) (k : Nat) : Prop :=
  ∀ j < k, ∀ v, ((step s)^[j] m).next? = some v → v.kind = .content →
    (v.reading.content v.here).macros = v.reading.macros

/-- Steps that visit no header are quiet from the first one on. -/
theorem Quiet.mono {j k : Nat} (h : Quiet s m k) (hjk : j ≤ k) : Quiet s m j :=
  fun i hi => h i (Nat.lt_of_lt_of_le hi hjk)

/-- Where no section is active and no block is open, this stays so up to the next header. -/
theorem idle_iterate_step {k : Nat} (hidle : m.reading.Idle) (hquiet : Quiet s m k) :
    ((step s)^[k] m).reading.Idle := by
  induction k with
  | zero => exact hidle
  | succ k ih =>
    have hk := ih (hquiet.mono (Nat.le_succ k))
    rw [Function.iterate_succ_apply']
    cases hnext : ((step s)^[k] m).next? with
    | none =>
      rw [reading_step hnext]
      exact hk
    | some v =>
      rw [reading_step_of_next?_eq_some hnext]
      exact hk.effect s _ (hquiet k (Nat.lt_succ_self k) v hnext)

/-! ## Machines beside each other -/

/-- Two machines have the same lines to read, and what they carry looks the same. -/
structure Beside (f : Reading → Reading) (m m' : Machine) : Prop where
  frames : m.frames = m'.frames
  reading : f m.reading = f m'.reading

namespace Beside

/-- Machines beside each other stay so when they pass over a line. -/
theorem passed (h : Beside f m m') : Beside f m.passed m'.passed where
  frames := by rw [Machine.passed, Machine.passed, h.frames]
  reading := h.reading

/-- Effects that look the same lead to machines that look the same. -/
theorem after (h : m.frames = m'.frames) {e e' : Effect} (he : e.map f = e'.map f) :
    Beside f (m.after e) (m'.after e') := by
  cases e with
  | carry r =>
    cases e' with
    | carry r' => exact ⟨h, Effect.carry.inj he⟩
    | enter file' text' r' => cases he
  | enter file text r =>
    cases e' with
    | carry r' => cases he
    | enter file' text' r' =>
      simp only [Effect.map, Effect.enter.injEq] at he
      obtain ⟨rfl, rfl, hr⟩ := he
      exact ⟨congrArg (List.cons (⟨file, Line.ofText text⟩ : Frame)) h, hr⟩

/-- Machines beside each other stay so when the next line does the same to both. -/
theorem step (h : Beside f m m') (heffect : ∀ v, m.next? = some v →
    (m.reading.effect s m.openFiles v.here).map f =
      (m'.reading.effect s m.openFiles v.here).map f) :
    Beside f (step s m) (step s m') := by
  have hnext' := next?_eq_of_frames h.frames
  cases hnext : m.next? with
  | none =>
    rw [hnext] at hnext'
    rw [step_of_next?_eq_none hnext, step_of_next?_eq_none hnext']
    exact ⟨congrArg List.tail h.frames, h.reading⟩
  | some v =>
    rw [hnext] at hnext'
    have hopened : m'.openFiles = m.openFiles := by rw [openFiles, openFiles, h.frames]
    rw [step_of_next?_eq_some hnext, step_of_next?_eq_some hnext', hopened]
    exact after h.passed.frames (heffect v hnext)

/-- Machines stay beside each other while each of their steps keeps them there. -/
theorem iterate {next : Machine → Machine} {k : Nat} (h : Beside f m m')
    (hnext : ∀ j < k, Beside f ((Machine.step s)^[j] m) (next^[j] m') →
      Beside f (Machine.step s ((Machine.step s)^[j] m)) (next (next^[j] m'))) :
    Beside f ((Machine.step s)^[k] m) (next^[k] m') := by
  induction k with
  | zero => exact h
  | succ k ih =>
    rw [Function.iterate_succ_apply', Function.iterate_succ_apply']
    exact hnext k (Nat.lt_succ_self k) (ih fun j hj => hnext j (Nat.lt_succ_of_lt hj))

/-- Without a section a step does what a step does that passes over content, apart from the problems
and whatever section and block the other machine has. -/
theorem stepPast (h : Beside Reading.settled m m') (hidle : m.reading.Idle)
    (hquiet : ∀ v, m.next? = some v → v.kind ≠ .header) :
    Beside Reading.settled (Machine.step s m) (Machine.stepPast s m') := by
  have hnext' := next?_eq_of_frames h.frames
  by_cases hcontent : ∃ v, m.next? = some v ∧ v.kind = .content
  · obtain ⟨v, hnext, hkind⟩ := hcontent
    rw [hnext, Option.map_some] at hnext'
    have hpast : Machine.stepPast s m' = m'.passed := by
      rw [Machine.stepPast, hnext']
      exact if_pos hkind
    rw [hpast, step_of_next?_eq_some hnext,
      Reading.effect_of_content s _ m.reading hkind,
      Reading.content_of_active_eq_none hidle.active]
    exact ⟨h.passed.frames, (Reading.settled_note _ _ _ _).trans h.reading⟩
  · have hother : ∀ v, m.next? = some v → v.kind ≠ .content :=
      fun v hnext hkind => hcontent ⟨v, hnext, hkind⟩
    have hstep : Machine.stepPast s m' = Machine.step s m' := by
      rw [Machine.stepPast, hnext']
      cases hnext : m.next? with
      | none => rfl
      | some v => exact if_neg (hother v hnext)
    rw [hstep]
    refine h.step fun v hnext => ?_
    rw [Reading.settled_effect m.reading _ _ _ (hquiet v hnext) (hother v hnext), h.reading,
      ← Reading.settled_effect m'.reading _ _ _ (hquiet v hnext) (hother v hnext)]

/-- Without a section a step leaves what is carried apart from the document as it is left by a step
in a section, if that defines no macro. -/
theorem stepBare (h : Beside Reading.bare m m') (hidle : m.reading.Idle)
    (hquiet : ∀ v, m.next? = some v → v.kind ≠ .header)
    (hmacros : ∀ v, m'.next? = some v → v.kind = .content →
      (v.reading.content v.here).macros = v.reading.macros) :
    Beside Reading.bare (Machine.step s m) (Machine.step s m') := by
  refine h.step fun v hnext => ?_
  by_cases hcontent : v.kind = .content
  · have hnext' := next?_eq_of_frames h.frames
    rw [hnext, Option.map_some] at hnext'
    rw [Reading.effect_of_content s _ m.reading hcontent,
      Reading.effect_of_content s _ m'.reading hcontent]
    refine congrArg Effect.carry ?_
    have hcontent' : (m'.reading.content v.here).bare = m'.reading.bare :=
      Reading.bare_content (hmacros _ hnext' hcontent)
    have hnote : (m.reading.content v.here).bare = m.reading.bare := by
      rw [Reading.content_of_active_eq_none hidle.active, Reading.bare, Reading.settled_note]
      rfl
    rw [hcontent', hnote, h.reading]
  · rw [Reading.bare_effect m.reading _ _ _ (hquiet v hnext) hcontent, h.reading,
      ← Reading.bare_effect m'.reading _ _ _ (hquiet v hnext) hcontent]

end Beside

/-- Two machines read the same lines from here on, and give the same to their documents. -/
structure Parallel (s : Setting) (m m' : Machine) : Prop where
  frames : ∀ i, ((step s)^[i] m).frames = ((step s)^[i] m').frames
  given : ∀ i, ∃ d, ((step s)^[i] m).reading.document = m.reading.document.followedBy d ∧
    ((step s)^[i] m').reading.document = m'.reading.document.followedBy d
  /-- So they do when all is closed. -/
  finished : ∀ i, ∃ d,
    ((step s)^[i] m).reading.finish.document = m.reading.document.followedBy d ∧
      ((step s)^[i] m').reading.finish.document = m'.reading.document.followedBy d

/-- What is read depends on what is carried apart from the document. -/
theorem Beside.parallel (h : Beside Reading.fresh m m') : Parallel s m m' := by
  have hrun := iterate_step_eq_onto s m
  have hrun' := iterate_step_eq_onto s m'
  rw [← h.frames, ← h.reading] at hrun'
  refine ⟨fun i => ?_, fun i => ?_, fun i => ?_⟩
  · rw [hrun, hrun']
    rfl
  · rw [hrun, hrun']
    exact ⟨_, rfl, rfl⟩
  · rw [hrun, hrun']
    exact ⟨_, congrArg Reading.document (Reading.onto_finish _ _).symm,
      congrArg Reading.document (Reading.onto_finish _ _).symm⟩

section Header

variable (hnext : m.next? = some v) (hkind : v.kind = .header)
include hnext hkind

/-- A step on a header is what the header does, and the line is passed. -/
theorem step_header : step s m = m.passed.after (.carry (m.reading.header v.here)) := by
  rw [step_of_next?_eq_some hnext, Reading.effect_of_header s _ m.reading hkind]

/-- A header makes machines the same but for their problems. -/
theorem Beside.header (h : Beside Reading.settled m m') :
    Beside Reading.unnoted (Machine.step s m) (Machine.step s m') := by
  have hnext' := next?_eq_of_frames h.frames
  rw [hnext, Option.map_some] at hnext'
  have hheader : (m.reading.header v.here).unnoted = (m'.reading.header v.here).unnoted := by
    rw [Reading.unnoted_header, Reading.unnoted_header, h.reading]
  rw [step_header hnext hkind, step_header hnext' hkind]
  exact Beside.after h.passed.frames (congrArg Effect.carry hheader)

/-- A header makes machines the same but for their documents. -/
theorem Beside.headerBare (h : Beside Reading.bare m m') :
    Beside Reading.fresh (Machine.step s m) (Machine.step s m') := by
  have hnext' := next?_eq_of_frames h.frames
  rw [hnext, Option.map_some] at hnext'
  have hheader : (m.reading.header v.here).fresh = (m'.reading.header v.here).fresh := by
    rw [Reading.fresh_header, Reading.fresh_header, h.reading]
  rw [step_header hnext hkind, step_header hnext' hkind]
  exact Beside.after h.passed.frames (congrArg Effect.carry hheader)

end Header

/-- What becomes of a header with an unknown name that a machine visits next. -/
structure Dismisses (s : Setting) (m : Machine) (v : Visit) : Prop where
  /-- The header is noted, after its warnings, with its fatal problems. -/
  problems : (step s m).reading.document.problems =
    v.reading.document.problems ++ v.warnings ++ v.faults
  warnings : ∀ p ∈ v.warnings, p.cause.severity = .warning
  faults : ∀ p ∈ v.faults, p.cause.severity = .fatal
  /-- There is one for each unknown name, however often and in whatever case it is repeated. -/
  represents : Qualifier.Represents (Qualifier.unknown (Header.qualifiers v.text))
    (Header.unknownBases v.text)
  /-- So there is only one if all unknown names are the same. -/
  single : (∀ a ∈ Header.unknownBases v.text, ∀ b ∈ Header.unknownBases v.text,
    Text.sameName a b) → v.faults.length = 1
  /-- Apart from its problems it closes the open block and leaves no section active. -/
  settled : (step s m).reading.unnoted = v.reading.settled
  /-- Up to the next header, each line of content is noted as fatal, and that is all it does. -/
  content : ∀ k u, Quiet s (step s m) k → ((step s)^[k] (step s m)).next? = some u →
    u.kind = .content → (step s ((step s)^[k] (step s m))).reading =
      u.reading.note u.here .noSection u.text
  /-- At the next header a machine that has passed over the header and the content after it has the
  same to read, its document is the same apart from the problems, and it gives the same from there
  on. -/
  resumed : ∀ k u, Quiet s (step s m) k → ((step s)^[k] (step s m)).next? = some u →
    u.kind = .header → ((stepPast s)^[k] m.passed).next?.map Visit.here = some u.here ∧
      (step s ((step s)^[k] (step s m))).reading.document.unnoted =
        (step s ((stepPast s)^[k] m.passed)).reading.document.unnoted ∧
      Parallel s (step s ((step s)^[k] (step s m))) (step s ((stepPast s)^[k] m.passed))
  /-- So does a machine that has passed over the header alone, if the content after it, read in the
  section before, defines no macro. -/
  resumed_alone : ∀ k u, Quiet s (step s m) k → KeepsMacros s m.passed k →
    ((step s)^[k] (step s m)).next? = some u → u.kind = .header →
      ((step s)^[k] m.passed).next?.map Visit.here = some u.here ∧
        Parallel s (step s ((step s)^[k] (step s m))) (step s ((step s)^[k] m.passed))

/-- A header with an unknown name is noted and dismissed. -/
theorem dismisses_of_unknown (hnext : m.next? = some v) (hkind : v.kind = .header)
    (hunknown : Header.unknownBases v.text ≠ []) : Dismisses s m v := by
  have hstep : step s m = m.passed.after (.carry (m.reading.header v.here)) :=
    step_header hnext hkind
  have hreading : (step s m).reading = v.reading.header v.here := by
    rw [hstep, reading_of_next?_eq_some hnext]
    rfl
  have hactive : Active.ofHeader? v.here.line.text = none := Active.ofHeader?_of_unknown hunknown
  have hidle : (step s m).reading.Idle := by
    rw [hreading]
    exact ⟨(Reading.active_header v.reading v.here).trans hactive,
      Reading.block_header v.reading v.here⟩
  have hsettled : Beside Reading.settled (step s m) m.passed := by
    refine ⟨by rw [hstep]; rfl, ?_⟩
    rw [hreading, Reading.settled_header, reading_of_next?_eq_some hnext]
    rfl
  have hbare : Beside Reading.bare (step s m) m.passed :=
    ⟨hsettled.frames, congrArg Reading.fresh hsettled.reading⟩
  have hhere : ∀ {n n' : Machine} {u : Visit}, n.frames = n'.frames → n.next? = some u →
      n'.next?.map Visit.here = some u.here := by
    intro n n' u hframes hu
    rw [next?_eq_of_frames hframes, hu]
    rfl
  refine
    { problems := ?problems
      warnings := v.severity_of_mem_warnings
      faults := v.severity_of_mem_faults
      represents := Qualifier.represents_unknown _
      single := v.length_faults hunknown
      settled := ?settled
      content := ?content
      resumed := ?resumed
      resumed_alone := ?resumedAlone }
  case problems => rw [hreading, v.problems_header]
  case settled =>
    rw [hreading, Reading.unnoted_header, hactive]
    rfl
  case content =>
    intro k u hquiet hu hcontent
    have hidle' := idle_iterate_step hidle hquiet
    rw [reading_step_of_next?_eq_some hu, Reading.effect_of_content s _ _ hcontent,
      Reading.content_of_active_eq_none hidle'.active, reading_of_next?_eq_some hu]
    rfl
  case resumed =>
    intro k u hquiet hu hheader
    have hbeside : Beside Reading.settled ((step s)^[k] (step s m)) ((stepPast s)^[k] m.passed) :=
      hsettled.iterate fun j hj hj' =>
        hj'.stepPast (idle_iterate_step hidle (hquiet.mono hj.le)) (hquiet j hj)
    have hafter := hbeside.header (s := s) hu hheader
    have hdocument := congrArg Reading.document hafter.reading
    have hfresh := congrArg Reading.fresh hafter.reading
    exact ⟨hhere hbeside.frames hu, hdocument, Beside.parallel ⟨hafter.frames, hfresh⟩⟩
  case resumedAlone =>
    intro k u hquiet hmacros hu hheader
    have hbeside : Beside Reading.bare ((step s)^[k] (step s m)) ((step s)^[k] m.passed) :=
      hbare.iterate fun j hj hj' =>
        hj'.stepBare (idle_iterate_step hidle (hquiet.mono hj.le)) (hquiet j hj) (hmacros j hj)
    exact ⟨hhere hbeside.frames hu, (hbeside.headerBare hu hheader).parallel⟩

/-- What is read comes after what has been read before. -/
theorem begins_iterate_step (s : Setting) (m : Machine) (n : Nat) :
    m.reading.document.Begins ((step s)^[n] m).reading.document := by
  rw [iterate_step_eq_onto]
  exact .followedBy _ _

end Machine

namespace Document

/-- What has been read at some step begins the document of the platform file. -/
theorem begins_ofText (s : Setting) (file : Path) (text : Text) (n : Nat) :
    ((Machine.step s)^[n] (.start s file text)).reading.document.Begins (ofText s file text) := by
  obtain ⟨k, hk⟩ := Machine.exists_iterate_step_start s file text
  have hgrown := Machine.begins_iterate_step s ((Machine.step s)^[n] (.start s file text)) k
  have hend : (Machine.step s)^[k] ((Machine.step s)^[n] (.start s file text)) =
      ⟨[], Machine.readingOf s file text⟩ := by
    rw [← Function.iterate_add_apply, Nat.add_comm, Function.iterate_add_apply, hk,
      Machine.iterate_step_halted]
  rw [hend] at hgrown
  rw [Machine.ofText_eq_finish]
  exact hgrown.trans (Reading.begins_finish _)

/-- What becomes of the headers with unknown names that are read for a platform file. -/
structure Dismisses (s : Setting) (file : Path) (text : Text) : Prop where
  /-- Every line of the platform file is visited at some step. -/
  visited : ∀ l ∈ Line.ofText text, ∃ n v,
    ((Machine.step s)^[n] (.start s file text)).next? = some v ∧ v.here = ⟨file, l⟩
  /-- A header with an unknown name is dismissed, in the platform file and in what it includes. -/
  header : ∀ n v, ((Machine.step s)^[n] (.start s file text)).next? = some v → v.kind = .header →
    Header.unknownBases v.text ≠ [] →
      Machine.Dismisses s ((Machine.step s)^[n] (.start s file text)) v
  /-- What is noted and given at a step stays in the document. -/
  kept : ∀ n, ((Machine.step s)^[n] (.start s file text)).reading.document.Begins
    (ofText s file text)
  /-- The document is what the steps come to. -/
  finished : ∃ n, ((Machine.step s)^[n] (.start s file text)).frames = [] ∧
    ofText s file text = ((Machine.step s)^[n] (.start s file text)).reading.finish.document

/-- Every header with an unknown name is noted and dismissed, whatever the platform file includes. -/
theorem dismisses_ofText (s : Setting) (file : Path) (text : Text) : Dismisses s file text where
  visited l hl := by
    obtain ⟨n, later, r, hn⟩ := Machine.exists_iterate_step_line s file hl
    exact ⟨n, ⟨⟨file, l⟩, r⟩, by rw [hn]; rfl, rfl⟩
  header _ _ hnext hkind hunknown := Machine.dismisses_of_unknown hnext hkind hunknown
  kept := begins_ofText s file text
  finished := (Machine.iterate_step_start s file text).1

/-- A workspace without other files. -/
def alone : Setting :=
  ⟨FileSet.empty.sources, none⟩

/-- The header is noted, and the line under it, but not the component under the next header. -/
example : (ofText alone ⟨"/ws/P.dsc"⟩
    "[Bogus]\n  Stray|Line.inf\n[Components]\n  A/A.inf\n").fatal.map Problem.cause =
      [.unknownSection "Bogus", .noSection] := by
  decide +kernel

/-- A text in which a header stands over a line that is a definition in the section before it. -/
def redefining (header : Text) : Text :=
  "[Defines]\nA = 1\n" ++ header ++ "A = 2\n[LibraryClasses]\nX|$(A)\n"

/-- One header is noted as fatal twice if it has two unknown names. And where a header with an
unknown name keeps a line from being a definition, the lines under the next header see it. -/
theorem fatal_unknownNames :
    Header.unknownBases "[Foo, Bar]" = ["Foo".toList, "Bar".toList] ∧
      ((ofText alone ⟨"/ws/P.dsc"⟩ "[Foo, Bar]\n").fatal.map fun p => (p.location.line, p.cause)) =
        [(0, .unknownSection "Foo"), (0, .unknownSection "Bar")] ∧
      (ofText alone ⟨"/ws/P.dsc"⟩ (redefining "[Bogus]\n")).libraries.map Override.path =
        ["1".toList] ∧
      (ofText alone ⟨"/ws/P.dsc"⟩ (redefining [])).libraries.map Override.path = ["2".toList] := by
  decide +kernel

end Document

end FirmwareIndex
