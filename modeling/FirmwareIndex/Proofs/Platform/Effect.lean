import FirmwareIndex.Platform.Machine

/-!
# What a line does to the machine

A line of a platform description either changes what is carried from line to line, or it also opens
another file. Which of the two happens depends on the open files only through their places: neither
the lines that are left in them nor the depth of the stack matter. `Machine.line_eq` says so once,
and everything that is proved about runs of the machine rests on it.
-/

set_option autoImplicit false

namespace FirmwareIndex

/-- What reading a line leads to. -/
inductive Effect where
  /-- The same file is read on. -/
  | carry (r : Reading)
  /-- A file with a text is read first. -/
  | enter (file : Path) (text : Text) (r : Reading)

/-- What is carried after a line with an effect. -/
def Effect.reading : Effect → Reading
  | .carry r | .enter _ _ r => r

namespace Reading

/-- The reading after a file has been noted as included. -/
def visit (r : Reading) (file : Path) : Reading :=
  { r with document := { r.document with included := r.document.included ++ [file] } }

/-- What an include with a target leads to when some files are open. -/
def inclusion (s : Setting) (opened : List Path) (r : Reading) (here : Place) (target : Text) :
    Effect :=
  if target = [] then .carry (r.note here .includeWithoutTarget here.line.text)
  else
    let file := Machine.resolve s r.macros here.file target
    if opened.any fun p => p.Same file then .carry (r.note here (.recursiveInclude file) target)
    else
      match s.sources.read file with
      | .error reason => .carry (r.note here (.unreadableInclude file reason) target)
      | .ok text => .enter file text (r.visit file)

/-- What a line that includes no file does to what is carried. -/
def plain (r : Reading) (here : Place) : LineKind → Reading
  | .header => r.header here
  | .definition => r.define here
  | .openCondition => r.openCondition here
  | .branch => r.branch here
  | .closeCondition => r.closeCondition here
  | .content => r.content here
  | .ignored | .inclusion _ => r

/-- What a line leads to when some files are open. -/
def effect (s : Setting) (opened : List Path) (r : Reading) (here : Place) : Effect :=
  match LineKind.ofText here.line.text with
  | .inclusion target => r.inclusion s opened here target
  | kind => .carry (r.plain here kind)

section Kind

variable (s : Setting) (opened : List Path) (r : Reading) {here : Place}

/-- A header only changes what is carried. -/
theorem effect_of_header (h : LineKind.ofText here.line.text = .header) :
    r.effect s opened here = .carry (r.header here) := by
  rw [effect, h]
  rfl

/-- Content only changes what is carried. -/
theorem effect_of_content (h : LineKind.ofText here.line.text = .content) :
    r.effect s opened here = .carry (r.content here) := by
  rw [effect, h]
  rfl

end Kind

end Reading

namespace Machine

/-- The places of the open files, the innermost first. -/
def openFiles (m : Machine) : List Path :=
  m.frames.map Frame.file

/-- The machine after a line with an effect. -/
def after (m : Machine) : Effect → Machine
  | .carry r => { m with reading := r }
  | .enter file text r => ⟨⟨file, Line.ofText text⟩ :: m.frames, r⟩

/-- An include is decided by the places of the open files. -/
theorem enter_eq (s : Setting) (m : Machine) (here : Place) (target : Text) :
    m.enter s here target = m.after (m.reading.inclusion s m.openFiles here target) := by
  have hany : (m.frames.any fun f => f.file.Same (resolve s m.reading.macros here.file target)) =
      m.openFiles.any fun p => p.Same (resolve s m.reading.macros here.file target) := by
    simp only [openFiles, List.any_map]
    rfl
  simp only [enter, Reading.inclusion, hany]
  split
  · rfl
  · split
    · rfl
    · cases s.sources.read (resolve s m.reading.macros here.file target) <;> rfl

/-- The machine does with a line what the effect of the line says. -/
theorem line_eq (s : Setting) (m : Machine) (here : Place) :
    line s m here = m.after (m.reading.effect s m.openFiles here) := by
  unfold line Reading.effect
  cases h : LineKind.ofText here.line.text with
  | inclusion target => exact enter_eq s m here target
  | header | definition | openCondition | branch | closeCondition | ignored | content => rfl

/-- A file is opened only by an include that leads to it, if it can be read and no open file is the
same place. -/
theorem effect_eq_enter {s : Setting} {opened : List Path} {r r' : Reading} {here : Place}
    {file : Path} {text : Text} (h : r.effect s opened here = .enter file text r') :
    ∃ target, LineKind.ofText here.line.text = .inclusion target ∧ target ≠ [] ∧
      resolve s r.macros here.file target = file ∧ (∀ p ∈ opened, ¬ p.Same file) ∧
      s.sources.read file = .ok text ∧ r' = r.visit file := by
  unfold Reading.effect at h
  split at h
  case h_2 => cases h
  case h_1 target hkind =>
    simp only [Reading.inclusion] at h
    split at h
    case isTrue => cases h
    case isFalse htarget =>
      split at h
      case isTrue => cases h
      case isFalse hopen =>
        cases hread : s.sources.read (resolve s r.macros here.file target) with
        | error reason => simp [hread] at h
        | ok text' =>
          simp only [hread, Effect.enter.injEq] at h
          obtain ⟨rfl, rfl, rfl⟩ := h
          simp only [List.any_eq_true, decide_eq_true_eq, not_exists, not_and] at hopen
          exact ⟨target, hkind, htarget, rfl, hopen, hread, rfl⟩

/-- An include that opens no file is noted, for its line or for its target. -/
theorem inclusion_eq_carry {s : Setting} {opened : List Path} {r r' : Reading} {here : Place}
    {target : Text} (h : r.inclusion s opened here target = .carry r') :
    ∃ cause offending, (offending = here.line.text ∨ offending = target) ∧
      r' = r.note here cause offending := by
  simp only [Reading.inclusion] at h
  split at h
  case isTrue => exact ⟨_, _, .inl rfl, (Effect.carry.inj h).symm⟩
  case isFalse =>
    split at h
    case isTrue => exact ⟨_, _, .inr rfl, (Effect.carry.inj h).symm⟩
    case isFalse =>
      cases hread : s.sources.read (resolve s r.macros here.file target) with
      | error reason =>
        rw [hread] at h
        exact ⟨_, _, .inr rfl, (Effect.carry.inj h).symm⟩
      | ok text =>
        rw [hread] at h
        cases h

/-- A line that opens no file notes what is wrong with an include, or is read as it is. -/
theorem effect_eq_carry {s : Setting} {opened : List Path} {r r' : Reading} {here : Place}
    (h : r.effect s opened here = .carry r') :
    (∃ cause offending, r' = r.note here cause offending) ∨
      r' = r.plain here (LineKind.ofText here.line.text) := by
  unfold Reading.effect at h
  split at h
  case h_2 => exact .inr (Effect.carry.inj h).symm
  case h_1 target _ =>
    obtain ⟨cause, offending, _, hnote⟩ := inclusion_eq_carry h
    exact .inl ⟨cause, offending, hnote⟩

/-- A step at the end of the innermost file closes it. -/
theorem step_close (s : Setting) (file : Path) (rest : List Frame) (r : Reading) :
    step s ⟨⟨file, []⟩ :: rest, r⟩ = ⟨rest, r⟩ :=
  rfl

/-- A step at a line of the innermost file takes the effect of the line. -/
theorem step_line (s : Setting) (file : Path) (l : Line) (lines : List Line) (rest : List Frame)
    (r : Reading) :
    step s ⟨⟨file, l :: lines⟩ :: rest, r⟩ =
      after ⟨⟨file, lines⟩ :: rest, r⟩ (r.effect s (file :: rest.map Frame.file) ⟨file, l⟩) := by
  exact line_eq s ⟨⟨file, lines⟩ :: rest, r⟩ ⟨file, l⟩

end Machine

end FirmwareIndex
