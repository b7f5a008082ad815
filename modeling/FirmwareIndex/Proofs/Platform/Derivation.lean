import FirmwareIndex.Proofs.Platform.Stack
import FirmwareIndex.Source.FileSet

/-!
# Derivations of a reading

`Reads s opened file lines r r'` says that reading the lines of a file above the open files leads
from `r` to `r'`. A derivation follows the lines and the includes among them and knows neither a
stack nor a bound on its depth. Every reading has a derivation (`Machine.reads_readingOf`). It leads
to one result (`Reads.unique`), that of the bounded loop of `Machine.close` and of the steps of the
machine (`Reads.exists_iterate_step`). So the end of the stack is always reached, and reading always
ends (`Machine.iterate_step_start`).
-/

set_option autoImplicit false

namespace FirmwareIndex

/-- Reading lines of a file above the open files leads from one state of a reading to another. -/
inductive Reads (s : Setting) : List Path → Path → List Line → Reading → Reading → Prop where
  /-- There are no more lines. -/
  | done {opened : List Path} {file : Path} {r : Reading} : Reads s opened file [] r r
  /-- A line that opens no file is read. -/
  | carry {opened : List Path} {file : Path} {l : Line} {lines : List Line} {r r₁ r' : Reading}
      (effect : r.effect s (file :: opened) ⟨file, l⟩ = .carry r₁)
      (rest : Reads s opened file lines r₁ r') : Reads s opened file (l :: lines) r r'
  /-- A line opens a file, whose lines are read first. -/
  | enter {opened : List Path} {file target : Path} {l : Line} {lines : List Line} {text : Text}
      {r r₁ r₂ r' : Reading} (effect : r.effect s (file :: opened) ⟨file, l⟩ = .enter target text r₁)
      (inner : Reads s (file :: opened) target (Line.ofText text) r₁ r₂)
      (rest : Reads s opened file lines r₂ r') : Reads s opened file (l :: lines) r r'

namespace Reads

variable {s : Setting} {opened : List Path} {file : Path} {lines : List Line} {r r' r'' : Reading}

/-- Lines lead from one state to one other. -/
theorem unique (h : Reads s opened file lines r r') (h' : Reads s opened file lines r r'') :
    r' = r'' := by
  induction h generalizing r'' with
  | done => cases h'; rfl
  | carry effect rest ih =>
    cases h' with
    | carry effect' rest' =>
      rw [effect, Effect.carry.injEq] at effect'
      subst effect'
      exact ih rest'
    | enter effect' inner' rest' => rw [effect] at effect'; cases effect'
  | enter effect inner rest ihInner ihRest =>
    cases h' with
    | carry effect' rest' => rw [effect] at effect'; cases effect'
    | enter effect' inner' rest' =>
      rw [effect, Effect.enter.injEq] at effect'
      obtain ⟨rfl, rfl, rfl⟩ := effect'
      have := ihInner inner'
      subst this
      exact ihRest rest'

/-- Lines are read one part after the other. -/
theorem append_iff {front back : List Line} :
    Reads s opened file (front ++ back) r r' ↔
      ∃ r₁, Reads s opened file front r r₁ ∧ Reads s opened file back r₁ r' := by
  constructor
  · intro h
    induction front generalizing r with
    | nil => exact ⟨r, .done, h⟩
    | cons l front ih =>
      cases h with
      | carry effect rest =>
        obtain ⟨r₁, hfront, hback⟩ := ih rest
        exact ⟨r₁, .carry effect hfront, hback⟩
      | enter effect inner rest =>
        obtain ⟨r₁, hfront, hback⟩ := ih rest
        exact ⟨r₁, .enter effect inner hfront, hback⟩
  · rintro ⟨r₁, hfront, hback⟩
    induction hfront with
    | done => exact hback
    | carry effect _ ih => exact .carry effect (ih hback)
    | enter effect inner _ _ ihRest => exact .enter effect inner (ihRest hback)

/-- What every line keeps is kept by a reading. -/
theorem preserves {motive : Reading → Prop}
    (heffect : ∀ (r : Reading) (opened : List Path) (here : Place), motive r →
      motive (r.effect s opened here).reading)
    (h : Reads s opened file lines r r') (hr : motive r) : motive r' := by
  induction h with
  | done => exact hr
  | @carry opened file l lines r r₁ r' effect _ ih =>
    have hnext := heffect r (file :: opened) ⟨file, l⟩ hr
    rw [effect] at hnext
    exact ih hnext
  | @enter opened file target l lines text r r₁ r₂ r' effect _ _ ihInner ihRest =>
    have hnext := heffect r (file :: opened) ⟨file, l⟩ hr
    rw [effect] at hnext
    exact ihRest (ihInner hnext)

/-- The machine reaches the result of a reading, with the innermost file at the lines that come
later and the frames below as they were. -/
theorem exists_iterate_step (h : Reads s opened file lines r r') (later : List Line)
    (below : List Frame) (hbelow : below.map Frame.file = opened) :
    ∃ n, (Machine.step s)^[n] ⟨⟨file, lines ++ later⟩ :: below, r⟩ =
      ⟨⟨file, later⟩ :: below, r'⟩ := by
  induction h generalizing later below with
  | done => exact ⟨0, rfl⟩
  | carry effect _ ih =>
    obtain ⟨n, hn⟩ := ih later below hbelow
    refine ⟨n + 1, ?_⟩
    rw [List.cons_append, Function.iterate_succ_apply, Machine.step_line, hbelow, effect]
    exact hn
  | @enter opened file target l lines text r r₁ r₂ r' effect _ _ ihInner ihRest =>
    obtain ⟨n, hn⟩ := ihInner [] (⟨file, lines ++ later⟩ :: below) (by simp [hbelow])
    obtain ⟨k, hk⟩ := ihRest later below hbelow
    rw [List.append_nil] at hn
    have henter : (Machine.step s)^[n + 2] ⟨⟨file, l :: lines ++ later⟩ :: below, r⟩ =
        ⟨⟨file, lines ++ later⟩ :: below, r₂⟩ := by
      rw [List.cons_append, Function.iterate_succ_apply', Function.iterate_succ_apply,
        Machine.step_line, hbelow, effect, Machine.after, hn, Machine.step_close]
    refine ⟨k + (n + 2), ?_⟩
    rw [Function.iterate_add_apply, henter, hk]

end Reads

namespace Machine

/-- One round of the bounded loop: a step, and the whole file if the step has opened one. -/
def advance (s : Setting) (depth : Nat) (m : Machine) : Machine :=
  let next := step s m
  if m.frames.length < next.frames.length then close s depth next else next

/-- A file is closed by one round for each of its lines and a step at its end. -/
theorem close_cons (s : Setting) (depth : Nat) (frame : Frame) (below : List Frame) (r : Reading) :
    close s (depth + 1) ⟨frame :: below, r⟩ =
      step s (frame.lines.foldl (fun m _ => advance s depth m) ⟨frame :: below, r⟩) :=
  rfl

/-- The bounded loop finds the derivation of a reading and its result, provided that the bound lets
every file that can be opened be read. -/
theorem exists_reads_close (s : Setting) (depth : Nat) :
    ∀ (file : Path) (lines : List Line) (below : List Frame) (r : Reading),
      s.sources.Nests (file :: below.map Frame.file) →
      s.sources.capacity < below.length + depth →
      ∃ r', Reads s (below.map Frame.file) file lines r r' ∧
        close s depth ⟨⟨file, lines⟩ :: below, r⟩ = ⟨below, r'⟩ := by
  induction depth with
  | zero =>
    intro file lines below r hnests hdepth
    have hlength := hnests.length_le s.sources.atMost_capacity
    simp only [List.length_cons, List.length_map] at hlength
    omega
  | succ depth ih =>
    intro file lines below r hnests hdepth
    -- the fold goes once for each line, and each round takes one line off the frame
    have hfold : ∀ r, ∃ r', Reads s (below.map Frame.file) file lines r r' ∧
        lines.foldl (fun m _ => advance s depth m) ⟨⟨file, lines⟩ :: below, r⟩ =
          ⟨⟨file, []⟩ :: below, r'⟩ := by
      induction lines with
      | nil => exact fun r => ⟨r, .done, rfl⟩
      | cons l lines ihLines =>
        intro r
        rw [List.foldl_cons]
        cases heffect : r.effect s (file :: below.map Frame.file) ⟨file, l⟩ with
        | carry r₁ =>
          obtain ⟨r', hreads, hrest⟩ := ihLines r₁
          have hround : advance s depth ⟨⟨file, l :: lines⟩ :: below, r⟩ =
              ⟨⟨file, lines⟩ :: below, r₁⟩ := by
            simp [advance, step_line, heffect, after]
          exact ⟨r', .carry heffect hreads, hround ▸ hrest⟩
        | enter target text r₁ =>
          obtain ⟨_, _, _, _, hdiff, hread, _⟩ := effect_eq_enter heffect
          obtain ⟨r₂, hinner, hclose⟩ := ih target (Line.ofText text) (⟨file, lines⟩ :: below) r₁
            (hnests.cons hread hdiff) (by simp only [List.length_cons]; omega)
          obtain ⟨r', hreads, hrest⟩ := ihLines r₂
          have hround : advance s depth ⟨⟨file, l :: lines⟩ :: below, r⟩ =
              ⟨⟨file, lines⟩ :: below, r₂⟩ := by
            simp [advance, step_line, heffect, after, hclose]
          exact ⟨r', .enter heffect hinner hreads, hround ▸ hrest⟩
    obtain ⟨r', hreads, hrest⟩ := hfold r
    exact ⟨r', hreads, by rw [close_cons, hrest, step_close]⟩

/-- What is carried when a platform file with a given text has been read to its end. -/
def readingOf (s : Setting) (file : Path) (text : Text) : Reading :=
  ((start s file text).close s (s.sources.capacity + 1)).reading

/-- The machine reads the lines of the platform file to their end. -/
theorem reads_readingOf (s : Setting) (file : Path) (text : Text) :
    Reads s [] file (Line.ofText text) (.start file s.root) (readingOf s file text) := by
  obtain ⟨r', hreads, hclose⟩ := exists_reads_close s (s.sources.capacity + 1) file
    (Line.ofText text) [] (.start file s.root) (.singleton s.sources file) (by simp)
  have hr : readingOf s file text = r' := by
    unfold readingOf start
    rw [hclose]
  exact hr ▸ hreads

/-- A derivation finds what is carried when a platform file has been read. -/
theorem readingOf_eq {s : Setting} {file : Path} {text : Text} {r : Reading}
    (h : Reads s [] file (Line.ofText text) (.start file s.root) r) : readingOf s file text = r :=
  (reads_readingOf s file text).unique h

/-- The document of a platform file is that of the reading, once it is finished. -/
theorem ofText_eq_finish (s : Setting) (file : Path) (text : Text) :
    Document.ofText s file text = (readingOf s file text).finish.document :=
  rfl

/-- A run from the start comes to its end with what is carried when the file has been read. -/
theorem exists_iterate_step_start (s : Setting) (file : Path) (text : Text) :
    ∃ n, (step s)^[n] (start s file text) = ⟨[], readingOf s file text⟩ := by
  obtain ⟨n, hn⟩ := (reads_readingOf s file text).exists_iterate_step [] [] rfl
  rw [List.append_nil] at hn
  refine ⟨n + 1, ?_⟩
  unfold start
  rw [Function.iterate_succ_apply', hn, step_close]

/-- Every line of a platform file is visited at some step. -/
theorem exists_iterate_step_line (s : Setting) (file : Path) {text : Text} {l : Line}
    (h : l ∈ Line.ofText text) :
    ∃ n later r, (step s)^[n] (start s file text) = ⟨[⟨file, l :: later⟩], r⟩ := by
  obtain ⟨front, later, hlines⟩ := List.append_of_mem h
  have hreads := reads_readingOf s file text
  rw [hlines] at hreads
  obtain ⟨r, hfront, _⟩ := Reads.append_iff.1 hreads
  obtain ⟨n, hn⟩ := hfront.exists_iterate_step (l :: later) [] rfl
  exact ⟨n, later, r, by rw [start, hlines, hn]⟩

/-- Reading always ends, whatever the includes, macros and conditions do: the steps from the start
reach the empty stack, with what the document is made of. At every step the open files are different
places, and the stack holds at most one frame more than there are readable places. -/
theorem iterate_step_start (s : Setting) (file : Path) (text : Text) :
    (∃ n, ((step s)^[n] (start s file text)).frames = [] ∧
      Document.ofText s file text =
        ((step s)^[n] (start s file text)).reading.finish.document) ∧
    ∀ n, ((step s)^[n] (start s file text)).openFiles.Pairwise (fun p q => ¬ p.Same q) ∧
      ∀ bound, s.sources.AtMost bound →
        ((step s)^[n] (start s file text)).frames.length ≤ bound + 1 := by
  refine ⟨?_, fun n => ⟨(nests_iterate_step s file text n).different, fun bound hbound => ?_⟩⟩
  · obtain ⟨n, hn⟩ := exists_iterate_step_start s file text
    exact ⟨n, by rw [hn], by rw [hn, ofText_eq_finish]⟩
  · have hlength := (nests_iterate_step s file text n).length_le hbound
    rwa [openFiles, List.length_map] at hlength

/-- A workspace with one file, which defines another spelling of its own path and includes it. -/
def selfInclude : Setting :=
  ⟨(FileSet.empty.write ⟨"/ws/x.inc"⟩ "DEFINE X = ./x.inc\n!include $(X)\n").sources, none⟩

/-- A file that includes itself by another spelling of its path is not opened again. -/
theorem length_frames_selfInclude :
    selfInclude.sources.AtMost 1 ∧
      ((step selfInclude)^[4] (start selfInclude ⟨"/ws/p.dsc"⟩ "!include x.inc\n")).frames.length ≤
        2 := by
  have hbound : selfInclude.sources.AtMost 1 := selfInclude.sources.atMost_capacity
  exact ⟨hbound, ((iterate_step_start selfInclude ⟨"/ws/p.dsc"⟩ "!include x.inc\n").2 4).2 1 hbound⟩

end Machine

end FirmwareIndex
