import FirmwareIndex.Proofs.Platform.Derivation

/-!
# What a platform description asks for

Apart from the platform file itself, reading a platform description asks for nothing but the
candidates of its includes: the paths that their targets may mean where they stand. So its document
depends on the files through that file and these paths alone (`Document.ofFile_congr`).
-/

set_option autoImplicit false

namespace FirmwareIndex

/-- Two sources give the same answers about a path. -/
structure Sources.Alike (s s' : Sources) (q : Path) : Prop where
  present : s'.present q = s.present q
  read : s'.read q = s.read q

/-- A path may be meant by the target of an include, as it is expanded where the include stands. -/
def Reading.Asks (s : Setting) (r : Reading) (here : Place) (q : Path) : Prop :=
  ∃ target, LineKind.ofText here.line.text = .inclusion target ∧ target ≠ [] ∧
    q ∈ (Machine.candidates s.root r.macros here.file target).1 ::
      (Machine.candidates s.root r.macros here.file target).2

/-- A path may be meant by the include on the next line of the innermost file. -/
def Machine.Asks (s : Setting) (m : Machine) (q : Path) : Prop :=
  ∃ file l lines rest, m.frames = ⟨file, l :: lines⟩ :: rest ∧ m.reading.Asks s ⟨file, l⟩ q

/-- A path may be meant by an include that is reached when a platform file is read. -/
def Document.Candidate (s : Setting) (file q : Path) : Prop :=
  ∃ text, s.sources.read file = .ok text ∧
    ∃ n, ((Machine.step s)^[n] (.start s file text)).Asks s q

variable {s s' : Setting} {m : Machine} {file : Path}

/-- A target means the same file if the answers about its candidates are the same. -/
theorem Machine.resolve_congr (hroot : s'.root = s.root) (macros : Macros) (including : Path)
    {target : Text}
    (h : ∀ q ∈ (candidates s.root macros including target).1 ::
      (candidates s.root macros including target).2, s.sources.Alike s'.sources q) :
    resolve s' macros including target = resolve s macros including target ∧
      s.sources.Alike s'.sources (resolve s macros including target) := by
  unfold resolve
  rw [hroot]
  generalize candidates s.root macros including target = asked at h
  obtain ⟨first, others⟩ := asked
  have hfind : ∀ paths : List Path, (∀ q ∈ paths, s.sources.Alike s'.sources q) →
      paths.find? s'.sources.present = paths.find? s.sources.present := by
    intro paths hpaths
    induction paths with
    | nil => rfl
    | cons q rest ih =>
      rw [List.find?_cons, List.find?_cons, (hpaths q (by simp)).present,
        ih fun p hp => hpaths p (by simp [hp])]
  dsimp only at h ⊢
  refine ⟨by rw [hfind _ h], ?_⟩
  cases hfound : (first :: others).find? s.sources.present with
  | none => exact h first (by simp)
  | some q => exact h q (List.mem_of_find?_eq_some hfound)

/-- A line has the same effect if the answers about the paths that it asks for are the same. -/
theorem Reading.effect_congr (hroot : s'.root = s.root) {r : Reading} {here : Place}
    (h : ∀ q, r.Asks s here q → s.sources.Alike s'.sources q) (opened : List Path) :
    r.effect s' opened here = r.effect s opened here := by
  unfold Reading.effect
  cases hkind : LineKind.ofText here.line.text with
  | inclusion target =>
    simp only [Reading.inclusion]
    split
    · rfl
    · rename_i htarget
      obtain ⟨hsame, halike⟩ := Machine.resolve_congr hroot r.macros here.file
        fun q hq => h q ⟨target, hkind, htarget, hq⟩
      rw [hsame, halike.read]
  | header | definition | openCondition | branch | closeCondition | ignored | content => rfl

namespace Machine

/-- A step depends on the root and on the sources at the paths that the next line may mean. -/
theorem step_congr (hroot : s'.root = s.root)
    (h : ∀ q, m.Asks s q → s.sources.Alike s'.sources q) : step s' m = step s m := by
  obtain ⟨frames, r⟩ := m
  match frames with
  | [] => rfl
  | ⟨file, []⟩ :: rest => rfl
  | ⟨file, l :: lines⟩ :: rest =>
    rw [step_line, step_line,
      Reading.effect_congr hroot fun q hq => h q ⟨file, l, lines, rest, rfl, hq⟩]

/-- Runs that get the same answers take the same steps. -/
theorem iterate_step_congr (hroot : s'.root = s.root)
    (h : ∀ n q, ((step s)^[n] m).Asks s q → s.sources.Alike s'.sources q) (n : Nat) :
    (step s')^[n] m = (step s)^[n] m := by
  induction n with
  | zero => rfl
  | succ n ih =>
    rw [Function.iterate_succ_apply', Function.iterate_succ_apply', ih]
    exact step_congr hroot (h n)

/-- With no file open, a machine has come to rest. -/
theorem iterate_step_halted (s : Setting) (r : Reading) (n : Nat) :
    (step s)^[n] ⟨[], r⟩ = ⟨[], r⟩ := by
  induction n with
  | zero => rfl
  | succ n ih =>
    rw [Function.iterate_succ_apply', ih]
    rfl

/-- What is carried when a file has been read is known by the answers to what was asked. -/
theorem readingOf_congr (hroot : s'.root = s.root) {text : Text}
    (h : ∀ n q, ((step s)^[n] (start s file text)).Asks s q → s.sources.Alike s'.sources q) :
    readingOf s' file text = readingOf s file text := by
  have hstart : start s' file text = start s file text := by
    unfold start
    rw [hroot]
  obtain ⟨n, hn⟩ := exists_iterate_step_start s file text
  obtain ⟨n', hn'⟩ := exists_iterate_step_start s' file text
  rw [hstart, iterate_step_congr hroot h] at hn'
  -- both runs have come to their ends after the steps of both
  have hend : (step s)^[n + n'] (start s file text) = ⟨[], readingOf s' file text⟩ := by
    rw [Function.iterate_add_apply, hn', iterate_step_halted]
  rw [Nat.add_comm, Function.iterate_add_apply, hn, iterate_step_halted] at hend
  exact (congrArg Machine.reading hend).symm

end Machine

/-- The document of a platform file depends on that file and the candidates of its includes
alone. -/
theorem Document.ofFile_congr (hroot : s'.root = s.root)
    (hread : s'.sources.read file = s.sources.read file)
    (h : ∀ q, Document.Candidate s file q → s.sources.Alike s'.sources q) :
    Document.ofFile s' file = Document.ofFile s file := by
  unfold Document.ofFile
  rw [hread]
  cases htext : s.sources.read file with
  | error reason => rfl
  | ok text =>
    dsimp only
    rw [Machine.ofText_eq_finish, Machine.ofText_eq_finish,
      Machine.readingOf_congr hroot fun n q hq => h q ⟨text, htext, n, hq⟩]

/-- A platform file of one line, which includes a file with one candidate that cannot be read. -/
structure Document.LoneInclude (s : Setting) (file q : Path) (reason : ReadError) : Prop where
  exists_line : ∃ text l target, s.sources.read file = .ok text ∧ Line.ofText text = [l] ∧
    LineKind.ofText l.text = .inclusion target ∧ target ≠ [] ∧
    Machine.candidates s.root (Reading.start file s.root).macros file target = (q, [])
  different : ¬ file.Same q
  read : s.sources.read q = .error reason

namespace Document.LoneInclude

variable {q : Path} {reason : ReadError}

/-- The one line of the file leads to a problem with the one candidate. -/
theorem exists_effect (h : LoneInclude s file q reason) :
    ∃ text l target, s.sources.read file = .ok text ∧ Line.ofText text = [l] ∧
      (Reading.start file s.root).effect s [file] ⟨file, l⟩ =
        .carry ((Reading.start file s.root).note ⟨file, l⟩ (.unreadableInclude q reason) target) ∧
      ∀ p, (Reading.start file s.root).Asks s ⟨file, l⟩ p → p = q := by
  obtain ⟨text, l, target, htext, hline, hkind, htarget, hcandidates⟩ := h.exists_line
  have hresolve : Machine.resolve s (Reading.start file s.root).macros file target = q := by
    unfold Machine.resolve
    rw [hcandidates]
    dsimp only
    rw [List.find?_cons]
    cases s.sources.present q <;> rfl
  refine ⟨text, l, target, htext, hline, ?_, ?_⟩
  · unfold Reading.effect
    rw [hkind]
    simp only [Reading.inclusion]
    rw [if_neg htarget, hresolve, if_neg (by simpa using h.different), h.read]
  · rintro p ⟨target', hkind', _, hp⟩
    rw [hkind] at hkind'
    obtain rfl := LineKind.inclusion.inj hkind'
    rw [hcandidates] at hp
    simpa using hp

/-- The one include that cannot be read is the only problem. -/
theorem causes_ofFile (h : LoneInclude s file q reason) :
    (Document.ofFile s file).problems.map Problem.cause = [.unreadableInclude q reason] := by
  obtain ⟨text, l, target, htext, hline, heffect, _⟩ := h.exists_effect
  have hreads : Machine.readingOf s file text =
      (Reading.start file s.root).note ⟨file, l⟩ (.unreadableInclude q reason) target :=
    Machine.readingOf_eq (by rw [hline]; exact .carry heffect .done)
  rw [Document.ofFile, htext]
  dsimp only
  rw [Machine.ofText_eq_finish, hreads]
  simp [Reading.finish, Reading.note, Reading.start, Document.empty]

/-- The included file is the only candidate. -/
theorem eq_of_candidate (h : LoneInclude s file q reason) {p : Path}
    (hp : Document.Candidate s file p) : p = q := by
  obtain ⟨text, l, target, htext, hline, heffect, hasks⟩ := h.exists_effect
  obtain ⟨text', htext', n, hn⟩ := hp
  obtain rfl : text = text' := Except.ok.inj (htext.symm.trans htext')
  unfold Machine.start at hn
  rw [hline] at hn
  match n with
  | 0 =>
    obtain ⟨f, l', lines, rest, hframes, hreading⟩ := hn
    obtain ⟨hframe, _⟩ := List.cons.inj hframes
    obtain ⟨rfl, hlines⟩ := Frame.mk.inj hframe
    obtain ⟨rfl, _⟩ := List.cons.inj hlines
    exact hasks p hreading
  | 1 =>
    rw [Function.iterate_one, Machine.step_line, List.map_nil, heffect] at hn
    obtain ⟨_, _, _, _, hframes, _⟩ := hn
    simp [Machine.after] at hframes
  | n + 2 =>
    rw [Function.iterate_add_apply, Function.iterate_succ_apply, Function.iterate_one,
      Machine.step_line, List.map_nil, heffect, Machine.after, Machine.step_close,
      Machine.iterate_step_halted] at hn
    obtain ⟨_, _, _, _, hframes, _⟩ := hn
    cases hframes

end Document.LoneInclude

end FirmwareIndex
