import FirmwareIndex.Section.Line

/-!
# Runs of physical lines

A physical line that ends in a backslash goes on in the next one, so the physical lines of a text
fall into runs. Reading the lines of a text with an open line carried along is the same as reading
them run by run (`Line.gather_eq_ofRuns`): a run has one logical line, unless its text is blank, and
the line stands where the run begins.
-/

set_option autoImplicit false

namespace FirmwareIndex.Line

/-- The runs with an item in front of the first one. -/
def extend {α : Type} (a : α) : List (List α) → List (List α)
  | [] => [[a]]
  | run :: others => (a :: run) :: others

/-- The items in runs, in which every item but the last one goes on. -/
def runsBy {α : Type} (goesOn : α → Bool) : List α → List (List α)
  | [] => []
  | a :: rest => if goesOn a then extend a (runsBy goesOn rest) else [a] :: runsBy goesOn rest

/-- A piece of a text between line feeds, without a carriage return at its end. -/
def chomp (piece : Text) : Text :=
  (stripLast? '\r' piece).getD piece

/-- Whether a physical line goes on in the next one. -/
def goesOn (line : Text) : Bool :=
  (stripLast? '\\' line).isSome

/-- The physical lines in runs. -/
def runs (lines : List Text) : List (List Text) :=
  runsBy goesOn lines

/-- The text of a run: its lines without the backslashes at their ends. -/
def joined (run : List Text) : Text :=
  run.flatMap fun line => (stripLast? '\\' line).getD line

/-- The logical lines of runs, the first of which begins at the physical line `n`. -/
def ofRuns (n : Nat) : List (List Text) → List Line
  | [] => []
  | run :: rest => (⟨n, joined run, run.headD []⟩ : Open).close ++ ofRuns (n + run.length) rest

section RunsBy

variable {α β : Type} {goesOn : α → Bool}

/-- A run that has come to its end: its last item alone does not go on. -/
def Ended (goesOn : α → Bool) (run : List α) : Prop :=
  ∃ front last, run = front ++ [last] ∧ (∀ a ∈ front, goesOn a = true) ∧ goesOn last = false

/-- A run that has come to its end is cut off from what follows it. -/
theorem Ended.runsBy_append {run : List α} (h : Ended goesOn run) (rest : List α) :
    runsBy goesOn (run ++ rest) = run :: runsBy goesOn rest := by
  obtain ⟨front, last, rfl, hfront, hlast⟩ := h
  induction front with
  | nil => simp [runsBy, hlast]
  | cons a front ih =>
    have ha : goesOn a = true := hfront a (by simp)
    rw [List.cons_append, List.cons_append, runsBy, if_pos ha,
      ih fun b hb => hfront b (by simp [hb]), extend]

/-- Items that all go on are one run. -/
theorem runsBy_of_forall {items : List α} (hne : items ≠ []) (h : ∀ a ∈ items, goesOn a = true) :
    runsBy goesOn items = [items] := by
  induction items with
  | nil => contradiction
  | cons a rest ih =>
    rw [runsBy, if_pos (h a (by simp))]
    cases rest with
    | nil => rfl
    | cons b rest => rw [ih (by simp) fun c hc => h c (by simp [hc]), extend]

/-- Items are either taken off run by run, or they are a run that has not come to its end. -/
theorem runs_induction (goesOn : α → Bool) {motive : List α → Prop} (nil : motive [])
    (opened : ∀ items, items ≠ [] → (∀ a ∈ items, goesOn a = true) → motive items)
    (ended : ∀ run rest, Ended goesOn run → motive rest → motive (run ++ rest))
    (items : List α) : motive items := by
  -- the items before the first one that does not go on begin its run
  have hspan : ∀ front items : List α, (∀ a ∈ front, goesOn a = true) →
      motive (front ++ items) := by
    intro front items
    induction items generalizing front with
    | nil =>
      intro hfront
      rw [List.append_nil]
      by_cases hne : front = []
      · exact hne ▸ nil
      · exact opened front hne hfront
    | cons a rest ih =>
      intro hfront
      rw [List.append_cons]
      cases ha : goesOn a with
      | true =>
        refine ih (front ++ [a]) fun b hb => ?_
        rcases List.mem_append.1 hb with hb | hb
        · exact hfront b hb
        · exact List.mem_singleton.1 hb ▸ ha
      | false =>
        exact ended _ rest ⟨front, a, rfl, hfront, ha⟩ (ih [] fun _ hb => (nomatch hb))
  exact hspan [] items fun _ hb => (nomatch hb)

/-- Items that are mapped go on as those they come from. -/
theorem runsBy_map (f : β → α) (items : List β) :
    runsBy goesOn (items.map f) = (runsBy (goesOn ∘ f) items).map (List.map f) := by
  induction items with
  | nil => rfl
  | cons b rest ih =>
    simp only [List.map_cons, runsBy, ih, Function.comp_apply]
    split
    · cases runsBy (goesOn ∘ f) rest <;> rfl
    · rfl

/-- The item in front of the first run is in front of all items. -/
@[simp]
theorem flatten_extend (a : α) (list : List (List α)) :
    (extend a list).flatten = a :: list.flatten := by
  cases list <;> rfl

/-- The runs have all items in their order. -/
@[simp]
theorem flatten_runsBy (items : List α) : (runsBy goesOn items).flatten = items := by
  induction items with
  | nil => rfl
  | cons a rest ih =>
    rw [runsBy]
    split
    · rw [flatten_extend, ih]
    · rw [List.flatten_cons, ih, List.singleton_append]

end RunsBy

/-- The physical lines are the pieces without the carriage returns at their ends. -/
theorem physical_eq_map_chomp (t : Text) : physical t = (t.splitOn '\n').map chomp :=
  rfl

/-- What is left without the last character, if that is `c`. -/
theorem stripLast?_eq_some_iff {c : Char} {t start : Text} :
    stripLast? c t = some start ↔ t = start ++ [c] := by
  unfold stripLast?
  constructor
  · intro h
    split at h
    · rename_i hlast
      obtain ⟨front, rfl⟩ := List.getLast?_eq_some_iff.1 hlast
      rw [List.dropLast_concat, Option.some.injEq] at h
      rw [h]
    · cases h
  · rintro rfl
    simp

/-- Nothing is taken off a text that does not end in `c`. -/
theorem stripLast?_eq_none_iff {c : Char} {t : Text} :
    stripLast? c t = none ↔ t.getLast? ≠ some c := by
  unfold stripLast?
  split <;> simp_all

/-- A line without a backslash at its end is a run. -/
theorem runs_cons_of_eq_none {line : Text} (h : stripLast? '\\' line = none) (rest : List Text) :
    runs (line :: rest) = [line] :: runs rest := by
  simp [runs, runsBy, goesOn, h]

/-- A line with a backslash at its end belongs to the run of the next one. -/
theorem runs_cons_of_eq_some {line start : Text} (h : stripLast? '\\' line = some start)
    (rest : List Text) : runs (line :: rest) = extend line (runs rest) := by
  simp [runs, runsBy, goesOn, h]

/-- The first line of a run is joined without its backslash. -/
@[simp]
theorem joined_cons (line : Text) (run : List Text) :
    joined (line :: run) = (stripLast? '\\' line).getD line ++ joined run :=
  rfl

/-- Reading lines with an open line carried along reads them run by run, and the first run goes on
with the open line. -/
theorem gather_eq (lines : List Text) : ∀ n,
    gather n none lines = ofRuns n (runs lines) ∧
      ∀ o : Open, gather n (some o) lines =
        match runs lines with
        | [] => o.close
        | run :: rest =>
          ({ o with joined := o.joined ++ joined run } : Open).close ++
            ofRuns (n + run.length) rest := by
  induction lines with
  | nil => exact fun n => ⟨rfl, fun o => rfl⟩
  | cons line rest ih =>
    intro n
    obtain ⟨hnone, hsome⟩ := ih (n + 1)
    cases hstrip : stripLast? '\\' line with
    | none =>
      have hruns := runs_cons_of_eq_none hstrip rest
      constructor
      · simp [gather, hstrip, hruns, ofRuns, hnone, joined]
      · intro o
        simp [gather, hstrip, hruns, hnone, joined]
    | some start =>
      rw [runs_cons_of_eq_some hstrip]
      constructor
      · rw [gather, hstrip]
        dsimp only
        rw [hsome]
        cases runs rest with
        | nil => simp [extend, ofRuns, joined, hstrip]
        | cons run others => simp [extend, ofRuns, hstrip, Nat.add_assoc, Nat.add_comm 1]
      · intro o
        rw [gather, hstrip]
        dsimp only
        rw [hsome]
        cases runs rest with
        | nil => simp [extend, ofRuns, joined, hstrip]
        | cons run others => simp [extend, hstrip, Nat.add_assoc, Nat.add_comm 1]

/-- The logical lines are the entries of the runs of physical lines. -/
theorem gather_eq_ofRuns (n : Nat) (lines : List Text) :
    gather n none lines = ofRuns n (runs lines) :=
  (gather_eq lines n).1

/-- The texts of logical lines are those of the runs, without the blank ones. -/
theorem map_text_ofRuns (list : List (List Text)) (n : Nat) :
    (ofRuns n list).map Line.text =
      (list.map fun run => normalize (joined run)).filter (· ≠ []) := by
  induction list generalizing n with
  | nil => rfl
  | cons run rest ih =>
    rw [ofRuns, List.map_append, ih, List.map_cons, List.filter_cons, Open.close]
    by_cases hblank : normalize (joined run) = []
    · simp [hblank]
    · simp [hblank]

end FirmwareIndex.Line
