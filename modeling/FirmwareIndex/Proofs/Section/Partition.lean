import FirmwareIndex.Proofs.Section.Runs
import Mathlib.Data.List.Pairwise

/-!
# Logical lines partition a text

The physical lines of a text can be grouped in just one way into runs in which every line but the
last one ends in a backslash, and in which no run goes on in the next one (`Line.grouped_iff`). A run
begins where the runs before it end (`Line.pairwise_numbered`). The logical lines of the text are the
entries of its runs, and a run that is blank has none. So they stand in the order of the file and
share no physical line (`Line.partitions_ofText`).
-/

set_option autoImplicit false

namespace FirmwareIndex.Line

/-- The physical lines are grouped into maximal runs of continued lines. -/
structure Grouped (lines : List Text) (list : List (List Text)) : Prop where
  /-- The runs are made of all the lines, in their order. -/
  flatten : list.flatten = lines
  ne_nil : ∀ run ∈ list, run ≠ []
  continued : ∀ run ∈ list, ∀ line ∈ run.dropLast, line.getLast? = some '\\'
  /-- Only the last run may end in a backslash. -/
  ended : ∀ run ∈ list.dropLast, ∀ line ∈ run.getLast?, line.getLast? ≠ some '\\'

/-- The runs, each with the number of physical lines in the runs before it. -/
def numbered (list : List (List Text)) : List (Nat × List Text) :=
  list.mapIdx fun i run => ((list.take i).flatten.length, run)

/-- The entry of a run that begins at the physical line `n`, unless its text is blank. -/
def ofRun? (n : Nat) (run : List Text) : Option Line :=
  if normalize (joined run) = [] then none
  else some ⟨n, normalize (joined run), run.headD []⟩

/-- The physical line `k` stands in the run that a logical line is made of. -/
def Covers (list : List (List Text)) (l : Line) (k : Nat) : Prop :=
  ∃ run, (l.number, run) ∈ numbered list ∧ l.number ≤ k ∧ k < l.number + run.length

/-- The logical lines of a text are the entries of some runs. -/
structure Partitions (t : Text) (list : List (List Text)) : Prop where
  /-- The physical lines can be grouped into these runs, and into no others. -/
  grouped : ∀ other, Grouped (physical t) other ↔ other = list
  entries : ofText t = (numbered list).filterMap fun place => ofRun? place.1 place.2
  /-- A logical line points to a physical line of the text, and has it as it stands there. -/
  raw : ∀ l ∈ ofText t, (physical t)[l.number]? = some l.raw
  increasing : (ofText t).Pairwise fun l m => l.number < m.number
  /-- No physical line stands in the runs of two logical lines. -/
  disjoint : ∀ l ∈ ofText t, ∀ m ∈ ofText t, ∀ k, Covers list l k → Covers list m k → l = m

/-- A line goes on if it ends in a backslash. -/
theorem goesOn_iff {line : Text} : goesOn line = true ↔ line.getLast? = some '\\' := by
  unfold goesOn stripLast?
  split <;> simp_all

/-- A line ends its run if it does not end in a backslash. -/
theorem goesOn_eq_false_iff {line : Text} : goesOn line = false ↔ line.getLast? ≠ some '\\' := by
  rw [Ne, ← goesOn_iff, Bool.not_eq_true]

section Grouping

variable {lines run : List Text} {list : List (List Text)}

namespace Grouped

/-- The runs after the first one group the lines that are left. -/
theorem tail (h : Grouped lines (run :: list)) : Grouped list.flatten list where
  flatten := rfl
  ne_nil other hother := h.ne_nil other (List.mem_cons_of_mem _ hother)
  continued other hother := h.continued other (List.mem_cons_of_mem _ hother)
  ended other hother := by
    refine h.ended other ?_
    rw [List.dropLast_cons_of_ne_nil fun hnil => by simp [hnil] at hother]
    exact List.mem_cons_of_mem _ hother

/-- Lines can be grouped in one way only: a run ends where a line does not go on. -/
theorem eq_runs (h : Grouped lines list) : list = runs lines := by
  induction list generalizing lines with
  | nil =>
    obtain rfl := h.flatten
    rfl
  | cons run list ih =>
    obtain rfl := h.flatten
    obtain ⟨front, last, rfl⟩ : ∃ front last, run = front ++ [last] :=
      ⟨_, _, (List.dropLast_concat_getLast (h.ne_nil run List.mem_cons_self)).symm⟩
    have hfront : ∀ line ∈ front, goesOn line = true := fun line hline =>
      goesOn_iff.2 (h.continued _ List.mem_cons_self line (by simpa using hline))
    cases hlast : goesOn last with
    | false =>
      have hended : Ended goesOn (front ++ [last]) := ⟨front, last, rfl, hfront, hlast⟩
      rw [List.flatten_cons, runs, hended.runsBy_append, ← runs, ← ih h.tail]
    | true =>
      -- the run goes on, so it is the last one
      have hrest : list = [] := by
        by_contra hne
        refine h.ended (front ++ [last]) ?_ last (by simp) (goesOn_iff.1 hlast)
        rw [List.dropLast_cons_of_ne_nil hne]
        exact List.mem_cons_self
      have hall : ∀ line ∈ front ++ [last], goesOn line = true := by
        simpa [or_imp, forall_and, hlast] using hfront
      rw [hrest, List.flatten_singleton, runs, runsBy_of_forall (by simp) hall]

end Grouped

/-- Lines that all go on are one run. -/
theorem Grouped.singleton (hne : lines ≠ []) (h : ∀ line ∈ lines, goesOn line = true) :
    Grouped lines [lines] where
  flatten := by simp
  ne_nil := by simpa using hne
  continued := by
    simp only [List.mem_singleton, forall_eq]
    exact fun line hline => goesOn_iff.1 (h line (List.dropLast_subset lines hline))
  ended := by simp

/-- A run that has come to its end is put before the runs of other lines. -/
theorem Grouped.cons {rest : List Text} (hrun : Ended goesOn run) (h : Grouped rest list) :
    Grouped (run ++ rest) (run :: list) := by
  obtain ⟨front, last, rfl, hfront, hlast⟩ := hrun
  refine ⟨by rw [List.flatten_cons, h.flatten], ?_, ?_, ?_⟩
  · exact List.forall_mem_cons.2 ⟨by simp, h.ne_nil⟩
  · refine List.forall_mem_cons.2 ⟨?_, h.continued⟩
    rw [List.dropLast_concat]
    exact fun line hline => goesOn_iff.1 (hfront line hline)
  · intro other hother
    by_cases hnil : list = []
    · simp [hnil] at hother
    · rw [List.dropLast_cons_of_ne_nil hnil] at hother
      rcases List.mem_cons.1 hother with rfl | hother
      · simpa using goesOn_eq_false_iff.1 hlast
      · exact h.ended other hother

/-- The runs of lines are a way to group them. -/
theorem grouped_runs (lines : List Text) : Grouped lines (runs lines) := by
  induction lines using runs_induction goesOn with
  | nil => exact ⟨rfl, by simp [runs, runsBy], by simp [runs, runsBy], by simp [runs, runsBy]⟩
  | opened lines hne hall =>
    rw [runs, runsBy_of_forall hne hall]
    exact .singleton hne hall
  | ended run rest hended ih =>
    rw [runs, hended.runsBy_append]
    exact .cons hended ih

/-- There is one way to group lines. -/
theorem grouped_iff : Grouped lines list ↔ list = runs lines :=
  ⟨Grouped.eq_runs, fun h => h ▸ grouped_runs lines⟩

end Grouping

section Numbered

variable {list : List (List Text)}

/-- The runs after the first one are numbered from its end. -/
theorem numbered_cons (run : List Text) (list : List (List Text)) :
    numbered (run :: list) =
      (0, run) :: (numbered list).map fun place => (run.length + place.1, place.2) := by
  rw [numbered, List.mapIdx_cons]
  refine congrArg₂ List.cons rfl (List.mapIdx_eq_iff.2 fun i => ?_)
  simp [numbered, Function.comp_def]

/-- A run has as its number that of the lines in the runs before it. -/
theorem exists_of_mem_numbered {place : Nat × List Text} (h : place ∈ numbered list) :
    ∃ before after, list = before ++ place.2 :: after ∧ place.1 = before.flatten.length := by
  obtain ⟨i, hi, rfl⟩ := List.mem_mapIdx.1 h
  exact ⟨list.take i, list.drop (i + 1), by simp, rfl⟩

/-- The physical line that a run begins with is the one that its number counts to. -/
theorem getElem?_of_mem_numbered {place : Nat × List Text} (h : place ∈ numbered list)
    (hne : place.2 ≠ []) : list.flatten[place.1]? = some (place.2.headD []) := by
  obtain ⟨before, after, hlist, hnumber⟩ := exists_of_mem_numbered h
  obtain ⟨first, rest, hfirst⟩ := List.exists_cons_of_ne_nil hne
  have hlines : list.flatten = before.flatten ++ first :: (rest ++ after.flatten) := by
    rw [hlist, hfirst]
    simp
  rw [hlines, hnumber, hfirst]
  simp

/-- A run ends before the next ones begin. -/
theorem pairwise_numbered (list : List (List Text)) :
    (numbered list).Pairwise fun p q => p.1 + p.2.length ≤ q.1 := by
  induction list with
  | nil => exact List.Pairwise.nil
  | cons run list ih =>
    rw [numbered_cons, List.pairwise_cons, List.pairwise_map]
    refine ⟨?_, ih.imp fun h => by dsimp only; omega⟩
    intro q hq
    obtain ⟨place, _, rfl⟩ := List.mem_map.1 hq
    dsimp only
    omega

/-- Closing the joined line of a run gives the entry of the run. -/
theorem close_eq_toList_ofRun? (n : Nat) (run : List Text) :
    (⟨n, joined run, run.headD []⟩ : Open).close = (ofRun? n run).toList := by
  unfold Open.close ofRun?
  split <;> rfl

/-- The logical lines of runs are their entries. -/
theorem ofRuns_eq (list : List (List Text)) (n : Nat) :
    ofRuns n list = (numbered list).filterMap fun place => ofRun? (n + place.1) place.2 := by
  induction list generalizing n with
  | nil => rfl
  | cons run list ih =>
    rw [ofRuns, ih, numbered_cons, List.filterMap_cons, List.filterMap_map, close_eq_toList_ofRun?]
    have hnumber : ∀ place : Nat × List Text, n + run.length + place.1 = n + (run.length + place.1) :=
      fun _ => Nat.add_assoc _ _ _
    simp only [hnumber, Function.comp_def, Nat.add_zero]
    cases ofRun? n run <;> rfl

end Numbered

/-- Different members of a list are related one way or the other. -/
theorem rel_or_rel {α : Type} {R : α → α → Prop} {list : List α} (h : list.Pairwise R) {a b : α}
    (ha : a ∈ list) (hb : b ∈ list) (hne : a ≠ b) : R a b ∨ R b a := by
  have hsymm : Std.Symm fun a b => R a b ∨ R b a := ⟨fun _ _ => Or.symm⟩
  have heither : list.Pairwise fun a b => R a b ∨ R b a := h.imp Or.inl
  exact heither.forall ha hb hne

/-- The entry of a run has the number and the text of its first physical line. -/
theorem ofRun?_eq_some {n : Nat} {run : List Text} {l : Line} (h : ofRun? n run = some l) :
    l.number = n ∧ l.raw = run.headD [] := by
  unfold ofRun? at h
  split at h
  · cases h
  · obtain rfl := Option.some.inj h
    exact ⟨rfl, rfl⟩

/-- The logical lines of a text are the entries of the runs of its physical lines, in their order.
They begin at different physical lines, and no physical line belongs to two of them. -/
theorem partitions_ofText (t : Text) : Partitions t (runs (physical t)) := by
  have hgrouped := grouped_runs (physical t)
  have hentries : ofText t = (numbered (runs (physical t))).filterMap fun place =>
      ofRun? place.1 place.2 := by
    rw [ofText, gather_eq_ofRuns, ofRuns_eq]
    simp only [Nat.zero_add]
  have hnumbered := pairwise_numbered (runs (physical t))
  have hne : ∀ place ∈ numbered (runs (physical t)), place.2 ≠ [] := by
    intro place hplace
    obtain ⟨before, after, hlist, _⟩ := exists_of_mem_numbered hplace
    exact hgrouped.ne_nil _ (by rw [hlist]; simp)
  have hincreasing : (ofText t).Pairwise fun l m => l.number < m.number := by
    rw [hentries, List.pairwise_filterMap]
    refine hnumbered.imp_of_mem fun hp _ hle l hl m hm => ?_
    rw [(ofRun?_eq_some hl).1, (ofRun?_eq_some hm).1]
    have hpos := List.length_pos_iff.2 (hne _ hp)
    omega
  refine ⟨fun other => grouped_iff, hentries, ?_, hincreasing, ?_⟩
  · intro l hl
    rw [hentries] at hl
    obtain ⟨place, hplace, hentry⟩ := List.mem_filterMap.1 hl
    obtain ⟨hnumber, hraw⟩ := ofRun?_eq_some hentry
    rw [hnumber, hraw, ← getElem?_of_mem_numbered hplace (hne place hplace), hgrouped.flatten]
  · rintro l hl m hm k ⟨run, hrun, hlower, hupper⟩ ⟨run', hrun', hlower', hupper'⟩
    by_contra hne
    have hnumbers := rel_or_rel hincreasing hl hm hne
    have hplaces := rel_or_rel hnumbered hrun hrun' fun heq => by
      have := congrArg Prod.fst heq
      omega
    dsimp only at hplaces
    omega

end FirmwareIndex.Line
