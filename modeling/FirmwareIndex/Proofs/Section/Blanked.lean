import FirmwareIndex.Proofs.Section.Runs
import FirmwareIndex.Proofs.Text.Pieces

/-!
# Blanked lines

Some of the logical lines of a text can be blanked: an empty line takes the place of each of their
physical lines. Then the logical lines of the text are those that were not blanked, in their places
(`Line.ofText_blanked`).
-/

set_option autoImplicit false

namespace FirmwareIndex.Line

/-- The pieces of a text between its line feeds, in runs that make one logical line each. -/
def pieceRuns (t : Text) : List (List Text) :=
  runsBy (fun piece => goesOn (chomp piece)) (t.splitOn '\n')

/-- The text of the logical line that a run of pieces makes. -/
def runText (run : List Text) : Text :=
  normalize (joined (run.map chomp))

/-- An empty line in the place of a piece: a carriage return at its end is a part of the line
break, and stays. -/
def emptied (piece : Text) : Text :=
  if piece.getLast? = some '\r' then ['\r'] else []

/-- The text with empty lines for all physical lines of those logical lines that `p` picks by their
texts. -/
def blanked (p : Text → Bool) (t : Text) : Text :=
  ['\n'].intercalate
    ((pieceRuns t).flatMap fun run => if p (runText run) then run.map emptied else run)

/-- The runs of pieces are the runs of physical lines with their carriage returns. -/
theorem runs_physical (t : Text) : runs (physical t) = (pieceRuns t).map (List.map chomp) := by
  rw [physical_eq_map_chomp, runs, runsBy_map]
  rfl

/-- An emptied piece is an empty physical line. -/
@[simp]
theorem chomp_emptied (piece : Text) : chomp (emptied piece) = [] := by
  unfold emptied
  split <;> rfl

/-- An emptied piece has no line feed in it. -/
theorem not_mem_emptied (piece : Text) : '\n' ∉ emptied piece := by
  unfold emptied
  split <;> decide

/-- The physical lines of runs, with empty lines for the runs that `p` picks. -/
def blankedRuns (p : Text → Bool) (list : List (List Text)) : List Text :=
  list.flatMap fun run => if p (normalize (joined run)) then run.map fun _ => [] else run

/-- The physical lines of a blanked text. -/
theorem physical_blanked (p : Text → Bool) (t : Text) :
    physical (blanked p t) = blankedRuns p (runs (physical t)) := by
  have hflatten : (pieceRuns t).flatten = t.splitOn '\n' := flatten_runsBy _
  have hfeed : ∀ piece ∈ (pieceRuns t).flatMap
      (fun run => if p (runText run) then run.map emptied else run), '\n' ∉ piece := by
    intro piece hpiece
    obtain ⟨run, hrun, hpiece⟩ := List.mem_flatMap.1 hpiece
    split at hpiece
    · obtain ⟨old, _, rfl⟩ := List.mem_map.1 hpiece
      exact not_mem_emptied old
    · have hmem : piece ∈ t.splitOn '\n' := hflatten ▸ List.mem_flatten_of_mem hrun hpiece
      exact (Text.mem_splitOn hmem).1
  have hne : (pieceRuns t).flatMap
      (fun run => if p (runText run) then run.map emptied else run) ≠ [] := by
    intro hnil
    refine List.splitOn_ne_nil '\n' t (hflatten ▸ List.flatten_eq_nil_iff.2 fun run hrun => ?_)
    have hempty := List.flatMap_eq_nil_iff.1 hnil run hrun
    split at hempty
    · exact List.map_eq_nil_iff.1 hempty
    · exact hempty
  rw [physical_eq_map_chomp, blanked, List.splitOn_intercalate '\n' hfeed hne, runs_physical,
    blankedRuns, List.map_flatMap, List.flatMap_map]
  congr 1
  funext run
  by_cases hp : p (runText run)
  · have hpicked : p (normalize (joined (run.map chomp))) := hp
    simp [hp, hpicked]
  · have hpicked : ¬ p (normalize (joined (run.map chomp))) := hp
    rw [if_neg hp, if_neg hpicked]

/-- Empty lines make no logical lines. -/
theorem ofRuns_empty_append (run rest : List Text) (n : Nat) :
    ofRuns n (runs (run.map (fun _ => []) ++ rest)) = ofRuns (n + run.length) (runs rest) := by
  induction run generalizing n with
  | nil => rfl
  | cons line run ih =>
    have hruns : runs ((line :: run).map (fun _ => []) ++ rest) =
        [[]] :: runs (run.map (fun _ => []) ++ rest) := rfl
    have hclose : (⟨n, joined [[]], []⟩ : Open).close = [] := rfl
    rw [hruns, ofRuns, List.headD_cons, hclose, List.nil_append, List.length_singleton, ih,
      List.length_cons, Nat.add_assoc, Nat.add_comm 1]

/-- Without the runs that were picked, the other logical lines stay on their physical lines. -/
theorem ofRuns_blankedRuns (p : Text → Bool) (lines : List Text) (n : Nat) :
    ofRuns n (runs (blankedRuns p (runs lines))) =
      (ofRuns n (runs lines)).filter fun l => !p l.text := by
  -- the line of a run is left out if it is picked, and stays otherwise
  have hclose : ∀ (n : Nat) (run : List Text) (raw : Text),
      (⟨n, joined run, raw⟩ : Open).close.filter (fun l => !p l.text) =
        if p (normalize (joined run)) then [] else (⟨n, joined run, raw⟩ : Open).close := by
    intro n run raw
    unfold Open.close
    by_cases hp : p (normalize (joined run)) <;>
      by_cases hblank : normalize (joined run) = [] <;> simp [hp, hblank]
  induction lines using runs_induction goesOn generalizing n with
  | nil => rfl
  | opened items hne hgoes =>
    have hruns : runs items = [items] := runsBy_of_forall hne hgoes
    rw [hruns, ofRuns, ofRuns, List.append_nil, hclose]
    by_cases hp : p (normalize (joined items))
    · have hblanked : blankedRuns p [items] = items.map (fun _ => []) ++ [] := by
        simp [blankedRuns, hp]
      rw [hblanked, ofRuns_empty_append, if_pos hp]
      rfl
    · simp [blankedRuns, hp, hruns, ofRuns]
  | ended run rest hended ih =>
    have hruns : ∀ rest, runs (run ++ rest) = run :: runs rest := hended.runsBy_append
    have hblanked : blankedRuns p (run :: runs rest) =
        (if p (normalize (joined run)) then run.map fun _ => [] else run) ++
          blankedRuns p (runs rest) := rfl
    rw [hruns, hblanked, ofRuns, List.filter_append, hclose, ← ih]
    by_cases hp : p (normalize (joined run))
    · rw [if_pos hp, if_pos hp, ofRuns_empty_append, List.nil_append]
    · rw [if_neg hp, if_neg hp, hruns, ofRuns]

/-- The logical lines of a blanked text are those that were not blanked. -/
theorem ofText_blanked (p : Text → Bool) (t : Text) :
    ofText (blanked p t) = (ofText t).filter fun l => !p l.text := by
  rw [ofText, physical_blanked, gather_eq_ofRuns, ofText, gather_eq_ofRuns]
  exact ofRuns_blankedRuns p (physical t) 0

end FirmwareIndex.Line
