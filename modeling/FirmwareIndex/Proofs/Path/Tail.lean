import FirmwareIndex.Path.Reference
import FirmwareIndex.Proofs.Path.Spelling
import FirmwareIndex.Proofs.Text.Pieces
import Mathlib.Data.List.DropRight

/-!
# The end of a path

The end of a path is a text, its last pieces between slashes, while a path is known by its
components. Two ends are the same text only if they are made of the same pieces
(`Path.tail_eq_tail_iff`). A path without `.` pieces and backslashes has its components as its
pieces, the root apart (`Path.Undotted.pieces_normalized`), so paths that are the same place have the
same end (`Path.Undotted.tail_eq_of_same`).
-/

set_option autoImplicit false

namespace FirmwareIndex

namespace Text

/-- The pieces of a text between its slashes, without the empty ones. -/
def pieces (t : Text) : List Text :=
  (t.splitOn '/').filter (· ≠ [])

/-- A piece is not empty and has no slash in it. -/
theorem ne_nil_of_mem_pieces {t piece : Text} (h : piece ∈ t.pieces) :
    piece ≠ [] ∧ '/' ∉ piece := by
  obtain ⟨hpiece, hne⟩ := List.mem_filter.1 h
  exact ⟨of_decide_eq_true hne, (mem_splitOn hpiece).1⟩

/-- Pieces that are joined by slashes are read back. -/
theorem pieces_intercalate {list : List Text} (h : ∀ piece ∈ list, piece ≠ [] ∧ '/' ∉ piece) :
    Text.pieces (['/'].intercalate list) = list := by
  by_cases hnil : list = []
  · subst hnil
    rfl
  · rw [pieces, List.splitOn_intercalate '/' (fun piece hpiece => (h piece hpiece).2) hnil]
    exact List.filter_eq_self.2 fun piece hpiece => decide_eq_true (h piece hpiece).1

end Text

/-- A piece stands for a component that is written as the piece, unless it is empty or a dot. -/
theorem Component.bind_piece?_ofPiece? {piece : Text} (h : piece ≠ ['.']) :
    (ofPiece? piece).bind piece? = if piece = [] then none else some piece := by
  unfold ofPiece?
  split
  · rfl
  · contradiction
  · rfl
  · rename_i hnil _ _
    rw [if_neg hnil]
    rfl

namespace Path

/-- The pieces of the components of a path. -/
def componentPieces (p : Path) : List Text :=
  p.components.filterMap Component.piece?

/-- The path is written without pieces that are a dot, and without backslashes. -/
def Undotted (p : Path) : Prop :=
  ['.'] ∉ p.text.splitOn '/' ∧ '\\' ∉ p.text

instance (p : Path) : Decidable p.Undotted :=
  inferInstanceAs (Decidable (_ ∧ _))

/-- The ends of two paths are the same text just if they have the same pieces. -/
theorem tail_eq_tail_iff (p q : Path) (n : Nat) :
    p.tail n = q.tail n ↔ p.normalized.pieces.rtake n = q.normalized.pieces.rtake n := by
  have hread : ∀ p : Path, Text.pieces (p.tail n) = p.normalized.pieces.rtake n := fun p =>
    Text.pieces_intercalate fun piece hpiece =>
      Text.ne_nil_of_mem_pieces (List.mem_of_mem_drop hpiece)
  constructor
  · intro h
    rw [← hread p, ← hread q, h]
  · exact congrArg ['/'].intercalate

/-- The components that pieces stand for are written as these pieces, without the empty ones. -/
theorem filterMap_piece?_ofPieces {list : List Text} (h : ['.'] ∉ list) :
    (ofPieces list).filterMap Component.piece? = list.filter (· ≠ []) := by
  have hpieces : ∀ list : List Text, ['.'] ∉ list →
      (list.filterMap Component.ofPiece?).filterMap Component.piece? = list.filter (· ≠ []) := by
    intro list hdot
    rw [List.filterMap_filterMap, ← List.filterMap_eq_filter]
    refine List.filterMap_congr fun piece hpiece => ?_
    rw [Component.bind_piece?_ofPiece? fun heq => hdot (heq ▸ hpiece)]
    by_cases hnil : piece = [] <;> simp [Option.guard, hnil]
  match list with
  | [] => rfl
  | [] :: [] => rfl
  | [] :: second :: rest =>
    -- the first component is the root
    exact hpieces (second :: rest) fun hmem => h (List.mem_cons_of_mem _ hmem)
  | (c :: first) :: rest =>
    have hfirst : c :: first ≠ ['.'] := fun heq => h (heq ▸ List.mem_cons_self)
    have hall : ofPieces ((c :: first) :: rest) =
        ((c :: first) :: rest).filterMap Component.ofPiece? := by
      rw [ofPieces, startOf_eq (by simp) hfirst, List.filterMap_cons]
      · cases Component.ofPiece? (c :: first) <;> rfl
      · simp
    rw [hall, hpieces _ h]

namespace Undotted

variable {p q : Path}

/-- Without dots and backslashes, the pieces of the text are those of the components. -/
theorem pieces_normalized (h : p.Undotted) : p.normalized.pieces = p.componentPieces := by
  have htext : p.normalized = p.text := Text.slashed_eq_self h.2
  rw [htext, componentPieces, components_eq_ofPieces, filterMap_piece?_ofPieces h.1, Text.pieces]

/-- Paths that are the same place have the same end. -/
theorem tail_eq_of_same (hp : p.Undotted) (hq : q.Undotted) (h : p.Same q) (n : Nat) :
    p.tail n = q.tail n := by
  have hcomponents : p.components = q.components := h
  rw [tail_eq_tail_iff, hp.pieces_normalized, hq.pieces_normalized, componentPieces,
    componentPieces, hcomponents]

end Undotted

end Path

end FirmwareIndex
