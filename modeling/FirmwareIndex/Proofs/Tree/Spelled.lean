import FirmwareIndex.Proofs.Path.Canonical
import FirmwareIndex.Proofs.Tree.Links

/-!
# Files by their spellings

A way that does not end in a silent piece leads to the same without its silent pieces, and fails for
the same reason (`Tree.go_filter_eq`). So spellings of a place that are akin and short enough are
read alike (`Tree.readsAlike_of_akin`).
-/

set_option autoImplicit false

namespace FirmwareIndex

/-- Two paths get the same answers from a source. -/
structure Sources.ReadsAlike (s : Sources) (p q : Path) : Prop where
  present : s.present p = s.present q
  read : s.read p = s.read q

/-- The length of a path does not keep it from being looked up. -/
def Path.Short (p : Path) : Prop :=
  Tree.byteLength p.text < Tree.maxPath

instance (p : Path) : Decidable p.Short :=
  inferInstanceAs (Decidable (_ < _))

namespace Path

variable {p q : Path} {c : Char}

/-- A character between slashes stands in one of the pieces. -/
theorem exists_mem_of_mem_intercalate {pieces : List Text} (h : c ∈ ['/'].intercalate pieces)
    (hslash : c ≠ '/') : ∃ piece ∈ pieces, c ∈ piece := by
  induction pieces with
  | nil => cases h
  | cons first rest ih =>
    cases rest with
    | nil => exact ⟨first, List.mem_singleton_self first, by simpa using h⟩
    | cons second rest =>
      rw [List.intercalate_cons_cons, List.mem_append, List.mem_append] at h
      rcases h with (h | h) | h
      · exact ⟨first, List.mem_cons_self, h⟩
      · exact absurd (List.mem_singleton.1 h) hslash
      · obtain ⟨piece, hpiece, hc⟩ := ih h
        exact ⟨piece, List.mem_cons_of_mem _ hpiece, hc⟩

/-- A character that is neither a slash nor a dot stands in a step. -/
theorem mem_text_iff (hslash : c ≠ '/') (hdot : c ≠ '.') :
    c ∈ p.text ↔ ∃ piece ∈ p.steps, c ∈ piece := by
  constructor
  · intro h
    have htext : ['/'].intercalate (p.text.splitOn '/') = p.text := List.intercalate_splitOn '/'
    rw [← htext] at h
    obtain ⟨piece, hpiece, hc⟩ := exists_mem_of_mem_intercalate h hslash
    refine ⟨piece, List.mem_filter.2 ⟨hpiece, ?_⟩, hc⟩
    unfold Component.ofPiece?
    split
    · cases hc
    · exact absurd (List.mem_singleton.1 hc) hdot
    · rfl
    · rfl
  · rintro ⟨piece, hpiece, hc⟩
    exact (Text.mem_splitOn (List.mem_filter.1 hpiece).1).2 c hc

end Path

namespace Tree

variable {t : Tree} {jump : Address → List Text → Except ReadError Address} {a : Address}
  {piece : Text} {rest pieces : List Text} {p q : Path}

/-- A silent piece before another piece makes no difference, not even at a file. -/
theorem goWith_silent (hpiece : Component.ofPiece? piece = none) (hrest : rest ≠ []) :
    goWith t .follow jump a (piece :: rest) = goWith t .follow jump a rest := by
  obtain ⟨next, rest, rfl⟩ := List.exists_cons_of_ne_nil hrest
  have hsilent : (piece = [] || piece = ['.']) = true := by
    unfold Component.ofPiece? at hpiece
    split at hpiece <;> simp_all
  rcases hnode : t.node? a with _ | (bytes | _ | target)
  case some.file | some.link => rw [goWith, goWith, hnode]
  all_goals
    rw [goWith, hnode]
    exact if_pos hsilent

/-- A way that does not end in a silent piece leads to the same without its silent pieces, or fails
for the same reason. -/
theorem go_filter_eq (links : Nat) (a : Address)
    (h : ∀ piece ∈ pieces.getLast?, Component.ofPiece? piece ≠ none) :
    t.go .follow links a (pieces.filter fun piece => (Component.ofPiece? piece).isSome) =
      t.go .follow links a pieces := by
  let loud := fun piece : Text => (Component.ofPiece? piece).isSome
  -- what comes from a link keeps its silent pieces, so some pieces stand in front
  refine go_induction (t := t) (P := fun jump => ∀ a front rest,
    (∀ piece ∈ rest.getLast?, Component.ofPiece? piece ≠ none) →
      jump a (front ++ rest.filter loud) = jump a (front ++ rest))
    (fun _ _ _ _ => rfl) (fun jump hjump a front rest hlast => ?_) links a [] pieces h
  have hturn : ∀ (a : Address) (piece : Text) (rest rest' : List Text),
      (∀ x : Turn, x.goOn t .follow jump rest = x.goOn t .follow jump rest') →
        goWith t .follow jump a (piece :: rest) = goWith t .follow jump a (piece :: rest') := by
    intro a piece rest rest' hgo
    rw [goWith_cons_eq_bind rfl, goWith_cons_eq_bind rfl]
    exact congrArg (Except.bind _) (funext hgo)
  induction front generalizing a with
  | nil =>
    rw [List.nil_append, List.nil_append]
    induction rest generalizing a with
    | nil => rfl
    | cons piece rest ih =>
      have hlast' : ∀ piece ∈ rest.getLast?, Component.ofPiece? piece ≠ none := by
        intro other hother
        exact hlast other (by simp [List.getLast?_cons, Option.mem_def.1 hother])
      cases hpiece : Component.ofPiece? piece with
      | none =>
        have hrest : rest ≠ [] := by
          rintro rfl
          exact hlast piece rfl hpiece
        rw [List.filter_cons_of_neg (by simp [loud, hpiece]), goWith_silent hpiece hrest]
        exact ih hlast' a
      | some c =>
        rw [List.filter_cons_of_pos (by simp [loud, hpiece])]
        refine hturn a piece _ _ fun x => ?_
        cases x with
        | move b => exact ih hlast' b
        | jump b target => exact hjump b target rest hlast'
  | cons piece front ih =>
    rw [List.cons_append, List.cons_append]
    refine hturn a piece _ _ fun x => ?_
    cases x with
    | move b => exact ih b
    | jump b target =>
      rw [Turn.goOn, Turn.goOn, ← List.append_assoc, ← List.append_assoc]
      exact hjump b (target ++ front) rest hlast

/-- Spellings of a place that end in a piece and are short enough are looked up alike. -/
theorem locate_congr (h : p.Same q) (hp : p.Pointed) (hq : q.Pointed) (hshort : p.Short)
    (hshort' : q.Short) : t.locate .follow p = t.locate .follow q := by
  have hnul : p.text.contains (Char.ofNat 0) = q.text.contains (Char.ofNat 0) := by
    rw [Bool.eq_iff_iff, List.contains_iff_mem, List.contains_iff_mem,
      Path.mem_text_iff (by decide) (by decide), Path.mem_text_iff (by decide) (by decide),
      Path.steps_congr h]
  have hnil : ∀ r : Path, r.Pointed → r.text ≠ [] := by
    rintro ⟨t⟩ ⟨front, piece, hsplit, hpiece⟩ rfl
    obtain ⟨_, hlast⟩ := List.append_inj' (show [] ++ [[]] = front ++ [piece] from hsplit) rfl
    exact hpiece ((List.cons.inj hlast).1 ▸ rfl)
  have hsteps : ∀ r : Path, r.Pointed →
      t.go .follow maxLinks [] (r.text.splitOn '/') = t.go .follow maxLinks [] r.steps := by
    rintro r ⟨front, piece, hsplit, hpiece⟩
    refine (go_filter_eq maxLinks [] fun other hother => ?_).symm
    rw [hsplit, List.getLast?_concat, Option.mem_some] at hother
    exact hother ▸ hpiece
  rw [locate, locate, hnul, if_neg (Nat.not_le.2 hshort), if_neg (Nat.not_le.2 hshort'),
    if_neg (hnil p hp), if_neg (hnil q hq), hsteps p hp, hsteps q hq, Path.steps_congr h]

/-- Spellings of a place that are akin and short enough are read alike. -/
theorem readsAlike_of_akin (h : p.Akin q) (hp : p.Short) (hq : q.Short) :
    t.sources.ReadsAlike p q := by
  rcases h.eq_or_pointed with rfl | ⟨hsame, hpointed, hpointed'⟩
  · exact ⟨rfl, rfl⟩
  have hlookup : t.lookup p = t.lookup q := by
    rw [lookup, lookup, locate_congr hsame hpointed hpointed' hp hq]
  have hdenied : t.isDenied p = t.isDenied q := by
    have hcomponents : p.components = q.components := hsame
    rw [isDenied, isDenied, hcomponents]
  constructor
  · change t.isFile p = t.isFile q
    rw [isFile, isFile, hlookup]
  · change t.read p = t.read q
    rw [read, read, hlookup, hdenied]

end Tree

end FirmwareIndex
