import FirmwareIndex.Proofs.Path.Reference
import FirmwareIndex.Proofs.Text.Trimmed
import Mathlib.Logic.Relation

/-!
# References resolved on their text

A reference is cut at its separators, slashes and backslashes, and its pieces are applied one after
the other to the path reached so far. So a reference in two parts is the second part read where the
first one leads (`Path.join_append`), and it matters neither which separators are written nor
whether there are more pieces that are empty or a dot (`Path.Respells.join_eq`). What a piece does
to the components of a path depends on the components alone (`Path.components_foldl_step`). A path
from the root without `.` and `..` is therefore led to one of the same kind: its own components and
those of the reference, with every `..` resolved (`Path.join_lexical`).
-/

set_option autoImplicit false

namespace FirmwareIndex

namespace Text

/-- The characters that separate the pieces of a reference. -/
def isSeparator (c : Char) : Bool :=
  c = '/' || c = '\\'

/-- The pieces of a text between separators of either kind. -/
def segments (t : Text) : List Text :=
  t.splitOnP isSeparator

variable {c : Char}

/-- A separator is no blank. -/
theorem isBlank_of_isSeparator (h : isSeparator c = true) : isBlank c = false := by
  obtain rfl | rfl : c = '/' ∨ c = '\\' := by simpa [isSeparator] using h
  · decide
  · decide

/-- Once all separators are slashes, a text is cut at the slashes. -/
theorem splitOn_slashed (t : Text) : (slashed t).splitOn '/' = t.segments := by
  induction t with
  | nil => rfl
  | cons c t ih =>
    have hslashed : slashed (c :: t) = (if c = '\\' then '/' else c) :: slashed t := rfl
    rw [hslashed, List.splitOn_cons_eq_if_modifyHead, ih, segments, segments,
      List.splitOnP_cons_eq_if_modifyHead]
    by_cases hback : c = '\\' <;> simp [hback, isSeparator]

end Text

namespace Component

/-- The components that one more leads to: `..` takes the last one away, but never the root. -/
def follow (reached : List Component) : Component → List Component
  | .up => if reached = [.root] then reached else reached.dropLast
  | c => reached ++ [c]

/-- The components with every `..` resolved, from the first to the last. -/
def resolve (components : List Component) : List Component :=
  components.foldl follow []

/-- The components of a path from the root without `.` and `..`. -/
structure Rooted (components : List Component) : Prop where
  root : components.head? = some .root
  here : .here ∉ components
  up : .up ∉ components

variable {reached others : List Component} {c : Component}

/-- Every component but `..` comes behind those that are reached. -/
theorem follow_of_ne_up (reached : List Component) (h : c ≠ .up) :
    follow reached c = reached ++ [c] := by
  cases c with
  | up => contradiction
  | _ => rfl

/-- Components without a `..` are resolved. -/
theorem foldl_follow (h : .up ∉ others) (reached : List Component) :
    others.foldl follow reached = reached ++ others := by
  induction others generalizing reached with
  | nil => rw [List.foldl_nil, List.append_nil]
  | cons c others ih =>
    obtain ⟨hc, hothers⟩ : c ≠ .up ∧ .up ∉ others := by simpa [eq_comm] using h
    rw [List.foldl_cons, follow_of_ne_up reached hc, ih hothers, List.append_assoc,
      List.singleton_append]

/-- Components without a `..` are resolved already, and others follow them. -/
theorem resolve_append (h : .up ∉ reached) (others : List Component) :
    resolve (reached ++ others) = others.foldl follow reached := by
  rw [resolve, List.foldl_append, foldl_follow h, List.nil_append]

/-- From the root every component but a dot leads to a path without `.` and `..`. -/
theorem Rooted.follow (h : Rooted reached) (hc : c ≠ .here) : Rooted (follow reached c) := by
  by_cases hup : c = .up
  · subst hup
    rw [Component.follow]
    split
    · exact h
    · rename_i hbelow
      obtain ⟨names, rfl⟩ := List.head?_eq_some_iff.1 h.root
      have hnames : names ≠ [] := fun heq => hbelow (by rw [heq])
      refine ⟨?_, fun hmem => h.here ((List.dropLast_sublist _).subset hmem),
        fun hmem => h.up ((List.dropLast_sublist _).subset hmem)⟩
      rw [List.dropLast_cons_of_ne_nil hnames]
      rfl
  · rw [follow_of_ne_up reached hup]
    refine ⟨by rw [List.head?_append, h.root]; rfl, ?_, ?_⟩
    · simpa using ⟨h.here, hc.symm⟩
    · simpa using ⟨h.up, Ne.symm hup⟩

/-- No reference leads out of the components of a path from the root. -/
theorem Rooted.foldl_follow (h : Rooted reached) (hothers : .here ∉ others) :
    Rooted (others.foldl Component.follow reached) :=
  List.foldlRecOn others Component.follow (motive := Rooted) h fun _ hreached _ hc =>
    hreached.follow fun heq => hothers (heq ▸ hc)

end Component

namespace Path

open Text Component

variable {d p : Path} {a b t piece : Text} {pieces : List Text} {c : Char}

/-! ## Parts of a reference -/

/-- A trimmed reference is followed piece by piece. -/
theorem join_eq_foldl (h : a.Trimmed) (d : Path) : d.join a = a.segments.foldl step d := by
  rw [join, h.trim_eq, splitOn_slashed]

/-- A reference behind another text is read where the pieces of that text lead. -/
theorem join_append_of_trimmed (h : Trimmed (a ++ '/' :: b)) (hb : b.Trimmed) (d : Path) :
    d.join (a ++ '/' :: b) = (a.segments.foldl step d).join b := by
  have hslash : isSeparator '/' = true := rfl
  rw [join_eq_foldl h, join_eq_foldl hb, segments, List.splitOnP_append_cons a b hslash,
    List.foldl_append]
  rfl

/-- Two trimmed texts with a slash between them are a trimmed text. -/
theorem trimmed_append (ha : a.Trimmed) (hb : b.Trimmed) : Trimmed (a ++ '/' :: b) := by
  constructor
  · intro e he
    cases a with
    | nil => exact Option.mem_some_iff.1 he ▸ rfl
    | cons f a => exact ha.head e he
  · intro e he
    rw [Option.mem_def, List.getLast?_append_of_ne_nil _ (by simp)] at he
    cases b with
    | nil => exact Option.mem_some_iff.1 he ▸ rfl
    | cons f b => exact hb.last e (List.getLast?_cons_cons ▸ he)

/-- A reference in two parts is the second part read where the first one leads. -/
theorem join_append (ha : a.Trimmed) (hb : b.Trimmed) (d : Path) :
    d.join (a ++ '/' :: b) = (d.join a).join b := by
  rw [join_append_of_trimmed (trimmed_append ha hb) hb, ← join_eq_foldl ha]

/-! ## Other spellings of a reference -/

/-- A piece that leads nowhere else. -/
def Silent (piece : Text) : Prop :=
  piece = [] ∨ piece = ['.']

instance (piece : Text) : Decidable (Silent piece) :=
  inferInstanceAs (Decidable (_ ∨ _))

/-- The pieces of a reference that lead somewhere else. -/
def leading (t : Text) : List Text :=
  t.segments.filter (¬ Silent ·)

/-- A change of the spelling of a reference. -/
inductive Respells : Text → Text → Prop
  /-- A separator is exchanged for another one. -/
  | separator (front back : Text) {c e : Char} (hc : isSeparator c = true)
      (he : isSeparator e = true) : Respells (front ++ c :: back) (front ++ e :: back)
  /-- A silent piece comes in front of all others. -/
  | first (t : Text) {piece : Text} {c : Char} (hpiece : Silent piece)
      (hc : isSeparator c = true) : Respells t (piece ++ c :: t)
  /-- A silent piece comes between two others. -/
  | between (front back : Text) {piece : Text} {c e : Char} (hpiece : Silent piece)
      (hc : isSeparator c = true) (he : isSeparator e = true) :
      Respells (front ++ c :: back) (front ++ c :: (piece ++ e :: back))
  /-- A silent piece comes behind all others. -/
  | last (t : Text) {piece : Text} {c : Char} (hpiece : Silent piece)
      (hc : isSeparator c = true) : Respells t (t ++ c :: piece)

/-- A silent piece leads nowhere. -/
theorem Silent.leading_eq (h : Silent piece) : leading piece = [] := by
  obtain rfl | rfl := h <;> rfl

/-- A silent piece has no blank in it. -/
theorem Silent.not_blank (h : Silent piece) : ∀ c ∈ piece, isBlank c = false := by
  obtain rfl | rfl := h
  · exact List.forall_mem_nil _
  · exact List.forall_mem_singleton.2 (by decide)

/-- The leading pieces on both sides of a separator are those of the whole text. -/
theorem leading_append_cons (front : Text) (hc : isSeparator c = true) (back : Text) :
    leading (front ++ c :: back) = leading front ++ leading back := by
  rw [leading, segments, List.splitOnP_append_cons front back hc, List.filter_append]
  rfl

/-- Silent pieces leave no trace. -/
theorem foldl_step_filter (pieces : List Text) (p : Path) :
    (pieces.filter (¬ Silent ·)).foldl step p = pieces.foldl step p := by
  induction pieces generalizing p with
  | nil => rfl
  | cons piece rest ih =>
    by_cases hpiece : Silent piece
    · have hstays : p.step piece = p := by obtain rfl | rfl := hpiece <;> rfl
      rw [List.filter_cons_of_neg (by simpa using hpiece), List.foldl_cons, hstays, ih]
    · rw [List.filter_cons_of_pos (by simpa using hpiece), List.foldl_cons, List.foldl_cons, ih]

/-- Only the leading pieces of a trimmed reference are followed. -/
theorem join_eq_foldl_leading (h : a.Trimmed) (d : Path) :
    d.join a = (leading a).foldl step d := by
  rw [leading, foldl_step_filter, join_eq_foldl h]

namespace Respells

/-- A respelled reference has the same leading pieces. -/
theorem leading_eq (h : Respells a t) : leading t = leading a := by
  cases h with
  | separator front back hc he => rw [leading_append_cons _ hc, leading_append_cons _ he]
  | first t hpiece hc => rw [leading_append_cons _ hc, hpiece.leading_eq, List.nil_append]
  | between front back hpiece hc he =>
    rw [leading_append_cons _ hc, leading_append_cons _ he, leading_append_cons _ hc,
      hpiece.leading_eq, List.nil_append]
  | last t hpiece hc => rw [leading_append_cons _ hc, hpiece.leading_eq, List.append_nil]

/-- What comes in holds no blanks. -/
theorem exists_exchange (h : Respells a t) :
    ∃ front old new back, a = front ++ old ++ back ∧ t = front ++ new ++ back ∧ new ≠ [] ∧
      ∀ c ∈ new, isBlank c = false := by
  cases h with
  | @separator front back c e hc he =>
    exact ⟨front, [c], [e], back, by simp, by simp, by simp,
      List.forall_mem_singleton.2 (isBlank_of_isSeparator he)⟩
  | @first _ piece c hpiece hc =>
    refine ⟨[], [], piece ++ [c], a, rfl, by simp, by simp, List.forall_mem_append.2 ?_⟩
    exact ⟨hpiece.not_blank, List.forall_mem_singleton.2 (isBlank_of_isSeparator hc)⟩
  | @between front back piece c e hpiece hc he =>
    refine ⟨front ++ [c], [], piece ++ [e], back, by simp, by simp, by simp,
      List.forall_mem_append.2 ?_⟩
    exact ⟨hpiece.not_blank, List.forall_mem_singleton.2 (isBlank_of_isSeparator he)⟩
  | @last _ piece c hpiece hc =>
    refine ⟨a, [], c :: piece, [], by simp, by simp, by simp, List.forall_mem_cons.2 ?_⟩
    exact ⟨isBlank_of_isSeparator hc, hpiece.not_blank⟩

/-- A trimmed reference stays trimmed when it is respelled. -/
theorem trimmed (h : Respells a t) (ha : a.Trimmed) : t.Trimmed := by
  obtain ⟨front, old, new, back, rfl, rfl, hne, hnew⟩ := h.exists_exchange
  exact ha.exchange (trimmed_of_forall hnew) hne

/-- However a reference is spelled, it leads to the same path. -/
theorem join_eq (h : Relation.ReflTransGen Respells a t) (ha : a.Trimmed) (d : Path) :
    d.join t = d.join a := by
  have hboth : t.Trimmed ∧ leading t = leading a := by
    induction h with
    | refl => exact ⟨ha, rfl⟩
    | tail _ hstep ih => exact ⟨hstep.trimmed ih.1, hstep.leading_eq.trans ih.2⟩
  rw [join_eq_foldl_leading hboth.1, hboth.2, join_eq_foldl_leading ha]

end Respells

/-! ## The components that a reference leads to -/

/-- Popping takes away the last component, but not the root. -/
theorem components_pop (p : Path) :
    p.pop.components =
      if p.components = [.root] then p.components else p.components.dropLast := by
  unfold pop
  cases hparent : p.parent? with
  | none =>
    obtain h | h := parent?_eq_none_iff.1 hparent
    · simp [h]
    · simp [h]
  | some q =>
    have hroot : p.components ≠ [.root] := by
      intro h
      rw [parent?_eq_none_iff.2 (.inr h)] at hparent
      cases hparent
    rw [if_neg hroot, Option.getD_some, components_of_parent?_eq_some hparent]

/-- What a piece does to the components of a path depends on them alone. -/
theorem components_step (p : Path) (hslash : '/' ∉ piece) :
    (p.step piece).components =
      ((Component.ofPiece? piece).map (follow p.components)).getD p.components := by
  obtain ⟨hc, hstep⟩ | ⟨hc, hstep⟩ | ⟨hc, hstep⟩ := step_cases p piece
  · rw [hstep, hc]
    rfl
  · rw [hstep, hc, components_pop]
    rfl
  · rw [hstep, hc, components_push p hslash hc]
    rfl

/-- Pieces lead where the components lead that they stand for. -/
theorem components_foldl_step (hslash : ∀ piece ∈ pieces, '/' ∉ piece) (p : Path) :
    (pieces.foldl step p).components =
      (pieces.filterMap Component.ofPiece?).foldl follow p.components := by
  induction pieces generalizing p with
  | nil => rfl
  | cons piece rest ih =>
    obtain ⟨hpiece, hrest⟩ := List.forall_mem_cons.1 hslash
    rw [List.foldl_cons, ih hrest, components_step p hpiece, List.filterMap_cons]
    cases Component.ofPiece? piece <;> rfl

/-- What the pieces of a reference stand for. -/
def referenced (reference : Text) : List Component :=
  (piecesOf reference).filterMap Component.ofPiece?

/-- The components of a joined path are those of the directory, with those of the reference
followed. -/
theorem components_join (p : Path) (reference : Text) :
    (p.join reference).components = (referenced reference).foldl follow p.components := by
  have hslash : ∀ piece ∈ piecesOf reference, '/' ∉ piece := slash_of_mem_splitOn _
  exact components_foldl_step hslash p

/-- The path starts at the root and has neither `.` nor `..` in it. -/
structure Resolved (p : Path) : Prop where
  absolute : p.isAbsolute = true
  here : .here ∉ p.components
  up : .up ∉ p.components

/-- A path is resolved if its components are those of a path from the root without `.` and `..`. -/
theorem resolved_iff : p.Resolved ↔ Rooted p.components :=
  ⟨fun h => ⟨isAbsolute_iff.1 h.absolute, h.here, h.up⟩,
    fun h => ⟨isAbsolute_iff.2 h.root, h.here, h.up⟩⟩

/-- A reference stands for no `.` component. -/
theorem here_not_mem_referenced (reference : Text) : .here ∉ referenced reference := by
  intro hmem
  obtain ⟨piece, _, hpiece⟩ := List.mem_filterMap.1 hmem
  exact (Component.piece?_eq_some hpiece).2.2 rfl

/-- What joining promises of a reference `a` that is read in `d`, and of a reference `b` behind it:
it is resolved on the text alone, piece by piece. -/
structure Lexical (d : Path) (a b : Text) : Prop where
  parts : d.join (a ++ '/' :: b) = (d.join a).join b
  /-- It does not matter which separators are written, and whether there are more pieces that are
  empty or a dot. -/
  respelled : ∀ t, Relation.ReflTransGen Respells a t → d.join t = d.join a
  /-- Each `..` takes away the component before it, and stays at the root if there is no other. -/
  components : d.Resolved → (d.join a).components = resolve (d.components ++ referenced a)
  resolved : d.Resolved → (d.join a).Resolved

/-- References are resolved on their text. -/
theorem join_lexical (d : Path) (ha : a.Trimmed) (hb : b.Trimmed) : Lexical d a b where
  parts := join_append ha hb d
  respelled _ ht := Respells.join_eq ht ha d
  components hd := by rw [components_join, resolve_append hd.up]
  resolved hd := by
    rw [resolved_iff, components_join]
    exact (resolved_iff.1 hd).foldl_follow (here_not_mem_referenced a)

/-- A reference that climbs above the root, with separators of both kinds. -/
def climbingReference : Text :=
  "..\\../../../x y\\z/.."

/-- A reference that climbs above the root of a directory with an empty piece. -/
theorem join_lexical_climbingReference :
    climbingReference.Trimmed ∧ Text.Trimmed ".. /w/".toList ∧
      Lexical ⟨"/ws//Pkg/"⟩ climbingReference ".. /w/".toList ∧
      Resolved ⟨"/ws//Pkg/"⟩ ∧
      join ⟨"/ws//Pkg/"⟩ ("./".toList ++ climbingReference) = ⟨"/x y"⟩ ∧
      join ⟨"/ws//Pkg/"⟩ (climbingReference ++ '/' :: ".. /w/".toList) = ⟨"/x y/.. /w"⟩ := by
  have hfirst : climbingReference.Trimmed := by decide +kernel
  have hsecond : Text.Trimmed ".. /w/".toList := by decide +kernel
  have hlexical := join_lexical ⟨"/ws//Pkg/"⟩ hfirst hsecond
  have hjoin : join ⟨"/ws//Pkg/"⟩ climbingReference = ⟨"/x y"⟩ := by decide +kernel
  have hrespells : Respells climbingReference ("./".toList ++ climbingReference) :=
    .first climbingReference (.inr rfl) rfl
  refine ⟨hfirst, hsecond, hlexical, ⟨by decide, by decide +kernel, by decide +kernel⟩, ?_, ?_⟩
  · rw [hlexical.respelled _ (.single hrespells), hjoin]
  · rw [hlexical.parts, hjoin]
    decide +kernel

end Path

end FirmwareIndex
