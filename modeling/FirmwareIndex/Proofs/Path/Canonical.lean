import FirmwareIndex.Proofs.Path.Distinct
import FirmwareIndex.Proofs.Path.Lexical
import FirmwareIndex.Proofs.Path.Sibling
import FirmwareIndex.Proofs.Path.Tail

/-!
# Spellings of one place

A place can be spelled in many ways, and one of them is its canonical spelling (`Path.canonical`).
What is reached from two spellings of one place is one place again: the directory, what a reference
means there (`Path.join_congr`), and the file with another extension (`Path.withExtension_congr`).
Two spellings of one place take a reader the same way if nothing stands behind the last component in
either of them (`Path.Settled.eq_or_pointed`), and what is reached from a path is spelled like this,
however the path itself is spelled.
-/

set_option autoImplicit false

namespace FirmwareIndex

namespace Path

variable {p q : Path} {piece first reference : Text} {pieces rest : List Text}

/-! ## The canonical spelling -/

/-- The components of a path with one slash between them. -/
def canonical (p : Path) : Path :=
  let pieces := ['/'].intercalate p.componentPieces
  ⟨if p.components.head? = some .root then '/' :: pieces else pieces⟩

/-- Pieces that are written from components are read as these components. -/
theorem filterMap_written (pieces : List Text) :
    ((pieces.filterMap Component.ofPiece?).filterMap Component.piece?).filterMap
      Component.ofPiece? = pieces.filterMap Component.ofPiece? := by
  rw [List.filterMap_filterMap, List.filterMap_filterMap]
  refine List.filterMap_congr fun piece _ => ?_
  cases hpiece : Component.ofPiece? piece with
  | none => rfl
  | some c => rw [Option.bind_some, (Component.piece?_eq_some hpiece).1, Option.bind_some, hpiece]

/-- Components read off pieces are written as some of those pieces again. -/
theorem mem_of_mem_written
    (h : piece ∈ (pieces.filterMap Component.ofPiece?).filterMap Component.piece?) :
    piece ∈ pieces := by
  obtain ⟨c, hc, hpiece⟩ := List.mem_filterMap.1 h
  obtain ⟨written, hwritten, hread⟩ := List.mem_filterMap.1 hc
  rw [(Component.piece?_eq_some hread).1] at hpiece
  exact Option.some.inj hpiece ▸ hwritten

/-- The canonical spelling of a path is the same place. -/
theorem canonical_same (p : Path) : p.canonical.Same p := by
  by_cases hnil : p.text = []
  · obtain ⟨t⟩ := p
    obtain rfl : t = [] := hnil
    rfl
  obtain ⟨first, rest, hsplit⟩ := List.exists_cons_of_ne_nil (List.splitOn_ne_nil '/' p.text)
  have hcomponents := components_of_splitOn hnil hsplit
  have hslash : ∀ piece ∈ first :: rest, '/' ∉ piece := hsplit ▸ slash_of_mem_splitOn p.text
  obtain ⟨hfirst, hrest⟩ := List.forall_mem_cons.1 hslash
  have hwritten : ∀ piece ∈ (rest.filterMap Component.ofPiece?).filterMap Component.piece?,
      '/' ∉ piece := fun piece hpiece => hrest piece (mem_of_mem_written hpiece)
  rw [Same, canonical, componentPieces, hcomponents]
  by_cases hroot : first = []
  · rw [hroot]
    refine (components_rooted hwritten).trans ?_
    rw [filterMap_written]
    rfl
  -- the first piece is written as it is
  obtain ⟨c, hstart, hc, hne⟩ := exists_startOf_eq hroot
  rw [hstart, List.singleton_append, List.head?_cons, if_neg (by simpa using hne),
    List.filterMap_cons, hc]
  refine (components_relative hroot (List.forall_mem_cons.2 ⟨hfirst, hwritten⟩)).trans ?_
  rw [filterMap_written, hstart, List.singleton_append]

/-- The canonical spelling leads to the same place. -/
@[simp]
theorem components_canonical (p : Path) : p.canonical.components = p.components :=
  canonical_same p

/-- All spellings of a place have one canonical spelling. -/
theorem canonical_congr (h : p.Same q) : p.canonical = q.canonical := by
  have hcomponents : p.components = q.components := h
  rw [canonical, canonical, componentPieces, componentPieces, hcomponents]

/-- Two spellings of a place are the places of the same paths. -/
theorem decide_same_congr (h : p.Same q) (f : Path) :
    decide (f.Same p) = decide (f.Same q) :=
  decide_eq_decide.2 ⟨fun hp => Eq.trans hp h, fun hq => Eq.trans hq h.symm⟩

/-- Two paths have the same canonical spelling just if they are the same place. -/
theorem canonical_eq_iff : p.canonical = q.canonical ↔ p.Same q := by
  refine ⟨fun h => ?_, canonical_congr⟩
  have hcomponents := congrArg components h
  rwa [components_canonical, components_canonical] at hcomponents

/-- A canonical spelling is its own canonical spelling. -/
@[simp]
theorem canonical_canonical (p : Path) : p.canonical.canonical = p.canonical :=
  canonical_congr (canonical_same p)

/-- Whether a place is listed is seen in the canonical spellings. -/
theorem any_same_eq_contains (paths : List Path) (p : Path) :
    (paths.any fun q => q.Same p) = (paths.map canonical).contains p.canonical := by
  rw [Bool.eq_iff_iff, List.any_eq_true, List.contains_iff_mem, List.mem_map]
  exact exists_congr fun q => and_congr_right fun _ =>
    decide_eq_true_iff.trans canonical_eq_iff.symm

/-- A path is new to a list if its canonical spelling is new to the canonical spellings. -/
theorem addNew_map_canonical (paths : List Path) (p : Path) :
    (addNew paths p).map canonical = addNew (paths.map canonical) p.canonical := by
  have hany : (paths.map canonical).any (fun q => q.Same p.canonical) =
      paths.any fun q => q.Same p := by
    rw [any_same_eq_contains, any_same_eq_contains, List.map_map, canonical_canonical]
    refine congrArg (List.contains · p.canonical) (List.map_congr_left fun q _ => ?_)
    exact canonical_canonical q
  simp only [addNew, hany]
  split
  · rfl
  · rw [List.map_append, List.map_singleton]

/-- It does not matter in which spellings places are listed once each. -/
theorem distinct_map_canonical (paths : List Path) :
    (distinct paths).map canonical = distinct (paths.map canonical) := by
  induction paths using List.reverseRecOn with
  | nil => rfl
  | append_singleton front p ih =>
    rw [distinct_concat, addNew_map_canonical, ih, List.map_append, List.map_singleton,
      distinct_concat]

/-! ## What is reached from two spellings of a place -/

/-- The parents of two spellings of a place are the same place, or there are none. -/
theorem parent?_congr (h : p.Same q) : Option.Rel Same p.parent? q.parent? := by
  have hcomponents : p.components = q.components := h
  have hnone : p.parent? = none ↔ q.parent? = none := by
    rw [parent?_eq_none_iff, parent?_eq_none_iff, hcomponents]
  cases hp : p.parent? with
  | none => rw [hnone.1 hp]; exact .none
  | some a =>
    cases hq : q.parent? with
    | none => exact absurd (hnone.2 hq) (by simp [hp])
    | some b =>
      have ha := components_of_parent?_eq_some hp
      exact .some (ha.trans (hcomponents ▸ (components_of_parent?_eq_some hq).symm))

/-- Files at one place are in directories at one place. -/
theorem directory_congr (h : p.Same q) : p.directory.Same q.directory := by
  have hparent := parent?_congr h
  unfold directory
  generalize p.parent? = a, q.parent? = b at hparent
  cases hparent with
  | none => rfl
  | some hsame => exact hsame

/-- A piece pushed to two spellings of a place leads to one place. -/
theorem push_congr (h : p.Same q) (hslash : '/' ∉ piece) {c : Component}
    (hc : Component.ofPiece? piece = some c) : (p.push piece).Same (q.push piece) := by
  have hcomponents : p.components = q.components := h
  rw [Same, components_push p hslash hc, components_push q hslash hc, hcomponents]

/-- A reference means one place in all spellings of a directory. -/
theorem join_congr (h : p.Same q) (reference : Text) :
    (p.join reference).Same (q.join reference) := by
  have hcomponents : p.components = q.components := h
  rw [Same, components_join, components_join, hcomponents]

/-! ## Spellings that end in their last component -/

/-- The text ends in a piece that stands for a component. -/
def Pointed (p : Path) : Prop :=
  ∃ front piece, p.text.splitOn '/' = front ++ [piece] ∧ Component.ofPiece? piece ≠ none

/-- The text ends where its last component does: in a piece, or where it starts. -/
def Settled (p : Path) : Prop :=
  p.Pointed ∨ p = ⟨[]⟩ ∨ p = ⟨['.']⟩ ∨ p = ⟨['/']⟩

/-- A path that a piece was pushed to ends in this piece. -/
theorem pointed_push (p : Path) (hslash : '/' ∉ piece) (hpiece : Component.ofPiece? piece ≠ none) :
    (p.push piece).Pointed := by
  by_cases hnil : p.text = []
  · have hpush : p.push piece = ⟨piece⟩ := by rw [push_eq p hslash, lead, hnil]; rfl
    exact ⟨[], piece, by rw [hpush]; exact List.splitOn_eq_singleton hslash, hpiece⟩
  · obtain ⟨front, _, _, hpush⟩ := exists_splitOn_push hnil
    exact ⟨front, piece, hpush piece hslash, hpiece⟩

/-- What the last component of a text stands for that ends in a piece. -/
theorem Pointed.getLast?_components (h : p.Pointed) :
    ∃ c, p.components.getLast? = some c ∧ c ≠ .root ∧ c ≠ .here := by
  obtain ⟨front, piece, hsplit, hpiece⟩ := h
  obtain ⟨c, hc⟩ := Option.ne_none_iff_exists'.1 hpiece
  have hnil : p.text ≠ [] := by
    intro hnil
    rw [hnil] at hsplit
    obtain ⟨_, hlast⟩ := List.append_inj' (show [] ++ [[]] = front ++ [piece] from hsplit) rfl
    exact hpiece ((List.cons.inj hlast).1 ▸ rfl)
  refine ⟨c, ?_, (Component.piece?_eq_some hc).2⟩
  cases front with
  | nil =>
    have hne : piece ≠ [] ∧ piece ≠ ['.'] := by
      constructor <;> rintro rfl <;> exact hpiece rfl
    rw [components_of_splitOn hnil hsplit, startOf_eq hne.1 hne.2, hc]
    rfl
  | cons first rest =>
    rw [List.cons_append] at hsplit
    rw [components_of_splitOn hnil hsplit, List.filterMap_append, ← List.append_assoc]
    simp [hc]

/-- Two spellings of a place that end where its last component does are equal, or both end in a
piece. -/
theorem Settled.eq_or_pointed (hp : p.Settled) (hq : q.Settled) (h : p.Same q) :
    p = q ∨ p.Pointed ∧ q.Pointed := by
  have hcomponents : p.components = q.components := h
  have hbare : ∀ a b : Path, (a = ⟨[]⟩ ∨ a = ⟨['.']⟩ ∨ a = ⟨['/']⟩) → b.Pointed →
      a.components ≠ b.components := by
    intro a b ha hb heq
    obtain ⟨c, hc, hroot, hhere⟩ := hb.getLast?_components
    rw [← heq] at hc
    rcases ha with rfl | rfl | rfl
    · cases hc
    · exact hhere (Option.some.inj hc).symm
    · exact hroot (Option.some.inj hc).symm
  rcases hp with hp | hp
  · rcases hq with hq | hq
    · exact .inr ⟨hp, hq⟩
    · exact absurd hcomponents.symm (hbare q p hq hp)
  · rcases hq with hq | hq
    · exact absurd hcomponents (hbare p q hp hq)
    · refine .inl ?_
      rcases hp with rfl | rfl | rfl <;> rcases hq with rfl | rfl | rfl <;>
        first | rfl | cases hcomponents

/-- Without the silent pieces at its end a text ends where its last component does. -/
theorem settled_rooted (h : ∀ piece ∈ pieces, '/' ∉ piece) :
    Settled ⟨'/' :: ['/'].intercalate (dropSilent pieces)⟩ := by
  by_cases hnil : dropSilent pieces = []
  · exact .inr (.inr (.inr (by rw [hnil]; rfl)))
  · obtain ⟨c, hc⟩ : ∃ c, (pieces.filterMap Component.ofPiece?).getLast? = some c :=
      Option.isSome_iff_exists.1 (List.getLast?_isSome.2 fun heq =>
        hnil ((filterMap_eq_nil_iff pieces).1 heq))
    obtain ⟨front, piece, hkept, hpiece⟩ := exists_dropSilent_eq hc
    refine .inl ⟨[] :: front, piece, ?_, by simp [hpiece]⟩
    rw [List.splitOn_cons_eq_if_modifyHead, if_pos (by decide),
      List.splitOn_intercalate '/' (slash_of_mem_dropSilent h) hnil, hkept, List.cons_append]

/-- Pieces joined without the silent ones at their end are settled. -/
theorem settled_relative (hfirst : first ≠ []) (h : ∀ piece ∈ first :: rest, '/' ∉ piece) :
    Settled ⟨['/'].intercalate (first :: dropSilent rest)⟩ := by
  obtain ⟨hhead, hrest⟩ := List.forall_mem_cons.1 h
  have hsplit : (['/'].intercalate (first :: dropSilent rest)).splitOn '/' =
      first :: dropSilent rest :=
    List.splitOn_intercalate '/'
      (List.forall_mem_cons.2 ⟨hhead, slash_of_mem_dropSilent hrest⟩) (by simp)
  by_cases hnil : dropSilent rest = []
  · rw [hnil] at hsplit ⊢
    by_cases hdot : first = ['.']
    · exact .inr (.inr (.inl (by rw [hdot]; rfl)))
    · refine .inl ⟨[], first, hsplit, ?_⟩
      unfold Component.ofPiece?
      split <;> simp_all
  · obtain ⟨c, hc⟩ : ∃ c, (rest.filterMap Component.ofPiece?).getLast? = some c :=
      Option.isSome_iff_exists.1 (List.getLast?_isSome.2 fun heq =>
        hnil ((filterMap_eq_nil_iff rest).1 heq))
    obtain ⟨front, piece, hkept, hpiece⟩ := exists_dropSilent_eq hc
    exact .inl ⟨first :: front, piece, by rw [hsplit, hkept, List.cons_append], by simp [hpiece]⟩

/-- A text with nothing behind its last component is settled. -/
theorem settled_of_trimmed (h : p.trimmed = p.text) : p.Settled := by
  obtain ⟨t⟩ := p
  by_cases hnil : t = []
  · exact .inr (.inl (by rw [hnil]))
  have hself : (⟨t⟩ : Path) = ⟨trimmed ⟨t⟩⟩ := by rw [h]
  by_cases hroot : ∃ rest, t = '/' :: rest
  · obtain ⟨rest, rfl⟩ := hroot
    rw [hself]
    exact settled_rooted (slash_of_mem_splitOn rest)
  · have hslash : ∀ rest, t ≠ '/' :: rest := fun rest heq => hroot ⟨rest, heq⟩
    obtain ⟨first, rest, hsplit, hfirst, hpieces, _⟩ := exists_relative hnil hslash
    rw [hself, trimmed_relative hslash hsplit]
    exact settled_relative hfirst hpieces

/-- A parent is cut off at the end of its last component. -/
theorem settled_of_parent? (h : p.parent? = some q) : q.Settled := by
  obtain ⟨t⟩ := p
  unfold parent? at h
  split at h
  · cases h
  · rename_i rest htext
    obtain rfl : t = '/' :: rest := htext
    split at h
    · cases h
    · obtain rfl := Option.some.inj h
      exact settled_rooted fun piece hpiece => slash_of_mem_dropSilent (slash_of_mem_splitOn rest)
        piece ((List.dropLast_sublist _).subset hpiece)
  · rename_i hnil hroot
    obtain ⟨first, rest, hsplit, hfirst, hpieces, _⟩ := exists_relative hnil hroot
    obtain ⟨hhead, hrest⟩ := List.forall_mem_cons.1 hpieces
    simp only [hsplit] at h
    split at h
    · obtain rfl := Option.some.inj h
      exact .inr (.inl rfl)
    · obtain rfl := Option.some.inj h
      refine settled_relative hfirst (List.forall_mem_cons.2 ⟨hhead, fun piece hpiece => ?_⟩)
      exact slash_of_mem_dropSilent hrest piece ((List.dropLast_sublist _).subset hpiece)

/-- A directory is spelled up to its last component, however the file is spelled. -/
theorem settled_directory (p : Path) : p.directory.Settled := by
  unfold directory
  cases h : p.parent? with
  | none => exact .inr (.inl rfl)
  | some q => exact settled_of_parent? h

namespace Settled

/-- Popping a component keeps a path settled. -/
theorem pop (h : p.Settled) : p.pop.Settled := by
  unfold Path.pop
  cases hparent : p.parent? with
  | none => exact h
  | some q => exact settled_of_parent? hparent

/-- A piece of a reference keeps a path settled. -/
theorem step (h : p.Settled) (hslash : '/' ∉ piece) : (p.step piece).Settled := by
  obtain ⟨_, hstep⟩ | ⟨_, hstep⟩ | ⟨hc, hstep⟩ := step_cases p piece
  · rwa [hstep]
  · rw [hstep]
    exact h.pop
  · rw [hstep]
    exact .inl (pointed_push p hslash (by simp [hc]))

/-- A reference that is joined to a settled path leads to a settled path. -/
theorem join (h : p.Settled) (reference : Text) : (p.join reference).Settled :=
  List.foldlRecOn _ Path.step (motive := Settled) h fun _ hq _ hpiece =>
    hq.step (slash_of_mem_splitOn _ _ hpiece)

end Settled

/-- One text, or two spellings of a place that end where its last component does. -/
def Akin (p q : Path) : Prop :=
  p = q ∨ p.Same q ∧ p.Settled ∧ q.Settled

/-- Akin paths are at the same place. -/
theorem Akin.same (h : p.Akin q) : p.Same q :=
  h.elim (fun heq => heq ▸ rfl) And.left

/-- Akin paths are one text, unless both end in a piece that stands for their last component. -/
theorem Akin.eq_or_pointed (h : p.Akin q) : p = q ∨ p.Same q ∧ p.Pointed ∧ q.Pointed := by
  rcases h with heq | ⟨hsame, hp, hq⟩
  · exact .inl heq
  · exact (hp.eq_or_pointed hq hsame).imp_right fun hpointed => ⟨hsame, hpointed⟩

/-- A reference leads on from the directories of two spellings of a file to spellings that are
akin. -/
theorem akin_join_directory (h : p.Same q) (reference : Text) :
    (p.directory.join reference).Akin (q.directory.join reference) :=
  .inr ⟨join_congr (directory_congr h) reference, (settled_directory p).join reference,
    (settled_directory q).join reference⟩

section Extension

variable {k : FileKind} (hkind : FileKind.ofPath? p = some k) (htrimmed : p.trimmed = p.text)
include hkind

/-- The file beside a build file with another extension is reached by a piece that depends on the
name of the file alone. -/
theorem exists_withExtension_push (other : FileKind) :
    ∃ name piece, IsName name ∧ '/' ∉ piece ∧ Component.ofPiece? piece ≠ none ∧
      ∀ q : Path, p.Same q → q.trimmed = q.text → ∃ front : Path, q.Same (front.push name) ∧
        q.withExtension other.extension = front.push piece := by
  obtain ⟨ext, hext, _⟩ := Option.bind_eq_some_iff.1 hkind
  obtain ⟨ending, hending, _⟩ := Option.map_eq_some_iff.1 hext
  obtain ⟨name, hname, hending⟩ := Option.bind_eq_some_iff.1 hending
  have hsplit : splitName name = ((splitName name).1, some ending) := Prod.ext rfl hending
  generalize (splitName name).1 = stem at hsplit
  have hisName := (exists_trimmed_eq hname).1
  have hnew : IsName (stem ++ '.' :: other.extension) := by
    rw [(splitName_eq_some_iff.1 hsplit).1] at hisName
    exact hisName.withEnding (extension_ne_nil other) (slash_extension other) (dot_extension other)
  have hexchanged : ∀ q : Path, p.Same q → q.trimmed = q.text → ∃ front : Path,
      q.Same (front.push name) ∧ q.withExtension other.extension =
        front.push (if stem = ['.'] then ['.', '.'] else stem ++ '.' :: other.extension) := by
    intro q hsame hq
    have hcomponents : p.components = q.components := hsame
    rw [fileName?, hcomponents] at hname
    obtain ⟨front, hfront, hvalue⟩ := exists_withExtension_eq hname hsplit other
    exact ⟨front, hfront, by simpa [hq] using hvalue⟩
  refine ⟨name, _, hisName, ?_, ?_, hexchanged⟩
  · split
    · decide
    · exact hnew.slash
  · split
    · decide
    · rw [hnew.ofPiece?]
      simp

include htrimmed

/-- The file beside a build file is one place for all spellings of the build file. -/
theorem withExtension_congr (h : p.Same q) (hq : q.trimmed = q.text) (other : FileKind) :
    (p.withExtension other.extension).Same (q.withExtension other.extension) := by
  obtain ⟨name, piece, hname, hslash, hpiece, hexchanged⟩ :=
    exists_withExtension_push hkind other
  obtain ⟨front, hfront, hvalue⟩ := hexchanged p rfl htrimmed
  obtain ⟨front', hfront', hvalue'⟩ := hexchanged q h hq
  have hsame : front.components = front'.components := by
    have heq : (front.push name).components = (front'.push name).components :=
      hfront.symm.trans (Eq.trans h hfront')
    rw [components_push_name front hname, components_push_name front' hname] at heq
    exact List.append_cancel_right heq
  obtain ⟨c, hc⟩ := Option.ne_none_iff_exists'.1 hpiece
  rw [hvalue, hvalue']
  exact push_congr hsame hslash hc

/-- A path with its extension replaced ends in the new one. -/
theorem settled_withExtension (other : FileKind) : (p.withExtension other.extension).Settled := by
  obtain ⟨_, piece, _, hslash, hpiece, hexchanged⟩ :=
    exists_withExtension_push hkind other
  obtain ⟨front, _, hvalue⟩ := hexchanged p rfl htrimmed
  rw [hvalue]
  exact .inl (pointed_push front hslash hpiece)

end Extension

end Path

end FirmwareIndex
