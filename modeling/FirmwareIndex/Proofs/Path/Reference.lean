import FirmwareIndex.Proofs.Path.Ending
import FirmwareIndex.Proofs.Path.Spelling
import FirmwareIndex.Proofs.Text.Pieces

/-!
# Where references lead

A reference that is made of names alone leads to the path that has those names pushed to it, and the
text of such a path ends with the reference. References with `..` first take names away, and what
they push comes after a path that has become no longer. So however many references a path has been
reached by, if it is the place that a reference of names leads to from a root, then it ends with
that reference (`Path.GrownOver.hasEnding`), although its text may start in another way.
-/

set_option autoImplicit false

namespace FirmwareIndex.Path

/-- A piece of a reference stands for nothing, for the directory above, or for its own name. -/
theorem step_cases (p : Path) (piece : Text) :
    (Component.ofPiece? piece = none ∧ p.step piece = p) ∨
      (Component.ofPiece? piece = some .up ∧ p.step piece = p.pop) ∨
      (Component.ofPiece? piece = some (.name piece) ∧ p.step piece = p.push piece) := by
  by_cases hsilent : piece = [] ∨ piece = ['.']
  · obtain rfl | rfl := hsilent
    · exact .inl ⟨rfl, rfl⟩
    · exact .inl ⟨rfl, rfl⟩
  by_cases hup : piece = ['.', '.']
  · subst hup
    exact .inr (.inl ⟨rfl, rfl⟩)
  obtain ⟨hnil, hdot⟩ := not_or.1 hsilent
  refine .inr (.inr ⟨?_, by simp [step, hnil, hdot, hup]⟩)
  unfold Component.ofPiece?
  split <;> simp_all

section Parent

variable {p q : Path} {pieces rest : List Text} {piece first name : Text}

/-- Pieces that stand for no component leave no trace. -/
theorem dropSilent_concat (pieces : List Text) (h : Component.ofPiece? piece = none) :
    dropSilent (pieces ++ [piece]) = dropSilent pieces := by
  simp [dropSilent, h]

/-- The silent pieces at the end stand for no components. -/
theorem filterMap_dropSilent (pieces : List Text) :
    (dropSilent pieces).filterMap Component.ofPiece? = pieces.filterMap Component.ofPiece? := by
  induction pieces using List.reverseRecOn with
  | nil => rfl
  | append_singleton pieces piece ih =>
    by_cases hpiece : Component.ofPiece? piece = none
    · simp [dropSilent_concat pieces hpiece, ih, hpiece]
    · rw [dropSilent_append hpiece]

/-- Without its last piece that stands for a component, a list of pieces lacks that component. -/
theorem filterMap_dropLast_dropSilent (pieces : List Text) :
    (dropSilent pieces).dropLast.filterMap Component.ofPiece? =
      (pieces.filterMap Component.ofPiece?).dropLast := by
  induction pieces using List.reverseRecOn with
  | nil => rfl
  | append_singleton pieces piece ih =>
    cases hpiece : Component.ofPiece? piece with
    | none => simp [dropSilent_concat pieces hpiece, ih, hpiece]
    | some c =>
      have hne : Component.ofPiece? piece ≠ none := by simp [hpiece]
      simp [dropSilent_append hne, hpiece]

/-- Pieces stand for no component if all of them are silent. -/
theorem filterMap_eq_nil_iff (pieces : List Text) :
    pieces.filterMap Component.ofPiece? = [] ↔ dropSilent pieces = [] := by
  induction pieces using List.reverseRecOn with
  | nil => simp [dropSilent]
  | append_singleton pieces piece ih =>
    by_cases hpiece : Component.ofPiece? piece = none
    · simp only [List.filterMap_append, List.filterMap_cons, hpiece, List.filterMap_nil,
        List.append_nil, dropSilent_concat pieces hpiece, ih]
    · obtain ⟨c, hc⟩ := Option.ne_none_iff_exists'.1 hpiece
      simp [dropSilent_append hpiece, hc]

/-- Pieces without slashes are left without slashes. -/
theorem slash_of_mem_dropSilent (hpieces : ∀ piece ∈ pieces, '/' ∉ piece) :
    ∀ piece ∈ dropSilent pieces, '/' ∉ piece := by
  intro piece hpiece
  refine hpieces piece (List.mem_reverse.1 ?_)
  exact (List.dropWhile_sublist _).subset (List.mem_reverse.1 hpiece)

/-- The components of a text that starts at the root and is joined from pieces. -/
theorem components_rooted (h : ∀ piece ∈ pieces, '/' ∉ piece) :
    components ⟨'/' :: ['/'].intercalate pieces⟩ =
      .root :: pieces.filterMap Component.ofPiece? := by
  by_cases hnil : pieces = []
  · rw [hnil]
    rfl
  · have hsplit := List.splitOn_intercalate '/' h hnil
    simp only [components, hsplit]

/-- The components of a text that does not start at the root and is joined from pieces. -/
theorem components_relative (hfirst : first ≠ []) (h : ∀ piece ∈ first :: rest, '/' ∉ piece) :
    components ⟨['/'].intercalate (first :: rest)⟩ =
      startOf first ++ rest.filterMap Component.ofPiece? := by
  rw [components_eq_ofPieces, List.splitOn_intercalate '/' h (by simp), ofPieces]
  simp [hfirst]

/-- The pieces of a text that is neither empty nor starts at the root. -/
theorem exists_relative {t : Text} (hnil : t ≠ []) (hslash : ∀ rest, t ≠ '/' :: rest) :
    ∃ first rest, t.splitOn '/' = first :: rest ∧ first ≠ [] ∧
      (∀ piece ∈ first :: rest, '/' ∉ piece) ∧ t = ['/'].intercalate (first :: rest) := by
  obtain ⟨first, rest, hsplit⟩ := List.exists_cons_of_ne_nil (List.splitOn_ne_nil '/' t)
  refine ⟨first, rest, hsplit, ?_, fun piece hpiece => ?_, ?_⟩
  · rintro rfl
    cases t with
    | nil => exact hnil rfl
    | cons c t =>
      have hc : c ≠ '/' := fun hc => hslash t (hc ▸ rfl)
      rw [List.splitOn_cons_eq_if_modifyHead, if_neg (by simpa using hc)] at hsplit
      cases htail : t.splitOn '/' <;> simp [htail] at hsplit
  · exact (Text.mem_splitOn (hsplit ▸ hpiece)).1
  · rw [← hsplit, List.intercalate_splitOn]

/-- A relative path is trimmed by dropping the silent pieces at its end, but never the first. -/
theorem trimmed_relative {t : Text} (hslash : ∀ rest, t ≠ '/' :: rest)
    (hsplit : t.splitOn '/' = first :: rest) :
    trimmed ⟨t⟩ = ['/'].intercalate (first :: dropSilent rest) := by
  unfold trimmed
  split
  · rename_i rest heq
    exact absurd heq (hslash rest)
  · simp only [hsplit]

/-- The pieces between the slashes have no slash in them. -/
theorem slash_of_mem_splitOn (t : Text) : ∀ piece ∈ t.splitOn '/', '/' ∉ piece :=
  fun _ hpiece => (Text.mem_splitOn hpiece).1

/-- The text of a path up to its last component is the same place. -/
theorem components_trimmed (p : Path) : components ⟨p.trimmed⟩ = p.components := by
  obtain ⟨t⟩ := p
  by_cases hnil : t = []
  · rw [hnil]
    rfl
  by_cases hroot : ∃ rest, t = '/' :: rest
  · obtain ⟨rest, rfl⟩ := hroot
    have hpieces := slash_of_mem_dropSilent (slash_of_mem_splitOn rest)
    simp only [trimmed]
    rw [components_rooted hpieces, filterMap_dropSilent]
    simp only [components]
  · obtain ⟨first, rest, hsplit, hfirst, hpieces, ht⟩ :=
      exists_relative hnil fun rest heq => hroot ⟨rest, heq⟩
    obtain ⟨hhead, hrest⟩ := List.forall_mem_cons.1 hpieces
    have hkept : ∀ piece ∈ first :: dropSilent rest, '/' ∉ piece :=
      List.forall_mem_cons.2 ⟨hhead, slash_of_mem_dropSilent hrest⟩
    rw [trimmed_relative (fun rest heq => hroot ⟨rest, heq⟩) hsplit,
      components_relative hfirst hkept, filterMap_dropSilent, ht,
      components_relative hfirst hpieces]

/-- A first piece stands for one component at most. -/
theorem dropLast_startOf (piece : Text) : (startOf piece).dropLast = [] := by
  unfold startOf
  split
  · rfl
  · rfl
  · cases Component.ofPiece? _ <;> rfl

/-- The parent of a path has the components of the path but the last one. -/
theorem components_of_parent?_eq_some (h : p.parent? = some q) :
    q.components = p.components.dropLast := by
  obtain ⟨t⟩ := p
  unfold parent? at h
  split at h
  · cases h
  · rename_i rest htext
    obtain rfl : t = '/' :: rest := htext
    split at h
    · cases h
    · rename_i hne
      obtain rfl := Option.some.inj h
      have hpieces := slash_of_mem_dropSilent fun piece hpiece =>
        slash_of_mem_dropSilent (slash_of_mem_splitOn rest) piece
          ((List.dropLast_sublist _).subset hpiece)
      have hsome : (rest.splitOn '/').filterMap Component.ofPiece? ≠ [] :=
        fun hnil => hne ((filterMap_eq_nil_iff _).1 hnil)
      rw [components_rooted hpieces, filterMap_dropSilent, filterMap_dropLast_dropSilent]
      simp only [components]
      rw [List.dropLast_cons_of_ne_nil hsome]
  · rename_i hnil hroot
    obtain ⟨first, rest, hsplit, hfirst, hpieces, ht⟩ := exists_relative hnil hroot
    obtain ⟨hhead, hrest⟩ := List.forall_mem_cons.1 hpieces
    have hcomponents := components_relative hfirst hpieces
    rw [← ht] at hcomponents
    simp only [hsplit] at h
    rw [hcomponents]
    split at h
    · rename_i hsilent
      obtain rfl := Option.some.inj h
      rw [(filterMap_eq_nil_iff rest).2 hsilent, List.append_nil, dropLast_startOf]
      rfl
    · rename_i hne
      obtain rfl := Option.some.inj h
      have hkept := slash_of_mem_dropSilent fun piece hpiece =>
        slash_of_mem_dropSilent hrest piece ((List.dropLast_sublist _).subset hpiece)
      have hsome : rest.filterMap Component.ofPiece? ≠ [] :=
        fun hnil => hne ((filterMap_eq_nil_iff _).1 hnil)
      rw [components_relative hfirst (List.forall_mem_cons.2 ⟨hhead, hkept⟩), filterMap_dropSilent,
        filterMap_dropLast_dropSilent, List.dropLast_append_of_ne_nil hsome]

/-- Only the empty path and the root have no parent. -/
theorem parent?_eq_none_iff :
    p.parent? = none ↔ p.components = [] ∨ p.components = [.root] := by
  obtain ⟨t⟩ := p
  by_cases hnil : t = []
  · rw [hnil]
    exact iff_of_true rfl (.inl rfl)
  by_cases hroot : ∃ rest, t = '/' :: rest
  · obtain ⟨rest, rfl⟩ := hroot
    have hcomponents : components ⟨'/' :: rest⟩ =
        .root :: (rest.splitOn '/').filterMap Component.ofPiece? := rfl
    simp only [hcomponents, parent?, List.cons.injEq, true_and, filterMap_eq_nil_iff]
    split <;> simp_all
  · have hslash : ∀ rest, t ≠ '/' :: rest := fun rest heq => hroot ⟨rest, heq⟩
    obtain ⟨first, rest, hsplit, hfirst, _, _⟩ := exists_relative hnil hslash
    have hsome : parent? ⟨t⟩ ≠ none := by
      unfold parent?
      split
      · contradiction
      · rename_i rest heq
        exact absurd heq (hslash rest)
      · simp only [hsplit]
        split <;> simp
    obtain ⟨c, hstart, _, hne⟩ := exists_startOf_eq hfirst
    rw [components_of_splitOn hnil hsplit, hstart]
    refine iff_of_false hsome ?_
    rintro (heq | heq)
    · cases heq
    · exact hne (List.cons.inj heq).1

/-- The components of a path tell whether it starts at the root. -/
theorem isAbsolute_iff : p.isAbsolute = true ↔ p.components.head? = some .root := by
  obtain ⟨t⟩ := p
  by_cases hroot : ∃ rest, t = '/' :: rest
  · obtain ⟨rest, rfl⟩ := hroot
    exact iff_of_true rfl rfl
  · have hslash : ∀ rest, t ≠ '/' :: rest := fun rest heq => hroot ⟨rest, heq⟩
    have hrelative : ¬ isAbsolute ⟨t⟩ = true := by
      simpa [isAbsolute, List.head?_eq_some_iff] using hslash
    refine iff_of_false hrelative ?_
    by_cases hnil : t = []
    · rw [hnil]
      exact nofun
    · obtain ⟨first, rest, hsplit, hfirst, _, _⟩ := exists_relative hnil hslash
      obtain ⟨c, hstart, _, hne⟩ := exists_startOf_eq hfirst
      rw [components_of_splitOn hnil hsplit, hstart]
      exact fun heq => hne (Option.some.inj heq)

/-- The parent of a path from the root, on its text. -/
theorem parent?_rooted {t : Text} (hsplit : t.splitOn '/' = pieces ++ [name])
    (hname : Component.ofPiece? name ≠ none) :
    parent? ⟨'/' :: t⟩ = some ⟨'/' :: ['/'].intercalate (dropSilent pieces)⟩ := by
  simp only [parent?, hsplit, dropSilent_append hname]
  split
  · simp_all
  · rw [List.dropLast_concat]

/-- The parent of a relative path, on its text. -/
theorem parent?_relative {t : Text} (hnil : t ≠ []) (hslash : ∀ rest, t ≠ '/' :: rest)
    (hsplit : t.splitOn '/' = first :: (rest ++ [name]))
    (hname : Component.ofPiece? name ≠ none) :
    parent? ⟨t⟩ = some ⟨['/'].intercalate (first :: dropSilent rest)⟩ := by
  unfold parent?
  split
  · contradiction
  · rename_i rest heq
    exact absurd heq (hslash rest)
  · simp only [hsplit, dropSilent_append hname]
    split
    · simp_all
    · rw [List.dropLast_concat]

/-- The text of a path stays in front of a piece that is pushed to it. -/
theorem exists_push_eq (p : Path) (hslash : '/' ∉ piece) :
    ∃ t, p.push piece = ⟨p.text ++ t⟩ := by
  rw [push_eq p hslash, lead]
  split
  · exact ⟨piece, rfl⟩
  · exact ⟨'/' :: piece, by simp⟩

/-- The parent of a path that a name was pushed to. -/
theorem parent?_push (p : Path) (h : IsName name) : (p.push name).parent? = some ⟨p.trimmed⟩ := by
  have hname : Component.ofPiece? name ≠ none := by
    rw [h.ofPiece?]
    simp
  obtain ⟨t⟩ := p
  by_cases hnil : t = []
  · obtain rfl := hnil
    have hpush : push ⟨[]⟩ name = ⟨name⟩ := push_eq ⟨[]⟩ h.slash
    rw [hpush, parent?]
    split
    · exact absurd ‹_› h.ne_nil
    · rename_i rest heq
      have hmem : '/' ∈ (⟨name⟩ : Path).text := heq ▸ List.mem_cons_self
      exact absurd hmem h.slash
    · simp only [List.splitOn_eq_singleton h.slash]
      rfl
  · obtain ⟨pre, hpre, hsplit, hpush⟩ := exists_splitOn_push (p := ⟨t⟩) hnil
    obtain ⟨first, rest, rfl⟩ := List.exists_cons_of_ne_nil hpre
    have hpush := hpush name h.slash
    obtain ⟨back, hback⟩ := exists_push_eq ⟨t⟩ h.slash
    have hsilent : dropSilent (rest ++ [[]]) = dropSilent rest := dropSilent_concat rest rfl
    rw [hback] at hpush ⊢
    by_cases hroot : ∃ r, t = '/' :: r
    · obtain ⟨r, rfl⟩ := hroot
      have hcut : ∀ t : Text, ('/' :: t).splitOn '/' = [] :: t.splitOn '/' := by
        intro t
        rw [List.splitOn_cons_eq_if_modifyHead, if_pos (by decide)]
      simp only [List.cons_append, hcut, List.cons.injEq] at hpush hsplit ⊢
      rw [parent?_rooted hpush.2 hname]
      rcases hsplit with ⟨_, hsplit⟩ | ⟨_, hsplit⟩
      · simp only [trimmed, hsplit]
      · simp only [trimmed, hsplit, hsilent]
    · have hslash : ∀ r, t ≠ '/' :: r := fun r heq => hroot ⟨r, heq⟩
      have hslash' : ∀ r, t ++ back ≠ '/' :: r := by
        obtain ⟨c, t, rfl⟩ := List.exists_cons_of_ne_nil hnil
        intro r heq
        exact hslash t (by rw [(List.cons.inj heq).1])
      rw [parent?_relative (by simp [hnil]) hslash' hpush hname]
      rcases hsplit with hsplit | hsplit
      · rw [trimmed_relative hslash hsplit]
      · rw [List.cons_append] at hsplit
        rw [trimmed_relative hslash hsplit, hsilent]

end Parent

section Ending

variable {p : Path} {names : List Text} {reference name : Text}

/-- The pieces of a reference between its slashes. -/
def piecesOf (reference : Text) : List Text :=
  (Text.slashed (Text.trim reference)).splitOn '/'

/-- The reference is made of names alone. -/
def IsPlain (reference : Text) : Prop :=
  ∀ piece ∈ piecesOf reference, IsName piece

instance (reference : Text) : Decidable (IsPlain reference) :=
  inferInstanceAs (Decidable (∀ piece ∈ piecesOf reference, IsName piece))

/-- The pieces of a reference make its trimmed text, with slashes alone. -/
theorem intercalate_piecesOf (reference : Text) :
    ['/'].intercalate (piecesOf reference) = Text.slashed (Text.trim reference) :=
  List.intercalate_splitOn '/'

/-- A reference that is made of names leads to the path that has them pushed to it. -/
theorem join_eq_descend (p : Path) (h : IsPlain reference) :
    p.join reference = p.descend (piecesOf reference) := by
  have hstep : ∀ (pieces : List Text) (p : Path), (∀ piece ∈ pieces, IsName piece) →
      pieces.foldl step p = p.descend pieces := by
    intro pieces
    induction pieces with
    | nil => exact fun _ _ => rfl
    | cons piece rest ih =>
      intro p hpieces
      obtain ⟨hpiece, hrest⟩ := List.forall_mem_cons.1 hpieces
      have hpush : p.step piece = p.push piece := by
        simp [step, hpiece.ne_nil, hpiece.ne_dot, hpiece.ne_dots]
      rw [List.foldl_cons, hpush, ih _ hrest]
      rfl
  exact hstep _ p h

/-- A further name is put behind a slash after the last one. -/
theorem lead_push (p : Path) (h : IsName name) :
    (p.push name).lead = (p.push name).text ++ ['/'] := by
  obtain ⟨c, hc⟩ := Option.isSome_iff_exists.1 (List.getLast?_isSome.2 h.ne_nil)
  have hne : c ≠ '/' := fun heq => h.slash (heq ▸ List.mem_of_getLast? hc)
  rw [lead, push_eq p h.slash, List.getLast?_append_of_ne_nil _ h.ne_nil, hc]
  simp [h.ne_nil, hne]

/-- The text of a path with names pushed to it ends in the names with slashes between them. -/
theorem text_descend (p : Path) (hne : names ≠ []) (h : ∀ name ∈ names, IsName name) :
    (p.descend names).text = p.lead ++ ['/'].intercalate names := by
  induction names using List.reverseRecOn with
  | nil => contradiction
  | append_singleton names name ih =>
    rw [descend_concat, push_eq _ (h name (by simp)).slash]
    rcases List.eq_nil_or_concat' names with rfl | ⟨front, last, rfl⟩
    · simp [descend]
    · have hne : front ++ [last] ≠ [] := by simp
      have htext := ih hne fun n hn => h n (List.mem_append_left _ hn)
      rw [descend_concat, lead_push _ (h last (by simp)), ← descend_concat, htext,
        Text.intercalate_concat hne]
      simp only [List.append_assoc, List.singleton_append]

/-- What stands in front of a pushed name is nothing or ends in a slash. -/
theorem lead_eq_nil_or (p : Path) : p.lead = [] ∨ ∃ front, p.lead = front ++ ['/'] := by
  unfold lead
  split
  · rename_i hend
    rcases (by simpa using hend : p.text = [] ∨ p.text.getLast? = some '/') with hend | hend
    · exact .inl hend
    · exact .inr (List.getLast?_eq_some_iff.1 hend)
  · exact .inr ⟨_, rfl⟩

/-- Of a reference that is made of names all is wanted. -/
theorem wanted_eq_of_isPlain (h : IsPlain reference) :
    wanted reference = Text.slashed (Text.trim reference) ∧ wanted reference ≠ [] := by
  obtain ⟨first, others, hpieces⟩ : ∃ first others, piecesOf reference = first :: others :=
    List.exists_cons_of_ne_nil (List.splitOn_ne_nil _ _)
  have hfirst : IsName first := h first (hpieces ▸ List.mem_cons_self)
  obtain ⟨c, name, rfl⟩ := List.exists_cons_of_ne_nil hfirst.ne_nil
  have hc : c ≠ '/' := fun hc => hfirst.slash (hc ▸ List.mem_cons_self)
  obtain ⟨rest, htext⟩ : ∃ rest, Text.slashed (Text.trim reference) = c :: rest := by
    rw [← intercalate_piecesOf, hpieces]
    cases others with
    | nil => exact ⟨name, List.intercalate_singleton⟩
    | cons next others => exact ⟨_, List.intercalate_cons_cons⟩
  simp [wanted, htext, hc]

/-- A path whose text ends in a reference where a piece begins ends with the reference. -/
theorem hasEnding_eq_true {front : Text} (h : IsPlain reference)
    (hfront : front = [] ∨ ∃ rest, front = rest ++ ['/'])
    (hp : p.normalized = front ++ Text.slashed (Text.trim reference)) :
    p.hasEnding reference = true := by
  obtain ⟨hwanted, hne⟩ := wanted_eq_of_isPlain h
  refine hasEnding_eq_true_iff.2 ⟨hne, front, hwanted ▸ hp, hfront.imp_right ?_⟩
  exact List.getLast?_eq_some_iff.2

/-- A path that the names of a reference were pushed to ends with the reference. -/
theorem hasEnding_descend (p : Path) (front : List Text) (h : IsPlain reference) :
    (p.descend (front ++ piecesOf reference)).hasEnding reference = true := by
  have hdescend : p.descend (front ++ piecesOf reference) =
      (p.descend front).descend (piecesOf reference) := List.foldl_append
  have hfront : Text.slashed (p.descend front).lead = [] ∨
      ∃ rest, Text.slashed (p.descend front).lead = rest ++ ['/'] := by
    rcases (p.descend front).lead_eq_nil_or with hlead | ⟨rest, hlead⟩
    · exact .inl (by rw [hlead]; rfl)
    · exact .inr ⟨Text.slashed rest, by simp [hlead, Text.slashed]⟩
  apply hasEnding_eq_true h hfront
  have hne : piecesOf reference ≠ [] := List.splitOn_ne_nil _ _
  rw [hdescend, normalized, text_descend _ hne h, intercalate_piecesOf, Text.slashed,
    List.map_append]
  exact congrArg _ (Text.slashed_slashed _)

end Ending

section Grown

variable {p q root : Path} {reference name : Text}

/-- The path has names pushed to a path of no more components than `root`. -/
def GrownOver (p root : Path) : Prop :=
  ∃ (base : Path) (names : List Text), base.components.length ≤ root.components.length ∧
    (∀ name ∈ names, IsName name) ∧ p = base.descend names

/-- A path spelled below the root has grown over it. -/
theorem SpelledBelow.grownOver (h : p.SpelledBelow root) : p.GrownOver root := by
  obtain ⟨names, hnames, rfl⟩ := h
  exact ⟨root, names, Nat.le_refl _, hnames, rfl⟩

namespace GrownOver

/-- Every path has grown over itself. -/
theorem self (root : Path) : root.GrownOver root :=
  ⟨root, [], Nat.le_refl _, by simp, rfl⟩

/-- A path that has grown over the root still has when a name is pushed to it. -/
theorem push (h : p.GrownOver root) (hname : IsName name) : (p.push name).GrownOver root := by
  obtain ⟨base, names, hbase, hnames, rfl⟩ := h
  refine ⟨base, names ++ [name], hbase, ?_, (descend_concat base names name).symm⟩
  simpa [or_imp, forall_and] using ⟨hnames, hname⟩

/-- A parent has grown over the root as well, be it above the root. -/
theorem parent? (h : p.GrownOver root) (hq : p.parent? = some q) : q.GrownOver root := by
  obtain ⟨base, names, hbase, hnames, rfl⟩ := h
  rcases List.eq_nil_or_concat' names with rfl | ⟨front, last, rfl⟩
  · have hlength : q.components.length ≤ base.components.length := by
      rw [components_of_parent?_eq_some hq, List.length_dropLast]
      exact Nat.sub_le _ _
    exact ⟨q, [], Nat.le_trans hlength hbase, by simp, rfl⟩
  · rw [descend_concat, parent?_push _ (hnames last (by simp))] at hq
    obtain rfl := Option.some.inj hq
    rcases List.eq_nil_or_concat' front with rfl | ⟨others, name, rfl⟩
    · refine ⟨⟨base.trimmed⟩, [], ?_, by simp, rfl⟩
      rw [components_trimmed]
      exact hbase
    · refine ⟨base, others ++ [name], hbase, fun n hn => hnames n (List.mem_append_left _ hn), ?_⟩
      rw [descend_concat, trimmed_push _ (hnames name (by simp))]

/-- The directory of a path that has grown over the root has, too. -/
theorem directory (h : p.GrownOver root) : p.directory.GrownOver root := by
  rw [Path.directory]
  cases hparent : p.parent? with
  | none => exact ⟨⟨[]⟩, [], Nat.zero_le _, by simp, rfl⟩
  | some q => exact h.parent? hparent

/-- A piece of a reference leads to a path that has grown over the root. -/
theorem step (h : p.GrownOver root) {piece : Text} (hslash : '/' ∉ piece) :
    (p.step piece).GrownOver root := by
  obtain ⟨_, hstep⟩ | ⟨_, hstep⟩ | ⟨hname, hstep⟩ := step_cases p piece
  · rwa [hstep]
  · rw [hstep, pop]
    cases hparent : p.parent? with
    | none => exact h
    | some q => exact h.parent? hparent
  · rw [hstep]
    exact h.push (isName_of_ofPiece? hname hslash)

/-- No reference leads to a path that starts in more than the root. -/
theorem join (h : p.GrownOver root) (reference : Text) : (p.join reference).GrownOver root :=
  List.foldlRecOn (piecesOf reference) Path.step (motive := fun p : Path => p.GrownOver root) h
    fun _ hp _ hpiece => hp.step (Text.mem_splitOn hpiece).1

/-- A path that is the place of a reference of names ends with the reference. -/
theorem hasEnding (h : p.GrownOver root) (hplain : IsPlain reference)
    (hsame : p.Same (root.join reference)) : p.hasEnding reference = true := by
  obtain ⟨base, names, hbase, hnames, rfl⟩ := h
  have hcomponents : base.components ++ names.map Component.name =
      root.components ++ (piecesOf reference).map Component.name := by
    rw [← components_descend base hnames, ← components_descend root hplain,
      ← join_eq_descend root hplain]
    exact hsame
  obtain ⟨front, hfront⟩ : ∃ front, names = front ++ piecesOf reference := by
    have hsuffix : (piecesOf reference).map Component.name <:+ names.map Component.name := by
      refine List.suffix_of_suffix_length_le (List.suffix_append root.components _)
        (hcomponents ▸ List.suffix_append base.components _) ?_
      have hlength := congrArg List.length hcomponents
      simp only [List.length_append, List.length_map] at hlength ⊢
      omega
    obtain ⟨front, hfront⟩ := hsuffix
    obtain ⟨start, back, rfl, rfl, hback⟩ := List.map_eq_append_iff.1 hfront.symm
    exact ⟨start, by rw [List.map_injective_iff.2 (fun _ _ heq => Component.name.inj heq) hback]⟩
  rw [hfront]
  exact hasEnding_descend base front hplain

end GrownOver

end Grown

end FirmwareIndex.Path
