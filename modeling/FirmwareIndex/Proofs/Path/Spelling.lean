import FirmwareIndex.Path.Basic
import FirmwareIndex.Proofs.Text.Pieces
import Mathlib.Data.List.Basic
import Mathlib.Data.List.Induction

/-!
# Spellings of paths

The files below a directory are spelled by its path and their names, one pushed after the other.
Each name is then a component of its own (`Path.components_descend`), so two files that are spelled
like this are the same place only if their spellings are equal. Exchanging the extension of such a
path exchanges the end of its last name (`Path.withExtension_push`). A component that a piece stands
for is written as this piece (`Component.piece?_eq_some`).
-/

set_option autoImplicit false

namespace FirmwareIndex

/-- The piece that a component is written as. The root has none. -/
def Component.piece? : Component → Option Text
  | .root => none
  | .here => some ['.']
  | .up => some ['.', '.']
  | .name t => some t

/-- The component of a piece is written as this piece, and is neither the root nor `.`. -/
theorem Component.piece?_eq_some {piece : Text} {c : Component} (h : ofPiece? piece = some c) :
    c.piece? = some piece ∧ c ≠ .root ∧ c ≠ .here := by
  unfold ofPiece? at h
  split at h
  · cases h
  · cases h
  · obtain rfl := Option.some.inj h
    exact ⟨rfl, by simp, by simp⟩
  · obtain rfl := Option.some.inj h
    exact ⟨rfl, by simp, by simp⟩

namespace Path

/-- A text that an entry of a directory can have as its name. -/
structure IsName (name : Text) : Prop where
  ne_nil : name ≠ []
  ne_dot : name ≠ ['.']
  ne_dots : name ≠ ['.', '.']
  slash : '/' ∉ name

instance (name : Text) : Decidable (IsName name) :=
  decidable_of_iff (name ≠ [] ∧ name ≠ ['.'] ∧ name ≠ ['.', '.'] ∧ '/' ∉ name)
    ⟨fun ⟨hnil, hdot, hdots, hslash⟩ => ⟨hnil, hdot, hdots, hslash⟩,
      fun h => ⟨h.ne_nil, h.ne_dot, h.ne_dots, h.slash⟩⟩

/-- A name stands for itself. -/
theorem IsName.ofPiece? {name : Text} (h : IsName name) :
    Component.ofPiece? name = some (.name name) := by
  unfold Component.ofPiece?
  split
  · exact absurd rfl h.ne_nil
  · exact absurd rfl h.ne_dot
  · exact absurd rfl h.ne_dots
  · rfl

/-- Only the name stands for its component. -/
theorem ofPiece?_eq_name {piece name : Text} (h : Component.ofPiece? piece = some (.name name)) :
    piece = name :=
  Option.some.inj (Component.piece?_eq_some h).1.symm

/-- What stands for a component of its own name can be the name of an entry. -/
theorem isName_of_ofPiece? {name : Text} (h : Component.ofPiece? name = some (.name name))
    (hslash : '/' ∉ name) : IsName name where
  ne_nil heq := by simp [heq, Component.ofPiece?] at h
  ne_dot heq := by simp [heq, Component.ofPiece?] at h
  ne_dots heq := by simp [heq, Component.ofPiece?] at h
  slash := hslash

/-- The text of the path up to where a further piece is put. -/
def lead (p : Path) : Text :=
  if p.text = [] || p.text.getLast? = some '/' then p.text else p.text ++ ['/']

/-- The path of an entry some directories below. -/
def descend (p : Path) (names : List Text) : Path :=
  names.foldl push p

/-- The components that the first piece of a text stands for when others follow it. -/
def startOf : Text → List Component
  | [] => [.root]
  | ['.'] => [.here]
  | piece => (Component.ofPiece? piece).toList

/-- The components that the pieces between the slashes of a text stand for. -/
def ofPieces : List Text → List Component
  | [] | [[]] => []
  | first :: rest => startOf first ++ rest.filterMap Component.ofPiece?

variable {p q : Path} {piece first : Text} {rest : List Text} {c : Component}

/-- A piece is pushed by writing it behind the lead of the path. -/
theorem push_eq (p : Path) (hslash : '/' ∉ piece) : p.push piece = ⟨p.lead ++ piece⟩ := by
  have hhead : piece.head? ≠ some '/' := fun h => hslash (List.mem_of_head? h)
  unfold push lead
  rw [if_neg hhead]
  split <;> simp

/-- A first piece that is neither empty nor `.` stands for what it stands for anywhere. -/
theorem startOf_eq (hnil : piece ≠ []) (hdot : piece ≠ ['.']) :
    startOf piece = (Component.ofPiece? piece).toList := by
  unfold startOf
  split
  · contradiction
  · contradiction
  · rfl

/-- The components of a path are read off the pieces between its slashes. -/
theorem components_eq_ofPieces (p : Path) : p.components = ofPieces (p.text.splitOn '/') := by
  unfold components
  split
  · rename_i rest htext
    rw [htext, List.splitOn_cons_eq_if_modifyHead, if_pos (by decide)]
    cases hrest : rest.splitOn '/' with
    | nil => exact absurd hrest (List.splitOn_ne_nil _ _)
    | cons piece pieces => rfl
  · rename_i t hslash
    generalize htext : p.text = text at hslash
    cases text with
    | nil => rfl
    | cons c text =>
      have hc : c ≠ '/' := fun heq => hslash text (heq ▸ rfl)
      obtain ⟨first, rest, hsplit⟩ := List.exists_cons_of_ne_nil (List.splitOn_ne_nil '/' text)
      have hpieces : (c :: text).splitOn '/' = (c :: first) :: rest := by
        rw [List.splitOn_cons_eq_if_modifyHead, if_neg (by simpa using hc), hsplit]
        rfl
      rw [hpieces]
      by_cases hdot : c :: first = ['.']
      · rw [hdot]
        rfl
      · have hfilter : ofPieces ((c :: first) :: rest) =
            ((c :: first) :: rest).filterMap Component.ofPiece? := by
          rw [ofPieces, startOf_eq (by simp) hdot]
          · cases hpiece : Component.ofPiece? (c :: first) <;> simp [hpiece]
          · simp
        rw [hfilter]
        split
        · rename_i heq
          exact absurd (List.cons.inj heq).1 hdot
        · rfl

/-- A first piece that is not empty stands for a component that is written as the piece. -/
theorem exists_startOf_eq (h : first ≠ []) :
    ∃ c, startOf first = [c] ∧ c.piece? = some first ∧ c ≠ .root := by
  by_cases hdot : first = ['.']
  · exact ⟨.here, by rw [hdot]; rfl, by rw [hdot]; rfl, by simp⟩
  · obtain ⟨c, hc⟩ : ∃ c, Component.ofPiece? first = some c := by
      unfold Component.ofPiece?
      split <;> simp_all
    obtain ⟨hpiece, hne, _⟩ := Component.piece?_eq_some hc
    exact ⟨c, by rw [startOf_eq h hdot, hc]; rfl, hpiece, hne⟩

/-- The components of a path by its first piece and the others. -/
theorem components_of_splitOn (hnil : p.text ≠ []) (hsplit : p.text.splitOn '/' = first :: rest) :
    p.components = startOf first ++ rest.filterMap Component.ofPiece? := by
  have hempty : first :: rest ≠ [[]] := by
    intro heq
    have htext : ['/'].intercalate (p.text.splitOn '/') = p.text := List.intercalate_splitOn '/'
    rw [hsplit, heq] at htext
    exact hnil (by simpa using htext.symm)
  rw [components_eq_ofPieces, hsplit, ofPieces]
  simpa using hempty

/-- The pieces of a path, and those of the path followed by another piece. -/
theorem exists_splitOn_push (h : p.text ≠ []) :
    ∃ pre, pre ≠ [] ∧ (p.text.splitOn '/' = pre ∨ p.text.splitOn '/' = pre ++ [[]]) ∧
      ∀ piece : Text, '/' ∉ piece → (p.push piece).text.splitOn '/' = pre ++ [piece] := by
  have hsplit : ∀ (front piece : Text), '/' ∉ piece →
      (front ++ '/' :: piece).splitOn '/' = front.splitOn '/' ++ [piece] := by
    intro front piece hslash
    rw [List.splitOn_append_cons_self, List.splitOn_eq_singleton hslash]
  by_cases hlast : p.text.getLast? = some '/'
  · obtain ⟨front, hfront⟩ := List.getLast?_eq_some_iff.1 hlast
    refine ⟨front.splitOn '/', List.splitOn_ne_nil _ _, .inr ?_, fun piece hslash => ?_⟩
    · rw [hfront, hsplit front [] (by simp)]
    · have hlead : p.lead = front ++ ['/'] := by simp [lead, hfront]
      rw [push_eq p hslash, hlead, List.append_assoc, List.singleton_append, hsplit front _ hslash]
  · refine ⟨p.text.splitOn '/', List.splitOn_ne_nil _ _, .inl rfl, ?_⟩
    intro piece hslash
    have hlead : p.lead = p.text ++ ['/'] := by simp [lead, hlast, h]
    rw [push_eq p hslash, hlead, List.append_assoc, List.singleton_append, hsplit _ _ hslash]

/-- The components of a text with another piece at its end. -/
theorem ofPieces_append (first : Text) (rest : List Text) (piece : Text) :
    ofPieces (first :: rest ++ [piece]) =
      startOf first ++ rest.filterMap Component.ofPiece? ++
        (Component.ofPiece? piece).toList := by
  have hlong : ofPieces (first :: (rest ++ [piece])) =
      startOf first ++ (rest ++ [piece]).filterMap Component.ofPiece? := by
    rw [ofPieces]
    simp
  rw [List.cons_append, hlong, List.filterMap_append, List.append_assoc]
  cases hpiece : Component.ofPiece? piece <;> simp [hpiece]

/-- The path followed by a piece has the component of the piece as its last one. -/
theorem components_push (p : Path) (hslash : '/' ∉ piece)
    (hc : Component.ofPiece? piece = some c) :
    (p.push piece).components = p.components ++ [c] := by
  rw [components_eq_ofPieces, components_eq_ofPieces p]
  by_cases htext : p.text = []
  · have hlead : p.lead = [] := by simp [lead, htext]
    have hnil : piece ≠ [] := fun heq => by simp [heq, Component.ofPiece?] at hc
    have hdot : piece ≠ ['.'] := fun heq => by simp [heq, Component.ofPiece?] at hc
    rw [push_eq p hslash, hlead, List.nil_append, List.splitOn_eq_singleton hslash, htext,
      ofPieces, startOf_eq hnil hdot, hc]
    · rfl
    · simpa using hnil
  · obtain ⟨pre, hpre, hsplit, hpush⟩ := exists_splitOn_push htext
    obtain ⟨first, rest, rfl⟩ := List.exists_cons_of_ne_nil hpre
    have hwhole : ofPieces (p.text.splitOn '/') =
        startOf first ++ rest.filterMap Component.ofPiece? := by
      rcases hsplit with hsplit | hsplit
      · rw [← components_eq_ofPieces, components_of_splitOn htext hsplit]
      · rw [hsplit, ofPieces_append]
        simp [Component.ofPiece?]
    rw [hpush piece hslash, ofPieces_append, hwhole, hc]
    rfl

section Descend

variable {name : Text} {names others : List Text}

/-- A name that is pushed becomes the last component. -/
theorem components_push_name (p : Path) (h : IsName name) :
    (p.push name).components = p.components ++ [.name name] :=
  components_push p h.slash h.ofPiece?

/-- The last name is pushed last. -/
theorem descend_concat (p : Path) (names : List Text) (name : Text) :
    p.descend (names ++ [name]) = (p.descend names).push name := by
  simp [descend]

/-- The names of directories and of the entry become the last components. -/
theorem components_descend (p : Path) (h : ∀ name ∈ names, IsName name) :
    (p.descend names).components = p.components ++ names.map .name := by
  induction names using List.reverseRecOn with
  | nil => simp [descend]
  | append_singleton names name ih =>
    have hnames := ih fun n hn => h n (by simp [hn])
    rw [descend_concat, components_push_name _ (h name (by simp)), hnames]
    simp

/-- Files below a path that are the same place have the same names. -/
theorem eq_of_descend_same (h : ∀ name ∈ names, IsName name) (h' : ∀ name ∈ others, IsName name)
    (hsame : (p.descend names).Same (p.descend others)) : names = others := by
  have hmap : names.map Component.name = others.map Component.name := by
    have heq : (p.descend names).components = (p.descend others).components := hsame
    rw [components_descend p h, components_descend p h'] at heq
    exact List.append_cancel_left heq
  exact List.map_injective_iff.2 (fun _ _ heq => Component.name.inj heq) hmap

/-- The path is that of the root, with names pushed to it one after the other. -/
def SpelledBelow (p root : Path) : Prop :=
  ∃ names : List Text, (∀ name ∈ names, IsName name) ∧ p = root.descend names

/-- A path spelled below the root stays so when a name is pushed to it. -/
theorem SpelledBelow.push {root : Path} (h : p.SpelledBelow root) (hname : IsName name) :
    (p.push name).SpelledBelow root := by
  obtain ⟨names, hnames, rfl⟩ := h
  refine ⟨names ++ [name], ?_, (descend_concat root names name).symm⟩
  simpa [or_imp, forall_and] using ⟨hnames, hname⟩

/-- Below the root, a place is spelled in one way only. -/
theorem SpelledBelow.eq_of_same {root : Path} (hp : p.SpelledBelow root) (hq : q.SpelledBelow root)
    (hsame : p.Same q) : p = q := by
  obtain ⟨names, hnames, rfl⟩ := hp
  obtain ⟨others, hothers, rfl⟩ := hq
  rw [eq_of_descend_same hnames hothers hsame]

/-- The last component of a path that a name was pushed to is that name. -/
theorem fileName?_push (p : Path) (h : IsName name) : (p.push name).fileName? = some name := by
  simp [fileName?, components_push_name p h, Component.name?]

/-- The last component of a path from a root is its last name. -/
theorem fileName?_descend (p : Path) (hne : names ≠ []) (h : ∀ name ∈ names, IsName name) :
    (p.descend names).fileName? = names.getLast? := by
  obtain ⟨front, last, rfl⟩ := (List.eq_nil_or_concat' names).resolve_left hne
  rw [descend_concat, fileName?_push _ (h last (by simp)), List.getLast?_concat]

/-- Nothing is dropped in front of a piece that stands for a component. -/
theorem dropSilent_append {pieces : List Text} {piece : Text}
    (h : Component.ofPiece? piece ≠ none) : dropSilent (pieces ++ [piece]) = pieces ++ [piece] := by
  simp [dropSilent, h]

/-- Nothing follows a name that was pushed to a path. -/
theorem trimmed_push (p : Path) (h : IsName name) : (p.push name).trimmed = (p.push name).text := by
  have hname : Component.ofPiece? name ≠ none := by
    rw [h.ofPiece?]
    simp
  have hlast : ∀ front : Text, front.getLast? = none ∨ front.getLast? = some '/' →
      ∃ pieces, (front ++ name).splitOn '/' = pieces ++ [name] := by
    intro front hfront
    rcases hfront with hfront | hfront
    · rw [List.getLast?_eq_none_iff.1 hfront, List.nil_append, List.splitOn_eq_singleton h.slash]
      exact ⟨[], rfl⟩
    · obtain ⟨rest, rfl⟩ := List.getLast?_eq_some_iff.1 hfront
      refine ⟨rest.splitOn '/', ?_⟩
      rw [List.append_assoc, List.singleton_append, List.splitOn_append_cons_self,
        List.splitOn_eq_singleton h.slash]
  have hlead : p.lead.getLast? = none ∨ p.lead.getLast? = some '/' := by
    unfold lead
    split
    · rename_i hend
      rcases (by simpa using hend : p.text = [] ∨ p.text.getLast? = some '/') with hend | hend
      · exact .inl (by simp [hend])
      · exact .inr hend
    · exact .inr (by simp)
  rw [push_eq p h.slash]
  unfold trimmed
  split
  · rename_i rest htext
    -- the leading slash may be all that stands before the name
    have hrest : ∃ pieces, rest.splitOn '/' = pieces ++ [name] := by
      generalize hfront : p.lead = front at htext hlead
      cases front with
      | nil =>
        have hname : name = '/' :: rest := htext
        exact absurd (hname ▸ List.mem_cons_self) h.slash
      | cons c front =>
        obtain ⟨rfl, rfl⟩ := List.cons.inj htext
        refine hlast front ?_
        cases front with
        | nil => exact .inl rfl
        | cons d front => simpa using hlead
    obtain ⟨pieces, hpieces⟩ := hrest
    rw [hpieces, dropSilent_append hname, ← hpieces, List.intercalate_splitOn, ← htext]
  · rename_i t hslash
    obtain ⟨pieces, hpieces⟩ := hlast p.lead hlead
    have hwhole : ['/'].intercalate ((p.lead ++ name).splitOn '/') = p.lead ++ name :=
      List.intercalate_splitOn '/'
    rw [hpieces] at hwhole ⊢
    cases pieces with
    | nil => simpa [dropSilent] using hwhole
    | cons first rest => simpa [dropSilent_append hname] using hwhole

end Descend

/-- The extension of a path as it is written. -/
def writtenExtension? (p : Path) : Option Text :=
  p.fileName?.bind fun name => (Path.splitName name).2

section Extension

variable {name stem ending ext : Text}

/-- A name with an extension is its stem, a dot and the extension. -/
theorem splitName_eq_some_iff :
    splitName name = (stem, some ending) ↔
      name = stem ++ '.' :: ending ∧ stem ≠ [] ∧ '.' ∉ ending := by
  unfold splitName
  split
  · rename_i hnone
    refine ⟨fun h => by simp at h, ?_⟩
    rintro ⟨heq, _, hending⟩
    have hcut : Text.cut? '.' name.reverse = some (ending.reverse, stem.reverse) :=
      Text.cut?_eq_some_iff.2 ⟨by simp [heq], by simpa using hending⟩
    rw [hnone] at hcut
    cases hcut
  · rename_i front hcut
    refine ⟨fun h => by simp at h, ?_⟩
    rintro ⟨heq, hstem, hending⟩
    have hcut' : Text.cut? '.' name.reverse = some (ending.reverse, stem.reverse) :=
      Text.cut?_eq_some_iff.2 ⟨by simp [heq], by simpa using hending⟩
    rw [hcut] at hcut'
    have hrev : stem.reverse = [] := (Prod.mk.inj (Option.some.inj hcut')).2.symm
    exact absurd (List.reverse_eq_nil_iff.1 hrev) hstem
  · rename_i ending' stem' hstem hcut
    obtain ⟨hname, hending⟩ := Text.cut?_eq_some_iff.1 hcut
    have hname' : name = stem'.reverse ++ '.' :: ending'.reverse := by
      simpa using congrArg List.reverse hname
    constructor
    · intro h
      obtain ⟨rfl, hsome⟩ := Prod.mk.inj h
      obtain rfl := Option.some.inj hsome
      exact ⟨hname', by simpa using hstem, by simpa using hending⟩
    · rintro ⟨rfl, hstem', hending'⟩
      have hcut' : Text.cut? '.' (stem ++ '.' :: ending).reverse =
          some (ending.reverse, stem.reverse) :=
        Text.cut?_eq_some_iff.2 ⟨by simp, by simpa using hending'⟩
      rw [hcut] at hcut'
      obtain ⟨rfl, rfl⟩ := Prod.mk.inj (Option.some.inj hcut')
      simp

/-- The extension of a path that a name was pushed to. -/
theorem extension?_push (p : Path) (h : IsName name) :
    (p.push name).extension? = (splitName name).2.map Text.lower := by
  simp [extension?, fileName?_push p h]

/-- A text with an extension is a name. -/
theorem isName_append (hstem : '/' ∉ stem) (hext : ext ≠ []) (hslash : '/' ∉ ext)
    (hdot : '.' ∉ ext) : IsName (stem ++ '.' :: ext) where
  ne_nil := by simp
  ne_dot heq := by
    have hlength := congrArg List.length heq
    have hpos := List.length_pos_of_ne_nil hext
    simp only [List.length_append, List.length_cons, List.length_nil] at hlength
    omega
  ne_dots heq := by
    have hlast : (stem ++ '.' :: ext).getLast? = ext.getLast? := by
      obtain ⟨c, hc⟩ := List.getLast?_isSome.2 hext |> Option.isSome_iff_exists.1
      simp [List.getLast?_append, List.getLast?_cons, hc]
    rw [heq] at hlast
    exact hdot (List.mem_of_getLast? hlast.symm)
  slash := by simp [hstem, hslash]

/-- A name with another extension is a name. -/
theorem IsName.withEnding (h : IsName (stem ++ '.' :: ending)) (hext : ext ≠ []) (hslash : '/' ∉ ext)
    (hdot : '.' ∉ ext) : IsName (stem ++ '.' :: ext) :=
  isName_append (fun hmem => h.slash (List.mem_append_left _ hmem)) hext hslash hdot

/-- Exchanging the extension of a path exchanges the end of its last name. A stem that is a single
dot is not kept apart from what follows it. -/
theorem withExtension_push (p : Path) (h : IsName name) (hname : splitName name = (stem, some ending))
    (hext : ext ≠ []) (hslash : '/' ∉ ext) :
    (p.push name).withExtension ext =
      p.push (if stem = ['.'] then ['.', '.'] else stem ++ '.' :: ext) := by
  obtain ⟨rfl, hstem, hending⟩ := splitName_eq_some_iff.1 hname
  have hkept : (p.push (stem ++ '.' :: ending)).text.take
      ((p.push (stem ++ '.' :: ending)).text.length -
        ((stem ++ '.' :: ending).length - stem.length)) = p.lead ++ stem := by
    rw [push_eq p h.slash]
    have hlength : (p.lead ++ (stem ++ '.' :: ending)).length -
        ((stem ++ '.' :: ending).length - stem.length) = (p.lead ++ stem).length := by
      simp only [List.length_append, List.length_cons]
      omega
    rw [hlength, ← List.append_assoc, List.take_left]
  have hstemslash : '/' ∉ stem := fun hmem => h.slash (List.mem_append_left _ hmem)
  unfold withExtension
  rw [fileName?_push p h]
  simp only [hname, trimmed_push p h, hkept]
  by_cases hdot : stem = ['.']
  · rw [if_pos hdot, push_eq p (by decide)]
    simp [hdot]
  · rw [if_neg hdot, push_eq p (by simp [hstemslash, hslash])]
    simp [hdot, hext]

/-- A name without an extension gets one put after it. -/
theorem withExtension_push_of_none (p : Path) (h : IsName name)
    (hname : splitName name = (name, none)) (hext : ext ≠ []) (hslash : '/' ∉ ext) :
    (p.push name).withExtension ext = p.push (name ++ '.' :: ext) := by
  have hnew : '/' ∉ name ++ '.' :: ext := by simp [h.slash, hslash]
  unfold withExtension
  rw [fileName?_push p h]
  simp only [hname, trimmed_push p h, Nat.sub_self, Nat.sub_zero, List.take_length]
  rw [push_eq p h.slash, push_eq p hnew]
  simp [hext]

end Extension

end Path

end FirmwareIndex
