import FirmwareIndex.Proofs.Path.Reference
import FirmwareIndex.Workspace.FileKind

/-!
# Exchanged extensions

The file name of a path is the end of its text, apart from slashes and dots that stand for no
component (`Path.exists_trimmed_eq`). So exchanging the extension exchanges the last component, and
leaves the directory as it is (`Path.components_withExtension`), however the path is spelled. Two
build files beside each other are told apart by their extensions alone: what is found by exchanging
the one extension for the other leads back by exchanging it again
(`Path.withExtension_withExtension`). It leads back to the extension as a scan spells it, so not to
one that is written in capitals.
-/

set_option autoImplicit false

namespace FirmwareIndex.Path

variable {p q : Path} {first piece name stem ending : Text} {rest pieces : List Text}
  {c : Component}

/-- The last component of some pieces is that of the last piece that is not silent. -/
theorem exists_dropSilent_eq (h : (pieces.filterMap Component.ofPiece?).getLast? = some c) :
    ∃ front piece, dropSilent pieces = front ++ [piece] ∧ Component.ofPiece? piece = some c := by
  induction pieces using List.reverseRecOn with
  | nil => cases h
  | append_singleton pieces piece ih =>
    cases hpiece : Component.ofPiece? piece with
    | none =>
      rw [dropSilent_concat pieces hpiece]
      exact ih (by simpa [hpiece] using h)
    | some d =>
      have hlast : d = c := by simpa [hpiece] using h
      refine ⟨pieces, piece, dropSilent_append (by simp [hpiece]), ?_⟩
      rw [hpiece, hlast]

/-- The text up to the last component is joined from its pieces, unless that is the root. -/
theorem trimmed_eq_intercalate (hsplit : p.text.splitOn '/' = first :: rest)
    (h : first ≠ [] ∨ dropSilent rest ≠ []) :
    p.trimmed = ['/'].intercalate (first :: dropSilent rest) := by
  obtain ⟨t⟩ := p
  by_cases hroot : ∃ r, t = '/' :: r
  · obtain ⟨r, rfl⟩ := hroot
    have hcut : ('/' :: r).splitOn '/' = [] :: r.splitOn '/' := by
      rw [List.splitOn_cons_eq_if_modifyHead, if_pos (by decide)]
    obtain ⟨rfl, rfl⟩ := List.cons.inj (hcut.symm.trans hsplit)
    obtain ⟨piece, pieces, hpieces⟩ :=
      List.exists_cons_of_ne_nil (h.resolve_left fun hne => hne rfl)
    simp only [trimmed, hpieces, List.intercalate_cons_cons, List.nil_append, List.singleton_append]
  · exact trimmed_relative (fun r heq => hroot ⟨r, heq⟩) hsplit

/-- A path with a file name is not empty. -/
theorem text_ne_nil_of_fileName? (h : p.fileName? = some name) : p.text ≠ [] := by
  intro hnil
  obtain ⟨t⟩ := p
  obtain rfl : t = [] := hnil
  cases h

/-- The text up to the last component ends in the file name, where a piece begins. -/
theorem exists_trimmed_eq (h : p.fileName? = some name) :
    IsName name ∧ ∃ front : Path, front.lead = front.text ∧ p.trimmed = front.text ++ name := by
  have hnil := text_ne_nil_of_fileName? h
  obtain ⟨first, rest, hsplit⟩ := List.exists_cons_of_ne_nil (List.splitOn_ne_nil '/' p.text)
  have hslash : ∀ piece ∈ first :: rest, '/' ∉ piece := hsplit ▸ slash_of_mem_splitOn p.text
  obtain ⟨hfirst, hrest⟩ := List.forall_mem_cons.1 hslash
  obtain ⟨c, hlast, hc⟩ := Option.bind_eq_some_iff.1 h
  obtain rfl : c = .name name := by cases c <;> simp_all [Component.name?]
  rw [components_of_splitOn hnil hsplit] at hlast
  by_cases hsome : rest.filterMap Component.ofPiece? = []
  · -- the file name is the only piece with a component
    rw [hsome, List.append_nil] at hlast
    have hne : first ≠ [] ∧ first ≠ ['.'] := by
      constructor <;> rintro rfl <;> cases hlast
    rw [startOf_eq hne.1 hne.2] at hlast
    have hpiece : Component.ofPiece? first = some (.name name) := by
      cases hpiece : Component.ofPiece? first <;> simp_all
    obtain rfl := ofPiece?_eq_name hpiece
    refine ⟨isName_of_ofPiece? hpiece hfirst, ⟨[]⟩, rfl, ?_⟩
    rw [trimmed_eq_intercalate hsplit (.inl hne.1), (filterMap_eq_nil_iff rest).1 hsome,
      List.intercalate_singleton, List.nil_append]
  · rw [List.getLast?_append_of_ne_nil _ hsome] at hlast
    obtain ⟨front, piece, hkept, hpiece⟩ := exists_dropSilent_eq hlast
    obtain rfl := ofPiece?_eq_name hpiece
    have hname : '/' ∉ piece := slash_of_mem_dropSilent hrest piece (by simp [hkept])
    refine ⟨isName_of_ofPiece? hpiece hname, ⟨['/'].intercalate (first :: front) ++ ['/']⟩,
      by simp [lead], ?_⟩
    rw [trimmed_eq_intercalate hsplit (.inr (by simp [hkept])), hkept, ← List.cons_append,
      Text.intercalate_concat (by simp), List.append_assoc, List.singleton_append]

/-- Nothing follows the last component of a path, or its last piece is a silent one. -/
theorem trimmed_eq_or (hnil : p.text ≠ []) :
    p.trimmed = p.text ∨ ∃ pieces piece, p.text.splitOn '/' = pieces ++ [piece] ∧
      Component.ofPiece? piece = none := by
  obtain ⟨first, rest, hsplit⟩ := List.exists_cons_of_ne_nil (List.splitOn_ne_nil '/' p.text)
  have htext : ['/'].intercalate (first :: rest) = p.text := by
    rw [← hsplit, List.intercalate_splitOn]
  rcases List.eq_nil_or_concat' rest with rfl | ⟨front, piece, rfl⟩
  · have hfirst : first ≠ [] := by
      rintro rfl
      exact hnil htext.symm
    exact .inl ((trimmed_eq_intercalate hsplit (.inl hfirst)).trans htext)
  · by_cases hpiece : Component.ofPiece? piece = none
    · exact .inr ⟨first :: front, piece, hsplit, hpiece⟩
    · have hkept : dropSilent (front ++ [piece]) = front ++ [piece] := dropSilent_append hpiece
      rw [trimmed_eq_intercalate hsplit (.inr (by simp [hkept])), hkept, htext]
      exact .inl rfl

/-- A path has its file name pushed to a directory, apart from what follows the file name. -/
theorem exists_same_push (h : p.fileName? = some name) :
    IsName name ∧ ∃ front : Path, front.lead = front.text ∧ p.trimmed = (front.push name).text ∧
      p.Same (front.push name) := by
  obtain ⟨hname, front, hlead, htrimmed⟩ := exists_trimmed_eq h
  have hpush : front.push name = ⟨p.trimmed⟩ := by rw [push_eq front hname.slash, hlead, htrimmed]
  exact ⟨hname, front, hlead, by rw [hpush], by rw [Same, hpush, components_trimmed]⟩

/-- Every kind of file has an extension. -/
theorem extension_ne_nil (k : FileKind) : k.extension ≠ [] := by
  cases k <;> decide

/-- An extension has no slash in it. -/
theorem slash_extension (k : FileKind) : '/' ∉ k.extension := by
  cases k <;> decide

/-- An extension has no dot in it. -/
theorem dot_extension (k : FileKind) : '.' ∉ k.extension := by
  cases k <;> decide

/-- Exchanging the extension of a path exchanges the end of its file name, however the path is
spelled. A stem that is a single dot is kept apart only from what follows the file name. -/
theorem exists_withExtension_eq (h : p.fileName? = some name)
    (hsplit : splitName name = (stem, some ending)) (k : FileKind) :
    ∃ front : Path, p.Same (front.push name) ∧
      p.withExtension k.extension = front.push
        (if stem = ['.'] ∧ p.trimmed = p.text then ['.', '.'] else stem ++ '.' :: k.extension) := by
  obtain ⟨hname, front, hlead, htrimmed, hsame⟩ := exists_same_push h
  refine ⟨front, hsame, ?_⟩
  obtain ⟨rfl, hstem, _⟩ := splitName_eq_some_iff.1 hsplit
  have hstemslash : '/' ∉ stem := fun hmem => hname.slash (List.mem_append_left _ hmem)
  have hkept : p.trimmed.take (p.trimmed.length - ((stem ++ '.' :: ending).length - stem.length)) =
      front.lead ++ stem := by
    rw [htrimmed, push_eq front hname.slash]
    have hlength : (front.lead ++ (stem ++ '.' :: ending)).length -
        ((stem ++ '.' :: ending).length - stem.length) = (front.lead ++ stem).length := by
      simp only [List.length_append, List.length_cons]
      omega
    rw [hlength, ← List.append_assoc, List.take_left]
  unfold withExtension
  rw [h]
  simp only [hsplit, hkept]
  by_cases hdot : stem = ['.'] ∧ p.trimmed = p.text
  · rw [if_pos hdot, push_eq front (by decide), if_pos (by simp [hdot]), hdot.1]
    simp
  · rw [if_neg hdot, push_eq front (by simp [hstemslash, slash_extension]),
      if_neg (by simpa using hdot), if_neg (extension_ne_nil k)]
    simp

/-- The components of a path whose extension has been exchanged. -/
theorem components_withExtension (h : p.fileName? = some name)
    (hsplit : splitName name = (stem, some ending)) (k : FileKind)
    (hstem : stem ≠ ['.'] ∨ p.trimmed ≠ p.text) :
    (p.withExtension k.extension).components =
      p.components.dropLast ++ [.name (stem ++ '.' :: k.extension)] := by
  obtain ⟨front, hsame, hexchanged⟩ := exists_withExtension_eq h hsplit k
  have hcomponents : p.components = (front.push name).components := hsame
  have hname := (exists_trimmed_eq h).1
  obtain ⟨rfl, _, _⟩ := splitName_eq_some_iff.1 hsplit
  have hnew := hname.withEnding (extension_ne_nil k) (slash_extension k) (dot_extension k)
  have hkept : ¬ (stem = ['.'] ∧ p.trimmed = p.text) :=
    fun hboth => hstem.elim (fun hne => hne hboth.1) fun hne => hne hboth.2
  rw [hexchanged, if_neg hkept, components_push_name front hnew, hcomponents,
    components_push_name front hname, List.dropLast_concat]

/-- A path that is the place of a build file with its extension exchanged leads back to that file,
provided that the path has a file name and that nothing follows the name of the file. -/
theorem withExtension_withExtension {k : FileKind} (hp : p.writtenExtension? = some k.extension)
    (htrimmed : p.trimmed = p.text) (hq : q.fileName?.isSome) (other : FileKind)
    (hsame : q.Same (p.withExtension other.extension)) : (q.withExtension k.extension).Same p := by
  obtain ⟨name, hname, hending⟩ := Option.bind_eq_some_iff.1 hp
  have hsplit : splitName name = ((splitName name).1, some k.extension) := Prod.ext rfl hending
  generalize (splitName name).1 = stem at hsplit
  obtain ⟨hvalue, hstem, _⟩ := splitName_eq_some_iff.1 hsplit
  have hkey : q.components = (p.withExtension other.extension).components := hsame
  obtain ⟨front, hfront, hexchanged⟩ := exists_withExtension_eq hname hsplit other
  by_cases hdot : stem = ['.']
  · -- the last component of the other path would be `..`
    rw [hexchanged, if_pos ⟨hdot, htrimmed⟩,
      components_push front (c := .up) (by decide) rfl] at hkey
    rw [fileName?, hkey, List.getLast?_concat] at hq
    cases hq
  · rw [components_withExtension hname hsplit other (.inl hdot)] at hkey
    have hqname : q.fileName? = some (stem ++ '.' :: other.extension) := by
      rw [fileName?, hkey, List.getLast?_concat]
      rfl
    have hqsplit : splitName (stem ++ '.' :: other.extension) = (stem, some other.extension) :=
      splitName_eq_some_iff.2 ⟨rfl, hstem, dot_extension other⟩
    have hcomponents : p.components = front.components ++ [.name name] :=
      (show p.components = _ from hfront).trans
        (components_push_name front (exists_trimmed_eq hname).1)
    have hback : (q.withExtension k.extension).components = p.components := by
      rw [components_withExtension hqname hqsplit k (.inl hdot), hkey, List.dropLast_concat,
        hcomponents, List.dropLast_concat, hvalue]
    exact hback

end FirmwareIndex.Path
