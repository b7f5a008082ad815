import FirmwareIndex.Proofs.Platform.Unknown
import FirmwareIndex.Proofs.Text.Trimmed

/-!
# Texts that a line is quoted by

What a problem quotes of a line, if not all of it, is cut out of it: the name of a section, which is
the base of a qualifier (`Header.infix_base`), the name of a part of a component block, or the target
of an include. Nothing is expanded and no letter changes its case, so the quoted text occurs in the
line.
-/

set_option autoImplicit false

namespace FirmwareIndex

namespace Qualifier

variable {q : Qualifier} {qualifiers : List Qualifier}

/-- The name in a qualifier occurs in the body of the header. -/
theorem infix_base {body : Text} (h : q ∈ ofBody body) : q.base <:+: body := by
  obtain ⟨piece, hpiece, rfl⟩ := List.mem_map.1 h
  have hfirst : (piece.splitOn '.').headD [] <:+: piece := by
    rw [Text.headD_splitOn]
    exact (List.takeWhile_prefix _).isInfix
  exact (Text.infix_trim _).trans (hfirst.trans (Text.infix_of_mem_splitOn hpiece))

/-- The name that differs from the first one is the base of a qualifier. -/
theorem exists_base_of_mismatch? {first other : Text}
    (h : mismatch? qualifiers = some (first, other)) : ∃ q ∈ qualifiers, q.base = other := by
  cases qualifiers with
  | nil => cases h
  | cons q qualifiers =>
    obtain ⟨differing, hfind, heq⟩ := Option.map_eq_some_iff.1 h
    exact ⟨differing, List.mem_cons_of_mem _ (List.mem_of_find?_eq_some hfind),
      congrArg Prod.snd heq⟩

/-- An unknown name is the name in one of the qualifiers. -/
theorem exists_base_of_unknown {name : Text} (h : name ∈ unknown qualifiers) :
    ∃ q ∈ qualifiers, q.base = name :=
  List.mem_map.1 (List.mem_filter.1 ((represents_unknown qualifiers).sublist.subset h)).1

end Qualifier

namespace Header

/-- The body of a header occurs in its line. -/
theorem infix_body (line : Text) : body line <:+: line :=
  (List.takeWhile_prefix _).isInfix.trans
    ((List.dropWhile_suffix _).isInfix.trans (Text.infix_trim line))

/-- The names of sections in a header occur in it. -/
theorem infix_base {line : Text} {q : Qualifier} (h : q ∈ qualifiers line) : q.base <:+: line :=
  (Qualifier.infix_base h).trans ((Text.infix_trim _).trans (infix_body line))

end Header

/-- The name of a part occurs in its line. -/
theorem BlockPart.infix_nameOf (line : Text) : nameOf line <:+: line :=
  (Text.infix_trim _).trans
    ((List.takeWhile_prefix _).isInfix.trans (List.dropWhile_suffix _).isInfix)

namespace LineKind

variable {target t : Text}

/-- The target of an include occurs in its directive. -/
theorem infix_of_ofDirective (h : ofDirective t = .inclusion target) : target <:+: t := by
  unfold ofDirective at h
  dsimp only at h
  split_ifs at h
  obtain rfl := LineKind.inclusion.inj h
  exact (Text.infix_trim _).trans (List.dropWhile_suffix _).isInfix

/-- The target of an include occurs in its line. -/
theorem infix_of_ofText (h : ofText t = .inclusion target) : target <:+: t := by
  unfold ofText at h
  split at h
  · cases h
  · exact (infix_of_ofDirective h).trans (List.suffix_cons _ _).isInfix
  · split_ifs at h

end LineKind

end FirmwareIndex
