import FirmwareIndex.Proofs.Path.Lexical

/-!
# References behind the text of their root

A reference without `..` leads below the path that it is read from
(`Path.components_join_below`). When the text of an absolute path is written in front of a
reference, and the whole is read from that path again, then the names of the path come twice. So it
leads to another place than the reference alone, unless the path has no names
(`Path.join_under_same_iff`).
-/

set_option autoImplicit false

namespace FirmwareIndex

namespace Path

variable {root p : Path} {reference : Text}

/-- Without a `..` among them, the pieces of a reference lead below the path that they are read
from. -/
theorem components_join_below (h : .up ∉ referenced reference) (p : Path) :
    (p.join reference).components = p.components ++ referenced reference := by
  rw [components_join, Component.foldl_follow h]

/-- The text of an absolute path starts with a slash. -/
theorem exists_eq_slash (h : p.isAbsolute = true) : ∃ rest, p.text = '/' :: rest := by
  obtain ⟨rest, hrest⟩ := List.head?_eq_some_iff.1 (of_decide_eq_true h)
  exact ⟨rest, hrest⟩

/-- The pieces of an absolute path stand for what comes after the root. -/
theorem filterMap_ofPiece?_text (h : p.isAbsolute = true) (hplain : '\\' ∉ p.text) :
    p.text.segments.filterMap Component.ofPiece? = p.components.tail := by
  obtain ⟨t⟩ := p
  obtain ⟨rest, rfl⟩ := exists_eq_slash h
  rw [← Text.splitOn_slashed, Text.slashed_eq_self hplain, List.splitOn_cons_eq_if_modifyHead,
    if_pos (by decide)]
  simp only [components, List.tail_cons]
  rfl

/-- A reference that is written behind the text of the root leads to what it would lead to from the
root with its names once more. -/
theorem join_under (habsolute : root.isAbsolute = true) (hreference : reference.Trimmed)
    (hne : reference ≠ []) :
    root.join (root.text ++ '/' :: reference) =
      (root.text.segments.foldl step root).join reference := by
  obtain ⟨rest, hrest⟩ := exists_eq_slash habsolute
  refine join_append_of_trimmed ⟨?_, ?_⟩ hreference root
  · intro c hc
    rw [hrest] at hc
    obtain rfl : '/' = c := Option.some.inj hc
    decide
  · intro c hc
    rw [Option.mem_def, List.getLast?_append_of_ne_nil _ (by simp),
      List.getLast?_cons_of_ne_nil hne] at hc
    exact hreference.last c hc

/-- Behind the text of the root a reference leads below the names of the root once more. -/
theorem components_join_under (habsolute : root.isAbsolute = true) (hplain : '\\' ∉ root.text)
    (hup : .up ∉ root.components) (hreference : reference.Trimmed) (hne : reference ≠ [])
    (h : .up ∉ referenced reference) :
    (root.join (root.text ++ '/' :: reference)).components =
      root.components ++ root.components.tail ++ referenced reference := by
  have hslash : ∀ piece ∈ root.text.segments, '/' ∉ piece :=
    Text.splitOn_slashed root.text ▸ slash_of_mem_splitOn _
  have htail : .up ∉ root.components.tail := fun hmem => hup (List.mem_of_mem_tail hmem)
  rw [join_under habsolute hreference hne, components_join_below h, components_foldl_step hslash,
    filterMap_ofPiece?_text habsolute hplain, Component.foldl_follow htail]

/-- It leads to another place than the reference alone, unless the root has no names. -/
theorem join_under_same_iff (habsolute : root.isAbsolute = true) (hplain : '\\' ∉ root.text)
    (hup : .up ∉ root.components) (hreference : reference.Trimmed) (hne : reference ≠ [])
    (h : .up ∉ referenced reference) :
    (root.join (root.text ++ '/' :: reference)).Same (root.join reference) ↔
      root.components = [.root] := by
  obtain ⟨names, hnames⟩ := List.head?_eq_some_iff.1 (isAbsolute_iff.1 habsolute)
  rw [Same, components_join_under habsolute hplain hup hreference hne h, components_join_below h,
    List.append_cancel_right_eq, hnames]
  simp

end Path

end FirmwareIndex
