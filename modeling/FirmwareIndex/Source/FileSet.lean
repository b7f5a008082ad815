import FirmwareIndex.Source.Basic

/-!
# Sets of files

A set of files holds texts by path. A file may be there and still not be readable. Paths with the
same components are one file.
-/

set_option autoImplicit false

namespace FirmwareIndex

/-- The files by path: the text of a file, or nothing if the file cannot be read. -/
structure FileSet where
  files : PathMap (Option Text)

namespace FileSet

/-- No files. -/
def empty : FileSet :=
  ⟨∅⟩

/-- The set with a file of the given text. -/
def write (s : FileSet) (p : Path) (t : Text) : FileSet :=
  ⟨s.files.insert p.components (some t)⟩

/-- The set with a file that cannot be read. -/
def deny (s : FileSet) (p : Path) : FileSet :=
  ⟨s.files.insert p.components none⟩

/-- The set without the file at the path. -/
def erase (s : FileSet) (p : Path) : FileSet :=
  ⟨s.files.erase p.components⟩

/-- The text of a file of the set. -/
def read (s : FileSet) (p : Path) : Except ReadError Text :=
  match s.files[p.components]? with
  | none => .error .notInSet
  | some none => .error .denied
  | some (some t) => .ok t

/-- What can be read is in the set. -/
theorem mem_of_read_eq_ok {s : FileSet} {p : Path} {t : Text} (h : s.read p = .ok t) :
    p.components ∈ s.files := by
  rw [Std.ExtTreeMap.mem_iff_isSome_getElem?]
  unfold read at h
  split at h <;> simp_all

/-- Different places in a table are no more than its entries. -/
theorem length_le_size {α : Type} (paths : List Path) :
    ∀ m : PathMap α, paths.Pairwise (fun p q => ¬ p.Same q) →
      (∀ p ∈ paths, p.components ∈ m) → paths.length ≤ m.size := by
  induction paths with
  | nil => simp
  | cons p rest ih =>
    intro m hdiff hmem
    have hp : p.components ∈ m := hmem p (by simp)
    have hrest : rest.length ≤ (m.erase p.components).size := by
      refine ih _ (List.pairwise_cons.1 hdiff).2 fun q hq => ?_
      rw [Std.ExtTreeMap.mem_erase]
      refine ⟨?_, hmem q (by simp [hq])⟩
      simpa [Path.Same] using (List.pairwise_cons.1 hdiff).1 q hq
    have hpos : m.size ≠ 0 := fun h0 => by
      rw [Std.ExtTreeMap.eq_empty_iff_size_eq_zero.2 h0] at hp
      simp at hp
    rw [Std.ExtTreeMap.size_erase, if_pos (Std.ExtTreeMap.mem_iff_contains.1 hp)] at hrest
    simp only [List.length_cons]
    omega

/-- The set as a source of texts. -/
def sources (s : FileSet) : Sources where
  present p := s.files.contains p.components
  read := s.read
  capacity := s.files.size
  length_le_capacity paths hdiff hread :=
    length_le_size paths s.files hdiff fun p hp =>
      let ⟨_, h⟩ := hread p hp
      mem_of_read_eq_ok h

end FileSet

end FirmwareIndex
