import FirmwareIndex.Tree.Lookup

/-!
# A tree as a source of texts

The files of a tree can be read by their paths. Links and `..` give a file many paths, but no path
reaches the greatest length, so only finitely many paths can be read. The bound is the number of
texts below that length, counted by writing each text as a numeral.
-/

set_option autoImplicit false

namespace FirmwareIndex.Tree

/-- One more than the number of characters. -/
def radix : Nat :=
  0x110001

/-- The text as a numeral whose digits are its characters. -/
def numeral : Text → Nat
  | [] => 0
  | c :: t => c.toNat + 1 + radix * numeral t

/-- A character is a digit of the numerals. -/
theorem toNat_lt (c : Char) : c.toNat < 0x110000 := by
  have h := c.valid
  simp only [UInt32.isValidChar, Nat.isValidChar] at h
  unfold Char.toNat
  omega

/-- Different texts are different numerals. -/
theorem numeral_injective : ∀ {s t : Text}, numeral s = numeral t → s = t
  | [], [], _ => rfl
  | [], c :: t, h => by simp only [numeral, radix] at h; omega
  | c :: s, [], h => by simp only [numeral, radix] at h; omega
  | c :: s, d :: t, h => by
    have hc := toNat_lt c
    have hd := toNat_lt d
    simp only [numeral, radix] at h
    have hcd : c = d := Char.toNat_inj.1 (by omega)
    have hst : s = t := numeral_injective (by omega)
    rw [hcd, hst]

/-- The number of numerals with a number of digits. -/
def numerals (digits : Nat) : Nat :=
  radix.pow digits

/-- Each further digit multiplies the number of numerals. -/
theorem numerals_succ (n : Nat) : numerals (n + 1) = radix * numerals n :=
  Nat.mul_comm _ _

/-- With more digits there are no fewer numerals. -/
theorem numerals_mono {m n : Nat} (h : m ≤ n) : numerals m ≤ numerals n :=
  Nat.pow_le_pow_right (by decide) h

/-- The numeral of a text is bounded by its length. -/
theorem numeral_lt (t : Text) : numeral t < numerals t.length := by
  induction t with
  | nil => exact Nat.one_pos
  | cons c t ih =>
    have hc := toNat_lt c
    have hmul : radix * (numeral t + 1) ≤ radix * numerals t.length :=
      Nat.mul_le_mul_left radix ih
    have hradix : radix = 0x110001 := rfl
    rw [numeral, List.length_cons, numerals_succ]
    rw [Nat.mul_add] at hmul
    omega

/-- A list without repetitions is no longer than a list that has all its items. -/
theorem length_le_of_nodup {l : List Nat} :
    ∀ {r : List Nat}, l.Nodup → (∀ x ∈ l, x ∈ r) → l.length ≤ r.length := by
  induction l with
  | nil => simp
  | cons a l ih =>
    intro r hnodup hmem
    have ha : a ∈ r := hmem a (by simp)
    obtain ⟨hal, hl⟩ := List.nodup_cons.1 hnodup
    have hrest : l.length ≤ (r.erase a).length := by
      refine ih hl fun x hx => ?_
      have hxa : x ≠ a := fun h => hal (h ▸ hx)
      exact (List.mem_erase_of_ne hxa).2 (hmem x (by simp [hx]))
    rw [List.length_erase_of_mem ha] at hrest
    have hpos : 0 < r.length := List.length_pos_of_mem ha
    simp only [List.length_cons]
    omega

/-- A text has no more characters than bytes. -/
theorem length_le_byteLength (t : Text) : t.length ≤ byteLength t := by
  induction t with
  | nil => simp
  | cons c t ih =>
    have hc := c.utf8Size_pos
    simp only [byteLength, List.length_cons] at *
    omega

/-- A path that leads somewhere is below the greatest length. -/
theorem byteLength_lt_of_locate_eq_ok {t : Tree} {mode : Mode} {p : Path} {a : Address}
    (h : t.locate mode p = .ok a) : byteLength p.text < maxPath := by
  unfold locate at h
  split at h
  · cases h
  · split at h
    · cases h
    · omega

/-- What can be read has a path below the greatest length. -/
theorem length_lt_of_read_eq_ok {t : Tree} {p : Path} {text : Text} (h : t.read p = .ok text) :
    p.text.length < maxPath := by
  refine Nat.lt_of_le_of_lt (length_le_byteLength p.text) ?_
  unfold read lookup at h
  split at h
  · cases h
  · cases ha : t.locate .follow p with
    | error reason => simp [ha] at h
    | ok a => exact byteLength_lt_of_locate_eq_ok ha

/-- A bound on the number of readable paths. -/
def readable : Nat :=
  numerals maxPath

/-- Readable paths of which no two are the same place are no more than the bound. -/
theorem length_le_readable (t : Tree) (paths : List Path)
    (hdiff : paths.Pairwise fun p q => ¬ p.Same q)
    (hread : ∀ p ∈ paths, ∃ text, t.read p = .ok text) : paths.length ≤ readable := by
  have hnodup : (paths.map fun p => numeral p.text).Nodup := by
    rw [List.nodup_iff_pairwise_ne, List.pairwise_map]
    refine hdiff.imp fun {p q} hpq heq => hpq ?_
    unfold Path.Same Path.components
    rw [numeral_injective heq]
  have hmem : ∀ x ∈ paths.map (fun p => numeral p.text), x ∈ List.range readable := by
    intro x hx
    obtain ⟨p, hp, rfl⟩ := List.mem_map.1 hx
    obtain ⟨text, htext⟩ := hread p hp
    have hlength : p.text.length ≤ maxPath := Nat.le_of_lt (length_lt_of_read_eq_ok htext)
    exact List.mem_range.2 (Nat.lt_of_lt_of_le (numeral_lt p.text) (numerals_mono hlength))
  simpa using length_le_of_nodup hnodup hmem

/-- The tree as a source of texts. -/
def sources (t : Tree) : Sources where
  present := t.isFile
  read := t.read
  capacity := readable
  length_le_capacity := t.length_le_readable

end FirmwareIndex.Tree
