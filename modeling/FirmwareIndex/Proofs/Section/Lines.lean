import FirmwareIndex.Proofs.Section.Normal

/-!
# Lines of composed texts

A text that is empty or ends in a line break that does not end a continued line is complete: what
follows it starts a logical line of its own. The logical lines of a complete text and a text after
it are those of the two texts, where the latter are moved down (`Line.Complete.ofText_append`). A
text without blanks, comments and backslashes is its one logical line (`Line.Bare.ofText_eq`).
-/

set_option autoImplicit false

namespace FirmwareIndex

namespace Line

/-- The line moved down by `n` physical lines. -/
def moved (n : Nat) (l : Line) : Line :=
  { l with number := n + l.number }

/-- The open line moved down by `n` physical lines. -/
def Open.moved (n : Nat) (o : Open) : Open :=
  { o with number := n + o.number }

/-- A text that is empty or ends in a line break that does not end a continued line. -/
def Complete (t : Text) : Prop :=
  t = [] ∨ ∃ front last, t = front ++ ['\n'] ∧ (physical front).getLast? = some last ∧
    stripLast? '\\' last = none

/-- The number of line breaks of a text. -/
def breaks (t : Text) : Nat :=
  (physical t).length - 1

/-- The physical lines on both sides of a line feed are those of the whole text. -/
theorem physical_append_cons (front back : Text) :
    physical (front ++ '\n' :: back) = physical front ++ physical back := by
  simp only [physical, List.splitOn_append_cons_self, List.map_append]

/-- The empty text is one empty physical line. -/
@[simp]
theorem physical_nil : physical [] = [[]] := by
  simp [physical, stripLast?]

/-- The empty text has no logical lines. -/
@[simp]
theorem ofText_nil : ofText [] = [] := by
  simp [ofText, gather, stripLast?, Open.close, normalize, Text.before, collapse, collapseFrom,
    writeRun, Text.trim, Text.trimStart, Text.trimEnd]

/-- A line closed after it was moved down is the closed line moved down. -/
theorem close_moved (n : Nat) (o : Open) : (o.moved n).close = o.close.map (moved n) := by
  by_cases h : normalize o.joined = [] <;> simp [Open.close, Open.moved, moved, h]

/-- Physical lines that start further down give logical lines that stand further down. -/
theorem gather_moved (k : Nat) (lines : List Text) : ∀ (n : Nat) (pending : Option Open),
    gather (k + n) (pending.map (Open.moved k)) lines = (gather n pending lines).map (moved k) := by
  induction lines with
  | nil =>
    intro n pending
    cases pending with
    | none => rfl
    | some o => exact close_moved k o
  | cons line rest ih =>
    intro n pending
    have hopen : (pending.map (Open.moved k)).getD ⟨k + n, [], line⟩ =
        (pending.getD ⟨n, [], line⟩).moved k := by cases pending <;> rfl
    cases hstrip : stripLast? '\\' line with
    | some start =>
      simp only [gather, hopen, hstrip]
      exact ih (n + 1) (some { pending.getD ⟨n, [], line⟩ with
        joined := (pending.getD ⟨n, [], line⟩).joined ++ start })
    | none =>
      simp only [gather, hopen, hstrip, List.map_append]
      rw [← close_moved, ← ih (n + 1) none]
      rfl

/-- After a physical line that is not continued the logical lines start anew. -/
theorem gather_append {last : Text} (hlast : stripLast? '\\' last = none) (back : List Text)
    (front : List Text) : ∀ (n : Nat) (pending : Option Open),
      gather n pending (front ++ last :: back) =
        gather n pending (front ++ [last]) ++ gather (n + front.length + 1) none back := by
  induction front with
  | nil =>
    intro n pending
    simp only [List.nil_append, gather, hlast, List.length_nil, List.append_nil, Nat.add_zero]
  | cons line front ih =>
    intro n pending
    have harith : n + (line :: front).length + 1 = n + 1 + front.length + 1 := by
      simp only [List.length_cons]; omega
    rw [harith]
    cases hstrip : stripLast? '\\' line with
    | some start =>
      simp only [List.cons_append, gather, hstrip]
      exact ih (n + 1) _
    | none =>
      simp only [List.cons_append, gather, hstrip, List.append_assoc]
      rw [ih (n + 1) none]

/-- The logical lines of a complete text and a text after it. -/
theorem Complete.ofText_append {front : Text} (h : Complete front) (back : Text) :
    ofText (front ++ back) = ofText front ++ (ofText back).map (moved (breaks front)) := by
  rcases h with rfl | ⟨body, last, rfl, hlast, hstrip⟩
  · have hid : moved (breaks []) = id := by
      funext l
      simp [moved, breaks]
    simp [hid]
  · obtain ⟨lines, hlines⟩ := List.getLast?_eq_some_iff.1 hlast
    have hbreaks : breaks (body ++ ['\n']) = lines.length + 1 := by
      simp [breaks, physical_append_cons, hlines]
    have hwhole : ∀ t, ofText (body ++ '\n' :: t) =
        gather 0 none (lines ++ [last]) ++ (ofText t).map (moved (lines.length + 1)) := by
      intro t
      have hmoved := gather_moved (lines.length + 1) (physical t) 0 none
      simp only [Option.map_none, Nat.add_zero] at hmoved
      rw [ofText, physical_append_cons, hlines, List.append_assoc, List.singleton_append,
        gather_append hstrip, Nat.zero_add, hmoved, ofText]
    rw [List.append_assoc, List.singleton_append, hwhole back, hwhole [], hbreaks]
    simp

/-- A text of one line without blanks, comments and backslashes. -/
structure Bare (t : Text) : Prop where
  ne_nil : t ≠ []
  chars : ∀ c ∈ t, Text.isBlank c = false ∧ c ≠ '#' ∧ c ≠ '\\'

namespace Bare

variable {t : Text}

/-- A bare text has no blanks in it. -/
theorem not_mem (h : Bare t) {c : Char} (hc : Text.isBlank c = true) : c ∉ t := by
  intro hmem
  rw [(h.chars c hmem).1] at hc
  cases hc

/-- A character that is nowhere in a text is not at its end. -/
theorem stripLast?_eq_none {c : Char} (hc : c ∉ t) : stripLast? c t = none := by
  rw [stripLast?, if_neg fun hlast => hc (List.mem_of_getLast? hlast)]

/-- A bare text does not go on. -/
theorem not_continued (h : Bare t) : stripLast? '\\' t = none :=
  stripLast?_eq_none fun hmem => (h.chars _ hmem).2.2 rfl

/-- A bare text is one physical line. -/
theorem physical_eq (h : Bare t) : physical t = [t] := by
  rw [physical, List.splitOn_eq_singleton (h.not_mem (by decide)), List.map_singleton,
    stripLast?_eq_none (h.not_mem (by decide))]
  rfl

/-- A bare text is in normal form. -/
theorem normal (h : Bare t) : Normal t where
  comment hmem := (h.chars _ hmem).2.1 rfl
  trimmed := ⟨fun c hc => (h.chars c (List.mem_of_mem_head? hc)).1,
    fun c hc => (h.chars c (List.mem_of_getLast? hc)).1⟩
  apart := by
    have hgap : ∀ c ∈ t, ¬ Text.isGap c = true := by
      intro c hc hgap
      rcases Bool.or_eq_true _ _ ▸ hgap with hspace | htab
      · exact h.not_mem (by decide) (of_decide_eq_true hspace ▸ hc)
      · exact h.not_mem (by decide) (of_decide_eq_true htab ▸ hc)
    exact List.Pairwise.isChain
      (List.pairwise_of_forall_mem_list fun c hc _ _ hboth => hgap c hc hboth.1)

/-- Nothing of the text is left out or written in another way. -/
theorem normalize_eq_self (h : Bare t) : normalize t = t :=
  normalize_eq_self_iff.2 h.normal

/-- The text is its one logical line. -/
theorem ofText_eq (h : Bare t) : ofText (t ++ ['\n']) = [⟨0, t, t⟩] := by
  have hnil : normalize [] = [] := rfl
  have hopen : stripLast? '\\' [] = none := rfl
  rw [ofText, physical_append_cons, h.physical_eq, physical_nil, List.singleton_append]
  simp [gather, h.not_continued, hopen, Open.close, h.normalize_eq_self, h.ne_nil, hnil]

/-- A bare text with a line feed is complete. -/
theorem complete (h : Bare t) : Complete (t ++ ['\n']) :=
  .inr ⟨t, t, rfl, by rw [h.physical_eq]; rfl, h.not_continued⟩

/-- A bare text with a line feed is one physical line down. -/
theorem breaks_eq (h : Bare t) : breaks (t ++ ['\n']) = 1 := by
  rw [breaks, physical_append_cons, h.physical_eq, physical_nil]
  rfl

end Bare

end Line

end FirmwareIndex
