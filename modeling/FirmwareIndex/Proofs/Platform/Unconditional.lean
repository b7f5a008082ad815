import FirmwareIndex.Proofs.Platform.View
import FirmwareIndex.Proofs.Section.Blanked

/-!
# Conditions are transparent

Conditions are noted and never decided. When the lines that open, change and close conditions are
blanked in a platform file and in all files that it may include, the document says the same: it
differs in the conditions that its places carry, and in the problems of branches and ends of
conditions that were not opened, and in nothing else (`Document.ofText_withoutConditions`).
-/

set_option autoImplicit false

namespace FirmwareIndex

/-- The text with an empty line for each physical line of a directive on conditions. -/
def Text.withoutConditions (t : Text) : Text :=
  Line.blanked (fun text => (LineKind.ofText text).isCondition) t

/-- The same files, without the directives on conditions in their texts. -/
def Sources.withoutConditions (s : Sources) : Sources where
  present := s.present
  read p := (s.read p).map Text.withoutConditions
  capacity := s.capacity
  length_le_capacity paths hdiff hread := by
    refine s.length_le_capacity paths hdiff fun p hp => ?_
    obtain ⟨t, ht⟩ := hread p hp
    cases hp : s.read p with
    | ok text => exact ⟨text, rfl⟩
    | error reason => rw [hp] at ht; cases ht

/-- The setting with texts without the lines of conditions. -/
def Setting.withoutConditions (s : Setting) : Setting :=
  { s with sources := s.sources.withoutConditions }

/-- The view that looks at all but the conditions. -/
def View.unconditional : View :=
  ⟨true, false, true⟩

/-- The effect without the directives on conditions in the text of a file that is entered, and
without conditions in what is carried. -/
def Effect.withoutConditions : Effect → Effect
  | .carry r => .carry (r.seen .unconditional)
  | .enter file text r => .enter file text.withoutConditions (r.seen .unconditional)

namespace Reading

/-- An include leads to the same file, whatever the conditions. -/
theorem inclusion_withoutConditions (s : Setting) (opened : List Path) (r : Reading) (here : Place)
    (target : Text) :
    (r.seen .unconditional).inclusion s.withoutConditions opened here target =
      (r.inclusion s opened here target).withoutConditions := by
  have hresolve : Machine.resolve s.withoutConditions (r.seen .unconditional).macros here.file
      target = Machine.resolve s r.macros here.file target := rfl
  have hnote : ∀ {cause : Cause} (offending : Text), cause.isUnmatched = false →
      (r.seen .unconditional).note here cause offending =
        (r.note here cause offending).seen .unconditional := fun offending hcause =>
    (seen_note (v := .unconditional) r here offending (.inr hcause)).symm
  have hread : ∀ file, s.withoutConditions.sources.read file =
      (s.sources.read file).map Text.withoutConditions := fun _ => rfl
  simp only [inclusion, hresolve, hread]
  split
  · rw [hnote _ rfl]
    rfl
  · split
    · rw [hnote _ rfl]
      rfl
    · cases s.sources.read (Machine.resolve s r.macros here.file target) with
      | error reason =>
        simp only [Except.map]
        rw [hnote _ rfl]
        rfl
      | ok text => rfl

/-- A line that is none on conditions leads to the same, whatever the conditions. -/
theorem effect_withoutConditions (s : Setting) (opened : List Path) (r : Reading) (here : Place)
    (h : (LineKind.ofText here.line.text).isCondition = false) :
    (r.seen .unconditional).effect s.withoutConditions opened here =
      (r.effect s opened here).withoutConditions := by
  have hplain : ∀ {kind : LineKind}, kind.isCondition = false →
      (r.seen .unconditional).plain here kind = (r.plain here kind).seen .unconditional :=
    fun hkind => (seen_plain (v := .unconditional) r here (.inr hkind)).symm
  unfold effect
  cases hkind : LineKind.ofText here.line.text with
  | inclusion target => exact inclusion_withoutConditions s opened r here target
  | header | definition | ignored | content =>
    exact congrArg Effect.carry (hplain rfl)
  | openCondition | branch | closeCondition => rw [hkind] at h; cases h

/-- A line on conditions leaves all as it is but the conditions. -/
theorem effect_condition (s : Setting) (opened : List Path) (r : Reading) (here : Place)
    (h : (LineKind.ofText here.line.text).isCondition = true) :
    ∃ r', r.effect s opened here = .carry r' ∧ r'.seen .unconditional = r.seen .unconditional := by
  refine ⟨r.plain here (LineKind.ofText here.line.text), ?_, seen_plain_condition rfl r here h⟩
  unfold effect
  cases hkind : LineKind.ofText here.line.text with
  | openCondition | branch | closeCondition => rfl
  | header | definition | content | ignored | inclusion target =>
    simp [hkind, LineKind.isCondition] at h

end Reading

/-- A reading can be repeated without the lines on conditions. -/
theorem Reads.withoutConditions {s : Setting} {opened : List Path} {file : Path}
    {lines : List Line} {r r' : Reading} (h : Reads s opened file lines r r') :
    Reads s.withoutConditions opened file
      (lines.filter fun l => !(LineKind.ofText l.text).isCondition)
      (r.seen .unconditional) (r'.seen .unconditional) := by
  induction h with
  | done => exact .done
  | @carry opened file l lines r r₁ r' effect rest ih =>
    cases hkind : (LineKind.ofText l.text).isCondition with
    | true =>
      obtain ⟨r₂, heffect, hseen⟩ :=
        r.effect_condition s (file :: opened) ⟨file, l⟩ hkind
      obtain rfl : r₂ = r₁ := by simpa [heffect] using effect
      rw [List.filter_cons_of_neg (by simp [hkind]), ← hseen]
      exact ih
    | false =>
      rw [List.filter_cons_of_pos (by simp [hkind])]
      refine .carry ?_ ih
      rw [Reading.effect_withoutConditions s _ r _ hkind, effect]
      rfl
  | @enter opened file target l lines text r r₁ r₂ r' effect inner rest ihInner ihRest =>
    have hkind : (LineKind.ofText l.text).isCondition = false := by
      obtain ⟨target, hkind, _⟩ := Machine.effect_eq_enter effect
      rw [hkind]
      rfl
    have heffect : (r.seen .unconditional).effect s.withoutConditions (file :: opened) ⟨file, l⟩ =
        .enter target text.withoutConditions (r₁.seen .unconditional) := by
      rw [Reading.effect_withoutConditions s _ r _ hkind, effect]
      rfl
    have hinner : Reads s.withoutConditions (file :: opened) target
        (Line.ofText text.withoutConditions) (r₁.seen .unconditional) (r₂.seen .unconditional) := by
      rw [Text.withoutConditions, Line.ofText_blanked]
      exact ihInner
    rw [List.filter_cons_of_pos (by simp [hkind])]
    exact .enter heffect hinner ihRest

/-- Without the directives on conditions, in the platform file and in all others, the document is
the same but for the conditions of its places and the problems of branches and ends of conditions
that were not opened. -/
theorem Document.ofText_withoutConditions (s : Setting) (file : Path) (text : Text) :
    Document.ofText s.withoutConditions file text.withoutConditions =
      (Document.ofText s file text).seen .unconditional := by
  have hreads := (Machine.reads_readingOf s file text).withoutConditions
  have hreading : Machine.readingOf s.withoutConditions file text.withoutConditions =
      (Machine.readingOf s file text).seen .unconditional := by
    refine Machine.readingOf_eq ?_
    rw [Text.withoutConditions, Line.ofText_blanked]
    exact hreads
  have hfinish := Reading.seen_finish (v := .unconditional) (Machine.readingOf s file text)
  rw [Machine.ofText_eq_finish, hreading, ← hfinish, Machine.ofText_eq_finish]
  rfl

end FirmwareIndex
