import FirmwareIndex.Proofs.Platform.Expansion

/-!
# References to macros

A dollar sign stands in a reference only at its beginning, so a reference to a macro is read as one
wherever it stands in a text, and what it becomes does not depend on what is around it
(`Macros.expand_append_reference`). Where there is no reference to a known macro nothing is changed
(`Macros.expand_eq_self_of_unknown`). Together with the slashes between the components of a path
this says what one pass over a text does (`Macros.singlePass`).
-/

set_option autoImplicit false

namespace FirmwareIndex.Macros

/-- The name of a macro as a reference spells it. -/
structure IsName (name : Text) : Prop where
  ne_nil : name ≠ []
  word : ∀ c ∈ name, Text.isWord c = true

/-- The reference to a macro. -/
def reference (name : Text) : Text :=
  '$' :: '(' :: name ++ [')']

/-- The text has no reference to a macro that is known. -/
def Unreferenced (macros : Macros) (t : Text) : Prop :=
  ∀ name, IsName name → name ∈ macros → ¬ reference name <:+: t

/-- What expansion does with the known macros, in one pass over a text. -/
structure SinglePass (macros : Macros) : Prop where
  /-- What is in front of a slash and what is behind it do not meet. -/
  slash : ∀ front back,
    expand macros (front ++ '/' :: back) = expand macros front ++ '/' :: expand macros back
  /-- A path is expanded component by component. -/
  components : ∀ t,
    expand macros t = ['/'].intercalate ((t.splitOn '/').map (expand macros))
  unchanged : ∀ t, Unreferenced macros t → expand macros t = t
  /-- A known macro's value comes in as it is: neither the value nor what it meets at its ends is
  looked at again. -/
  inserted : ∀ name text, IsName name → macros[name]? = some text → ∀ front back,
    expand macros (front ++ reference name ++ back) =
      expand macros front ++ text ++ expand macros back
  /-- A reference to a macro that is not known stays, and what is around it is expanded. -/
  kept : ∀ name, IsName name → name ∉ macros → ∀ front back,
    expand macros (front ++ reference name ++ back) =
      expand macros front ++ reference name ++ expand macros back

variable {macros : Macros} {name t : Text}

/-- A slash stands in no reference. -/
theorem outside_slash : Outside '/' := by
  unfold Outside
  decide

/-- A dollar sign begins anew, whatever has been read. -/
theorem step_dollar (macros : Macros) (scan : Scan) :
    step macros scan '$' = (scan.held, .dollar) := by
  cases scan with
  | outside => rfl
  | dollar => rfl
  | name part =>
    have hword : Text.isWord '$' = false := by decide
    rw [step, if_neg (by simp [hword]), if_neg (by simp)]
    rfl

/-- A reference is replaced whatever stands before it, even if a reference has been begun there. -/
theorem expandFrom_append_reference (hname : IsName name) (scan : Scan) (front back : Text) :
    expandFrom macros scan (front ++ (reference name ++ back)) =
      expandFrom macros scan front ++ (value macros name ++ expand macros back) := by
  induction front generalizing scan with
  | nil =>
    have hopen : step macros .dollar '(' = ([], .name []) := rfl
    have hrest : expandFrom macros (.name []) (name ++ ')' :: back) =
        value macros name ++ expand macros back :=
      expandFrom_name [] hname.word hname.ne_nil back
    simp only [List.nil_append, reference, List.cons_append, List.append_assoc, expandFrom,
      step_dollar, hopen, hrest]
  | cons c front ih => rw [List.cons_append, expandFrom, ih, expandFrom, List.append_assoc]

/-- A reference becomes what its name stands for, whatever is around it. -/
theorem expand_append_reference (hname : IsName name) (front back : Text) :
    expand macros (front ++ reference name ++ back) =
      expand macros front ++ value macros name ++ expand macros back := by
  rw [List.append_assoc, List.append_assoc]
  exact expandFrom_append_reference hname .outside front back

/-- The part of a name that has been read has only characters that a name may have. -/
def Scan.Formed : Scan → Prop
  | .name part => ∀ c ∈ part, Text.isWord c = true
  | _ => True

/-- What is written and what is held back make up the text that has been read, unless a reference
has been completed. -/
structure Spells (scan : Scan) (c : Char) (result : Text × Scan) : Prop where
  text : result.1 ++ result.2.held = scan.held ++ [c]
  formed : result.2.Formed

/-- Starting again spells what was held back, and the character that ended it. -/
theorem spells_restart {scan : Scan} {c : Char} : Spells scan c (restart scan.held c) := by
  unfold restart
  split
  · rename_i hc
    exact ⟨by rw [hc]; rfl, trivial⟩
  · exact ⟨by simp [Scan.held], trivial⟩

/-- One more character either completes a reference or changes nothing of the text. -/
theorem step_cases (macros : Macros) {scan : Scan} (hscan : scan.Formed) (c : Char) :
    Spells scan c (step macros scan c) ∨
      ∃ name, IsName name ∧ scan = .name name ∧ c = ')' ∧
        step macros scan c = (value macros name, .outside) := by
  cases scan with
  | outside => exact .inl spells_restart
  | dollar =>
    by_cases hopen : c = '('
    · subst hopen
      exact .inl ⟨rfl, List.forall_mem_nil _⟩
    · rw [step]
      · exact .inl spells_restart
      · intro _ heq
        cases heq
      · exact fun _ heq => hopen heq
  | name part =>
    rw [step]
    split
    · rename_i hword
      refine .inl ⟨by simp [Scan.held], ?_⟩
      exact fun d hd => (List.mem_append.1 hd).elim (hscan d)
        fun hlast => List.mem_singleton.1 hlast ▸ hword
    · split
      · rename_i hclose
        obtain ⟨hc, hne⟩ : c = ')' ∧ part ≠ [] := by simpa using hclose
        exact .inr ⟨part, ⟨hne, hscan⟩, rfl, hc, rfl⟩
      · exact .inl spells_restart

/-- A reference to a macro that is not known stays as it is. -/
theorem value_of_not_mem (h : name ∉ macros) : value macros name = reference name := by
  rw [value, Std.ExtTreeMap.getElem?_eq_none h]
  rfl

/-- A reference to a known macro becomes its value. -/
theorem value_of_getElem?_eq_some {text : Text} (h : macros[name]? = some text) :
    value macros name = text := by
  rw [value, h, Option.getD_some]

/-- Without a reference to a known macro all that is held back and all that follows is written. -/
theorem expandFrom_eq_self (scan : Scan) (hscan : scan.Formed)
    (h : Unreferenced macros (scan.held ++ t)) : expandFrom macros scan t = scan.held ++ t := by
  induction t generalizing scan with
  | nil => rw [expandFrom, List.append_nil]
  | cons c t ih =>
    rw [expandFrom]
    rcases step_cases macros hscan c with hspells | ⟨name, hname, rfl, rfl, hstep⟩
    · have hwhole : scan.held ++ c :: t =
          (step macros scan c).1 ++ ((step macros scan c).2.held ++ t) := by
        rw [← List.append_assoc, hspells.text, List.append_assoc, List.singleton_append]
      rw [ih _ hspells.formed, hwhole]
      exact fun name hname hmem hpart => h name hname hmem
        (hwhole ▸ hpart.trans (List.suffix_append _ _).isInfix)
    · -- the reference that has been completed is one to a macro that is not known
      have hwhole : (Scan.name name).held ++ ')' :: t = reference name ++ t := by
        simp [Scan.held, reference]
      rw [hwhole] at h ⊢
      have hunknown : name ∉ macros := fun hmem =>
        h name hname hmem (List.prefix_append _ _).isInfix
      have hrest : expandFrom macros .outside t = t := ih .outside trivial fun other hother hmem hpart =>
        h other hother hmem (hpart.trans (List.suffix_append _ _).isInfix)
      rw [hstep, hrest, value_of_not_mem hunknown]

/-- A text without a reference to a known macro is not changed. -/
theorem expand_eq_self_of_unknown (h : Unreferenced macros t) : expand macros t = t :=
  expandFrom_eq_self .outside trivial h

/-- Pieces between slashes are expanded each on its own. -/
theorem expand_intercalate (pieces : List Text) :
    expand macros (['/'].intercalate pieces) = ['/'].intercalate (pieces.map (expand macros)) := by
  induction pieces with
  | nil => rfl
  | cons piece rest ih =>
    cases rest with
    | nil => simp
    | cons next rest =>
      rw [List.intercalate_cons_cons, List.append_assoc, List.singleton_append,
        expand_append outside_slash, ih]
      simp only [List.map_cons, List.intercalate_cons_cons, List.append_assoc,
        List.singleton_append]

/-- What one pass does with the macros that are known, at every place of every text. -/
theorem singlePass (macros : Macros) : SinglePass macros where
  slash := expand_append outside_slash
  components t := by
    rw [← expand_intercalate, List.intercalate_splitOn]
  unchanged _ := expand_eq_self_of_unknown
  inserted name text hname htext front back := by
    rw [expand_append_reference hname, value_of_getElem?_eq_some htext]
  kept name hname hunknown front back := by
    rw [expand_append_reference hname, value_of_not_mem hunknown]

/-- A value that spells a reference, and one that makes up references with what is around it. -/
def nestedMacros : Macros :=
  (((∅ : Macros).insert "A" "$(B)").insert "B" "A)").insert "X" "$("

example : expand nestedMacros "$(A)/$($(B)$(X)A)$(/B)$$(C)$()$(B)" =
    "$(B)/$(A)$(A)$(/B)$$(C)$()A)".toList := by
  decide +kernel

end FirmwareIndex.Macros
