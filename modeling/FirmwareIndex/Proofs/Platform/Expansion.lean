import FirmwareIndex.Module.Entry
import FirmwareIndex.Platform.Macros
import FirmwareIndex.Proofs.Path.Kind

/-!
# What expansion leaves as it is

A character that can stand in no reference is written as it is, and expansion goes on afresh behind
it (`Macros.expand_append`). So a text is expanded piece by piece between such characters, a
reference in front of one becomes its value (`Macros.expand_reference`), and a path that ends like
that of a module does so when it has been expanded (`Macros.isModulePath_expand`).
-/

set_option autoImplicit false

namespace FirmwareIndex.Macros

/-- The character stands in no reference: it is neither part of a name nor one of the signs around
it. -/
def Outside (c : Char) : Prop :=
  Text.isWord c = false ∧ c ≠ '$' ∧ c ≠ '(' ∧ c ≠ ')'

variable {macros : Macros} {c : Char} {t name : Text}

/-- A character that is no dollar sign starts no reference. -/
theorem restart_of_ne (hc : c ≠ '$') (before : Text) :
    restart before c = (before ++ [c], .outside) :=
  if_neg hc

/-- Such a character ends what might have become a reference. -/
theorem step_of_outside (hc : Outside c) (macros : Macros) (scan : Scan) :
    step macros scan c = (scan.held ++ [c], .outside) := by
  obtain ⟨hword, hdollar, hopen, hclose⟩ := hc
  cases scan with
  | outside => exact restart_of_ne hdollar []
  | dollar =>
    rw [step]
    · exact restart_of_ne hdollar ['$']
    · exact fun _ heq => nomatch heq
    · exact fun _ heq => hopen heq
  | name part =>
    have hends : (c = ')' && part ≠ []) = false := by simp [hclose]
    rw [step, if_neg (by simp [hword]), if_neg (by simpa using hends)]
    exact restart_of_ne hdollar _

/-- A text is expanded piece by piece at a character that stands in no reference. -/
theorem expandFrom_append (hc : Outside c) (scan : Scan) (front back : Text) :
    expandFrom macros scan (front ++ c :: back) =
      expandFrom macros scan front ++ c :: expand macros back := by
  induction front generalizing scan with
  | nil =>
    cases scan <;>
      simp only [List.nil_append, expandFrom, step_of_outside hc, expand, List.append_assoc,
        List.singleton_append]
  | cons d front ih => rw [List.cons_append, expandFrom, ih, expandFrom, List.append_assoc]

/-- Expansion goes on afresh behind a character that stands in no reference. -/
theorem expand_append (hc : Outside c) (front back : Text) :
    expand macros (front ++ c :: back) = expand macros front ++ c :: expand macros back :=
  expandFrom_append hc .outside front back

/-- A text without a dollar sign refers to no macro. -/
theorem expand_eq_self (macros : Macros) {t : Text} (h : '$' ∉ t) : macros.expand t = t := by
  unfold expand
  induction t with
  | nil => rfl
  | cons c t ih =>
    obtain ⟨hc, ht⟩ : '$' ≠ c ∧ '$' ∉ t := by simpa using h
    have hstep : step macros .outside c = ([c], .outside) := by
      simp [step, restart, Scan.held, hc.symm]
    rw [expandFrom, hstep, ih ht, List.singleton_append]

/-- The rest of a name and the closing parenthesis complete a reference. -/
theorem expandFrom_name (part : Text) (hname : ∀ c ∈ name, Text.isWord c = true)
    (hne : part ++ name ≠ []) (t : Text) : expandFrom macros (.name part) (name ++ ')' :: t) =
      value macros (part ++ name) ++ expand macros t := by
  induction name generalizing part with
  | nil =>
    rw [List.append_nil] at hne ⊢
    have hclose : step macros (.name part) ')' = (value macros part, .outside) := by
      have hword : Text.isWord ')' = false := by decide
      rw [step, if_neg (by simp [hword]), if_pos (by simp [hne])]
    rw [List.nil_append, expandFrom, hclose, expand]
  | cons c name ih =>
    obtain ⟨hc, hrest⟩ := List.forall_mem_cons.1 hname
    have hstep : step macros (.name part) c = ([], .name (part ++ [c])) := by
      rw [step, if_pos hc]
    rw [List.cons_append, expandFrom, hstep, List.nil_append, ih _ hrest (by simp),
      List.append_assoc, List.singleton_append]

/-- A reference becomes what its name stands for. -/
theorem expand_reference (hname : ∀ c ∈ name, Text.isWord c = true) (hne : name ≠ []) (t : Text) :
    expand macros ('$' :: '(' :: (name ++ ')' :: t)) = value macros name ++ expand macros t := by
  have hfirst : step macros .outside '$' = ([], .dollar) := rfl
  have hsecond : step macros .dollar '(' = ([], .name []) := rfl
  rw [expand, expandFrom, hfirst, expandFrom, hsecond]
  exact expandFrom_name [] hname hne t

/-- A path that ends like that of a module does so when it has been expanded. -/
theorem isModulePath_expand (h : Entry.isModulePath t = true) :
    Entry.isModulePath (expand macros t) = true := by
  obtain ⟨before, hlower⟩ := List.isSuffixOf_iff_suffix.1 h
  obtain ⟨front, ending, rfl, _, hending⟩ := List.map_eq_append_iff.1 hlower.symm
  have hletters : ending.map Char.toLower = ['.', 'i', 'n', 'f'] := hending
  obtain ⟨c, rest, rfl, hc, hrest⟩ := List.map_eq_cons_iff.1 hletters
  obtain rfl := Text.eq_dot_of_toLower hc
  have hdollar : '$' ∉ rest := by
    intro hmem
    have hsmall : '$'.toLower ∈ ['i', 'n', 'f'] := hrest ▸ List.mem_map_of_mem hmem
    exact absurd hsmall (by decide)
  rw [expand_append (by unfold Outside; decide), expand_eq_self macros hdollar]
  refine List.isSuffixOf_iff_suffix.2 ⟨Text.lower (expand macros front), Eq.symm ?_⟩
  rw [Text.lower, List.map_append, List.map_cons, hrest]
  rfl

end FirmwareIndex.Macros
