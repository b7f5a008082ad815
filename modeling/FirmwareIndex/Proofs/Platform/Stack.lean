import FirmwareIndex.Proofs.Platform.Effect
import Mathlib.Logic.Function.Iterate

/-!
# The stack of open files

While a platform description is read, the open files are different places, and all of them but the
platform file itself could be read. So the stack is no deeper than the number of readable places and
one (`Sources.Nests.length_le`), whatever the includes, macros and conditions of the files do.
-/

set_option autoImplicit false

namespace FirmwareIndex

namespace Sources

/-- No more than `n` different places can be read. -/
def AtMost (s : Sources) (n : Nat) : Prop :=
  ∀ paths : List Path, paths.Pairwise (fun p q => ¬ p.Same q) →
    (∀ p ∈ paths, ∃ t, s.read p = .ok t) → paths.length ≤ n

/-- The capacity of sources bounds the places that can be read. -/
theorem atMost_capacity (s : Sources) : s.AtMost s.capacity :=
  s.length_le_capacity

/-- A stack of open files, the innermost first: they are different places, and all but the outermost
could be read. -/
structure Nests (s : Sources) (opened : List Path) : Prop where
  different : opened.Pairwise fun p q => ¬ p.Same q
  readable : ∀ p ∈ opened.dropLast, ∃ t, s.read p = .ok t

namespace Nests

variable {s : Sources} {opened : List Path}

/-- A single file is a stack, whether or not it can be read. -/
theorem singleton (s : Sources) (p : Path) : s.Nests [p] :=
  ⟨List.pairwise_singleton _ _, by simp⟩

/-- A readable file that is another place than the open ones can be opened above them. -/
theorem cons {p q : Path} {t : Text} (h : s.Nests (q :: opened)) (hread : s.read p = .ok t)
    (hdiff : ∀ o ∈ q :: opened, ¬ o.Same p) : s.Nests (p :: q :: opened) where
  different := List.pairwise_cons.2 ⟨fun o ho hsame => hdiff o ho hsame.symm, h.different⟩
  readable := by
    intro o ho
    rw [List.dropLast_cons_cons, List.mem_cons] at ho
    rcases ho with rfl | ho
    · exact ⟨t, hread⟩
    · exact h.readable o ho

/-- The files below the innermost one are nested as well. -/
theorem tail (h : s.Nests opened) : s.Nests opened.tail where
  different := h.different.tail
  readable := by
    intro o ho
    rw [← List.tail_dropLast] at ho
    exact h.readable o (List.mem_of_mem_tail ho)

/-- A stack is no deeper than the number of readable places and one. -/
theorem length_le {n : Nat} (h : s.Nests opened) (hn : s.AtMost n) : opened.length ≤ n + 1 := by
  have hinner : opened.dropLast.length ≤ n :=
    hn opened.dropLast (h.different.sublist (List.dropLast_sublist opened)) h.readable
  rw [List.length_dropLast] at hinner
  omega

end Nests

end Sources

namespace Machine

/-- A step keeps the open files nested. -/
theorem nests_step {s : Setting} {m : Machine} (h : s.sources.Nests m.openFiles) :
    s.sources.Nests (step s m).openFiles := by
  obtain ⟨frames, r⟩ := m
  match frames with
  | [] => exact h
  | ⟨file, []⟩ :: rest => exact h.tail
  | ⟨file, l :: lines⟩ :: rest =>
    rw [step_line]
    cases heffect : r.effect s (file :: rest.map Frame.file) ⟨file, l⟩ with
    | carry r' => exact h
    | enter file' text r' =>
      obtain ⟨_, _, _, _, hdiff, hread, _⟩ := effect_eq_enter heffect
      exact h.cons hread hdiff

/-- At every step of a run the open files are a stack. -/
theorem nests_iterate_step (s : Setting) (file : Path) (text : Text) (n : Nat) :
    s.sources.Nests ((step s)^[n] (start s file text)).openFiles := by
  induction n with
  | zero => exact .singleton s.sources file
  | succ n ih =>
    rw [Function.iterate_succ_apply']
    exact nests_step ih

end Machine

end FirmwareIndex
