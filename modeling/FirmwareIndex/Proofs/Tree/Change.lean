import FirmwareIndex.Proofs.Tree.Links

/-!
# Changes of a tree

Writing a file below a root puts it at its address, with directories above it; removing one takes
away nothing else. Either way the tree stays well-formed and all other files stay as they are
(`Tree.Alters`). Every tree that is made by writing and removing files is well-formed. In any tree,
writing to a file that is there changes the bytes of that file and no way (`Tree.node?_writeFile`),
so if the new bytes stand for the same text, then nothing changes that can be read
(`Tree.read_writeFile`).
-/

set_option autoImplicit false

namespace FirmwareIndex.Tree

/-- Two trees are alike but for a file at one address and for directories on the way to it. -/
structure Alters (t t' : Tree) (a : Address) : Prop where
  file : ∀ b bytes, b ≠ a → (t'.node? b = some (.file bytes) ↔ t.node? b = some (.file bytes))
  directory : ∀ b, t.node? b = some .directory → t'.node? b = some .directory
  other : ∀ b, ¬ b <:+ a → t'.node? b = t.node? b
  denied : t'.denied = t.denied

section Put

variable {t : Tree} {a b : Address}

/-- The tree that has only its root is well-formed. -/
theorem wellFormed_empty : WellFormed empty where
  link a target := by
    unfold node? empty
    split <;> simp
  above name a n h := by simp [node?, empty] at h
  name name a n h := by simp [node?, empty] at h

/-- Directories are made at an address and above it, where nothing is. -/
theorem node?_addDirectory (t : Tree) (a b : Address) :
    (t.addDirectory a).node? b =
      if b <:+ a then some ((t.node? b).getD .directory) else t.node? b := by
  induction a with
  | nil =>
    rw [addDirectory]
    by_cases hb : b = []
    · simp [hb]
    · simp [hb]
  | cons name above ih =>
    by_cases hnil : b = []
    · simp [hnil]
    · have hnode : (t.addDirectory (name :: above)).node? b =
          if name :: above = b then some (((t.addDirectory above).node? b).getD .directory)
          else (t.addDirectory above).node? b := by
        simp only [addDirectory, node?, hnil, ↓reduceIte, Std.ExtTreeMap.getElem?_insertIfNew]
        by_cases heq : name :: above = b
        · subst heq
          cases hold : (t.addDirectory above).nodes[name :: above]? with
          | none =>
            have hmem : name :: above ∉ (t.addDirectory above).nodes := by
              rw [Std.ExtTreeMap.mem_iff_isSome_getElem?, hold]
              simp
            simp [hmem]
          | some n =>
            have hmem : name :: above ∈ (t.addDirectory above).nodes := by
              rw [Std.ExtTreeMap.mem_iff_isSome_getElem?, hold]
              rfl
            simp [hmem]
        · simp [heq]
      rw [hnode, ih]
      by_cases heq : name :: above = b
      · subst heq
        have hself : ¬ name :: above <:+ above := by
          intro hs
          have hlength := hs.length_le
          simp only [List.length_cons] at hlength
          omega
        simp [hself]
      · have hiff : b <:+ name :: above ↔ b <:+ above := by
          rw [List.suffix_cons_iff]
          exact or_iff_right (Ne.symm heq)
        simp [heq, hiff]

/-- An entry is put at an address, below directories that are there or are made. -/
theorem node?_put (t : Tree) (n : Node) (ha : a ≠ []) (b : Address) :
    (t.put a n).node? b =
      if b = a then some n
      else if b <:+ a.tail then some ((t.node? b).getD .directory) else t.node? b := by
  by_cases hb : b = a
  · subst hb
    simp [put, node?, ha]
  · rw [if_neg hb, ← node?_addDirectory]
    unfold put node?
    simp [Std.ExtTreeMap.getElem?_insert, Ne.symm hb]

/-- An address at which an entry can be made: its names are valid, and no file is on the way. -/
structure Clear (t : Tree) (a : Address) : Prop where
  name : ∀ name ∈ a, ValidName name
  file : ∀ b bytes, b <:+ a.tail → t.node? b ≠ some (.file bytes)

/-- Putting a file where an entry can be made keeps a tree well-formed. -/
theorem WellFormed.put (h : t.WellFormed) (ha : a ≠ []) (hclear : t.Clear a)
    (hnode : t.node? a ≠ some .directory) (bytes : List UInt8) :
    (t.put a (.file bytes)).WellFormed := by
  have hdirectory : ∀ b, b <:+ a.tail → (t.node? b).getD .directory = .directory := by
    intro b hb
    cases hn : t.node? b with
    | none => rfl
    | some n =>
      cases n with
      | directory => rfl
      | file bytes => exact absurd hn (hclear.file b bytes hb)
      | link target => exact absurd hn (h.link b target)
  refine ⟨fun b target => ?_, fun name b n hn => ?_, fun name b n hn => ?_⟩
  · rw [node?_put t _ ha]
    split
    · simp
    · split
      · rename_i hb
        simp [hdirectory b hb]
      · exact h.link b target
  · rw [node?_put t _ ha] at hn ⊢
    have hne : ∀ c, c <:+ a.tail → c ≠ a := by
      intro c hc heq
      have hlength := hc.length_le
      have hpos := List.length_pos_of_ne_nil ha
      rw [heq, List.length_tail] at hlength
      omega
    have habove : b <:+ a.tail → (if b = a then some (Node.file bytes)
        else if b <:+ a.tail then some ((t.node? b).getD .directory) else t.node? b) =
          some .directory := by
      intro hb
      rw [if_neg (hne b hb), if_pos hb, hdirectory b hb]
    split at hn
    · rename_i heq
      have hsuffix : b <:+ (name :: b).tail := List.suffix_refl b
      exact habove (heq ▸ hsuffix)
    · split at hn
      · rename_i hb
        exact habove (List.IsSuffix.trans (List.suffix_cons name b) hb)
      · rename_i hb
        have hdir := h.above name b n hn
        have hba : b ≠ a := fun heq => hnode (heq ▸ hdir)
        rw [if_neg hba, hdir]
        split <;> rfl
  · rw [node?_put t _ ha] at hn
    split at hn
    · rename_i heq
      exact hclear.name name (heq ▸ List.mem_cons_self)
    · split at hn
      · rename_i hb
        have hsub := hb.subset
        exact hclear.name name (List.mem_of_mem_tail (hsub List.mem_cons_self))
      · exact h.name name b n hn

end Put

section Write

variable {t : Tree} {root p : Path} {a b c : Address} {names : List Text} {old bytes : List UInt8}
  {jump : Address → List Text → Except ReadError Address}

/-- A way that may go through missing entries leads to where an entry can be made. -/
theorem Clear.advance (h : t.Clear a) {piece : Text} (hslash : '/' ∉ piece)
    (hnul : Char.ofNat 0 ∉ piece) (hc : t.advance true a piece = .ok c) : t.Clear c := by
  have hfile : ∀ bytes, t.node? a ≠ some (.file bytes) := by
    intro bytes hn
    rw [Tree.advance, hn] at hc
    cases hc
  unfold Tree.advance at hc
  split at hc
  · cases hc
  · split at hc
    · exact Except.ok.inj hc ▸ h
    · rename_i hplain
      split at hc
      · obtain rfl := Except.ok.inj hc
        refine ⟨fun name hname => h.name name (List.mem_of_mem_tail hname), ?_⟩
        intro b bytes hb
        exact h.file b bytes (hb.trans (List.tail_suffix _))
      · rename_i hup
        split at hc
        · cases hc
        · rename_i hlong
          obtain rfl : piece :: a = c := by simpa using hc
          simp only [Bool.or_eq_true, decide_eq_true_eq, not_or] at hplain
          refine ⟨fun name hname => ?_, fun b bytes hb => ?_⟩
          · rcases List.mem_cons.1 hname with rfl | hname
            · exact ⟨⟨hplain.1, hplain.2, hup, hslash⟩, hnul, Nat.le_of_not_lt hlong⟩
            · exact h.name name hname
          · cases a with
            | nil => simp [List.suffix_nil.1 hb]
            | cons first above =>
              rcases List.suffix_cons_iff.1 hb with rfl | hb
              · exact hfile bytes
              · exact h.file b bytes hb

/-- A way that may go through missing entries leads from where an entry can be made to where one
can. -/
theorem Clear.goWith (hlink : ∀ a target, t.node? a ≠ some (.link target)) (h : t.Clear a)
    {pieces : List Text} (hslash : ∀ piece ∈ pieces, '/' ∉ piece)
    (hnul : ∀ piece ∈ pieces, Char.ofNat 0 ∉ piece)
    (hb : goWith t .make jump a pieces = .ok b) : t.Clear b := by
  induction pieces generalizing a with
  | nil => exact Except.ok.inj hb ▸ h
  | cons piece rest ih =>
    rw [goWith_cons hlink] at hb
    have hadmits : Mode.make.admits rest = true := rfl
    rw [hadmits] at hb
    cases hadvance : t.advance true a piece with
    | error reason => rw [hadvance] at hb; cases hb
    | ok c =>
      rw [hadvance] at hb
      exact ih (h.advance (hslash piece (by simp)) (hnul piece (by simp)) hadvance)
        (fun q hq => hslash q (by simp [hq])) (fun q hq => hnul q (by simp [hq])) hb

/-- Writing a file does nothing, or puts it where an entry can be made. -/
theorem writeFile_cases (h : t.WellFormed) (p : Path) (bytes : List UInt8) :
    t.writeFile p bytes = t ∨
      ∃ b, t.locate .make p = .ok b ∧ b ≠ [] ∧ t.Clear b ∧ t.node? b ≠ some .directory ∧
        t.writeFile p bytes = t.put b (.file bytes) := by
  unfold writeFile
  split
  · rename_i name above hlocate
    split
    · exact .inl rfl
    · rename_i hnode
      obtain ⟨hnul, _, _, hway⟩ := locate_eq_ok.1 hlocate
      have hstart : t.Clear [] :=
        ⟨fun _ hname => (nomatch hname), fun b bytes hb => by simp [List.suffix_nil.1 hb]⟩
      have hgo : goWith t .make (t.go .make 39) [] (p.text.splitOn '/') = .ok (name :: above) :=
        hway
      have hclear : t.Clear (name :: above) :=
        Clear.goWith h.link hstart (fun piece hpiece => (Text.mem_splitOn hpiece).1)
          (fun piece hpiece hmem => hnul ((Text.mem_splitOn hpiece).2 _ hmem)) hgo
      exact .inr ⟨_, hlocate, by simp, hclear, hnode, rfl⟩
  · exact .inl rfl

/-- Writing a file keeps a tree well-formed. -/
theorem WellFormed.writeFile (h : t.WellFormed) (p : Path) (bytes : List UInt8) :
    (t.writeFile p bytes).WellFormed := by
  rcases writeFile_cases h p bytes with hsame | ⟨b, _, hb, hclear, hnode, hput⟩
  · exact hsame.symm ▸ h
  · exact hput.symm ▸ h.put hb hclear hnode bytes

/-- Names lead to their address even where entries are missing. -/
theorem eq_of_goWith_make (hlink : ∀ a target, t.node? a ≠ some (.link target))
    (hnames : ∀ name ∈ names, Path.IsName name) (hb : goWith t .make jump a names = .ok b) :
    b = names.reverse ++ a := by
  induction names generalizing a with
  | nil => exact (Except.ok.inj hb).symm
  | cons name names ih =>
    have hname := hnames name (by simp)
    rw [goWith_cons hlink] at hb
    have hadvance : ∀ c, t.advance (Mode.make.admits names) a name = .ok c → c = name :: a := by
      intro c hc
      have hadmits : Mode.make.admits names = true := rfl
      unfold advance at hc
      split at hc
      · cases hc
      · simp only [hname.ne_nil, hname.ne_dot, hname.ne_dots, hadmits, Bool.or_true, Bool.or_self,
          decide_false, Bool.false_eq_true, ↓reduceIte] at hc
        split at hc
        · cases hc
        · exact (Except.ok.inj hc).symm
    cases hstep : t.advance (Mode.make.admits names) a name with
    | error reason => rw [hstep] at hb; cases hb
    | ok c =>
      rw [hstep] at hb
      obtain rfl := hadvance c hstep
      rw [ih (fun n hn => hnames n (by simp [hn])) hb]
      simp

/-- A file below a root is written to its address. -/
theorem eq_of_locate_make (h : t.WellFormed) (hroot : t.lookup root = .ok (a, .directory))
    (hnames : ∀ name ∈ names, Path.IsName name)
    (hb : t.locate .make (root.descend names) = .ok b) : b = names.reverse ++ a := by
  obtain ⟨_, _, hempty, hway⟩ := locate_eq_ok.1 (lookup_eq_ok.1 hroot).1
  have hrootway : t.go .make maxLinks [] (root.text.splitOn '/') = .ok a := go_make_of_follow hway
  have hbelow : t.go .make maxLinks [] ((root.descend names).text.splitOn '/') =
      t.go .make maxLinks a names := by
    have hdescend : goWith t .make (t.go .make 39) [] ((root.descend names).text.splitOn '/') =
        (goWith t .make (t.go .make 39) [] (root.text.splitOn '/')).bind fun b =>
          goWith t .make (t.go .make 39) b names :=
      goWith_descend h.link (fun _ _ => rfl) hnames [] hempty
    refine hdescend.trans ?_
    change (t.go .make maxLinks [] (root.text.splitOn '/')).bind _ = _
    rw [hrootway]
    rfl
  have hway := (locate_eq_ok.1 hb).2.2.2
  rw [hbelow] at hway
  have hgo : goWith t .make (t.go .make 39) a names = .ok b := hway
  exact eq_of_goWith_make h.link hnames hgo

/-- Writing a file changes nothing of what may be read. -/
theorem denied_writeFile (t : Tree) (p : Path) (bytes : List UInt8) :
    (t.writeFile p bytes).denied = t.denied := by
  have hdenied : ∀ c : Address, (t.addDirectory c).denied = t.denied := by
    intro c
    induction c with
    | nil => rfl
    | cons name above ih => exact ih
  unfold writeFile
  split
  · split
    · rfl
    · exact hdenied _
  · rfl

/-- Writing a file below a root alters the tree at the address of the file. -/
theorem alters_writeFile (h : t.WellFormed) (hroot : t.lookup root = .ok (a, .directory))
    (hnames : ∀ name ∈ names, Path.IsName name) (bytes : List UInt8) :
    t.Alters (t.writeFile (root.descend names) bytes) (names.reverse ++ a) := by
  rcases writeFile_cases h (root.descend names) bytes with
    hsame | ⟨b, hlocate, hb, hclear, hnode, hput⟩
  · rw [hsame]
    exact ⟨fun _ _ _ => Iff.rfl, fun _ hb => hb, fun _ _ => rfl, rfl⟩
  · obtain rfl := eq_of_locate_make h hroot hnames hlocate
    rw [hput]
    refine ⟨fun b bytes' hne => ?_, fun b hdir => ?_, fun b hother => ?_, ?_⟩
    · rw [node?_put t _ hb, if_neg hne]
      split
      · rename_i habove
        cases hn : t.node? b with
        | none => simp
        | some n => simp
      · rfl
    · have hne : b ≠ names.reverse ++ a := fun heq => hnode (heq ▸ hdir)
      rw [node?_put t _ hb, if_neg hne, hdir]
      split <;> rfl
    · have hne : b ≠ names.reverse ++ a := fun heq => hother (heq ▸ List.suffix_refl b)
      have habove : ¬ b <:+ (names.reverse ++ a).tail := by
        intro hs
        exact hother (hs.trans (List.tail_suffix _))
      rw [node?_put t _ hb, if_neg hne, if_neg habove]
    · rw [← hput]
      exact denied_writeFile t _ bytes

/-- Writing to a file that is there changes its bytes. -/
theorem node?_writeFile (h : t.lookup p = .ok (a, .file old)) (bytes : List UInt8) (b : Address) :
    (t.writeFile p bytes).node? b = if b = a then some (.file bytes) else t.node? b := by
  obtain ⟨hlocate, hnode⟩ := lookup_eq_ok.1 h
  obtain ⟨hnul, hshort, hempty, hway⟩ := locate_eq_ok.1 hlocate
  have hmake : t.locate .make p = .ok a :=
    locate_eq_ok.2 ⟨hnul, hshort, hempty, go_make_of_follow hway⟩
  obtain ⟨hstands, _⟩ := t.stands_nil.go (by rw [node?_nil]; rfl) hway
  cases a with
  | nil =>
    rw [node?_nil] at hnode
    cases hnode
  | cons name above =>
    have hput : t.writeFile p bytes = t.put (name :: above) (.file bytes) := by
      unfold writeFile
      rw [hmake]
      simp [hnode]
    rw [hput, node?_put t _ (by simp)]
    split
    · rfl
    · split
      · rename_i habove
        rw [hstands b habove]
        rfl
      · rfl

/-- Ways lead to the same addresses once a file that is there has been written to. -/
theorem locate_writeFile (h : t.lookup p = .ok (a, .file old)) (bytes : List UInt8) (q : Path) :
    (t.writeFile p bytes).locate .follow q = t.locate .follow q := by
  have hblank : ∀ b, ((t.writeFile p bytes).node? b).map Node.blank =
      (t.node? b).map Node.blank := by
    intro b
    rw [node?_writeFile h]
    split
    · rename_i heq
      rw [heq, (lookup_eq_ok.1 h).2]
      rfl
    · rfl
  unfold locate
  rw [go_congr hblank]

/-- A file that has been written to has the new bytes. -/
theorem lookup_writeFile_self (h : t.lookup p = .ok (a, .file old)) (bytes : List UInt8) :
    (t.writeFile p bytes).lookup p = .ok (a, .file bytes) := by
  refine lookup_eq_ok.2 ⟨?_, by rw [node?_writeFile h, if_pos rfl]⟩
  rw [locate_writeFile h]
  exact (lookup_eq_ok.1 h).1

/-- Bytes that stand for the same text change nothing that can be read. -/
theorem read_writeFile (h : t.lookup p = .ok (a, .file old))
    (hdecode : Utf8.decode bytes = Utf8.decode old) (q : Path) :
    (t.writeFile p bytes).isFile q = t.isFile q ∧ (t.writeFile p bytes).read q = t.read q := by
  have hdenied : (t.writeFile p bytes).isDenied q = t.isDenied q := by
    unfold isDenied
    rw [denied_writeFile]
  unfold isFile read lookup
  rw [locate_writeFile h, hdenied]
  cases t.locate .follow q with
  | error reason => exact ⟨rfl, rfl⟩
  | ok b =>
    dsimp only
    rw [node?_writeFile h]
    by_cases hb : b = a
    · rw [if_pos hb, hb, (lookup_eq_ok.1 h).2]
      dsimp only
      rw [hdecode]
      exact ⟨rfl, rfl⟩
    · rw [if_neg hb]
      exact ⟨rfl, rfl⟩

/-- A file that is decoded as before gives the sources that were there before. -/
theorem sources_writeFile (h : t.lookup p = .ok (a, .file old))
    (hdecode : Utf8.decode bytes = Utf8.decode old) :
    (t.writeFile p bytes).sources = t.sources := by
  have hsame := read_writeFile h hdecode
  simp only [sources, Sources.mk.injEq]
  exact ⟨funext fun q => (hsame q).1, funext fun q => (hsame q).2, trivial⟩

end Write

section Remove

variable {t : Tree} {root : Path} {a b : Address} {names : List Text}

/-- An entry is removed with all that is below it, and nothing else. -/
theorem node?_remove (t : Tree) (ha : a ≠ []) (b : Address) :
    (t.remove a).node? b = if a <:+ b then none else t.node? b := by
  by_cases hb : b = []
  · subst hb
    simp [ha]
  · unfold remove node?
    rw [if_neg hb, if_neg hb]
    by_cases hsuffix : a <:+ b
    · simp [hsuffix, Std.ExtTreeMap.getElem?_filter]
    · have hkept : a.isSuffixOf b = false :=
        Bool.eq_false_iff.2 fun hs => hsuffix (List.isSuffixOf_iff_suffix.1 hs)
      cases hnode : t.nodes[b]? <;>
        simp [hsuffix, hkept, hnode, Std.ExtTreeMap.getElem?_filter]

/-- Removing an entry with all below it keeps a tree well-formed. -/
theorem WellFormed.remove (h : t.WellFormed) (ha : a ≠ []) : (t.remove a).WellFormed := by
  have hnode : ∀ b n, (t.remove a).node? b = some n → ¬ a <:+ b ∧ t.node? b = some n := by
    intro b n hn
    rw [node?_remove t ha] at hn
    split at hn
    · cases hn
    · rename_i hsuffix
      exact ⟨hsuffix, hn⟩
  refine ⟨fun b target hn => h.link b target (hnode b _ hn).2, fun name b n hn => ?_,
    fun name b n hn => h.name name b n (hnode _ n hn).2⟩
  obtain ⟨hsuffix, hn⟩ := hnode _ n hn
  have habove : ¬ a <:+ b := fun hb => hsuffix (hb.trans (List.suffix_cons name b))
  rw [node?_remove t ha, if_neg habove]
  exact h.above name b n hn

/-- Removing an entry keeps a tree well-formed. -/
theorem WellFormed.erase (h : t.WellFormed) (p : Path) : (t.erase p).WellFormed := by
  unfold Tree.erase
  split
  · exact h.remove (by simp)
  · exact h

/-- Removing a file below a root takes away the file and nothing else. -/
theorem alters_erase (h : t.WellFormed) (hroot : t.lookup root = .ok (a, .directory))
    (hnames : ∀ name ∈ names, ValidName name) (hfile : t.isFile (root.descend names) = true) :
    t.Alters (t.erase (root.descend names)) (names.reverse ++ a) ∧
      (t.erase (root.descend names)).node? (names.reverse ++ a) = none := by
  obtain ⟨hshort, bytes, hnode⟩ := (isFile_descend h hroot hnames).1 hfile
  have hlocate : t.locate .keep (root.descend names) = .ok (names.reverse ++ a) :=
    (locate_descend_eq_ok h hroot rfl hnames).2 ⟨hshort, rfl, _, hnode⟩
  have hne : names.reverse ++ a ≠ [] := by
    intro heq
    rw [heq, node?_nil] at hnode
    cases hnode
  have herase : t.erase (root.descend names) = t.remove (names.reverse ++ a) := by
    obtain ⟨name, above, heq⟩ := List.exists_cons_of_ne_nil hne
    rw [heq] at hlocate ⊢
    rw [erase, hlocate]
  rw [herase]
  -- nothing stands below a file
  have hbelow : ∀ b n, names.reverse ++ a <:+ b → b ≠ names.reverse ++ a → t.node? b ≠ some n := by
    rintro b n ⟨front, rfl⟩ hb hn
    have hdir := h.directory_of_append hn fun hnil => hb (by rw [hnil, List.nil_append])
    rw [hnode] at hdir
    cases hdir
  refine ⟨⟨fun b bytes' hb => ?_, fun b hdir => ?_, fun b hother => ?_, rfl⟩, ?_⟩
  · rw [node?_remove t hne]
    split
    · rename_i hsuffix
      exact ⟨fun hn => (nomatch hn), fun hn => absurd hn (hbelow b _ hsuffix hb)⟩
    · rfl
  · rw [node?_remove t hne, if_neg, hdir]
    intro hsuffix
    have hb : b ≠ names.reverse ++ a := by
      intro heq
      rw [heq, hnode] at hdir
      cases hdir
    exact hbelow b _ hsuffix hb hdir
  · have hb : b ≠ names.reverse ++ a := fun heq => hother (heq ▸ List.suffix_refl b)
    rw [node?_remove t hne]
    split
    · rename_i hsuffix
      exact (Option.eq_none_iff_forall_ne_some.2 fun n => hbelow b n hsuffix hb).symm
    · rfl
  · rw [node?_remove t hne, if_pos (List.suffix_refl _)]

end Remove

section Apart

variable {t t' : Tree} {root : Path} {a : Address} {names others : List Text}

/-- A path that is neither above nor below a changed file leads where it led before, or fails for
the same reason. -/
theorem lookup_of_apart (h : t.WellFormed) (h' : t'.WellFormed)
    (hroot : t.lookup root = .ok (a, .directory)) (hroot' : t'.lookup root = .ok (a, .directory))
    (halters : t.Alters t' (names.reverse ++ a)) (hothers : ∀ name ∈ others, ValidName name)
    (hbelow : ¬ names <+: others) (habove : ¬ others <+: names) :
    t'.lookup (root.descend others) = t.lookup (root.descend others) := by
  have hsuffix : ¬ others.reverse ++ a <:+ names.reverse ++ a := by
    rintro ⟨front, hfront⟩
    rw [← List.append_assoc] at hfront
    have hnames := congrArg List.reverse (List.append_cancel_right hfront)
    simp only [List.reverse_append, List.reverse_reverse] at hnames
    exact habove ⟨front.reverse, hnames⟩
  have hnode := halters.other _ hsuffix
  have hfile : (∃ front bytes, front <+: others ∧
        t'.node? (front.reverse ++ a) = some (.file bytes)) ↔
      ∃ front bytes, front <+: others ∧ t.node? (front.reverse ++ a) = some (.file bytes) := by
    refine exists_congr fun front => exists_congr fun bytes => and_congr_right fun hfront => ?_
    refine halters.file _ bytes fun heq => hbelow ?_
    have hnames := List.reverse_inj.1 (List.append_cancel_right heq)
    exact hnames ▸ hfront
  have ha := (lookup_eq_ok.1 hroot).2
  have ha' := (lookup_eq_ok.1 hroot').2
  have hway : goWith t' .follow (t'.go .follow 39) a others =
      goWith t .follow (t.go .follow 39) a others := by
    cases hn : t.node? (others.reverse ++ a) with
    | some n =>
      rw [(goWith_names_eq_ok h rfl hothers ha).2 ⟨rfl, n, hn⟩,
        (goWith_names_eq_ok h' rfl hothers ha').2 ⟨rfl, n, hnode.trans hn⟩]
    | none =>
      obtain ⟨hthrough, hmissing⟩ :=
        goWith_names_eq_error h (rfl : Mode.follow.missing = .none) (t.go .follow 39) hothers
          ⟨_, ha⟩ hn
      obtain ⟨hthrough', hmissing'⟩ :=
        goWith_names_eq_error h' (rfl : Mode.follow.missing = .none) (t'.go .follow 39) hothers
          ⟨_, ha'⟩ (hnode.trans hn)
      rw [hfile] at hthrough' hmissing'
      by_cases hsome : ∃ front bytes, front <+: others ∧
          t.node? (front.reverse ++ a) = some (.file bytes)
      · rw [hthrough hsome, hthrough' hsome]
      · rw [hmissing hsome, hmissing' hsome]
  unfold lookup
  rw [locate_descend h hroot rfl hothers, locate_descend h' hroot' rfl hothers, hway]
  by_cases hshort : byteLength (root.descend others).text < maxPath
  · rw [if_pos hshort]
    cases hb : goWith t .follow (t.go .follow 39) a others with
    | error reason => rfl
    | ok b =>
      obtain ⟨rfl, _⟩ := (goWith_names_eq_ok h rfl hothers ha).1 hb
      dsimp only
      rw [hnode]
  · rw [if_neg hshort]

/-- So it is a file or not, and reads, as before. -/
theorem read_of_apart (h : t.WellFormed) (h' : t'.WellFormed)
    (hroot : t.lookup root = .ok (a, .directory)) (hroot' : t'.lookup root = .ok (a, .directory))
    (halters : t.Alters t' (names.reverse ++ a)) (hothers : ∀ name ∈ others, ValidName name)
    (hbelow : ¬ names <+: others) (habove : ¬ others <+: names) :
    t'.isFile (root.descend others) = t.isFile (root.descend others) ∧
      t'.read (root.descend others) = t.read (root.descend others) := by
  have hlookup := lookup_of_apart h h' hroot hroot' halters hothers hbelow habove
  have hdenied : t'.isDenied (root.descend others) = t.isDenied (root.descend others) := by
    unfold isDenied
    rw [halters.denied]
  unfold isFile read
  rw [hlookup, hdenied]
  exact ⟨rfl, rfl⟩

end Apart

end FirmwareIndex.Tree
