import FirmwareIndex.Proofs.Workspace.Found

/-!
# Changes of files of a workspace

A change gives new bytes to a file below the root of a workspace, or removes it. `Change.Made` says
that the file is there afterwards, or was there before; the tree is then altered at the address of
the file alone. `Change.Fits` says which changes a rescan can follow. What other platforms include
has to read as before, and so it does if it is neither above nor below the changed file
(`Change.Made.alike_of_apart`).
-/

set_option autoImplicit false

namespace FirmwareIndex

/-- A change of a single file, which is given new bytes or removed. The names lead from the root of
the workspace to the file. -/
structure Change where
  names : List Text
  bytes? : Option (List UInt8)

namespace Change

/-- The path of the changed file, spelled as a scan spells it. -/
def path (root : Path) (e : Change) : Path :=
  root.descend e.names

/-- The tree after a change. -/
def apply (root : Path) (e : Change) (t : Tree) : Tree :=
  match e.bytes? with
  | some bytes => t.writeFile (e.path root) bytes
  | none => t.erase (e.path root)

/-- The tree after some changes. -/
def applyAll (root : Path) (changes : List Change) (t : Tree) : Tree :=
  changes.foldl (fun t e => e.apply root t) t

/-- A file is created, rewritten or deleted by a change. -/
structure Made (root : Path) (t : Tree) (e : Change) : Prop where
  names : ∀ name ∈ e.names, Tree.ValidName name
  made : match e.bytes? with
    | some _ => (e.apply root t).isFile (e.path root) = true
    | none => t.isFile (e.path root) = true

/-- A change that a rescan can follow. The file is a build file, though a package declaration is not
created. Text with the fingerprint of the old text is the old text. What the includes of the other
platforms may mean is there or not as before, and reads as before. -/
structure Fits (root : Path) (o : Options) (t : Tree) (e : Change) : Prop extends Made root t e where
  kind : ∃ k, FileKind.ofPath? (e.path root) = some k ∧
    (k = .declaration → t.isFile (e.path root) = true)
  fingerprint : ∀ old new, t.read (e.path root) = .ok old →
    (e.apply root t).read (e.path root) = .ok new →
      Digest.fingerprint old = Digest.fingerprint new → old = new
  candidates : ∀ files, Discovery.run t o root = .ok files →
    ∀ d ∈ files.platforms, d ≠ e.path root →
      ∀ q, Document.Candidate ⟨t.sources, some root⟩ d q →
        t.sources.Alike (e.apply root t).sources q

/-- Changes of which each fits the tree that the earlier ones lead to. -/
def AllFit (root : Path) (o : Options) : Tree → List Change → Prop
  | _, [] => True
  | t, e :: rest => e.Fits root o t ∧ AllFit root o (e.apply root t) rest

variable {root : Path} {o : Options} {t : Tree} {e : Change} {a : Address} {files : Files}

/-- A change of a file keeps a tree well-formed. -/
theorem wellFormed_apply (h : t.WellFormed) (root : Path) (e : Change) :
    (e.apply root t).WellFormed := by
  unfold Change.apply
  split
  · exact h.writeFile _ _
  · exact h.erase _

namespace Made

/-- A change alters the tree at the address of its file. -/
theorem alters (h : e.Made root t) (ht : t.WellFormed)
    (hroot : t.lookup root = .ok (a, .directory)) :
    t.Alters (e.apply root t) (e.names.reverse ++ a) := by
  have hmade := h.made
  unfold Change.apply at hmade ⊢
  split at hmade
  · exact Tree.alters_writeFile ht hroot (Discovery.plain h.names) _
  · exact (Tree.alters_erase ht hroot h.names hmade).1

/-- A file that is there after a change has been given bytes, and a file that is not there any more
was there before. -/
theorem isFile_cases (h : e.Made root t) (ht : t.WellFormed)
    (hroot : t.lookup root = .ok (a, .directory))
    (hroot' : (e.apply root t).lookup root = .ok (a, .directory)) :
    (∃ bytes, e.bytes? = some bytes ∧ (e.apply root t).isFile (e.path root) = true) ∨
      (t.isFile (e.path root) = true ∧ (e.apply root t).isFile (e.path root) = false) := by
  have hmade := h.made
  cases hbytes : e.bytes? with
  | some bytes =>
    rw [hbytes] at hmade
    exact .inl ⟨bytes, rfl, hmade⟩
  | none =>
    rw [hbytes] at hmade
    refine .inr ⟨hmade, Bool.eq_false_iff.2 ?_⟩
    intro hfile
    have hgone := (Tree.alters_erase ht hroot h.names hmade).2
    obtain ⟨_, bytes, hnode⟩ :=
      (Tree.isFile_descend (wellFormed_apply ht root e) hroot' h.names).1 hfile
    rw [Change.apply, hbytes] at hnode
    have hnone : (t.erase (e.path root)).node? (e.names.reverse ++ a) = none := hgone
    rw [hnone] at hnode
    cases hnode

/-- A file that is there after the change has been given bytes. -/
theorem exists_bytes (h : e.Made root t) (ht : t.WellFormed)
    (hroot : t.lookup root = .ok (a, .directory))
    (hroot' : (e.apply root t).lookup root = .ok (a, .directory))
    (hfile : (e.apply root t).isFile (e.path root) = true) : ∃ bytes, e.bytes? = some bytes := by
  rcases h.isFile_cases ht hroot hroot' with ⟨bytes, hbytes, _⟩ | ⟨_, hgone⟩
  · exact ⟨bytes, hbytes⟩
  · rw [hfile] at hgone
    cases hgone

/-- A file that is gone after the change was there before. -/
theorem isFile_of_gone (h : e.Made root t) (ht : t.WellFormed)
    (hroot : t.lookup root = .ok (a, .directory))
    (hroot' : (e.apply root t).lookup root = .ok (a, .directory))
    (hgone : (e.apply root t).isFile (e.path root) = false) : t.isFile (e.path root) = true := by
  rcases h.isFile_cases ht hroot hroot' with ⟨_, _, hfile⟩ | ⟨hfile, _⟩
  · rw [hgone] at hfile
    cases hfile
  · exact hfile

/-- The path of a changed file is short enough for the file to be read. -/
theorem short (h : e.Made root t) (ht : t.WellFormed)
    (hroot : t.lookup root = .ok (a, .directory))
    (hroot' : (e.apply root t).lookup root = .ok (a, .directory)) :
    Tree.byteLength (root.descend e.names).text < Tree.maxPath := by
  rcases h.isFile_cases ht hroot hroot' with ⟨_, _, hfile⟩ | ⟨hfile, _⟩
  · exact ((Tree.isFile_descend (wellFormed_apply ht root e) hroot' h.names).1 hfile).1
  · exact ((Tree.isFile_descend ht hroot h.names).1 hfile).1

/-- The changed file is not the root itself. -/
theorem names_ne_nil (h : e.Made root t) (ht : t.WellFormed)
    (hroot : t.lookup root = .ok (a, .directory))
    (hroot' : (e.apply root t).lookup root = .ok (a, .directory)) : e.names ≠ [] := by
  rcases h.isFile_cases ht hroot hroot' with ⟨_, _, hfile⟩ | ⟨hfile, _⟩
  · exact Tree.names_ne_nil_of_isFile hroot' hfile
  · exact Tree.names_ne_nil_of_isFile hroot hfile

/-- A file that is neither above nor below a changed file is there or not as before, and reads as
before. -/
theorem alike_of_apart (h : e.Made root t) (ht : t.WellFormed)
    (hroot : t.lookup root = .ok (a, .directory)) {others : List Text}
    (hothers : ∀ name ∈ others, Tree.ValidName name) (hbelow : ¬ e.names <+: others)
    (habove : ¬ others <+: e.names) :
    t.sources.Alike (e.apply root t).sources (root.descend others) := by
  have ht' := wellFormed_apply ht root e
  have halters := h.alters ht hroot
  have hroot' := Tree.lookup_directory ht ht' halters.directory hroot
  obtain ⟨hfile, hread⟩ :=
    Tree.read_of_apart ht ht' hroot hroot' halters hothers hbelow habove
  exact ⟨hfile, hread⟩

end Made

/-- A file with a name of a kind is found if it is there and no directory on its way is left out. -/
theorem mem_ofKind_iff_isFile (ht : t.WellFormed) (hroot : t.lookup root = .ok (a, .directory))
    (hrun : Discovery.run t o root = .ok files) {names : List Text} {k : FileKind} (hne : names ≠ [])
    (hnames : ∀ name ∈ names, Tree.ValidName name)
    (hshort : Tree.byteLength (root.descend names).text < Tree.maxPath)
    (hkind : FileKind.ofPath? (root.descend names) = some k) :
    root.descend names ∈ files.ofKind k ↔
      o.excludesSteps (names.map .name) = false ∧ t.isFile (root.descend names) = true := by
  have hplain := Discovery.plain hnames
  rw [Discovery.mem_ofKind_iff ht hroot hrun, ← Discovery.open_iff hne hplain hshort,
    Tree.isFile_descend ht hroot hnames]
  constructor
  · rintro ⟨others, hopen, heq, hnode, hother⟩
    have hvalid : ∀ name ∈ others, Path.IsName name := by
      obtain ⟨bytes, hbytes⟩ := hnode
      exact fun name hname =>
        (ht.validName_of_append hbytes name (List.mem_reverse.2 hname)).toIsName
    obtain rfl := Path.eq_of_descend_same hplain hvalid (congrArg Path.components heq)
    exact ⟨hopen, hshort, hnode⟩
  · rintro ⟨hopen, _, hnode⟩
    exact ⟨names, hopen, rfl, hnode, Discovery.kind_of_ofPath? hne hplain hkind⟩

/-- A change that fits shifts what is found at the changed file alone, and that file is found before
and after it if it is there and no directory on its way is left out. -/
theorem Fits.exists_shift (h : e.Fits root o t) (ht : t.WellFormed)
    (hroot : t.lookup root = .ok (a, .directory)) (hrun : Discovery.run t o root = .ok files)
    (hdec : ∀ file ∈ files.declarations, file.writtenExtension? = some "dec".toList) :
    ∃ files' k, FileKind.ofPath? (e.path root) = some k ∧
      Discovery.run (e.apply root t) o root = .ok files' ∧
      (∀ file ∈ files'.declarations, file.writtenExtension? = some "dec".toList) ∧
      Files.Shift ⟨t.sources, some root⟩ ⟨(e.apply root t).sources, some root⟩ files files'
        (e.path root) k ∧
      (e.path root ∈ files.ofKind k ↔
        o.excludesSteps (e.names.map .name) = false ∧ t.isFile (e.path root) = true) ∧
      (e.path root ∈ files'.ofKind k ↔
        o.excludesSteps (e.names.map .name) = false ∧
          (e.apply root t).isFile (e.path root) = true) := by
  have ht' := wellFormed_apply ht root e
  have halters := h.alters ht hroot
  have hroot' := Tree.lookup_directory ht ht' halters.directory hroot
  obtain ⟨files', hrun'⟩ := Discovery.exists_run_eq_ok o hroot'
  have hne := h.names_ne_nil ht hroot hroot'
  have hshort := h.short ht hroot hroot'
  have hplain := Discovery.plain h.names
  obtain ⟨k, hkind, hknown⟩ := h.kind
  have hdeclared : k = .declaration →
      ∃ bytes, t.node? (e.names.reverse ++ a) = some (.file bytes) := by
    intro hk
    exact ((Tree.isFile_descend ht hroot h.names).1 (hknown hk)).2
  have hdec' : ∀ file ∈ files'.declarations, file.writtenExtension? = some "dec".toList := by
    intro file hfile
    exact hdec file (Discovery.mem_declarations_of_alters ht ht' hroot hroot' hrun hrun' hne hplain
      hkind halters hdeclared hfile)
  exact ⟨files', k, hkind, hrun', hdec',
    Discovery.shift_of_alters ht ht' hroot hroot' hrun hrun' hdec hne hplain hkind halters hdeclared
      (h.candidates files hrun),
    mem_ofKind_iff_isFile ht hroot hrun hne h.names hshort hkind,
    mem_ofKind_iff_isFile ht' hroot' hrun' hne h.names hshort hkind⟩

end Change

end FirmwareIndex
