import FirmwareIndex.Proofs.Path.Kind
import FirmwareIndex.Proofs.Platform.Candidates
import FirmwareIndex.Proofs.Tree.Change
import FirmwareIndex.Proofs.Workspace.Lazy
import FirmwareIndex.Proofs.Workspace.Shift

/-!
# What is found when a file changes

When the package declarations have the extension `dec` in lower case, the platform description
beside each of them is found where the declaration is found (`Discovery.found_of_run`). A change of
a single file then shifts what is found at that file alone, provided that the candidates of the
includes of all other platforms read as before (`Discovery.shift_of_alters`).
-/

set_option autoImplicit false

namespace FirmwareIndex

/-- Making capitals small leaves the length of a text as it is. -/
theorem Tree.byteLength_lower (text : Text) : byteLength (Text.lower text) = byteLength text := by
  have hsize : ∀ c : Char, c.toLower.utf8Size = c.utf8Size := by
    intro c
    have hone : ∀ {d : Char}, d.toNat ≤ 122 → d.utf8Size = 1 := by
      intro d hd
      rw [Char.utf8Size_eq_one_iff, UInt32.le_iff_toNat_le]
      exact Nat.le_trans hd (by decide)
    have hlower := Text.toNat_toLower c
    split at hlower
    · rename_i hcapital
      rw [hone (by omega), hone (by omega)]
    · exact congrArg Char.utf8Size (Char.toNat_inj.1 hlower)
  induction text with
  | nil => rfl
  | cons c text ih =>
    have hcons : Text.lower (c :: text) = c.toLower :: Text.lower text := rfl
    rw [hcons, byteLength, byteLength, ih, hsize]

namespace Discovery

variable {t t' : Tree} {o : Options} {root q : Path} {a : Address} {files files' : Files}
  {workspace : Option Path} {names : List Text} {k : FileKind}

/-- Whether the way to a file is looked through does not depend on the last name. -/
theorem Open.concat {path : Path} {front : List Text} {name other : Text}
    (h : Open o path (front ++ [name])) : Open o path (front ++ [other]) := by
  induction front generalizing path with
  | nil => trivial
  | cons first rest ih =>
    cases rest with
    | nil => exact ⟨h.1, h.2.1, trivial⟩
    | cons second rest => exact ⟨h.1, h.2.1, ih h.2.2⟩

/-- A file that is found lies some directories below the root, which are looked through. -/
theorem exists_names (h : t.WellFormed) (hroot : t.lookup root = .ok (a, .directory))
    (hrun : run t o root = .ok files) (hq : q ∈ files.ofKind k) :
    ∃ names, (∀ name ∈ names, Tree.ValidName name) ∧ Open o root names ∧ q = root.descend names ∧
      (∃ bytes, t.node? (names.reverse ++ a) = some (.file bytes)) ∧
      names.getLast?.bind FileKind.ofName? = some k := by
  obtain ⟨names, hopen, hq, ⟨bytes, hnode⟩, hkind⟩ := (mem_ofKind_iff h hroot hrun k).1 hq
  refine ⟨names, fun name hname => ?_, hopen, hq, ⟨bytes, hnode⟩, hkind⟩
  exact h.validName_of_append hnode name (List.mem_reverse.2 hname)

/-- Names of entries are names in a path. -/
theorem plain (h : ∀ name ∈ names, Tree.ValidName name) : ∀ name ∈ names, Path.IsName name :=
  fun name hname => (h name hname).toIsName

/-- Files that were found at one place are one file of one kind. -/
theorem eq_of_same (h : t.WellFormed) (hroot : t.lookup root = .ok (a, .directory))
    (hrun : run t o root = .ok files) {j : FileKind} {p : Path} (hp : p ∈ files.ofKind j)
    (hq : q ∈ files.ofKind k) (hsame : p.Same q) : p = q ∧ j = k := by
  obtain ⟨names, hvalid, _, rfl, _, hj⟩ := exists_names h hroot hrun hp
  obtain ⟨others, hvalid', _, rfl, _, hk⟩ := exists_names h hroot hrun hq
  obtain rfl := Path.eq_of_descend_same (plain hvalid) (plain hvalid') hsame
  rw [hj] at hk
  exact ⟨rfl, Option.some.inj hk⟩

/-- What stands beside a file that is named like those of a kind is named like those of the other
kind, unless it would be the directory above. -/
theorem exists_beside {name : Text} (h : Path.IsName name) (hkind : FileKind.ofName? name = some k)
    (other : FileKind) (path : Path) :
    (path.push name).withExtension other.extension = path.push ['.', '.'] ∨
      ∃ sibling, Path.IsName sibling ∧ (Tree.ValidName name → Tree.ValidName sibling) ∧
        FileKind.ofName? sibling = some other ∧
        (path.push name).withExtension other.extension = path.push sibling := by
  have hnil : other.extension ≠ [] := by cases other <;> decide
  have hslash : '/' ∉ other.extension := by cases other <;> decide
  have hdot : '.' ∉ other.extension := by cases other <;> decide
  have hnul : Char.ofNat 0 ∉ '.' :: other.extension := by cases other <;> decide
  have hlower : Text.lower other.extension = other.extension := by cases other <;> decide
  have hbytes : ∀ k : FileKind, Tree.byteLength k.extension = 3 := by intro k; cases k <;> decide
  rcases FileKind.splitName_of_ofName? hkind with ⟨stem, ending, hname, hending⟩ | ⟨hname, hending⟩
  · obtain ⟨rfl, hstem, _⟩ := Path.splitName_eq_some_iff.1 hname
    rw [Path.withExtension_push path h hname hnil hslash]
    by_cases hdirectory : stem = ['.']
    · exact .inl (by rw [if_pos hdirectory])
    · have hplain := h.withEnding hnil hslash hdot
      have hsplit : Path.splitName (stem ++ '.' :: other.extension) = (stem, some other.extension) :=
        Path.splitName_eq_some_iff.2 ⟨rfl, hstem, hdot⟩
      refine .inr ⟨stem ++ '.' :: other.extension, hplain, fun hvalid => ⟨hplain, ?_, ?_⟩,
        FileKind.ofName?_eq_some hsplit hlower, by rw [if_neg hdirectory]⟩
      · intro hmem
        rcases List.mem_append.1 hmem with hmem | hmem
        · exact hvalid.nul (List.mem_append_left _ hmem)
        · exact hnul hmem
      · have hshort := hvalid.short
        rw [Tree.byteLength_append, Tree.byteLength, ← Tree.byteLength_lower ending, hending,
          hbytes] at hshort
        rwa [Tree.byteLength_append, Tree.byteLength, hbytes]
  · rw [Path.withExtension_push_of_none path h hname hnil hslash]
    have hplain := Path.isName_append h.slash hnil hslash hdot
    have hsplit : Path.splitName (name ++ '.' :: other.extension) = (name, some other.extension) :=
      Path.splitName_eq_some_iff.2 ⟨rfl, h.ne_nil, hdot⟩
    refine .inr ⟨name ++ '.' :: other.extension, hplain, fun hvalid => ⟨hplain, ?_, ?_⟩,
      FileKind.ofName?_eq_some hsplit hlower, rfl⟩
    · intro hmem
      rcases List.mem_append.1 hmem with hmem | hmem
      · exact hvalid.nul hmem
      · exact hnul hmem
    · have hlength : Tree.byteLength name = 4 := by
        rw [← Tree.byteLength_lower, hending, Tree.byteLength, hbytes]
        rfl
      rw [Tree.byteLength_append, Tree.byteLength, hbytes, hlength]
      decide

/-- A file that is spelled by its names and stands beside another is spelled like that place. -/
theorem eq_withExtension_of_same {directory : Path} {name : Text}
    (hdirectory : directory.SpelledBelow root) (hname : Path.IsName name)
    (hkind : FileKind.ofName? name = some k) (other : FileKind) (hq : q.SpelledBelow root)
    (hsame : q.Same ((directory.push name).withExtension other.extension)) :
    q = (directory.push name).withExtension other.extension := by
  rcases exists_beside hname hkind other directory with hup | ⟨sibling, hsibling, _, _, hbeside⟩
  · -- no file is spelled with the directory above at its end
    obtain ⟨names, hnames, rfl⟩ := hq
    obtain ⟨front, hfront, rfl⟩ := hdirectory
    have hkey : (root.descend names).components = ((root.descend front).push ['.', '.']).components :=
      hup ▸ hsame
    rw [Path.components_push _ (c := .up) (by decide) rfl, Path.components_descend _ hnames,
      Path.components_descend _ hfront, List.append_assoc] at hkey
    have hmem : Component.up ∈ names.map Component.name := by
      rw [List.append_cancel_left hkey]
      simp
    obtain ⟨_, _, hne⟩ := List.mem_map.1 hmem
    cases hne
  · rw [hbeside] at hsame ⊢
    exact hq.eq_of_same (hdirectory.push hsibling) hsame

/-- Beside a package declaration that was found there is no file, or the platform description there
is spelled by its names. -/
theorem beside_cases (h : t.WellFormed) (hroot : t.lookup root = .ok (a, .directory))
    (hrun : run t o root = .ok files) {file : Path} (hfile : file ∈ files.declarations) :
    (∀ t' : Tree, t'.WellFormed → t'.isFile (file.withExtension "dsc") = false) ∨
      ∃ others, (∀ name ∈ others, Tree.ValidName name) ∧ Open o root others ∧
        others.getLast?.bind FileKind.ofName? = some .platform ∧
        file.withExtension "dsc" = root.descend others := by
  obtain ⟨names, hvalid, hopen, rfl, _, hkind⟩ :=
    exists_names (k := .declaration) h hroot hrun hfile
  obtain ⟨front, last, rfl⟩ := (List.eq_nil_or_concat' names).resolve_left hopen.ne_nil
  have hlast := hvalid last (by simp)
  have hfront : ∀ name ∈ front, Tree.ValidName name := fun name hname => hvalid name (by simp [hname])
  rw [List.getLast?_concat, Option.bind_some] at hkind
  rw [Path.descend_concat]
  rcases exists_beside hlast.toIsName hkind .platform (root.descend front) with
    hup | ⟨sibling, _, hsibling, hplatform, hbeside⟩
  · -- what would be beside the declaration is the directory above
    have hempty := (Tree.locate_eq_ok.1 (Tree.lookup_eq_ok.1 hroot).1).2.2.1
    refine .inl fun t' h' => ?_
    exact (congrArg t'.isFile hup).trans
      (Tree.isFile_push_up h' (Tree.descend_text_ne_nil hempty (plain hfront)))
  · refine .inr ⟨front ++ [sibling], fun name hname => ?_, hopen.concat, ?_, ?_⟩
    · rcases List.mem_append.1 hname with hname | hname
      · exact hfront name hname
      · exact List.mem_singleton.1 hname ▸ hsibling hlast
    · rwa [List.getLast?_concat, Option.bind_some]
    · exact hbeside.trans (Path.descend_concat root front sibling).symm

/-- The platform description beside a package declaration that was found is found too. -/
theorem exists_sibling (h : t.WellFormed) (hroot : t.lookup root = .ok (a, .directory))
    (hrun : run t o root = .ok files) {file : Path} (hfile : file ∈ files.declarations)
    (hpresent : t.isFile (file.withExtension "dsc") = true) :
    ∃ q ∈ files.platforms, q.Same (file.withExtension "dsc") := by
  rcases beside_cases h hroot hrun hfile with hnone | ⟨others, hvalid, hopen, hkind, hpath⟩
  · rw [hnone t h] at hpresent
    cases hpresent
  · rw [hpath] at hpresent ⊢
    obtain ⟨_, hnode⟩ := (Tree.isFile_descend h hroot hvalid).1 hpresent
    exact ⟨_, (mem_ofKind_iff h hroot hrun .platform).2 ⟨others, hopen, rfl, hnode, hkind⟩, rfl⟩

/-- Files are found as the catalog takes them to be. -/
theorem found_of_run (h : t.WellFormed) (hrun : run t o root = .ok files) :
    files.Found ⟨t.sources, workspace⟩ := by
  obtain ⟨a, hroot⟩ := lookup_of_run_eq_ok hrun
  obtain ⟨hm, hd, hp⟩ := ordered_of_run_eq_ok hrun
  refine ⟨fun k => ?_, fun j k p hp q hq => eq_of_same h hroot hrun hp hq, fun file hfile => ?_⟩
  · cases k with
    | module => exact hm
    | declaration => exact hd
    | platform => exact hp
  · exact exists_sibling h hroot hrun hfile

/-- A file of a kind by its extension is listed under that kind. -/
theorem kind_of_ofPath? (hne : names ≠ []) (hnames : ∀ name ∈ names, Path.IsName name)
    (hkind : FileKind.ofPath? (root.descend names) = some k) :
    names.getLast?.bind FileKind.ofName? = some k := by
  obtain ⟨front, last, rfl⟩ := (List.eq_nil_or_concat' names).resolve_left hne
  rw [Path.descend_concat] at hkind
  obtain ⟨stem, ending, hname, hext⟩ :=
    (FileKind.ofPath?_push_eq_some _ (hnames last (by simp))).1 hkind
  rw [List.getLast?_concat, Option.bind_some]
  exact FileKind.ofName?_eq_some hname hext

/-- A file other than the one that an address belongs to has another address. -/
theorem address_ne {others : List Text} (hne : root.descend others ≠ root.descend names) :
    others.reverse ++ a ≠ names.reverse ++ a := by
  intro heq
  have hnames := List.reverse_inj.1 (List.append_cancel_right heq)
  exact hne (hnames ▸ rfl)

/-- A change at one address leaves all other files where they are found. -/
theorem alikeExcept_of_alters (h : t.WellFormed) (h' : t'.WellFormed)
    (hroot : t.lookup root = .ok (a, .directory)) (hroot' : t'.lookup root = .ok (a, .directory))
    (hrun : run t o root = .ok files) (hrun' : run t' o root = .ok files')
    (hnames : ∀ name ∈ names, Path.IsName name) (halters : t.Alters t' (names.reverse ++ a))
    (k : FileKind) :
    Path.AlikeExcept (root.descend names) (files.ofKind k) (files'.ofKind k) := by
  have hdifferent : ∀ {t : Tree} {files : Files}, run t o root = .ok files →
      Path.Different (files.ofKind k) := by
    intro t files hrun
    obtain ⟨hm, hd, hp⟩ := ordered_of_run_eq_ok hrun
    cases k with
    | module => exact hm.different
    | declaration => exact hd.different
    | platform => exact hp.different
  refine ⟨hdifferent hrun, hdifferent hrun', fun q hq => ?_, fun q hq hsame => ?_⟩
  · rw [mem_ofKind_iff h hroot hrun, mem_ofKind_iff h' hroot' hrun']
    apply exists_congr
    intro others
    apply and_congr_right
    intro _
    refine and_congr_right fun heq => and_congr_left fun _ => exists_congr fun bytes => ?_
    exact halters.file _ bytes (address_ne (heq ▸ hq))
  · obtain ⟨others, hvalid, _, rfl, _⟩ := exists_names h hroot hrun hq
    rw [Path.eq_of_descend_same (plain hvalid) hnames hsame]

/-- A file is found as no other kind than its own. -/
theorem not_mem_ofKind (h : t.WellFormed) (hroot : t.lookup root = .ok (a, .directory))
    (hrun : run t o root = .ok files) (hne : names ≠ []) (hnames : ∀ name ∈ names, Path.IsName name)
    (hkind : FileKind.ofPath? (root.descend names) = some k) {j : FileKind} (hj : j ≠ k) :
    root.descend names ∉ files.ofKind j := by
  intro hmem
  obtain ⟨others, hvalid, _, heq, _, hj'⟩ := exists_names h hroot hrun hmem
  obtain rfl := Path.eq_of_descend_same hnames (plain hvalid) (congrArg Path.components heq)
  rw [kind_of_ofPath? hne hnames hkind] at hj'
  exact hj (Option.some.inj hj').symm

/-- A change at one address leaves all other files as they are. -/
theorem isFile_of_alters (h : t.WellFormed) (h' : t'.WellFormed)
    (hroot : t.lookup root = .ok (a, .directory)) (hroot' : t'.lookup root = .ok (a, .directory))
    (halters : t.Alters t' (names.reverse ++ a)) {others : List Text}
    (hvalid : ∀ name ∈ others, Tree.ValidName name)
    (hother : root.descend others ≠ root.descend names) :
    t'.isFile (root.descend others) = t.isFile (root.descend others) := by
  rw [Bool.eq_iff_iff, Tree.isFile_descend h' hroot' hvalid, Tree.isFile_descend h hroot hvalid]
  exact and_congr_right fun _ => exists_congr fun bytes => halters.file _ bytes (address_ne hother)

/-- A change at one address leaves the texts of all other files as they are. -/
theorem read_of_alters (h : t.WellFormed) (h' : t'.WellFormed)
    (hroot : t.lookup root = .ok (a, .directory)) (hroot' : t'.lookup root = .ok (a, .directory))
    (halters : t.Alters t' (names.reverse ++ a)) {others : List Text}
    (hvalid : ∀ name ∈ others, Tree.ValidName name)
    (hnode : ∃ bytes, t.node? (others.reverse ++ a) = some (.file bytes))
    (hother : root.descend others ≠ root.descend names) :
    t'.read (root.descend others) = t.read (root.descend others) := by
  obtain ⟨bytes, hnode⟩ := hnode
  have hnode' := (halters.file _ bytes (address_ne hother)).2 hnode
  have hdenied : t'.isDenied (root.descend others) = t.isDenied (root.descend others) := by
    unfold Tree.isDenied
    rw [halters.denied]
  rw [Tree.read_descend h hroot hvalid hnode, Tree.read_descend h' hroot' hvalid hnode', hdenied]

/-- A change of a file that is no package declaration, or that was there before, brings no new
package declaration. -/
theorem mem_declarations_of_alters (h : t.WellFormed) (h' : t'.WellFormed)
    (hroot : t.lookup root = .ok (a, .directory)) (hroot' : t'.lookup root = .ok (a, .directory))
    (hrun : run t o root = .ok files) (hrun' : run t' o root = .ok files') (hne : names ≠ [])
    (hnames : ∀ name ∈ names, Path.IsName name)
    (hkind : FileKind.ofPath? (root.descend names) = some k)
    (halters : t.Alters t' (names.reverse ++ a))
    (hknown : k = .declaration → ∃ bytes, t.node? (names.reverse ++ a) = some (.file bytes))
    {file : Path} (hfile : file ∈ files'.declarations) : file ∈ files.declarations := by
  have halike := alikeExcept_of_alters h h' hroot hroot' hrun hrun' hnames halters .declaration
  by_cases heq : file = root.descend names
  · subst heq
    obtain ⟨others, hvalid, hopen, heq, _, hdeclaration⟩ :=
      exists_names (k := .declaration) h' hroot' hrun' hfile
    obtain rfl := Path.eq_of_descend_same hnames (plain hvalid) (congrArg Path.components heq)
    have hk : k = .declaration := by
      rw [kind_of_ofPath? hne hnames hkind] at hdeclaration
      exact Option.some.inj hdeclaration
    exact (mem_ofKind_iff h hroot hrun .declaration).2
      ⟨names, hopen, rfl, hknown hk, kind_of_ofPath? hne hnames (hk ▸ hkind)⟩
  · exact (halike.mem file heq).1 hfile

/-- A change of a file of a kind shifts what is found at that file alone. -/
theorem shift_of_alters (h : t.WellFormed) (h' : t'.WellFormed)
    (hroot : t.lookup root = .ok (a, .directory)) (hroot' : t'.lookup root = .ok (a, .directory))
    (hrun : run t o root = .ok files) (hrun' : run t' o root = .ok files')
    (hdec : ∀ file ∈ files.declarations, file.writtenExtension? = some "dec".toList)
    (hne : names ≠ []) (hnames : ∀ name ∈ names, Path.IsName name)
    (hkind : FileKind.ofPath? (root.descend names) = some k)
    (halters : t.Alters t' (names.reverse ++ a))
    (hknown : k = .declaration → ∃ bytes, t.node? (names.reverse ++ a) = some (.file bytes))
    (hcandidates : ∀ d ∈ files.platforms, d ≠ root.descend names →
      ∀ q, Document.Candidate ⟨t.sources, workspace⟩ d q → t.sources.Alike t'.sources q) :
    Files.Shift ⟨t.sources, workspace⟩ ⟨t'.sources, workspace⟩ files files' (root.descend names)
      k := by
  have hread : ∀ j, ∀ q ∈ files.ofKind j, q ≠ root.descend names → t'.read q = t.read q := by
    intro j q hq hother
    obtain ⟨others, hvalid, _, rfl, hnode, _⟩ := exists_names h hroot hrun hq
    exact read_of_alters h h' hroot hroot' halters hvalid hnode hother
  have hdeclarations : ∀ file ∈ files'.declarations, file ∈ files.declarations := fun file hfile =>
    mem_declarations_of_alters h h' hroot hroot' hrun hrun' hne hnames hkind halters hknown hfile
  refine ⟨found_of_run h hrun, found_of_run h' hrun',
    alikeExcept_of_alters h h' hroot hroot' hrun hrun' hnames halters,
    fun j hj => ⟨not_mem_ofKind h hroot hrun hne hnames hkind hj,
      not_mem_ofKind h' hroot' hrun' hne hnames hkind hj⟩, hread,
    fun d hd hd' => ?_, fun _ hmem => hdeclarations _ hmem, fun hk file hfile hsame => ?_⟩
  · exact Document.ofFile_congr rfl (hread .platform d hd hd') (hcandidates d hd hd')
  · obtain ⟨others, hvalid, hopen, rfl, _⟩ :=
      exists_names (k := .declaration) h hroot hrun hfile
    obtain ⟨front, last, rfl⟩ := (List.eq_nil_or_concat' others).resolve_left hopen.ne_nil
    obtain ⟨front', last', rfl⟩ := (List.eq_nil_or_concat' names).resolve_left hne
    have hlast := hvalid last (by simp)
    have hwritten := hdec _ hfile
    rw [Path.descend_concat] at hwritten hsame hkind ⊢
    rw [Path.descend_concat] at hsame ⊢
    rw [Path.writtenExtension?, Path.fileName?_push _ hlast.toIsName, Option.bind_some] at hwritten
    exact FileKind.withExtension_same hlast.toIsName (hnames last' (by simp)) hwritten
      (hk ▸ hkind) hsame

end Discovery

end FirmwareIndex
