import FirmwareIndex.Proofs.Workspace.Refreshed
import FirmwareIndex.Proofs.Workspace.Respelled
import Mathlib.Data.List.Find

/-!
# Files that are passed over

A rescan passes a module or a package declaration over if the fingerprint of its text is known. A
known fingerprint is always that of a text which the file has had, and the record that was stored
with it is what this text gives, in the spelling in which the file was read (`Catalog.Backed`).
Records that are read on demand are stored without a fingerprint, and files that are unreadable or
gone have none, so no operation leaves a fingerprint beside another record.

Modules and packages are looked up by place, so their records are right in any spelling of the file
(`Workspace.unchanged_run`). The store of the declarations looks under the end of a text, where an
older record can be left if the file has been read in another spelling
(`Workspace.not_unchanged_respelled`).
-/

set_option autoImplicit false

namespace FirmwareIndex

namespace Declarations

variable {path p q : Path}

/-- A declaration is found in spellings of its file that end like it. All else is found as before. -/
theorem find?_insert (d : Declarations) (r : ModuleRecord) (p : Path) :
    (d.insert r).find? p =
      if r.path.Same p ∧ r.path.tail 2 = p.tail 2 then some r else d.find? p := by
  rw [find?, group_insert, find?]
  by_cases hkey : r.path.tail 2 = p.tail 2
  · rw [if_pos hkey]
    by_cases hp : r.path.Same p
    · rw [if_pos ⟨hp, hkey⟩, List.find?_cons_of_pos (by simpa using hp)]
    · rw [if_neg fun h => hp h.1, List.find?_cons_of_neg (by simpa using hp), List.find?_filter]
      refine List.find?_congr fun other _ => ?_
      by_cases hother : other.path.Same p
      · have hne : ¬ other.path.Same r.path := fun hr => hp (hr.symm.trans hother)
        simp [hother, hne]
      · simp [hother]
  · rw [if_neg hkey, if_neg fun h => hkey h.2]

/-- Spellings of a file that end alike find the same declaration. -/
theorem find?_congr (d : Declarations) (h : p.Same q) (htail : p.tail 2 = q.tail 2) :
    d.find? p = d.find? q := by
  simp only [find?, htail, Path.decide_same_congr h]

/-- Removing a declaration leaves those of other files as they are. -/
theorem find?_remove_of_ne (d : Declarations) (h : ¬ path.Same p) :
    (d.remove path).find? p = d.find? p := by
  have herase : ∀ list : List ModuleRecord,
      (list.eraseP fun r => r.path.Same path).find? (fun r => r.path.Same p) =
        list.find? fun r => r.path.Same p := by
    intro list
    induction list with
    | nil => rfl
    | cons a rest ih =>
      by_cases ha : a.path.Same path
      · have hp : ¬ a.path.Same p := fun hp => h (ha.symm.trans hp)
        rw [List.eraseP_cons_of_pos (by simpa using ha), List.find?_cons_of_neg (by simpa using hp)]
      · rw [List.eraseP_cons_of_neg (by simpa using ha), List.find?_cons, List.find?_cons, ih]
  rw [find?, remove, group_setGroup, find?]
  split
  · rename_i hkey
    rw [herase, hkey]
  · rfl

end Declarations

/-- The fingerprint of a file that can be read is that of its text. -/
theorem Outcome.fingerprint_ofFile {s : Setting} {p : Path} {text : Text}
    (h : s.sources.read p = .ok text) (k : FileKind) :
    (ofFile s k p).fingerprint = some (Digest.fingerprint text) :=
  congrArg (fun result => result.toOption.map Digest.fingerprint) h

/-- The record of a file that can be read is that of its text. -/
theorem ModuleRecord.ofFile_eq_ofText {s : Sources} {p : Path} {text : Text}
    (h : s.read p = .ok text) : ofFile s p = ofText p text := by
  rw [ofFile, h]

namespace Catalog

/-- The record of a file is stored, for a package declaration as that of its package too. -/
def HasRecord (c : Catalog) (file : Path) (r : ModuleRecord) : FileKind → Prop
  | .module => c.modules.get? file = some r
  | .declaration => c.declarations.find? file = some r ∧ c.packages.described file = some r
  | .platform => False

/-- Two catalogs have the same records of a file. -/
structure SameRecords (c c' : Catalog) (file : Path) : Prop where
  module : c'.modules.get? file = c.modules.get? file
  declaration : c'.declarations.find? file = c.declarations.find? file
  package : c'.packages.described file = c.packages.described file

/-- Two catalogs have the same records of a file, but for the spellings of paths. -/
structure RecordsAlike (c c' : Catalog) (file : Path) : Prop where
  module : (c.modules.get? file).map ModuleRecord.canonical =
    (c'.modules.get? file).map ModuleRecord.canonical
  declaration : (c.declarations.find? file).map ModuleRecord.canonical =
    (c'.declarations.find? file).map ModuleRecord.canonical
  package : (c.packages.described file).map ModuleRecord.canonical =
    (c'.packages.described file).map ModuleRecord.canonical

/-- A record is still stored where the records are the same. -/
theorem SameRecords.hasRecord {c c' : Catalog} {file : Path} (h : c.SameRecords c' file)
    {r : ModuleRecord} {k : FileKind} (hr : c.HasRecord file r k) : c'.HasRecord file r k := by
  cases k with
  | module => exact h.module.trans hr
  | declaration => exact ⟨h.declaration.trans hr.1, h.package.trans hr.2⟩
  | platform => exact hr

/-- Catalogs with the same records of a file have them in the same spelling. -/
theorem SameRecords.alike {c c' : Catalog} {file : Path} (h : c.SameRecords c' file) :
    c.RecordsAlike c' file :=
  ⟨congrArg _ h.module.symm, congrArg _ h.declaration.symm, congrArg _ h.package.symm⟩

variable {c : Catalog} {s : Setting} {p q path : Path} {k j : FileKind} {r : ModuleRecord}

/-- Looking for a platform description anew changes no record. -/
theorem sameRecords_refreshSibling (hc : c.packages.Proper) (platform file : Path) :
    c.SameRecords (c.refreshSibling platform) file := by
  obtain ⟨ps, hps, _, hsame⟩ := exists_refreshSibling_eq c hc platform
  rw [hps]
  exact ⟨rfl, rfl, hsame file⟩

/-- Taking in a module stores its record for all spellings of its file. -/
theorem get?_take_module (c : Catalog) (s : Setting) (p file : Path) :
    (c.take (.ofFile s .module p)).modules.get? file =
      if p.Same file then some (.ofFile s.sources p) else c.modules.get? file := by
  have hpath : (ModuleRecord.ofFile s.sources p).path = p := ModuleRecord.path_ofFile s.sources p
  have hinsert := Modules.get?_insert c.modules (.ofFile s.sources p) file
  rwa [hpath] at hinsert

/-- Taking in a declaration stores its record for the spellings of its file that end like it. -/
theorem find?_take_declaration (c : Catalog) (s : Setting) (p file : Path) :
    (c.take (.ofFile s .declaration p)).declarations.find? file =
      if p.Same file ∧ p.tail 2 = file.tail 2 then some (.ofFile s.sources p)
      else c.declarations.find? file := by
  have hpath : (ModuleRecord.ofFile s.sources p).path = p := ModuleRecord.path_ofFile s.sources p
  have hinsert := Declarations.find?_insert c.declarations (.ofFile s.sources p) file
  rwa [hpath] at hinsert

/-- Taking in a declaration stores its package for all spellings of its file. -/
theorem described_take_declaration (c : Catalog) (s : Setting) (p file : Path) :
    (c.take (.ofFile s .declaration p)).packages.described file =
      if p.Same file then some (.ofFile s.sources p) else c.packages.described file := by
  have hpath : (Package.ofDeclaration (.ofFile s.sources p)).file = p :=
    ModuleRecord.path_ofFile s.sources p
  have hadd := Packages.described_add c.packages (.ofDeclaration (.ofFile s.sources p)) file
  rwa [hpath] at hadd

/-- Taking in a file changes no record of another file. -/
theorem sameRecords_take (hc : c.packages.Proper) (s : Setting) (k : FileKind)
    (h : ¬ path.Same p) : c.SameRecords (c.take (.ofFile s k path)) p := by
  cases k with
  | module => exact ⟨(get?_take_module c s path p).trans (if_neg h), rfl, rfl⟩
  | declaration =>
    exact ⟨rfl, (find?_take_declaration c s path p).trans (if_neg fun hp => h hp.1),
      (described_take_declaration c s path p).trans (if_neg h)⟩
  | platform =>
    have hrefresh := sameRecords_refreshSibling
      (c := { c.setFingerprint path (Outcome.ofFile s .platform path).fingerprint with
        platforms := c.platforms.insert (.ofFile s path) }) hc (Document.ofFile s path).file p
    exact ⟨hrefresh.module, hrefresh.declaration, hrefresh.package⟩

/-- Forgetting a file changes no record of another file. -/
theorem sameRecords_forget (hc : c.packages.Proper) (k : FileKind) (h : ¬ path.Same p) :
    c.SameRecords (c.forget path k) p := by
  cases k with
  | module => exact ⟨(Modules.get?_remove _ path p).trans (if_neg h), rfl, rfl⟩
  | declaration =>
    exact ⟨rfl, Declarations.find?_remove_of_ne _ h,
      (hc.described_remove path p).trans (if_neg h)⟩
  | platform =>
    have hrefresh := sameRecords_refreshSibling
      (c := { c.setFingerprint path none with platforms := c.platforms.remove path }) hc path p
    exact ⟨hrefresh.module, hrefresh.declaration, hrefresh.package⟩

/-- Finding the libraries anew changes no record. -/
theorem sameRecords_rebuild (c : Catalog) (s : Setting) (root file : Path) :
    c.SameRecords (c.rebuild s root) file :=
  ⟨rfl, rfl, c.packages.described_map (file_declaration_loadPackage s c.platforms) file⟩

/-- Taking in a file stores the record that reading it gives. -/
theorem hasRecord_take (c : Catalog) (s : Setting) (p : Path) (hk : k ≠ .platform) :
    (c.take (.ofFile s k p)).HasRecord p (.ofFile s.sources p) k := by
  cases k with
  | module => exact (get?_take_module c s p p).trans (if_pos rfl)
  | declaration =>
    exact ⟨(find?_take_declaration c s p p).trans (if_pos ⟨rfl, rfl⟩),
      (described_take_declaration c s p p).trans (if_pos rfl)⟩
  | platform => exact absurd rfl hk

/-- Taking in a file changes no record but for spellings, if the record that is stored is that of
another spelling. For a declaration both spellings have to end alike. -/
theorem recordsAlike_take (hc : c.packages.Proper) (hsame : q.Same p) (h : c.HasRecord q r k)
    (hr : r.canonical = (ModuleRecord.ofFile s.sources p).canonical)
    (hends : k = .declaration → q.tail 2 = p.tail 2) (file : Path) :
    c.RecordsAlike (c.take (.ofFile s k p)) file := by
  by_cases hfile : p.Same file
  · have hqfile : q.Same file := hsame.trans hfile
    have hstored := congrArg some hr
    cases k with
    | module =>
      have hold : c.modules.get? file = some r := (c.modules.get?_congr hqfile).symm.trans h
      refine ⟨?_, rfl, rfl⟩
      rw [hold, get?_take_module, if_pos hfile]
      exact hstored
    | declaration =>
      have hold : c.packages.described file = some r :=
        (c.packages.described_congr hqfile).symm.trans h.2
      refine ⟨rfl, ?_, ?_⟩
      · rw [find?_take_declaration]
        split
        · rename_i hkey
          have hfound : c.declarations.find? file = some r :=
            (c.declarations.find?_congr hqfile ((hends rfl).trans hkey.2)).symm.trans h.1
          rw [hfound]
          exact hstored
        · rfl
      · rw [hold, described_take_declaration, if_pos hfile]
        exact hstored
    | platform => exact h.elim
  · exact (sameRecords_take hc s k hfile).alike

/-- The fingerprint of a file is that of a text which has been seen in some spelling of the file, and
its record is what this text gives in that spelling. -/
def Backed (c : Catalog) (p : Path) (k : FileKind) (seen : Path → Text → Prop) : Prop :=
  ∀ v, c.fingerprints[p.components]? = some v →
    ∃ q text, q.Same p ∧ seen q text ∧ Digest.fingerprint text = v ∧
      c.HasRecord q (.ofText q text) k

namespace Backed

variable {seen : Path → Text → Prop}

/-- What is backed by some texts is backed by more texts. -/
theorem mono (h : c.Backed p k seen) {seen' : Path → Text → Prop}
    (hseen : ∀ q text, seen q text → seen' q text) : c.Backed p k seen' := by
  intro v hv
  obtain ⟨q, text, hq, htext, hrecord⟩ := h v hv
  exact ⟨q, text, hq, hseen q text htext, hrecord⟩

/-- A change of the catalog that leaves the fingerprint and the records of the file. -/
theorem congr (h : c.Backed p k seen) {c' : Catalog}
    (hfingerprint : c'.fingerprints[p.components]? = c.fingerprints[p.components]?)
    (hsame : ∀ q : Path, q.Same p → c.SameRecords c' q) : c'.Backed p k seen := by
  intro v hv
  obtain ⟨q, text, hq, htext, hdigest, hrecord⟩ := h v (hfingerprint ▸ hv)
  exact ⟨q, text, hq, htext, hdigest, (hsame q hq).hasRecord hrecord⟩

/-- The file is taken in with a text that is seen, or another file is. -/
theorem take (h : c.Backed p k seen) (hc : c.packages.Proper) (hk : k ≠ .platform)
    (hpath : path.Same p → j = k ∧ ∀ text, s.sources.read path = .ok text → seen path text) :
    (c.take (.ofFile s j path)).Backed p k seen := by
  by_cases hsame : path.Same p
  · obtain ⟨rfl, hseen⟩ := hpath hsame
    have hkey : compare path.components p.components = .eq :=
      Std.LawfulEqCmp.compare_eq_iff_eq.2 hsame
    intro v hv
    have hfingerprint : (s.sources.read path).toOption.map Digest.fingerprint = some v := by
      rw [fingerprints_take, Std.ExtTreeMap.getElem?_alter] at hv
      exact (if_pos hkey).symm.trans hv
    have hrecord := hasRecord_take c s path hk
    cases hread : s.sources.read path with
    | error reason =>
      rw [hread] at hfingerprint
      cases hfingerprint
    | ok text =>
      rw [hread] at hfingerprint
      rw [ModuleRecord.ofFile_eq_ofText hread] at hrecord
      exact ⟨path, text, hsame, hseen text hread, Option.some.inj hfingerprint, hrecord⟩
  · refine h.congr ?_ fun q hq => sameRecords_take hc s j fun hpath => hsame (hpath.trans hq)
    rw [fingerprints_take]
    exact getElem?_alter_of_ne hsame

/-- A file that is forgotten has no fingerprint. -/
theorem forget (h : c.Backed p k seen) (hc : c.packages.Proper) (path : Path) (j : FileKind) :
    (c.forget path j).Backed p k seen := by
  by_cases hsame : path.Same p
  · intro v hv
    have hkey : path.components = p.components := hsame
    rw [fingerprints_forget, hkey, Std.ExtTreeMap.getElem?_alter,
      if_pos Std.ReflCmp.compare_self] at hv
    cases hv
  · refine h.congr ?_ fun q hq => sameRecords_forget hc j fun hpath => hsame (hpath.trans hq)
    rw [fingerprints_forget]
    exact getElem?_alter_of_ne hsame

/-- Finding the libraries anew changes neither fingerprints nor records. -/
theorem rebuild (h : c.Backed p k seen) (s : Setting) (root : Path) :
    (c.rebuild s root).Backed p k seen :=
  h.congr rfl fun q _ => c.sameRecords_rebuild s root q

/-- Modules that are read on demand have no record yet, so they have no fingerprint. -/
theorem loadModules (h : c.Backed p k seen) (sources : Sources) (top : Path) :
    ({ c with modules := c.modules.loadUnder sources top } : Catalog).Backed p k seen := by
  intro v hv
  obtain ⟨q, text, hq, htext, hdigest, hrecord⟩ := h v hv
  refine ⟨q, text, hq, htext, hdigest, ?_⟩
  cases k with
  | declaration | platform => exact hrecord
  | module =>
    refine List.foldlRecOn (c.modules.pending top) _
      (motive := fun m : Modules => m.get? q = some (.ofText q text)) hrecord
      fun m hm file hfile => ?_
    have hunread : c.modules.get? file = none :=
      Option.isNone_iff_eq_none.1 (List.mem_filter.1 hfile).2
    have hother : ¬ (ModuleRecord.ofFile sources file).path.Same q := by
      rw [ModuleRecord.path_ofFile]
      intro hsame
      rw [c.modules.get?_congr hsame, (hrecord : c.modules.get? q = _)] at hunread
      cases hunread
    rw [Modules.get?_insert, if_neg hother]
    exact hm

end Backed

end Catalog

/-- What can be read is a file. -/
theorem Tree.isFile_of_read {t : Tree} {p : Path} {text : Text} (h : t.read p = .ok text) :
    t.isFile p = true := by
  unfold read at h
  split at h
  · cases h
  · unfold isFile
    split at h
    · cases h
    · rename_i hlookup
      rw [hlookup]
    · cases h

namespace Workspace

/-- An operation can read a file in a spelling: a scan in the one that it finds, and a rescan in the
one that it is given. -/
def Operation.Reads (root : Path) (options : Options) (q : Path) : Operation → Prop
  | scan t => ∃ files k, Discovery.run t options root = .ok files ∧ q ∈ files.ofKind k
  | rescan _ path => q = path
  | loadUnder _ _ => False

/-- A text that a file had, in some spelling, at the time of one of some operations. -/
def Had (operations : List Operation) (p : Path) (text : Text) : Prop :=
  ∃ operation ∈ operations, ∃ q : Path, q.Same p ∧ operation.tree.sources.read q = .ok text

/-- A text that one of some operations can have read in a spelling of a file. -/
def Read (root : Path) (options : Options) (operations : List Operation) (q : Path) (text : Text) :
    Prop :=
  ∃ operation ∈ operations, operation.Reads root options q ∧
    operation.tree.sources.read q = .ok text

variable {w : Workspace} {root p q : Path} {k : FileKind} {t : Tree} {text : Text}

section Backed

variable {seen : Path → Text → Prop} (hk : FileKind.ofFileName? p = some k) (hkind : k ≠ .platform)

include hk hkind

/-- A scan starts without fingerprints and takes in the files that it finds. -/
theorem backed_scan (h : w.catalog.Backed p k seen)
    (hseen : ∀ q text, (Operation.scan t).Reads w.root w.options q → t.sources.read q = .ok text →
      seen q text) : (w.perform (.scan t)).catalog.Backed p k seen := by
  rw [perform, scan]
  cases hrun : Discovery.run t w.options w.root with
  | error refusal => exact h
  | ok files =>
    have hadmits := (Operation.scan t).admits_at w.root w.options files hrun
    have htaken := foldl_take_induction (w := w) (t := t)
      (motive := fun c => c.Only FileKind.At ∧ c.Backed p k seen)
      ⟨Catalog.only_setFiles (hadmits .module), fun v hv => by simp [Catalog.empty] at hv⟩
      fun c hc j file hfile => by
        refine ⟨hc.1.take _ (hadmits j file hfile), hc.2.take hc.1.packages hkind fun hsame => ?_⟩
        exact ⟨(hadmits j file hfile).eq hk hsame, fun text => hseen file text ⟨files, j, hrun, hfile⟩⟩
    exact htaken.2.rebuild _ _

/-- A rescan reads the changed file, or platforms. -/
theorem backed_rescan (honly : w.catalog.Only FileKind.At) (h : w.catalog.Backed p k seen)
    {path : Path} (hseen : ∀ text, t.sources.read path = .ok text → seen path text) :
    (w.perform (.rescan t path)).catalog.Backed p k seen := by
  have htargets : ∀ target ∈ w.targets path, target.2.At target.1.components :=
    of_mem_targets honly fun j hj => FileKind.ofFileName?_of_ofPath? hj
  -- a platform that is read again is not the file, which is of another kind
  have hspelled : ∀ target ∈ w.targets path, target.1.Same p → target.2 = k ∧ target.1 = path := by
    intro target htarget hsame
    have hkindAt := (htargets target htarget).eq hk hsame
    refine ⟨hkindAt, ?_⟩
    unfold targets at htarget
    split at htarget
    · obtain rfl := List.mem_singleton.1 htarget
      rfl
    · obtain ⟨d, _, rfl⟩ := List.mem_map.1 htarget
      exact absurd hkindAt.symm hkind
  rcases w.perform_rescan t path with hsame | hnext
  · exact hsame.symm ▸ h
  · rw [hnext]
    refine Catalog.Backed.rebuild (Rescan.foldl_read_induction
      (motive := fun c : Catalog => c.Only FileKind.At ∧ c.Backed p k seen) ⟨w.catalog, [], false⟩
      ⟨honly, h⟩ ?_ ?_).2 _ _
    · refine fun c hc target htarget _ => ⟨hc.1.take _ (htargets target htarget),
        hc.2.take hc.1.packages hkind fun hsame => ?_⟩
      obtain ⟨hkindAt, hpath⟩ := hspelled target htarget hsame
      exact ⟨hkindAt, hpath ▸ hseen⟩
    · exact fun c hc target _ => ⟨hc.1.forget _ _, hc.2.forget hc.1.packages _ _⟩

/-- One operation keeps fingerprint and record of the file together. -/
theorem backed_perform (honly : w.catalog.Only FileKind.At) (h : w.catalog.Backed p k seen)
    {operation : Operation} (hseen : ∀ q text, operation.Reads w.root w.options q →
      operation.tree.sources.read q = .ok text → seen q text) :
    (w.perform operation).catalog.Backed p k seen := by
  cases operation with
  | scan t => exact backed_scan hk hkind h hseen
  | rescan t path => exact backed_rescan hk hkind honly h fun text => hseen path text rfl
  | loadUnder t top =>
    rw [perform, loadUnder]
    split
    · exact h
    · exact (h.loadModules _ _).rebuild _ _

end Backed

/-- Whatever has been done to a workspace, fingerprint and record of a file belong together. -/
theorem backed_run (root : Path) (options : Options) (operations : List Operation)
    (hk : FileKind.ofFileName? p = some k) (hkind : k ≠ .platform) :
    ((start root options).run operations).catalog.Backed p k (Read root options operations) := by
  -- a further operation sees the workspace that those before it have left
  induction operations using List.reverseRecOn with
  | nil => exact fun v hv => by simp [run, start, Catalog.empty] at hv
  | append_singleton front operation ih =>
    obtain ⟨hroot, hoptions⟩ := root_options_run root options front
    have honly := named_run root options front
    have hbefore : ((start root options).run front).catalog.Backed p k
        (Read root options (front ++ [operation])) := by
      refine ih.mono ?_
      rintro q text ⟨earlier, hearlier, htext⟩
      exact ⟨earlier, List.mem_append_left _ hearlier, htext⟩
    rw [run, List.foldl_append, List.foldl_cons, List.foldl_nil]
    refine backed_perform hk hkind honly hbefore fun q text hreads hread => ?_
    rw [hroot, hoptions] at hreads
    exact ⟨operation, List.mem_append_right _ (List.mem_singleton_self _), hreads, hread⟩

/-- A build file whose text is known is passed over. -/
theorem rescan_eq_self (hp : p.isUnder w.root) (hk : FileKind.ofPath? p = some k)
    (hread : t.sources.read p = .ok text)
    (hknown : w.catalog.fingerprints[p.components]? = some (Digest.fingerprint text)) :
    w.rescan t p = .ok (w, false, []) := by
  obtain ⟨relative, hcomponents⟩ := Path.isUnder_iff.1 hp
  have hrelative := relative?_eq_some_iff.2 hcomponents
  have hpresent : (w.setting t).sources.present p = true := Tree.isFile_of_read hread
  have hfingerprint := Outcome.fingerprint_ofFile (s := w.setting t) hread k
  have hself : p.Same p := rfl
  have htargets : w.targets p = [(p, k)] := by
    rw [targets, hk]
  have hskip : Rescan.read (w.setting t) p ⟨w.catalog, [], false⟩ (p, k) =
      ⟨w.catalog, [], false⟩ := by
    rw [Rescan.read, if_pos hpresent]
    simp only [hfingerprint, hknown, hself, decide_true, Option.isSome_some, Bool.and_self,
      ↓reduceIte]
  rw [rescan, hrelative]
  dsimp only
  rw [htargets, List.foldl_cons, List.foldl_nil, hskip]
  split <;> rfl

/-- A workspace rightly passes over a file with a text that it knows. `q` is the spelling in which it
has read the text. -/
structure Unchanged (w : Workspace) (t : Tree) (p q : Path) (k : FileKind) (text : Text) : Prop where
  same : q.Same p
  skipped : w.rescan t p = .ok (w, false, [])
  /-- The record is stored as it was read, and in that of the file only spellings are different. -/
  record : w.catalog.HasRecord q (.ofText q text) k
  canonical : (ModuleRecord.ofText q text).canonical = (ModuleRecord.ofText p text).canonical
  module : k = .module → (w.catalog.modules.get? p).map ModuleRecord.canonical =
    some (ModuleRecord.ofText p text).canonical
  package : k = .declaration → (w.catalog.packages.described p).map ModuleRecord.canonical =
    some (ModuleRecord.ofText p text).canonical
  /-- The store of the declarations finds it if both spellings end alike. -/
  declaration : k = .declaration → q.tail 2 = p.tail 2 →
    (w.catalog.declarations.find? p).map ModuleRecord.canonical =
      some (ModuleRecord.ofText p text).canonical
  /-- So reading the file again would change no record and no fingerprint. -/
  again : (k = .declaration → q.tail 2 = p.tail 2) →
    ∀ file, w.catalog.RecordsAlike (w.catalog.take (.ofFile (w.setting t) k p)) file
  fingerprints : (w.catalog.take (.ofFile (w.setting t) k p)).fingerprints = w.catalog.fingerprints

/-- Whatever has been done to a workspace, a module or a package declaration that is passed over has
the record that its text gives, in a spelling in which it has been read. The fingerprints need to
tell the text from those that the file has had before. -/
theorem unchanged_run (root : Path) (options : Options) (operations : List Operation)
    (hp : p.isUnder root) (hk : FileKind.ofPath? p = some k) (hkind : k ≠ .platform)
    (hread : t.sources.read p = .ok text)
    (hknown : ((start root options).run operations).catalog.fingerprints[p.components]? =
      some (Digest.fingerprint text))
    (hdigest : ∀ old, Had operations p old → Digest.fingerprint old = Digest.fingerprint text →
      old = text) :
    ∃ q, (∃ operation ∈ operations, operation.Reads root options q) ∧
      ((start root options).run operations).Unchanged t p q k text := by
  have honly := named_run root options operations
  obtain ⟨q, old, hsame, ⟨operation, hoperation, hreads, hold⟩, hfingerprint, hrecord⟩ :=
    backed_run root options operations (FileKind.ofFileName?_of_ofPath? hk) hkind _ hknown
  obtain rfl := hdigest old ⟨operation, hoperation, q, hsame, hold⟩ hfingerprint
  generalize hw : (start root options).run operations = w at hknown hrecord honly ⊢
  have hroot : w.root = root := hw ▸ (root_options_run root options operations).1
  have hcanonical : (ModuleRecord.ofText q old).canonical = (ModuleRecord.ofText p old).canonical :=
    ModuleRecord.canonical_ofSections hsame _
  have hstored : (ModuleRecord.ofText q old).canonical =
      (ModuleRecord.ofFile (w.setting t).sources p).canonical := by
    rw [ModuleRecord.ofFile_eq_ofText (s := (w.setting t).sources) hread, hcanonical]
  refine ⟨q, ⟨operation, hoperation, hreads⟩, hsame,
    rescan_eq_self (hroot.symm ▸ hp) hk hread hknown, hrecord, hcanonical, ?_, ?_, ?_,
    Catalog.recordsAlike_take honly.packages hsame hrecord hstored, ?_⟩
  · rintro rfl
    rw [← w.catalog.modules.get?_congr hsame, (hrecord : w.catalog.modules.get? q = _)]
    exact congrArg some hcanonical
  · rintro rfl
    rw [← w.catalog.packages.described_congr hsame, hrecord.2]
    exact congrArg some hcanonical
  · rintro rfl hends
    rw [← w.catalog.declarations.find?_congr hsame hends, hrecord.1]
    exact congrArg some hcanonical
  · apply Std.ExtTreeMap.ext_getElem?
    intro key
    rw [Catalog.fingerprints_take, Std.ExtTreeMap.getElem?_alter]
    split
    · rename_i hkey
      obtain rfl : p.components = key := Std.LawfulEqCmp.compare_eq_iff_eq.1 hkey
      exact (Outcome.fingerprint_ofFile (s := w.setting t) hread k).trans hknown.symm
    · rfl

/-! ## A package that is passed over -/

/-- The text of the package once it has another include directory. -/
def changedText : Text :=
  "[Includes]\nB\n"

/-- The package is scanned, and read again in some spelling once it has changed. -/
def respelling (path : Path) : List Operation :=
  [.scan usedPackage, .rescan changedPackage path]

/-- The changed package has its new text. -/
theorem read_changedPackage :
    changedPackage.sources.read ⟨"/ws/Pkg/Pkg.dec"⟩ = .ok changedText := by
  decide +kernel

/-- The fingerprint of the new text tells it from the old one. -/
theorem eq_of_had_respelling {path : Path} {old : Text}
    (h : Had (respelling path) ⟨"/ws/Pkg/Pkg.dec"⟩ old)
    (hsame : Digest.fingerprint old = Digest.fingerprint changedText) : old = changedText := by
  have hused : usedPackage.read ⟨"/ws/Pkg/Pkg.dec"⟩ = .ok "[Includes]\nA\n" := by decide +kernel
  have hdiff : Digest.fingerprint "[Includes]\nA\n" ≠ Digest.fingerprint changedText := by
    decide +kernel
  obtain ⟨operation, hoperation, q, hq, hold⟩ := h
  rcases List.mem_cons.1 hoperation with rfl | hoperation
  · have hold : usedPackage.read q = .ok old := hold
    obtain rfl := Tree.eq_of_read_of_same hq hold hused
    exact absurd hsame hdiff
  · obtain rfl := List.mem_singleton.1 hoperation
    have hold : changedPackage.read q = .ok old := hold
    exact Tree.eq_of_read_of_same hq hold read_changedPackage

/-- Once the changed package has been read, its new fingerprint is known, whichever of two other
spellings it has been read in. -/
theorem fingerprint_respelling : ∀ path ∈ [Path.mk "/ws//Pkg/Pkg.dec", ⟨"/ws/Pkg/./Pkg.dec"⟩],
    ((start ⟨"/ws"⟩ .default).run (respelling path)).catalog.fingerprints[
      (Path.mk "/ws/Pkg/Pkg.dec").components]? = some (Digest.fingerprint changedText) := by
  decide +kernel

/-- A spelling of the package in which it was found by the scan, or read again. -/
theorem eq_of_reads_respelling {path q : Path} (hq : q.Same ⟨"/ws/Pkg/Pkg.dec"⟩)
    (h : ∃ operation ∈ respelling path, operation.Reads ⟨"/ws"⟩ .default q) :
    q = ⟨"/ws/Pkg/Pkg.dec"⟩ ∨ q = path := by
  have hbelow : Path.SpelledBelow ⟨"/ws/Pkg/Pkg.dec"⟩ ⟨"/ws"⟩ :=
    ⟨["Pkg", "Pkg.dec"], by decide, by decide⟩
  obtain ⟨operation, hoperation, hreads⟩ := h
  rcases List.mem_cons.1 hoperation with rfl | hoperation
  · obtain ⟨files, k, hrun, hfile⟩ := hreads
    have hspelled := (Discovery.spelledBelow_of_mem_ofKind named_usedPackage hrun hfile).1
    exact .inl (hspelled.eq_of_same hbelow hq)
  · obtain rfl := List.mem_singleton.1 hoperation
    exact .inr hreads

/-- The package has been read again in a spelling that ends like the one in which it is passed over
now. -/
theorem unchanged_respelling :
    Path.isUnder ⟨"/ws/Pkg/Pkg.dec"⟩ ⟨"/ws"⟩ = true ∧
      changedPackage.sources.read ⟨"/ws/Pkg/Pkg.dec"⟩ = .ok changedText ∧
      ∃ w q, w = (start ⟨"/ws"⟩ .default).run (respelling ⟨"/ws//Pkg/Pkg.dec"⟩) ∧
        w.Unchanged changedPackage ⟨"/ws/Pkg/Pkg.dec"⟩ q .declaration changedText ∧
        (w.catalog.declarations.find? ⟨"/ws/Pkg/Pkg.dec"⟩).map ModuleRecord.canonical =
          some (ModuleRecord.ofText ⟨"/ws/Pkg/Pkg.dec"⟩ changedText).canonical := by
  have hunder : Path.isUnder ⟨"/ws/Pkg/Pkg.dec"⟩ ⟨"/ws"⟩ = true := by decide
  obtain ⟨q, hreads, hunchanged⟩ := unchanged_run ⟨"/ws"⟩ .default
    (respelling ⟨"/ws//Pkg/Pkg.dec"⟩) (p := ⟨"/ws/Pkg/Pkg.dec"⟩) (k := .declaration) hunder
    (by decide) (by decide) read_changedPackage (fingerprint_respelling _ (by simp))
    fun _ => eq_of_had_respelling
  have hends : q.tail 2 = Path.tail ⟨"/ws/Pkg/Pkg.dec"⟩ 2 := by
    obtain rfl | rfl := eq_of_reads_respelling hunchanged.same hreads
    · rfl
    · decide
  exact ⟨hunder, read_changedPackage, _, q, rfl, hunchanged, hunchanged.declaration rfl hends⟩

/-- The package has been read again in a spelling that ends in another way. A rescan of the spelling
that a scan finds passes it over, but the declaration that is stored is that of the old text. -/
theorem not_unchanged_respelled :
    usedPackage.Named ∧ Path.SpelledBelow ⟨"/ws/Pkg/Pkg.dec"⟩ ⟨"/ws"⟩ ∧
      changedPackage.sources.read ⟨"/ws/Pkg/Pkg.dec"⟩ = .ok changedText ∧
      (∀ old, Had (respelling ⟨"/ws/Pkg/./Pkg.dec"⟩) ⟨"/ws/Pkg/Pkg.dec"⟩ old →
        Digest.fingerprint old = Digest.fingerprint changedText → old = changedText) ∧
      ∃ w, w = (start ⟨"/ws"⟩ .default).run (respelling ⟨"/ws/Pkg/./Pkg.dec"⟩) ∧
        w.catalog.fingerprints[(Path.mk "/ws/Pkg/Pkg.dec").components]? =
          some (Digest.fingerprint changedText) ∧
        w.rescan changedPackage ⟨"/ws/Pkg/Pkg.dec"⟩ = .ok (w, false, []) ∧
        (w.catalog.declarations.find? ⟨"/ws/Pkg/Pkg.dec"⟩).map (·.includes) =
          some [⟨"/ws/Pkg/A"⟩] ∧
        (ModuleRecord.ofText ⟨"/ws/Pkg/Pkg.dec"⟩ changedText).includes = [⟨"/ws/Pkg/B"⟩] ∧
        w.sourceIncludes = [⟨"/ws/Pkg/A"⟩] := by
  have hknown := fingerprint_respelling ⟨"/ws/Pkg/./Pkg.dec"⟩ (by simp)
  have hroot := (root_options_run ⟨"/ws"⟩ .default (respelling ⟨"/ws/Pkg/./Pkg.dec"⟩)).1
  have hunder : Path.isUnder ⟨"/ws/Pkg/Pkg.dec"⟩ ⟨"/ws"⟩ = true := by decide
  have hskipped := rescan_eq_self (k := .declaration) (hroot.symm ▸ hunder) (by decide)
    read_changedPackage hknown
  exact ⟨named_usedPackage, ⟨["Pkg", "Pkg.dec"], by decide, by decide⟩, read_changedPackage,
    fun _ => eq_of_had_respelling, _, rfl, hknown, hskipped, by decide +kernel, by decide +kernel,
    by decide +kernel⟩

end Workspace

end FirmwareIndex
