import FirmwareIndex.Proofs.Catalog.Sibling
import FirmwareIndex.Proofs.Tree.Change
import FirmwareIndex.Proofs.Workspace.Linked

/-!
# Platforms after a file has changed

A scan leaves every document and every fingerprint as reading gives it (`Catalog.Faithful`). When a
file has been written to, a rescan of it reads the platforms again that may depend on it: the file
itself if it is a build file, or else all platforms that visited it. `Rescan.Refreshed` says which
of them are still to come. In the end each of these documents is what reading the platform gives now
(`Workspace.exists_rescan_refreshed`). A platform that includes a build file is not read again when
that file changes (`Workspace.exists_rescan_stale`).
-/

set_option autoImplicit false

namespace FirmwareIndex

namespace Catalog

variable {c : Catalog} {s : Setting} {path : Path}

/-- A package that has to look beside itself again does not matter to the fingerprints. -/
theorem fingerprints_refreshSibling (c : Catalog) (platform : Path) :
    (c.refreshSibling platform).fingerprints = c.fingerprints := by
  unfold refreshSibling
  split <;> rfl

/-- Taking in a file sets its fingerprint, or removes it. -/
theorem fingerprints_take (c : Catalog) (o : Outcome) :
    (c.take o).fingerprints = c.fingerprints.alter o.path.components fun _ => o.fingerprint := by
  obtain ⟨kind, path, fingerprint, content⟩ := o
  cases content with
  | module r | declaration r => rfl
  | platform d => exact fingerprints_refreshSibling _ _

/-- Forgetting a file removes its fingerprint, and no other one. -/
theorem fingerprints_forget (c : Catalog) (path : Path) (kind : FileKind) :
    (c.forget path kind).fingerprints = c.fingerprints.alter path.components fun _ => none := by
  cases kind with
  | module | declaration => rfl
  | platform => exact fingerprints_refreshSibling _ _

/-- Taking in a platform puts in its document. -/
theorem platforms_take (c : Catalog) (s : Setting) (path : Path) :
    (c.take (.ofFile s .platform path)).platforms = c.platforms.insert (.ofFile s path) :=
  platforms_refreshSibling _ _

/-- Forgetting a platform takes out its document. -/
theorem platforms_forget (c : Catalog) (path : Path) :
    (c.forget path .platform).platforms = c.platforms.remove path :=
  platforms_refreshSibling _ _

/-- Setting the fingerprint of another file leaves that of a file as it is. -/
theorem getElem?_alter_of_ne {m : PathMap Text} {k key : List Component} {v : Option Text}
    (h : k ≠ key) : (m.alter k fun _ => v)[key]? = m[key]? := by
  rw [Std.ExtTreeMap.getElem?_alter, if_neg fun heq => h (Std.LawfulEqCmp.compare_eq_iff_eq.1 heq)]

/-- The documents and the fingerprints are what reading the files gives. -/
structure Faithful (c : Catalog) (s : Setting) : Prop where
  document : ∀ (d : Document) (k : List Component), c.platforms.documents[k]? = some d →
    d.file.components = k ∧ FileKind.ofFileName? d.file = some .platform ∧ d = .ofFile s d.file
  fingerprint : ∀ (k : List Component) (v : Text), c.fingerprints[k]? = some v →
    ∃ file : Path, file.components = k ∧ s.fingerprint? file = some v

/-- A catalog stays faithful when a file is taken in that has been read. -/
theorem Faithful.take (h : c.Faithful s) {kind : FileKind}
    (hkind : FileKind.ofFileName? path = some kind) :
    (c.take (.ofFile s kind path)).Faithful s where
  document d k hk := by
    cases kind with
    | module | declaration => exact h.document d k hk
    | platform =>
      have hfile := Document.file_ofFile s path
      rw [platforms_take] at hk
      rcases Platforms.of_getElem?_insert hk with ⟨hkey, rfl⟩ | ⟨_, hk⟩
      · exact ⟨hkey, by rw [hfile, hkind], by rw [hfile]⟩
      · exact h.document d k hk
  fingerprint k v hv := by
    rw [fingerprints_take, Std.ExtTreeMap.getElem?_alter] at hv
    split at hv
    · rename_i hkey
      exact ⟨path, Std.LawfulEqCmp.compare_eq_iff_eq.1 hkey, hv⟩
    · exact h.fingerprint k v hv

end Catalog

namespace Workspace

variable {w scanned : Workspace} {t : Tree} {events : List Event}

/-- What a scan leaves: the workspace with another catalog, which is what reading gives. -/
theorem faithful_of_scan (hscan : w.scan t = .ok (scanned, events)) :
    scanned.root = w.root ∧ scanned.options = w.options ∧
      scanned.catalog.Faithful (w.setting t) := by
  rw [scan] at hscan
  cases hrun : Discovery.run t w.options w.root with
  | error refusal => rw [hrun] at hscan; cases hscan
  | ok files =>
    rw [hrun] at hscan
    have hindex : w.index t files = (scanned, events) := Except.ok.inj hscan
    obtain rfl : (w.index t files).1 = scanned := congrArg Prod.fst hindex
    refine ⟨rfl, rfl, ?_⟩
    have htaken := foldl_take_induction (w := w) (motive := fun c => c.Faithful (w.setting t))
      ⟨by simp [Catalog.empty, Platforms.empty], by simp [Catalog.empty]⟩
      fun c hc kind file hfile => hc.take (Discovery.ofFileName?_of_mem_ofKind hrun hfile)
    exact ⟨htaken.document, htaken.fingerprint⟩

/-- The documents are what reading their platforms gives. -/
def UpToDate (c : Catalog) (s : Setting) : Prop :=
  ∀ (d : Document) (k : List Component), c.platforms.documents[k]? = some d →
    d.file.components = k ∧ d = .ofFile s d.file

/-- If the text of a changed file is the known one, then all documents are still what reading
gives, so the file can be passed over. -/
def Recognizes (c : Catalog) (s : Setting) (p : Path) : Prop :=
  ∀ file : Path, file.Same p → s.fingerprint? file ≠ none →
    c.fingerprints[file.components]? = s.fingerprint? file → UpToDate c s

/-- A rescan of `p` on its way, with the platforms that are still to be read. A document is what
reading its platform gives, or it has been left as it was; in that case the platform is still to
come if the document is of concern. -/
structure Rescan.Refreshed (s : Setting) (c : Catalog) (p : Path) (concern : Document → Prop)
    (r : Rescan) (pending : List Path) : Prop where
  document : ∀ (d : Document) (k : List Component), r.catalog.platforms.documents[k]? = some d →
    (d.file.components = k ∧ d = .ofFile s d.file) ∨
      (c.platforms.documents[k]? = some d ∧
        (k = p.components → r.catalog.fingerprints[k]? = c.fingerprints[k]?) ∧
        (concern d → ∃ file ∈ pending, file.components = k))
  kept : r.changed = false →
    ∀ k : List Component, r.catalog.platforms.documents[k]? = c.platforms.documents[k]?

namespace Rescan.Refreshed

variable {s : Setting} {c : Catalog} {p file : Path} {concern : Document → Prop} {r : Rescan}
  {pending : List Path}

/-- A file that is passed over, since its text is known, has the document that reading it gives. -/
theorem skip (h : r.Refreshed s c p concern (file :: pending)) (hfile : file.Same p)
    (hfresh : r.catalog.fingerprints[file.components]? = c.fingerprints[file.components]? →
      UpToDate c s) : r.Refreshed s c p concern pending where
  document d k hk := by
    rcases h.document d k hk with hnew | ⟨hold, hfingerprint, hpending⟩
    · exact .inl hnew
    · by_cases hkey : file.components = k
      · have hp : k = p.components := hkey.symm.trans hfile
        exact .inl (hfresh (by rw [hkey, hfingerprint hp]) d k hold)
      · refine .inr ⟨hold, hfingerprint, fun hd => ?_⟩
        obtain ⟨other, hother, heq⟩ := hpending hd
        rcases List.mem_cons.1 hother with rfl | hother
        · exact absurd heq hkey
        · exact ⟨other, hother, heq⟩
  kept := h.kept

/-- A document of another file is left as it is, and so is its fingerprint. -/
theorem other (h : r.Refreshed s c p concern (file :: pending)) {m : PathMap Text} {v : Option Text}
    (hm : m = r.catalog.fingerprints.alter file.components fun _ => v) {d : Document}
    {k : List Component} (hkey : file.components ≠ k)
    (hk : r.catalog.platforms.documents[k]? = some d) :
    (d.file.components = k ∧ d = .ofFile s d.file) ∨
      (c.platforms.documents[k]? = some d ∧ (k = p.components → m[k]? = c.fingerprints[k]?) ∧
        (concern d → ∃ file ∈ pending, file.components = k)) := by
  refine (h.document d k hk).imp_right fun ⟨hold, hfingerprint, hpending⟩ => ⟨hold, ?_, ?_⟩
  · intro hp
    rw [hm, Catalog.getElem?_alter_of_ne hkey, hfingerprint hp]
  · intro hd
    obtain ⟨other, hother, heq⟩ := hpending hd
    rcases List.mem_cons.1 hother with rfl | hother
    · exact absurd heq hkey
    · exact ⟨other, hother, heq⟩

/-- One platform less is still to be read once it has been read, or forgotten since it is gone. -/
theorem read (h : r.Refreshed s c p concern (file :: pending)) (hknown : Recognizes c s p) :
    (Rescan.read s p r (file, .platform)).Refreshed s c p concern pending := by
  unfold Rescan.read
  split
  · dsimp only
    split
    · rename_i hskip
      rw [Bool.and_eq_true, Bool.and_eq_true] at hskip
      obtain ⟨⟨hsame, hsome⟩, hfingerprint⟩ := hskip
      have hsame : file.Same p := of_decide_eq_true hsame
      have hfingerprint : r.catalog.fingerprints[file.components]? = s.fingerprint? file :=
        of_decide_eq_true hfingerprint
      exact h.skip hsame fun heq => hknown file hsame (Option.isSome_iff_ne_none.1 hsome)
        (heq.symm.trans hfingerprint)
    · refine ⟨fun d k hk => ?_, fun hchanged => by cases hchanged⟩
      rw [Catalog.platforms_take] at hk
      rcases Platforms.of_getElem?_insert hk with ⟨hkey, rfl⟩ | ⟨hkey, hk⟩
      · rw [Document.file_ofFile] at hkey ⊢
        exact .inl ⟨hkey, rfl⟩
      · rw [Document.file_ofFile] at hkey
        exact h.other (Catalog.fingerprints_take _ _) hkey hk
  · refine ⟨fun d k hk => ?_, fun hchanged k => ?_⟩
    · rw [Catalog.platforms_forget] at hk
      obtain ⟨hkey, hk⟩ := Platforms.of_getElem?_remove hk
      exact h.other (Catalog.fingerprints_forget _ _ _) hkey hk
    · obtain ⟨hbefore, hunknown⟩ : r.changed = false ∧
          (r.catalog.platforms.get? file).isSome = false := by
        simpa [Catalog.knows] using hchanged
      rw [← h.kept hbefore k, Catalog.platforms_forget, Platforms.remove,
        Std.ExtTreeMap.getElem?_erase]
      split
      · rename_i hkey
        have hnone : r.catalog.platforms.get? file = none := by simpa using hunknown
        rw [← Std.LawfulEqCmp.compare_eq_iff_eq.1 hkey]
        exact hnone.symm
      · rfl

/-- In the end no platform is still to be read. -/
theorem foldl_read (pending : List Path) (h : r.Refreshed s c p concern pending)
    (hknown : Recognizes c s p) :
    ((pending.map fun file => (file, FileKind.platform)).foldl (Rescan.read s p) r).Refreshed s c p
      concern [] := by
  induction pending generalizing r with
  | nil => exact h
  | cons file rest ih => exact ih (h.read hknown)

end Rescan.Refreshed

/-- A text that is written to a file is recognized by its fingerprint, if the old text has not the
same one by accident. -/
theorem recognizes_writeFile {c : Catalog} {p : Path} {a : Address} {old bytes : List UInt8}
    (h : c.Faithful (w.setting t)) (hfile : t.lookup p = .ok (a, .file old))
    (hfingerprint : ∀ text, t.read p = .ok text →
      Digest.fingerprint text = Digest.fingerprint (Utf8.decode bytes) →
        text = Utf8.decode bytes) :
    Recognizes c (w.setting (t.writeFile p bytes)) p := by
  intro file hsame hsome hknown
  obtain ⟨v, hv⟩ := Option.ne_none_iff_exists'.1 hsome
  obtain ⟨new, hnew, rfl⟩ := Setting.fingerprint?_eq_some.1 hv
  have hwritten := Tree.read_of_same hsame hnew (Tree.lookup_writeFile_self hfile bytes)
  obtain rfl := Tree.eq_of_read_of_same hsame hnew hwritten
  obtain ⟨known, hplace, hvalue⟩ := h.fingerprint _ _ (hknown.trans hv)
  obtain ⟨text, htext, hequal⟩ := Setting.fingerprint?_eq_some.1 hvalue
  have hp : known.Same p := hplace.trans hsame
  have hold := Tree.read_of_same hp htext hfile
  obtain rfl := Tree.eq_of_read_of_same hp htext hold
  have hsources := Tree.sources_writeFile hfile (hfingerprint _ hold hequal).symm
  have hsetting : w.setting (t.writeFile p bytes) = w.setting t := by
    rw [setting, hsources, setting]
  intro d k hk
  obtain ⟨hkey, _, hd⟩ := h.document d k hk
  exact ⟨hkey, by rw [hsetting]; exact hd⟩

/-- A document is of concern when a file changes: that of the file itself, and those for which the
file was read if it is not a build file. -/
def Concerned (p : Path) (d : Document) : Prop :=
  d.file.Same p ∨ FileKind.ofPath? p = none ∧ d.visits p = true

/-- A rescan reads all platforms again whose documents are of concern. -/
theorem refreshed_targets {s s' : Setting} {p : Path} (h : w.catalog.Faithful s)
    (hknown : Recognizes w.catalog s' p) :
    ((w.targets p).foldl (Rescan.read s' p) ⟨w.catalog, [], false⟩).Refreshed s' w.catalog p
      (Concerned p) [] := by
  have hstart : ∀ pending : List Path,
      (∀ (d : Document) (k : List Component), w.catalog.platforms.documents[k]? = some d →
        Concerned p d → ∃ file ∈ pending, file.components = k) →
      (⟨w.catalog, [], false⟩ : Rescan).Refreshed s' w.catalog p (Concerned p) pending :=
    fun pending hpending =>
      ⟨fun d k hk => .inr ⟨hk, fun _ => rfl, hpending d k hk⟩, fun _ _ => rfl⟩
  unfold targets
  cases hkind : FileKind.ofPath? p with
  | none =>
    have hpending := hstart ((w.catalog.platforms.visiting p).map Document.file)
      fun d k hk hd => by
        have hvisits : d.visits p = true := by
          rcases hd with hsame | ⟨_, hvisits⟩
          · simp [Document.visits, hsame]
          · exact hvisits
        have hmem : d ∈ w.catalog.platforms.visiting p :=
          List.mem_filter.2 ⟨mem_values_iff.2 ⟨k, hk⟩, hvisits⟩
        exact ⟨d.file, List.mem_map_of_mem hmem, (h.document d k hk).1⟩
    have hread := hpending.foldl_read _ hknown
    rw [List.map_map] at hread
    exact hread
  | some kind =>
    have hself : ∀ (d : Document) (k : List Component),
        w.catalog.platforms.documents[k]? = some d → Concerned p d →
          p.components = k ∧ kind = .platform := by
      intro d k hk hd
      have hsame : d.file.Same p := hd.resolve_right fun hnone => by simp [hkind] at hnone
      obtain ⟨hkey, hplatform, _⟩ := h.document d k hk
      rw [FileKind.ofFileName?_congr hsame, FileKind.ofFileName?_of_ofPath? hkind] at hplatform
      exact ⟨hsame.symm.trans hkey, Option.some.inj hplatform⟩
    by_cases hplatform : kind = .platform
    · subst hplatform
      exact (hstart [p] fun d k hk hd => ⟨p, by simp, (hself d k hk hd).1⟩).foldl_read [p] hknown
    · -- a build file of another kind has no document, and none is changed
      have hkept : (Rescan.read s' p ⟨w.catalog, [], false⟩ (p, kind)).catalog.platforms =
          w.catalog.platforms := by
        unfold Rescan.read
        cases kind with
        | platform => contradiction
        | module | declaration =>
          split
          · dsimp only
            split <;> rfl
          · rfl
      refine ⟨fun d k hk => .inr ?_, fun _ k => by rw [List.foldl_cons, List.foldl_nil, hkept]⟩
      rw [List.foldl_cons, List.foldl_nil, hkept] at hk
      refine ⟨hk, fun hkey => ?_, fun hd => absurd (hself d k hk hd).2 hplatform⟩
      have hsame : d.file.Same p := (h.document d k hk).1.trans hkey
      exact absurd (hself d k hk (.inl hsame)).2 hplatform

/-- Once a file that is there has been written to, a rescan of it is not refused, and the platforms
that are of concern have the documents that reading them gives now. -/
theorem exists_rescan_refreshed (hscan : w.scan t = .ok (scanned, events)) {p : Path}
    {relative : List Component} (hrelative : scanned.relative? p = some relative)
    (hincluded : scanned.options.excludesSteps relative = false) {bytes : List UInt8}
    (hfile : t.isFile p = true)
    (hfingerprint : ∀ text, t.read p = .ok text →
      Digest.fingerprint text = Digest.fingerprint (Utf8.decode bytes) →
        text = Utf8.decode bytes) :
    ∃ final changed events',
      scanned.rescan (t.writeFile p bytes) p = .ok (final, changed, events') ∧
      ∀ (file : Path) (d : Document), final.catalog.platforms.get? file = some d →
        (file.Same p ∨ FileKind.ofPath? p = none ∧ (d.visits p = true ∨
          ∃ old, scanned.catalog.platforms.get? file = some old ∧ old.visits p = true)) →
        d.file.Same file ∧ d = .ofFile (w.setting (t.writeFile p bytes)) d.file := by
  obtain ⟨hroot, _, hfaithful⟩ := faithful_of_scan hscan
  obtain ⟨a, old, hlookup⟩ := Tree.isFile_eq_true.1 hfile
  have hrefreshed := refreshed_targets hfaithful
    (recognizes_writeFile hfaithful hlookup hfingerprint)
  have hsetting : scanned.setting (t.writeFile p bytes) = w.setting (t.writeFile p bytes) := by
    rw [setting, setting, hroot]
  obtain ⟨final, changed, events', hrescan, hfinal⟩ : ∃ final changed events',
      scanned.rescan (t.writeFile p bytes) p = .ok (final, changed, events') ∧
      ∀ k : List Component, final.catalog.platforms.documents[k]? =
        ((scanned.targets p).foldl (Rescan.read (w.setting (t.writeFile p bytes)) p)
          ⟨scanned.catalog, [], false⟩).catalog.platforms.documents[k]? := by
    unfold rescan
    rw [hrelative, hsetting]
    simp only [hincluded, Bool.and_false, Bool.false_eq_true, ↓reduceIte]
    split
    · exact ⟨_, _, _, rfl, fun _ => rfl⟩
    · rename_i hchanged
      exact ⟨_, _, _, rfl, fun k => (hrefreshed.kept (by simpa using hchanged) k).symm⟩
  refine ⟨final, changed, events', hrescan, fun file d hd hfile => ?_⟩
  have hread := (hfinal file.components).symm.trans hd
  rcases hrefreshed.document d _ hread with hnew | ⟨hold, _, hpending⟩
  · exact hnew
  · -- a document that was left as it was is of no concern
    have hconcern : Concerned p d := by
      rcases hfile with hsame | ⟨hnone, hvisits | ⟨before, hbefore, hvisits⟩⟩
      · exact .inl ((hfaithful.document d _ hold).1.trans hsame)
      · exact .inr ⟨hnone, hvisits⟩
      · obtain rfl := Option.some.inj (hbefore.symm.trans hold)
        exact .inr ⟨hnone, hvisits⟩
    obtain ⟨_, hmem, _⟩ := hpending hconcern
    cases hmem

/-- A file of the workspace of the tree below. -/
def inWorkspace (name : Text) : Path :=
  Path.push ⟨"/ws"⟩ name

/-- A tree with a platform that includes an empty file. -/
def includeTree (included : Text) : Tree :=
  (Tree.empty.writeFile (inWorkspace included) []).writeFile ⟨"/ws/P.dsc"⟩
    (Utf8.encode ("!include ".toList ++ included))

/-- What is written to the included file. -/
def newDefinition : List UInt8 :=
  Utf8.encode "DEFINE A = 1".toList

/-- The platform and the included file once that has been written to and read again. -/
theorem exists_rescan_includeTree (included : Text) (names : List Text)
    (h : (((start ⟨"/ws"⟩ .default).scan (includeTree included)).toOption.bind fun s =>
      (s.1.rescan ((includeTree included).writeFile (inWorkspace included) newDefinition)
        (inWorkspace included)).toOption.bind fun r =>
          (r.1.catalog.platforms.get? ⟨"/ws/P.dsc"⟩).map fun d =>
            (s.1.relative? (inWorkspace included), s.1.options.excludesSteps [.name included],
              d.visits (inWorkspace included), d.definitions.map Definition.name)) =
        some (some [.name included], false, true, names)) :
    ∃ scanned events final changed events' d,
      (start ⟨"/ws"⟩ .default).scan (includeTree included) = .ok (scanned, events) ∧
      scanned.relative? (inWorkspace included) = some [.name included] ∧
      scanned.options.excludesSteps [.name included] = false ∧
      scanned.rescan ((includeTree included).writeFile (inWorkspace included) newDefinition)
        (inWorkspace included) = .ok (final, changed, events') ∧
      final.catalog.platforms.get? ⟨"/ws/P.dsc"⟩ = some d ∧
      d.visits (inWorkspace included) = true ∧ d.definitions.map Definition.name = names := by
  cases hscan : (start ⟨"/ws"⟩ .default).scan (includeTree included) with
  | error refusal =>
    rw [hscan] at h
    cases h
  | ok result =>
    obtain ⟨scanned, events⟩ := result
    rw [hscan] at h
    obtain ⟨_, heq, h⟩ := Option.bind_eq_some_iff.1 h
    obtain rfl := Option.some.inj heq
    cases hrescan : scanned.rescan
        ((includeTree included).writeFile (inWorkspace included) newDefinition)
        (inWorkspace included) with
    | error refusal =>
      rw [hrescan] at h
      cases h
    | ok result =>
      obtain ⟨final, changed, events'⟩ := result
      rw [hrescan] at h
      obtain ⟨_, heq, h⟩ := Option.bind_eq_some_iff.1 h
      obtain rfl := Option.some.inj heq
      obtain ⟨d, hd, hvalue⟩ := Option.map_eq_some_iff.1 h
      obtain ⟨hrelative, hvalue⟩ := Prod.mk.inj hvalue
      obtain ⟨hincluded, hvalue⟩ := Prod.mk.inj hvalue
      obtain ⟨hvisits, hnames⟩ := Prod.mk.inj hvalue
      exact ⟨scanned, events, final, changed, events', d, rfl, hrelative, hincluded, hrescan, hd,
        hvisits, hnames⟩

/-- A platform is read again when a file that it includes changes, unless that is a build file. -/
theorem refreshed_includeTree :
    ∃ scanned events final changed events' d,
      (start ⟨"/ws"⟩ .default).scan (includeTree "C.inc") = .ok (scanned, events) ∧
      scanned.relative? (inWorkspace "C.inc") = some [.name "C.inc"] ∧
      scanned.options.excludesSteps [.name "C.inc"] = false ∧
      (includeTree "C.inc").isFile (inWorkspace "C.inc") = true ∧
      (∀ text, (includeTree "C.inc").read (inWorkspace "C.inc") = .ok text →
        Digest.fingerprint text = Digest.fingerprint (Utf8.decode newDefinition) →
          text = Utf8.decode newDefinition) ∧
      scanned.rescan ((includeTree "C.inc").writeFile (inWorkspace "C.inc") newDefinition)
        (inWorkspace "C.inc") = .ok (final, changed, events') ∧
      FileKind.ofPath? (inWorkspace "C.inc") = none ∧ d.visits (inWorkspace "C.inc") = true ∧
      final.catalog.platforms.get? ⟨"/ws/P.dsc"⟩ = some d ∧
      d.definitions.map Definition.name = ["A".toList] ∧
      d = .ofFile ((start ⟨"/ws"⟩ .default).setting
        ((includeTree "C.inc").writeFile (inWorkspace "C.inc") newDefinition)) d.file := by
  obtain ⟨scanned, events, final, changed, events', d, hscan, hrelative, hincluded, hrescan, hd,
    hvisits, hnames⟩ := exists_rescan_includeTree "C.inc" ["A".toList] (by decide +kernel)
  have hfile : (includeTree "C.inc").isFile (inWorkspace "C.inc") = true := by decide +kernel
  have hread : (includeTree "C.inc").read (inWorkspace "C.inc") = .ok [] := by decide +kernel
  have hdiffer : Digest.fingerprint [] ≠ Digest.fingerprint (Utf8.decode newDefinition) := by
    decide +kernel
  have hfingerprint : ∀ text, (includeTree "C.inc").read (inWorkspace "C.inc") = .ok text →
      Digest.fingerprint text = Digest.fingerprint (Utf8.decode newDefinition) →
        text = Utf8.decode newDefinition := by
    intro text htext heq
    obtain rfl : [] = text := Except.ok.inj (hread.symm.trans htext)
    exact absurd heq hdiffer
  have hkind : FileKind.ofPath? (inWorkspace "C.inc") = none := by decide
  obtain ⟨other, changed', events'', hrescan', hfresh⟩ :=
    exists_rescan_refreshed hscan hrelative hincluded hfile hfingerprint
  obtain ⟨rfl, _⟩ := Prod.mk.inj (Except.ok.inj (hrescan'.symm.trans hrescan))
  have hd' := (hfresh _ d hd (.inr ⟨hkind, .inl hvisits⟩)).2
  exact ⟨scanned, events, other, changed, events', d, hscan, hrelative, hincluded, hfile,
    hfingerprint, hrescan, hkind, hvisits, hd, hnames, hd'⟩

/-- A platform that includes another platform is not read again when that one changes. -/
theorem exists_rescan_stale :
    ∃ scanned events final changed events' d,
      (start ⟨"/ws"⟩ .default).scan (includeTree "C.dsc") = .ok (scanned, events) ∧
      scanned.relative? (inWorkspace "C.dsc") = some [.name "C.dsc"] ∧
      scanned.options.excludesSteps [.name "C.dsc"] = false ∧
      (includeTree "C.dsc").isFile (inWorkspace "C.dsc") = true ∧
      scanned.rescan ((includeTree "C.dsc").writeFile (inWorkspace "C.dsc") newDefinition)
        (inWorkspace "C.dsc") = .ok (final, changed, events') ∧
      final.catalog.platforms.get? ⟨"/ws/P.dsc"⟩ = some d ∧ d.visits (inWorkspace "C.dsc") = true ∧
      d ≠ .ofFile ((start ⟨"/ws"⟩ .default).setting
        ((includeTree "C.dsc").writeFile (inWorkspace "C.dsc") newDefinition)) ⟨"/ws/P.dsc"⟩ := by
  obtain ⟨scanned, events, final, changed, events', d, hscan, hrelative, hincluded, hrescan, hd,
    hvisits, hnames⟩ := exists_rescan_includeTree "C.dsc" [] (by decide +kernel)
  have hfile : (includeTree "C.dsc").isFile (inWorkspace "C.dsc") = true := by decide +kernel
  have hnow : (Document.ofFile ((start ⟨"/ws"⟩ .default).setting
      ((includeTree "C.dsc").writeFile (inWorkspace "C.dsc") newDefinition))
        ⟨"/ws/P.dsc"⟩).definitions.map Definition.name = ["A".toList] := by decide +kernel
  refine ⟨scanned, events, final, changed, events', d, hscan, hrelative, hincluded, hfile, hrescan,
    hd, hvisits, ?_⟩
  intro heq
  rw [heq, hnow] at hnames
  cases hnames

end Workspace

end FirmwareIndex
