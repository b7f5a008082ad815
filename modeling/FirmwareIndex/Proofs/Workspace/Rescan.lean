import FirmwareIndex.Proofs.Section.Lines
import FirmwareIndex.Proofs.Workspace.Change
import Mathlib

/-!
# Rescans and scans

After a scan, the files of a workspace change one at a time, and the path of each is given to a
rescan. Each rescan keeps the catalog in step with the files (`Workspace.Tracks.rescan`), so in the
end it is that of a scan of the last tree (`Workspace.exists_follow_matches`), apart from orders
that do not matter. This takes that the platforms other than the changed file do not depend on it by
an include, that no package declaration is new, and that a file is not given another text with the
same fingerprint. It is not enough that no changed file is meant by an include
(`Workspace.not_matches_removedModule`), and there are texts with the same fingerprint
(`Workspace.not_matches_sameFingerprint`).
-/

set_option autoImplicit false

namespace FirmwareIndex

namespace Workspace

/-- Rescans after each of some changes. -/
def follow (w : Workspace) (t : Tree) : List Change → Except Refusal Workspace
  | [] => .ok w
  | e :: rest =>
    match w.rescan (e.apply w.root t) (e.path w.root) with
    | .error refusal => .error refusal
    | .ok (next, _, _) => follow next (e.apply w.root t) rest

/-- A rescan of a build file below the root ignores it if it is left out, passes it over if its text
is known, takes it in if it is there, and else forgets it. -/
theorem rescan_cases {w : Workspace} {p : Path} {k : FileKind} {relative : List Component}
    (t : Tree) (hrelative : w.relative? p = some relative) (hkind : FileKind.ofPath? p = some k) :
    ∃ next changed events, w.rescan t p = .ok (next, changed, events) ∧
      next.root = w.root ∧ next.options = w.options ∧
      ((w.options.excludesSteps relative = true ∧ next.catalog = w.catalog) ∨
        (w.options.excludesSteps relative = false ∧ t.isFile p = true ∧
          (w.setting t).fingerprint? p ≠ none ∧
          w.catalog.fingerprints[p.components]? = (w.setting t).fingerprint? p ∧
          next.catalog = w.catalog) ∨
        (w.options.excludesSteps relative = false ∧ t.isFile p = true ∧
          ¬ ((w.setting t).fingerprint? p ≠ none ∧
            w.catalog.fingerprints[p.components]? = (w.setting t).fingerprint? p) ∧
          next.catalog =
            (w.catalog.take (.ofFile (w.setting t) k p)).rebuild (w.setting t) w.root) ∨
        (w.options.excludesSteps relative = false ∧ t.isFile p = false ∧
          next.catalog = if w.catalog.knows p k then
            (w.catalog.forget p k).rebuild (w.setting t) w.root else w.catalog)) := by
  have hself : p.Same p := rfl
  have htargets : w.targets p = [(p, k)] := by
    unfold targets
    rw [hkind]
  unfold rescan
  rw [hrelative, htargets, hkind]
  simp only [Option.isSome_some, Bool.true_and, List.foldl_cons, List.foldl_nil, Rescan.read]
  by_cases hexcluded : w.options.excludesSteps relative = true
  · rw [if_pos hexcluded]
    exact ⟨_, _, _, rfl, rfl, rfl, .inl ⟨hexcluded, rfl⟩⟩
  · rw [if_neg hexcluded]
    have hopen := Bool.eq_false_iff.2 hexcluded
    by_cases hpresent : (w.setting t).sources.present p = true
    · rw [if_pos hpresent]
      by_cases hknown : (w.setting t).fingerprint? p ≠ none ∧
          w.catalog.fingerprints[p.components]? = (w.setting t).fingerprint? p
      · have hfingerprint : (Outcome.ofFile (w.setting t) k p).fingerprint.isSome = true :=
          Option.isSome_iff_ne_none.2 hknown.1
        have hsame : w.catalog.fingerprints[p.components]? =
            (Outcome.ofFile (w.setting t) k p).fingerprint := hknown.2
        refine ⟨w, false, [], ?_, rfl, rfl,
          .inr (.inl ⟨hopen, hpresent, hknown.1, hknown.2, rfl⟩)⟩
        simp [hself, hfingerprint, hsame]
      · have hnew : ¬ (decide (p.Same p) && (Outcome.ofFile (w.setting t) k p).fingerprint.isSome &&
            decide (w.catalog.fingerprints[p.components]? =
              (Outcome.ofFile (w.setting t) k p).fingerprint)) = true := by
          simp only [hself, decide_true, Bool.true_and, Bool.and_eq_true, decide_eq_true_eq]
          exact fun h => hknown ⟨Option.isSome_iff_ne_none.1 h.1, h.2⟩
        rw [if_neg hnew]
        exact ⟨_, _, _, rfl, rfl, rfl, .inr (.inr (.inl ⟨hopen, hpresent, hknown, rfl⟩))⟩
    · rw [if_neg hpresent]
      have hgone := Bool.eq_false_iff.2 hpresent
      by_cases hknows : w.catalog.knows p k = true
      · simp only [hknows, Bool.or_true, ↓reduceIte]
        exact ⟨_, _, _, rfl, rfl, rfl, .inr (.inr (.inr ⟨hopen, hgone, rfl⟩))⟩
      · simp only [hknows, Bool.or_false, Bool.false_eq_true, ↓reduceIte]
        exact ⟨_, _, _, rfl, rfl, rfl, .inr (.inr (.inr ⟨hopen, hgone, rfl⟩))⟩

/-- A path that names were pushed to is below the root by these names. -/
theorem relative?_descend (w : Workspace) {names : List Text}
    (hnames : ∀ name ∈ names, Path.IsName name) :
    w.relative? (w.root.descend names) = some (names.map .name) := by
  have hprefix : ∀ front back : List Component, front.isPrefixOf? (front ++ back) = some back := by
    intro front back
    induction front with
    | nil => rfl
    | cons c front ih => simp [List.isPrefixOf?, ih]
  rw [relative?, Path.components_descend _ hnames, hprefix]

/-- A workspace that has been scanned, and rescanned after each change, tracks the tree: its catalog
is in step with the files that a scan would find now. -/
structure Tracks (w current : Workspace) (t : Tree) : Prop where
  root : current.root = w.root
  options : current.options = w.options
  wellFormed : t.WellFormed
  inStep : ∃ files, Discovery.run t w.options w.root = .ok files ∧
    (∀ file ∈ files.declarations, file.writtenExtension? = some "dec".toList) ∧
    current.catalog.InStep (w.setting t) w.root files

variable {w current scanned : Workspace} {t : Tree} {e : Change} {files : Files}
  {events : List Event}

/-- A scan that is not refused finds files. -/
theorem exists_run_of_scan (hscan : w.scan t = .ok (scanned, events)) :
    ∃ files, Discovery.run t w.options w.root = .ok files := by
  rw [scan] at hscan
  cases hfiles : Discovery.run t w.options w.root with
  | error refusal => rw [hfiles] at hscan; cases hscan
  | ok files => exact ⟨files, rfl⟩

/-- A scan that reads the modules leads to the catalog of the files that it finds. -/
theorem exists_scan_described (heager : w.options.eager = true)
    (hrun : Discovery.run t w.options w.root = .ok files) :
    ∃ scanned events, w.scan t = .ok (scanned, events) ∧ scanned.root = w.root ∧
      scanned.options = w.options ∧ scanned.catalog =
        .described (w.setting t) w.root
          ((Modules.empty.setFiles files.modules).load t.sources files.modules) files.declarations
          files.platforms (Catalog.fingerprinted (w.setting t) ∅
            (files.modules ++ files.declarations ++ files.platforms)) := by
  have hreading : w.reading true = w := by
    unfold reading
    rw [← heager]
  have hcatalog := w.catalog_index true hrun
  rw [hreading] at hcatalog
  have hscan : w.scan t = .ok (w.index t files) := by
    rw [scan, hrun]
    rfl
  exact ⟨_, _, hscan, rfl, rfl, hcatalog⟩

/-- So that catalog is in step with the files. -/
theorem exists_scan (ht : t.WellFormed) (heager : w.options.eager = true)
    (hrun : Discovery.run t w.options w.root = .ok files) :
    ∃ scanned events, w.scan t = .ok (scanned, events) ∧ scanned.root = w.root ∧
      scanned.options = w.options ∧ scanned.catalog.InStep (w.setting t) w.root files := by
  obtain ⟨scanned, events, hscan, hroot, hoptions, hcatalog⟩ := exists_scan_described heager hrun
  refine ⟨scanned, events, hscan, hroot, hoptions, ?_⟩
  rw [hcatalog]
  exact Catalog.inStep_described (Discovery.found_of_run ht hrun)

/-- A file that is rewritten with text of the fingerprint that is known reads as before, and so does
all else. -/
theorem alike_of_fingerprint (hfits : e.Fits w.root w.options t) {bytes : List UInt8}
    (hbytes : e.bytes? = some bytes) (hfile : t.isFile (e.path w.root) = true) {v : Text}
    (hold : (w.setting t).fingerprint? (e.path w.root) = some v)
    (hnew : (w.setting (e.apply w.root t)).fingerprint? (e.path w.root) = some v) (q : Path) :
    t.sources.Alike (e.apply w.root t).sources q := by
  obtain ⟨old, hreadold, hdigest⟩ := Setting.fingerprint?_eq_some.1 hold
  obtain ⟨new, hreadnew, hdigest'⟩ := Setting.fingerprint?_eq_some.1 hnew
  obtain rfl := hfits.fingerprint old new hreadold hreadnew (hdigest.trans hdigest'.symm)
  obtain ⟨a, oldbytes, hlookup⟩ := Tree.isFile_eq_true.1 hfile
  have happly : e.apply w.root t = t.writeFile (e.path w.root) bytes := by
    rw [Change.apply, hbytes]
  rw [happly] at hreadnew ⊢
  have hdecode : Utf8.decode bytes = Utf8.decode oldbytes := by
    have htext := Tree.read_of_same rfl hreadold hlookup
    have htext' := Tree.read_of_same rfl hreadnew (Tree.lookup_writeFile_self hlookup bytes)
    obtain rfl := Except.ok.inj (hreadnew.symm.trans htext')
    exact Except.ok.inj (hreadold.symm.trans htext)
  have hsame := Tree.read_writeFile hlookup hdecode q
  exact ⟨hsame.1, hsame.2⟩

/-- A rescan after a change that fits is not refused, and keeps track of the tree. -/
theorem Tracks.rescan (h : w.Tracks current t) (hfits : e.Fits w.root w.options t) :
    ∃ next changed events,
      current.rescan (e.apply w.root t) (e.path w.root) = .ok (next, changed, events) ∧
        w.Tracks next (e.apply w.root t) := by
  obtain ⟨hcurrent, hoptions, ht, files, hrun, hdec, hstep⟩ := h
  obtain ⟨a, hroot⟩ := Discovery.lookup_of_run_eq_ok hrun
  have ht' := Change.wellFormed_apply ht w.root e
  have hroot' := Tree.lookup_directory ht ht' (hfits.alters ht hroot).directory hroot
  obtain ⟨files', k, hkind, hrun', hdec', hshift, hmem, hmem'⟩ :=
    hfits.exists_shift ht hroot hrun hdec
  have hsetting : current.setting (e.apply w.root t) = w.setting (e.apply w.root t) := by
    unfold setting
    rw [hcurrent]
  have hrelative : current.relative? (e.path w.root) = some (e.names.map .name) :=
    hcurrent ▸ current.relative?_descend (Discovery.plain hfits.names)
  obtain ⟨next, changed, events, hrescan, hnextroot, hnextoptions, hcases⟩ :=
    rescan_cases (e.apply w.root t) hrelative hkind
  refine ⟨next, changed, events, hrescan, hnextroot.trans hcurrent, hnextoptions.trans hoptions,
    ht', files', hrun', hdec', ?_⟩
  rw [hsetting, hoptions, hcurrent] at hcases
  rcases hcases with ⟨hout, hcatalog⟩ | ⟨hopen, hfile', hsome, hsame, hcatalog⟩ |
    ⟨hopen, hfile', _, hcatalog⟩ | ⟨hopen, hgone, hcatalog⟩
  · -- the file is left out by every scan
    have hnone : e.path w.root ∉ files.ofKind k := by
      intro hp
      rw [(hmem.1 hp).1] at hout
      cases hout
    have hnone' : e.path w.root ∉ files'.ofKind k := by
      intro hp
      rw [(hmem'.1 hp).1] at hout
      cases hout
    rw [hcatalog]
    refine hstep.unchanged hshift (iff_of_false hnone' hnone)
      (fun hp => absurd hp hnone) fun hp => ?_
    by_cases hk : FileKind.platform = k
    · exact absurd (hk ▸ hp) hnone
    · exact absurd hp (hshift.kind .platform hk).1
  · -- the file is known by its fingerprint, so it was found before
    obtain ⟨v, hv⟩ := Option.ne_none_iff_exists'.1 hsome
    rw [hv] at hsame
    obtain ⟨j, q, hq, hkey, hold⟩ := (hstep.fingerprints _ v).1 hsame
    obtain rfl := (hshift.alike j).same q hq hkey
    obtain rfl : j = k := by
      by_contra hj
      exact (hshift.kind j hj).1 hq
    have hfile := (hmem.1 hq).2
    obtain ⟨bytes, hbytes⟩ := hfits.exists_bytes ht hroot hroot' hfile'
    have halike := alike_of_fingerprint hfits hbytes hfile hold hv
    rw [hcatalog]
    refine hstep.unchanged hshift (iff_of_true (hmem'.2 ⟨hopen, hfile'⟩) hq)
      (fun _ => (halike _).read) fun _ => ?_
    exact Document.ofFile_congr rfl (halike _).read fun q _ => halike q
  · -- the file is there and read
    rw [hcatalog]
    exact hstep.take hshift (hmem'.2 ⟨hopen, hfile'⟩)
  · -- the file was there and is gone
    have hfile : t.isFile (e.path w.root) = true := hfits.isFile_of_gone ht hroot hroot' hgone
    have hnone' : e.path w.root ∉ files'.ofKind k := by
      intro hp
      have hfile' : (e.apply w.root t).isFile (e.path w.root) = true := (hmem'.1 hp).2
      rw [hgone] at hfile'
      cases hfile'
    have hknows : current.catalog.knows (e.path w.root) k = true :=
      hstep.knows hshift.found (hmem.2 ⟨hopen, hfile⟩)
    rw [hcatalog, if_pos hknows]
    exact hstep.forget hshift hnone'

/-- Rescans after any number of changes that fit keep track of the tree. -/
theorem Tracks.follow (h : w.Tracks current t) {changes : List Change}
    (hfit : Change.AllFit w.root w.options t changes) :
    ∃ final, current.follow t changes = .ok final ∧
      w.Tracks final (Change.applyAll w.root changes t) := by
  induction changes generalizing current t with
  | nil => exact ⟨current, rfl, h⟩
  | cons e rest ih =>
    obtain ⟨hfits, hrest⟩ := hfit
    obtain ⟨next, changed, events, hrescan, hnext⟩ := h.rescan hfits
    obtain ⟨final, hfinal, htracks⟩ := ih hnext hrest
    refine ⟨final, ?_, htracks⟩
    rw [Workspace.follow, h.root, hrescan]
    exact hfinal

/-- After a scan, rescans of the files that change lead to the catalog of a scan of the last tree,
up to the order of the module files, of the owners of a source and of the declarations under one
key. -/
theorem exists_follow_matches (ht : t.WellFormed) (heager : w.options.eager = true)
    (hscan : w.scan t = .ok (scanned, events))
    (hdec : ∀ files, Discovery.run t w.options w.root = .ok files →
      ∀ file ∈ files.declarations, file.writtenExtension? = some "dec".toList)
    {changes : List Change} (hfit : Change.AllFit w.root w.options t changes) :
    ∃ final fresh events', scanned.follow t changes = .ok final ∧
      w.scan (Change.applyAll w.root changes t) = .ok (fresh, events') ∧
      final.catalog.Matches fresh.catalog := by
  obtain ⟨files, hrun⟩ := exists_run_of_scan hscan
  obtain ⟨_, _, hscan', hroot, hoptions, hstep⟩ := exists_scan ht heager hrun
  obtain ⟨rfl, rfl⟩ := Prod.mk.inj (Except.ok.inj (hscan.symm.trans hscan'))
  have htracks : w.Tracks scanned t := ⟨hroot, hoptions, ht, files, hrun, hdec files hrun, hstep⟩
  obtain ⟨final, hfinal, hfollowed⟩ := htracks.follow hfit
  obtain ⟨files', hrun', _, hfollow⟩ := hfollowed.inStep
  obtain ⟨fresh, events', hfresh, _, _, hstep'⟩ := exists_scan hfollowed.wellFormed heager hrun'
  exact ⟨final, fresh, events', hfinal, hfresh, hfollow.matches hstep'⟩

/-- A tree with a module, and with a platform that includes a file as if the module were its
directory. -/
def throughModule : Tree :=
  (Tree.empty.writeFile ⟨"/ws/A.inf"⟩ []).writeFile ⟨"/ws/P.dsc"⟩
    "!include A.inf/x.inc\n".toUTF8.toList

/-- The tree with the misled platform is well-formed. -/
theorem wellFormed_throughModule : throughModule.WellFormed :=
  (Tree.wellFormed_empty.writeFile _ _).writeFile _ _

/-- What is found in this tree. -/
theorem run_throughModule : Discovery.run throughModule .default ⟨"/ws"⟩ =
    .ok ⟨[⟨"/ws/A.inf"⟩], [], [⟨"/ws/P.dsc"⟩], []⟩ := by
  cbv

/-- The platform has one include, with one candidate. -/
theorem loneInclude {t : Tree} {reason : ReadError}
    (htext : t.read ⟨"/ws/P.dsc"⟩ = .ok "!include A.inf/x.inc\n".toList)
    (hread : t.read ⟨"/ws/A.inf/x.inc"⟩ = .error reason) :
    Document.LoneInclude ⟨t.sources, some ⟨"/ws"⟩⟩ ⟨"/ws/P.dsc"⟩ ⟨"/ws/A.inf/x.inc"⟩ reason := by
  have hline : Line.ofText "!include A.inf/x.inc\n".toList =
      [⟨0, "!include A.inf/x.inc", "!include A.inf/x.inc"⟩] := by decide
  have hkind : LineKind.ofText "!include A.inf/x.inc" = .inclusion "A.inf/x.inc" := by decide
  have hcandidates : Machine.candidates (some ⟨"/ws"⟩)
      (Reading.start ⟨"/ws/P.dsc"⟩ (some ⟨"/ws"⟩)).macros ⟨"/ws/P.dsc"⟩ "A.inf/x.inc" =
        (⟨"/ws/A.inf/x.inc"⟩, []) := by cbv
  exact ⟨⟨_, _, _, htext, hline, hkind, by decide, hcandidates⟩, by decide, hread⟩

/-- A module is created beside the platform. -/
def newModule : Change :=
  ⟨["B.inf"], some []⟩

/-- The platform is removed. -/
def removedPlatform : Change :=
  ⟨["P.dsc"], none⟩

/-- The new module is neither above nor below the candidate of the platform. -/
theorem fits_newModule : newModule.Fits ⟨"/ws"⟩ .default throughModule := by
  have hmade : newModule.Made ⟨"/ws"⟩ throughModule := ⟨by decide, by cbv⟩
  refine ⟨hmade, ⟨.module, by cbv, by simp⟩, fun old new hold => ?_,
    fun files hrun d hd _ q hq => ?_⟩
  · have hnone : throughModule.read (newModule.path ⟨"/ws"⟩) = .error .noEntry := by cbv
    rw [hnone] at hold
    cases hold
  · obtain rfl := Except.ok.inj (run_throughModule.symm.trans hrun)
    obtain rfl := List.mem_singleton.1 hd
    obtain ⟨a, hroot⟩ := Discovery.lookup_of_run_eq_ok run_throughModule
    have htext : throughModule.read ⟨"/ws/P.dsc"⟩ = .ok "!include A.inf/x.inc\n".toList := by cbv
    have hread : throughModule.read ⟨"/ws/A.inf/x.inc"⟩ = .error .notDirectory := by cbv
    have hothers : ∀ name ∈ (["A.inf".toList, "x.inc".toList] : List Text),
        Tree.ValidName name := by decide
    have hpath : Path.descend ⟨"/ws"⟩ ["A.inf".toList, "x.inc".toList] = ⟨"/ws/A.inf/x.inc"⟩ := by
      decide
    rw [(loneInclude htext hread).eq_of_candidate hq, ← hpath]
    exact hmade.alike_of_apart wellFormed_throughModule hroot hothers (by decide) (by decide)

/-- There is no other platform than the one that is removed. -/
theorem fits_removedPlatform :
    removedPlatform.Fits ⟨"/ws"⟩ .default (newModule.apply ⟨"/ws"⟩ throughModule) := by
  have hmade : removedPlatform.Made ⟨"/ws"⟩ (newModule.apply ⟨"/ws"⟩ throughModule) :=
    ⟨by decide, by cbv⟩
  refine ⟨hmade, ⟨.platform, by cbv, by simp⟩, fun old new _ hnew => ?_,
    fun files hrun d hd hne => ?_⟩
  · have hnone : (removedPlatform.apply ⟨"/ws"⟩ (newModule.apply ⟨"/ws"⟩ throughModule)).read
        (removedPlatform.path ⟨"/ws"⟩) = .error .noEntry := by cbv
    rw [hnone] at hnew
    cases hnew
  · have hfiles : Discovery.run (newModule.apply ⟨"/ws"⟩ throughModule) .default ⟨"/ws"⟩ =
        .ok ⟨[⟨"/ws/A.inf"⟩, ⟨"/ws/B.inf"⟩], [], [⟨"/ws/P.dsc"⟩], []⟩ := by cbv
    obtain rfl := Except.ok.inj (hfiles.symm.trans hrun)
    exact absurd (List.mem_singleton.1 hd) hne

/-- The catalog follows the new module and the removal of the platform. -/
theorem follow_newModule_removedPlatform :
    throughModule.WellFormed ∧
    Change.AllFit ⟨"/ws"⟩ .default throughModule [newModule, removedPlatform] ∧
    ∃ scanned events final fresh events',
      (start ⟨"/ws"⟩ .default).scan throughModule = .ok (scanned, events) ∧
      scanned.follow throughModule [newModule, removedPlatform] = .ok final ∧
      (start ⟨"/ws"⟩ .default).scan
          (Change.applyAll ⟨"/ws"⟩ [newModule, removedPlatform] throughModule) =
        .ok (fresh, events') ∧
      final.catalog.Matches fresh.catalog := by
  have hfit : Change.AllFit ⟨"/ws"⟩ .default throughModule [newModule, removedPlatform] :=
    ⟨fits_newModule, fits_removedPlatform, trivial⟩
  have hscan : (start ⟨"/ws"⟩ .default).scan throughModule = .ok _ :=
    (congrArg _ run_throughModule).trans rfl
  obtain ⟨final, fresh, events', hfollow, hfresh, hmatches⟩ :=
    exists_follow_matches wellFormed_throughModule rfl hscan (fun files hrun file hfile => by
      obtain rfl := Except.ok.inj (run_throughModule.symm.trans hrun)
      cases hfile) hfit
  exact ⟨wellFormed_throughModule, hfit, _, _, final, fresh, events', hscan, hfollow, hfresh,
    hmatches⟩

/-- A rescan of a module leaves the platforms as they are. -/
theorem exists_follow_module (w : Workspace) (t : Tree) {e : Change}
    (hnames : ∀ name ∈ e.names, Path.IsName name)
    (hkind : FileKind.ofPath? (e.path w.root) = some .module) :
    ∃ final, w.follow t [e] = .ok final ∧ final.catalog.platforms = w.catalog.platforms := by
  have hrelative : w.relative? (e.path w.root) = some (e.names.map .name) :=
    w.relative?_descend hnames
  obtain ⟨final, _, _, hrescan, _, _, hcases⟩ :=
    rescan_cases (e.apply w.root t) hrelative hkind
  refine ⟨final, by rw [follow, hrescan]; rfl, ?_⟩
  rcases hcases with ⟨_, hcatalog⟩ | ⟨_, _, _, _, hcatalog⟩ | ⟨_, _, _, hcatalog⟩ | ⟨_, _, hcatalog⟩
  · rw [hcatalog]
  · rw [hcatalog]
  · rw [hcatalog]
    rfl
  · rw [hcatalog]
    split <;> rfl

/-- What a scan knows of the platforms. -/
theorem exists_scan_platforms (ht : t.WellFormed) (heager : w.options.eager = true)
    (hrun : Discovery.run t w.options w.root = .ok files) :
    ∃ scanned events, w.scan t = .ok (scanned, events) ∧ scanned.root = w.root ∧
      scanned.catalog.InStep (w.setting t) w.root files ∧
      ∀ file ∈ files.platforms,
        scanned.catalog.platforms.get? file = some (.ofFile (w.setting t) file) := by
  obtain ⟨scanned, events, hscan, hroot, _, hstep⟩ := exists_scan ht heager hrun
  refine ⟨scanned, events, hscan, hroot, hstep, ?_⟩
  intro file hfile
  rw [hstep.platforms]
  exact Path.getElem?_table_of_mem (Discovery.ordered_of_run_eq_ok hrun).2.2.different hfile

/-- The module is removed. -/
def removedModule : Change :=
  ⟨["A.inf"], none⟩

/-- It is not enough that no changed file is a candidate of an include. The candidate of the one
platform would be below the module, so without the module it fails for another reason, which a
rescan of the module does not notice. -/
theorem not_matches_removedModule :
    throughModule.WellFormed ∧
    Discovery.run throughModule .default ⟨"/ws"⟩ =
      .ok ⟨[⟨"/ws/A.inf"⟩], [], [⟨"/ws/P.dsc"⟩], []⟩ ∧
    (∀ t ∈ [throughModule, removedModule.apply ⟨"/ws"⟩ throughModule], ∀ q,
      Document.Candidate ⟨t.sources, some ⟨"/ws"⟩⟩ ⟨"/ws/P.dsc"⟩ q →
        ¬ q.Same (removedModule.path ⟨"/ws"⟩)) ∧
    ∃ scanned events final fresh events',
      (start ⟨"/ws"⟩ .default).scan throughModule = .ok (scanned, events) ∧
      scanned.follow throughModule [removedModule] = .ok final ∧
      (start ⟨"/ws"⟩ .default).scan (removedModule.apply ⟨"/ws"⟩ throughModule) =
        .ok (fresh, events') ∧
      ¬ final.catalog.Matches fresh.catalog := by
  have hrun' : Discovery.run (removedModule.apply ⟨"/ws"⟩ throughModule) .default ⟨"/ws"⟩ =
      .ok ⟨[], [], [⟨"/ws/P.dsc"⟩], []⟩ := by cbv
  have htext : throughModule.read ⟨"/ws/P.dsc"⟩ = .ok "!include A.inf/x.inc\n".toList := by cbv
  have hread : throughModule.read ⟨"/ws/A.inf/x.inc"⟩ = .error .notDirectory := by cbv
  have htext' : (removedModule.apply ⟨"/ws"⟩ throughModule).read ⟨"/ws/P.dsc"⟩ =
      .ok "!include A.inf/x.inc\n".toList := by cbv
  have hread' : (removedModule.apply ⟨"/ws"⟩ throughModule).read ⟨"/ws/A.inf/x.inc"⟩ =
      .error .noEntry := by cbv
  have hbefore := loneInclude htext hread
  have hafter := loneInclude htext' hread'
  refine ⟨wellFormed_throughModule, run_throughModule, fun t ht q hq => ?_, ?_⟩
  · have hcandidate : q = ⟨"/ws/A.inf/x.inc"⟩ := by
      rcases List.mem_cons.1 ht with rfl | ht
      · exact hbefore.eq_of_candidate hq
      · obtain rfl := List.mem_singleton.1 ht
        exact hafter.eq_of_candidate hq
    rw [hcandidate]
    decide
  · obtain ⟨scanned, events, hscan, hroot, _, hknown⟩ := exists_scan_platforms
      (w := start ⟨"/ws"⟩ .default) wellFormed_throughModule rfl run_throughModule
    obtain ⟨fresh, events', hfresh, _, _, hanew⟩ := exists_scan_platforms
      (w := start ⟨"/ws"⟩ .default) (Change.wellFormed_apply wellFormed_throughModule _ _) rfl hrun'
    have hnames : ∀ name ∈ removedModule.names, Path.IsName name := by decide
    have hkind : FileKind.ofPath? (removedModule.path ⟨"/ws"⟩) = some .module := by cbv
    obtain ⟨final, hfollow, hkept⟩ := exists_follow_module scanned throughModule hnames
      (hroot.symm ▸ hkind)
    refine ⟨scanned, events, final, fresh, events', hscan, hfollow, hfresh, ?_⟩
    intro hmatches
    -- the documents that the two catalogs have of the platform differ in one reason
    have hget := hknown ⟨"/ws/P.dsc"⟩ (by simp)
    rw [← hkept, hmatches.platforms, hanew ⟨"/ws/P.dsc"⟩ (by simp), Option.some.injEq] at hget
    have hcauses := congrArg (fun d => d.problems.map Problem.cause) hget
    have hold := hbefore.causes_ofFile
    have hnew := hafter.causes_ofFile
    have hsame : [Cause.unreadableInclude ⟨"/ws/A.inf/x.inc"⟩ .noEntry] =
        [.unreadableInclude ⟨"/ws/A.inf/x.inc"⟩ .notDirectory] :=
      hnew.symm.trans (hcauses.trans hold)
    simp at hsame

/-- A rescan passes over a file that has the fingerprint that is known. -/
theorem exists_follow_known (w : Workspace) (t : Tree) {e : Change} {k : FileKind}
    (hnames : ∀ name ∈ e.names, Path.IsName name)
    (hkind : FileKind.ofPath? (e.path w.root) = some k)
    (hfile : (e.apply w.root t).isFile (e.path w.root) = true)
    (hsome : (w.setting (e.apply w.root t)).fingerprint? (e.path w.root) ≠ none)
    (hknown : w.catalog.fingerprints[(e.path w.root).components]? =
      (w.setting (e.apply w.root t)).fingerprint? (e.path w.root)) :
    ∃ final, w.follow t [e] = .ok final ∧ final.catalog = w.catalog := by
  have hrelative : w.relative? (e.path w.root) = some (e.names.map .name) :=
    w.relative?_descend hnames
  obtain ⟨final, _, _, hrescan, _, _, hcases⟩ :=
    rescan_cases (e.apply w.root t) hrelative hkind
  refine ⟨final, by rw [follow, hrescan]; rfl, ?_⟩
  rcases hcases with ⟨_, hcatalog⟩ | ⟨_, _, _, _, hcatalog⟩ | ⟨_, _, hnew, _⟩ | ⟨_, hgone, _⟩
  · exact hcatalog
  · exact hcatalog
  · exact absurd ⟨hsome, hknown⟩ hnew
  · rw [hfile] at hgone
    cases hgone

/-- Among infinitely many texts there are two with the same fingerprint. -/
theorem exists_fingerprint_eq (f : Nat → Text) :
    ∃ m n, m ≠ n ∧ Digest.fingerprint (f m) = Digest.fingerprint (f n) := by
  -- a fingerprint is written from eight words
  have hwords : Finite Digest.Words := by
    have hinjective : Function.Injective fun s : Digest.Words =>
        (s.a.toFin, s.b.toFin, s.c.toFin, s.d.toFin, s.e.toFin, s.f.toFin, s.g.toFin,
          s.h.toFin) := by
      rintro ⟨a, b, c, d, e, f, g, h⟩ ⟨a', b', c', d', e', f', g', h'⟩ heq
      simp only [Prod.mk.injEq, UInt32.toFin_inj] at heq
      simpa using heq
    exact Finite.of_injective _ hinjective
  obtain ⟨m, n, hne, heq⟩ :=
    Finite.exists_ne_map_eq_of_infinite fun n => Digest.ofBytes (Utf8.encode (f n))
  exact ⟨m, n, hne, congrArg Digest.Words.hex heq⟩

/-- A platform file with a stray line below `n` empty ones. -/
def strayLine (n : Nat) : List UInt8 :=
  List.replicate n 10 ++ [120]

/-- The stray line is the only logical line of its file. -/
theorem ofText_strayLine (n : Nat) :
    Line.ofText (Utf8.decode (strayLine n)) = [⟨n, ['x'], ['x']⟩] := by
  induction n with
  | zero => decide
  | succ n ih =>
    have hcomplete : Line.Complete ['\n'] := .inr ⟨[], [], rfl, by decide, by decide⟩
    have hdecode : Utf8.decode (strayLine (n + 1)) = ['\n'] ++ Utf8.decode (strayLine n) := rfl
    have hbreaks : Line.breaks ['\n'] = 1 := by decide
    have hnone : Line.ofText ['\n'] = [] := by decide
    rw [hdecode, hcomplete.ofText_append, ih, hbreaks, hnone, List.nil_append, List.map_singleton,
      Line.moved, Nat.add_comm]

/-- The document notes where the stray line stands. -/
theorem lines_ofFile_strayLine (w : Workspace) {file : Path} {n : Nat}
    (hread : t.read file = .ok (Utf8.decode (strayLine n))) :
    (Document.ofFile (w.setting t) file).problems.map (fun p => p.location.line) = [n] := by
  have hreads : Machine.readingOf (w.setting t) file (Utf8.decode (strayLine n)) =
      (Reading.start file (w.setting t).root).note ⟨file, ⟨n, ['x'], ['x']⟩⟩ .noSection ['x'] := by
    apply Machine.readingOf_eq
    rw [ofText_strayLine]
    exact .carry rfl .done
  have hread' : (w.setting t).sources.read file = .ok (Utf8.decode (strayLine n)) := hread
  rw [Document.ofFile, hread']
  dsimp only
  rw [Machine.ofText_eq_finish, hreads]
  simp [Reading.finish, Reading.note, Reading.start, Document.empty, Reading.location]

/-- A tree with a platform file alone. -/
def onePlatform (bytes : List UInt8) : Tree :=
  Tree.empty.writeFile ⟨"/ws/P.dsc"⟩ bytes

/-- The platform file is given other bytes. -/
def otherPlatform (bytes : List UInt8) : Change :=
  ⟨["P.dsc"], some bytes⟩

/-- The platform file is found, whatever its bytes are. -/
theorem run_onePlatform (bytes : List UInt8) :
    Discovery.run (onePlatform bytes) .default ⟨"/ws"⟩ = .ok ⟨[], [], [⟨"/ws/P.dsc"⟩], []⟩ := by
  cbv

/-- The platform file is read as its bytes. -/
theorem read_onePlatform (bytes : List UInt8) :
    (onePlatform bytes).read ⟨"/ws/P.dsc"⟩ = .ok (Utf8.decode bytes) := by
  cbv

/-- The platform file is found again with its other bytes. -/
theorem run_otherPlatform (old new : List UInt8) :
    Discovery.run ((otherPlatform new).apply ⟨"/ws"⟩ (onePlatform old)) .default ⟨"/ws"⟩ =
      .ok ⟨[], [], [⟨"/ws/P.dsc"⟩], []⟩ := by
  cbv

/-- The platform file is read as its other bytes. -/
theorem read_otherPlatform (old new : List UInt8) :
    ((otherPlatform new).apply ⟨"/ws"⟩ (onePlatform old)).read ⟨"/ws/P.dsc"⟩ =
      .ok (Utf8.decode new) := by
  cbv

/-- The platform file is rewritten by the change. -/
theorem made_otherPlatform (old new : List UInt8) :
    (otherPlatform new).Made ⟨"/ws"⟩ (onePlatform old) := by
  have hnames : ∀ name ∈ (["P.dsc".toList] : List Text), Tree.ValidName name := by decide
  exact ⟨hnames, by cbv⟩

/-- The document of the old platform file stays if the new one has the same fingerprint. -/
theorem exists_follow_otherPlatform {old new : List UInt8}
    (hsame : Digest.fingerprint (Utf8.decode old) = Digest.fingerprint (Utf8.decode new)) :
    ∃ scanned events final,
      (start ⟨"/ws"⟩ .default).scan (onePlatform old) = .ok (scanned, events) ∧
      scanned.follow (onePlatform old) [otherPlatform new] = .ok final ∧
      final.catalog.platforms.get? ⟨"/ws/P.dsc"⟩ =
        some (.ofFile ((start ⟨"/ws"⟩ .default).setting (onePlatform old)) ⟨"/ws/P.dsc"⟩) := by
  obtain ⟨scanned, events, hscan, hroot, hstep, hknown⟩ := exists_scan_platforms
    (w := start ⟨"/ws"⟩ .default) (Tree.wellFormed_empty.writeFile _ _) rfl (run_onePlatform old)
  have hroot' : scanned.root = ⟨"/ws"⟩ := hroot
  have hmade := made_otherPlatform old new
  have hpath : (otherPlatform new).path ⟨"/ws"⟩ = ⟨"/ws/P.dsc"⟩ := by cbv
  have hprint : ∀ {t : Tree} {bytes : List UInt8},
      t.read ⟨"/ws/P.dsc"⟩ = .ok (Utf8.decode bytes) → (scanned.setting t).fingerprint?
        ⟨"/ws/P.dsc"⟩ = some (Digest.fingerprint (Utf8.decode bytes)) := by
    intro t bytes hread
    exact congrArg (fun text => text.toOption.map Digest.fingerprint) hread
  have hscanned : scanned.catalog.fingerprints[Path.components ⟨"/ws/P.dsc"⟩]? =
      some (Digest.fingerprint (Utf8.decode new)) := by
    rw [← hsame]
    exact (hstep.fingerprints _ _).2
      ⟨.platform, _, List.mem_singleton.2 rfl, rfl, hprint (read_onePlatform old)⟩
  obtain ⟨final, hfollow, hcatalog⟩ : ∃ final,
      scanned.follow (onePlatform old) [otherPlatform new] = .ok final ∧
        final.catalog = scanned.catalog := by
    have hkind : FileKind.ofPath? ⟨"/ws/P.dsc"⟩ = some .platform := by cbv
    apply exists_follow_known scanned (onePlatform old) (Discovery.plain hmade.names)
    · rw [hroot', hpath]
      exact hkind
    · rw [hroot']
      exact hmade.made
    · rw [hroot', hpath, hprint (read_otherPlatform old new)]
      simp
    · rw [hroot', hpath, hprint (read_otherPlatform old new), hscanned]
  refine ⟨scanned, events, final, hscan, hfollow, ?_⟩
  rw [hcatalog]
  exact hknown _ (List.mem_singleton.2 rfl)

/-- Nor can the assumption about fingerprints be left out. There are two platform files of different
text with the same fingerprint, and a rescan does not notice that one has taken the place of the
other. -/
theorem not_matches_sameFingerprint :
    ∃ old new : List UInt8,
      (onePlatform old).WellFormed ∧
      (otherPlatform new).Made ⟨"/ws"⟩ (onePlatform old) ∧
      Discovery.run (onePlatform old) .default ⟨"/ws"⟩ =
        .ok ⟨[], [], [(otherPlatform new).path ⟨"/ws"⟩], []⟩ ∧
      ∃ scanned events final fresh events',
        (start ⟨"/ws"⟩ .default).scan (onePlatform old) = .ok (scanned, events) ∧
        scanned.follow (onePlatform old) [otherPlatform new] = .ok final ∧
        (start ⟨"/ws"⟩ .default).scan ((otherPlatform new).apply ⟨"/ws"⟩ (onePlatform old)) =
          .ok (fresh, events') ∧
        ¬ final.catalog.Matches fresh.catalog := by
  obtain ⟨m, n, hne, hfingerprint⟩ := exists_fingerprint_eq fun n => Utf8.decode (strayLine n)
  have hwellFormed : (onePlatform (strayLine m)).WellFormed :=
    Tree.wellFormed_empty.writeFile _ _
  have hpath : (otherPlatform (strayLine n)).path ⟨"/ws"⟩ = ⟨"/ws/P.dsc"⟩ := rfl
  obtain ⟨scanned, events, final, hscan, hfollow, hold⟩ := exists_follow_otherPlatform hfingerprint
  obtain ⟨fresh, events', hfresh, _, _, hnew⟩ := exists_scan_platforms
    (w := start ⟨"/ws"⟩ .default) (Change.wellFormed_apply hwellFormed _ _) rfl
    (run_otherPlatform (strayLine m) (strayLine n))
  refine ⟨strayLine m, strayLine n, hwellFormed, made_otherPlatform _ _,
    hpath.symm ▸ run_onePlatform _, scanned, events, final, fresh, events', hscan, hfollow, hfresh,
    ?_⟩
  intro hmatches
  -- the documents that the two catalogs have of the platform differ in the line of the problem
  rw [hmatches.platforms, hnew _ (List.mem_singleton.2 rfl), Option.some.injEq] at hold
  have hlines := congrArg (fun d => d.problems.map fun p => p.location.line) hold
  have hbefore := lines_ofFile_strayLine (start ⟨"/ws"⟩ .default) (read_onePlatform (strayLine m))
  have hafter := lines_ofFile_strayLine (start ⟨"/ws"⟩ .default)
    (read_otherPlatform (strayLine m) (strayLine n))
  have hsame : [n] = [m] := hafter.symm.trans (hlines.trans hbefore)
  exact hne (List.singleton_inj.1 hsame).symm

end Workspace

end FirmwareIndex
