import FirmwareIndex.Proofs.Catalog.OneEach
import FirmwareIndex.Proofs.Catalog.Respelled
import FirmwareIndex.Proofs.Workspace.Lazy
import FirmwareIndex.Proofs.Workspace.Mentions

/-!
# Rescans of two spellings of a file

Whatever is done to a workspace, its stores have one record of a file (`Workspace.oneEach_run`),
since all but the declarations are kept by place. So two paths that are the same place can be given
to a rescan in turn: both are refused, or both have the same result and lead to the same answers but
for the spellings of paths (`Workspace.rescan_respelled`). This takes that nothing stands behind the
last component of either path, as what stands there tells a directory, and that no path that is
asked for is too long.

Declarations are kept by the end of a text, so they ask for more: both paths must end like the
declaration that is known. Without that, a file is given a second declaration, and the include
directories are those of the old text (`Workspace.not_includes_respelled`).
-/

set_option autoImplicit false

namespace FirmwareIndex

namespace Workspace

/-! ## One record of a file -/

section OneEach

variable {w : Workspace}

/-- No operation gives a file a second record. -/
theorem oneEach_perform (honly : w.catalog.Only FileKind.At) (h : w.catalog.OneEach)
    (operation : Operation) : (w.perform operation).catalog.OneEach := by
  cases operation with
  | scan t =>
    rw [perform, scan]
    cases hrun : Discovery.run t w.options w.root with
    | error refusal => exact h
    | ok files =>
      have hlisted : ∀ file ∈ files.modules, FileKind.At .module file.components :=
        fun file hfile => Discovery.ofFileName?_of_mem_ofKind (k := .module) hrun hfile
      have htaken := foldl_take_induction (w := w) (t := t)
        (motive := fun c => c.Only FileKind.At ∧ Path.Different c.modules.files)
        ⟨Catalog.only_setFiles hlisted, (Discovery.ordered_of_run_eq_ok hrun).1.different⟩
        fun c hc kind file hfile =>
          ⟨hc.1.take _ (Discovery.ofFileName?_of_mem_ofKind hrun hfile),
            Catalog.different_files_take hc.2 _ kind file⟩
      exact Catalog.oneEach_rebuild htaken.1 htaken.2 _ _
  | rescan t path =>
    rcases w.perform_rescan t path with hsame | hnext
    · exact hsame.symm ▸ h
    · have htargets : ∀ target ∈ w.targets path, FileKind.At target.2 target.1.components :=
        of_mem_targets honly fun k hk => FileKind.ofFileName?_of_ofPath? hk
      rw [hnext]
      let r := (w.targets path).foldl (Rescan.read (w.setting t) path) ⟨w.catalog, [], false⟩
      have hread : r.catalog.Only FileKind.At ∧ Path.Different r.catalog.modules.files :=
        Rescan.foldl_read_induction
          (motive := fun c => c.Only FileKind.At ∧ Path.Different c.modules.files)
          ⟨w.catalog, [], false⟩ ⟨honly, h.files⟩
          (fun c hc target htarget _ => ⟨hc.1.take (w.setting t) (htargets target htarget),
            Catalog.different_files_take hc.2 (w.setting t) target.2 target.1⟩)
          fun c hc target _ => ⟨hc.1.forget target.1 target.2,
            Catalog.different_files_forget hc.2 target.1 target.2⟩
      exact Catalog.oneEach_rebuild hread.1 hread.2 _ _
  | loadUnder t top =>
    rw [perform, loadUnder]
    split
    · exact h
    · refine Catalog.oneEach_rebuild (honly.loadModules t.sources top) ?_ _ _
      have hfiles : (w.catalog.modules.loadUnder t.sources top).files = w.catalog.modules.files :=
        Modules.files_load fun _ hfile => Modules.mem_files_of_mem_pending hfile
      exact hfiles.symm ▸ h.files

/-- Whatever is done to a workspace, its stores have one record of a file. -/
theorem oneEach_run (root : Path) (options : Options) (operations : List Operation) :
    ((start root options).run operations).catalog.OneEach := by
  have hstart : (start root options).catalog.OneEach :=
    ⟨.nil, by simp [start, Catalog.empty, Modules.empty], .nil, .nil,
      by simp [start, Catalog.empty, Platforms.empty]⟩
  refine (List.foldlRecOn operations perform (motive := fun w : Workspace =>
    w.catalog.Only FileKind.At ∧ w.catalog.OneEach) ⟨named_run root options [], hstart⟩ ?_).2
  intro w hw operation _
  exact ⟨only_perform hw.1 (operation.admits_at _ _), oneEach_perform hw.1 hw.2 operation⟩

end OneEach

/-! ## What a rescan asks for -/

/-- The platform description that is read when a build file has changed: the file itself, or the
file beside a package declaration. -/
def platformOf? (path : Path) : Option Path :=
  match FileKind.ofPath? path with
  | some .platform => some path
  | some .declaration => some (path.withExtension FileKind.platform.extension)
  | _ => none

/-- With a package declaration, the file beside it is read as a platform. -/
theorem platformOf?_of_declaration {path : Path} (h : FileKind.ofPath? path = some .declaration) :
    platformOf? path = some (path.withExtension "dsc") := by
  rw [platformOf?, h]
  rfl

/-- The tree may be asked for a file when a path is given to a rescan. -/
def Asks (w : Workspace) (t : Tree) (path f : Path) : Prop :=
  f = path ∨ ∃ d ∈ platformOf? path, f = d ∨ Document.Candidate (w.setting t) d f

/-- Two spellings of a path that end in its last component. Nothing that a rescan asks for is too
long in either of them. -/
structure Respelled (w : Workspace) (t : Tree) (p q : Path) : Prop where
  same : p.Same q
  trimmed : p.trimmed = p.text
  trimmed' : q.trimmed = q.text
  short : ∀ f, w.Asks t p f ∨ w.Asks t q f → f.Short

namespace Respelled

variable {w : Workspace} {t : Tree} {c : Catalog} {p q d d' : Path} {k : FileKind}

/-- The tree gives the same text for both spellings. -/
theorem readsAlike (h : w.Respelled t p q) : t.sources.ReadsAlike p q :=
  Tree.readsAlike_of_akin
    (.inr ⟨h.same, Path.settled_of_trimmed h.trimmed, Path.settled_of_trimmed h.trimmed'⟩)
    (h.short p (.inl (.inl rfl))) (h.short q (.inr (.inl rfl)))

/-- The platform description is read alike, and so is all that it includes. -/
theorem platform (h : w.Respelled t p q) (hd : platformOf? p = some d)
    (hd' : platformOf? q = some d') (hakin : d.Akin d') :
    t.sources.ReadsAlike d d' ∧
      (Document.ofFile (w.setting t) d).Agrees (.ofFile (w.setting t) d') := by
  have halike : t.sources.ReadsAlike d d' :=
    Tree.readsAlike_of_akin hakin (h.short d (.inl (.inr ⟨d, hd, .inl rfl⟩)))
      (h.short d' (.inr (.inr ⟨d', hd', .inl rfl⟩)))
  refine ⟨halike, Document.agrees_ofFile hakin.same halike.read fun f g hf hg hfg => ?_⟩
  exact Tree.readsAlike_of_akin hfg (h.short f (.inl (.inr ⟨d, hd, .inr hf⟩)))
    (h.short g (.inr (.inr ⟨d', hd', .inr hg⟩)))

/-- The file is taken in to the same effect in both spellings. -/
theorem alike_take (h : w.Respelled t p q) (hkind : FileKind.ofPath? p = some k)
    (hc : c.modules.Coherent) : (c.take (.ofFile (w.setting t) k p)).Alike (w.setting t)
      (c.take (.ofFile (w.setting t) k q)) := by
  have hread := h.readsAlike.read
  have hkind' := (FileKind.ofPath?_congr h.same).symm.trans hkind
  have hbeside := Path.withExtension_congr hkind h.trimmed h.same h.trimmed'
  cases k with
  | module => exact Catalog.alike_take_module h.same hread hc
  | declaration =>
    have hakin : (p.withExtension "dsc").Akin (q.withExtension "dsc") :=
      .inr ⟨hbeside .platform, Path.settled_withExtension hkind h.trimmed .platform,
        Path.settled_withExtension hkind' h.trimmed' .platform⟩
    obtain ⟨halike, hdocument⟩ := h.platform (platformOf?_of_declaration hkind)
      (platformOf?_of_declaration hkind') hakin
    exact Catalog.alike_take_declaration h.same hread halike.present hakin.same hdocument
  | platform =>
    have hplatform : ∀ f, FileKind.ofPath? f = some .platform → platformOf? f = some f := by
      intro f hf
      rw [platformOf?, hf]
    obtain ⟨_, hdocument⟩ := h.platform (hplatform p hkind) (hplatform q hkind')
      (.inr ⟨h.same, Path.settled_of_trimmed h.trimmed, Path.settled_of_trimmed h.trimmed'⟩)
    exact Catalog.alike_take_platform h.same hread (hbeside .declaration) hdocument

/-- Two spellings of a build file are forgotten alike. -/
theorem alike_forget (h : w.Respelled t p q) (hkind : FileKind.ofPath? p = some k) :
    (c.forget p k).Alike (w.setting t) (c.forget q k) :=
  Catalog.alike_forget h.same
    (Path.withExtension_congr hkind h.trimmed h.same h.trimmed' .declaration) k

end Respelled

/-! ## Rescans -/

variable {w : Workspace} {t : Tree} {c : Catalog} {s : Setting} {p q : Path} {k : FileKind}

/-- A build file is passed over, taken in or forgotten in both of its spellings. -/
theorem Rescan.read_respelled (hsame : p.Same q) (halike : s.sources.ReadsAlike p q)
    (hknows : c.knows p k = c.knows q k) :
    let r := Rescan.read s p ⟨c, [], false⟩ (p, k)
    let r' := Rescan.read s q ⟨c, [], false⟩ (q, k)
    r.changed = r'.changed ∧ (r.changed = true →
      (r.catalog = c.take (.ofFile s k p) ∧ r'.catalog = c.take (.ofFile s k q)) ∨
        (r.catalog = c.forget p k ∧ r'.catalog = c.forget q k)) := by
  have hkey : p.components = q.components := hsame
  have hself : ∀ f : Path, f.Same f := fun _ => rfl
  have hfingerprint : (Outcome.ofFile s k p).fingerprint = (Outcome.ofFile s k q).fingerprint := by
    simp only [Outcome.ofFile, halike.read]
  simp only [Rescan.read, halike.present, hfingerprint, hkey, hself, hknows]
  split
  · split
    · exact ⟨rfl, fun hchanged => by cases hchanged⟩
    · exact ⟨rfl, fun _ => .inl ⟨rfl, rfl⟩⟩
  · exact ⟨rfl, fun _ => .inr ⟨rfl, rfl⟩⟩

/-- The components below the root do not depend on the spelling. -/
theorem relative?_congr (w : Workspace) (h : p.Same q) : w.relative? p = w.relative? q := by
  have hkey : p.components = q.components := h
  rw [relative?, relative?, hkey]

/-- What a rescan of a build file below the root comes to, unless the file is left out. -/
theorem rescan_of_kind {relative : List Component} (t : Tree)
    (hrelative : w.relative? p = some relative) (hkind : FileKind.ofPath? p = some k)
    (hopen : w.options.excludesSteps relative = false) :
    let r := Rescan.read (w.setting t) p ⟨w.catalog, [], false⟩ (p, k)
    w.rescan t p = .ok (if r.changed then
      ({ w with catalog := r.catalog.rebuild (w.setting t) w.root }, true, r.events)
      else (w, false, [])) := by
  have htargets : w.targets p = [(p, k)] := by rw [targets, hkind]
  simp only [rescan, hrelative, htargets, hkind, hopen, Bool.and_false, Bool.false_eq_true,
    ↓reduceIte, List.foldl_cons, List.foldl_nil]
  split <;> rfl

/-- Below the root, a rescan of a build file has the same result and leads to the same records for
both of its spellings. -/
theorem exists_rescan_of_kind {root : Path} {relative : List Component} (hw : w.catalog.Sound root)
    (h : w.Respelled t p q) (hrelative : w.relative? p = some relative)
    (hkind : FileKind.ofPath? p = some k) :
    ∃ next next' changed events events', w.rescan t p = .ok (next, changed, events) ∧
      w.rescan t q = .ok (next', changed, events') ∧ next.catalog.Respells next'.catalog ∧
        ((k = .declaration → w.catalog.declarations.EndsAlike p q) →
          next.catalog.declarations.Paired next'.catalog.declarations) := by
  have hrelative' := (w.relative?_congr h.same).symm.trans hrelative
  have hkind' := (FileKind.ofPath?_congr h.same).symm.trans hkind
  have hseparate := hw.declarations.separate
  cases hopen : w.options.excludesSteps relative with
  | true =>
    have hignored : ∀ f, w.relative? f = some relative → FileKind.ofPath? f = some k →
        w.rescan t f = .ok (w, false, []) := by
      intro f hf hk
      simp [rescan, hf, hk, hopen]
    exact ⟨w, w, false, [], [], hignored p hrelative hkind, hignored q hrelative' hkind', .refl _,
      fun _ => hseparate.paired⟩
  | false =>
    rw [rescan_of_kind t hrelative hkind hopen, rescan_of_kind t hrelative' hkind' hopen]
    obtain ⟨hchanged, hcases⟩ := Rescan.read_respelled (s := w.setting t) h.same h.readsAlike
      (Catalog.knows_congr hw.declarations h.same k)
    generalize Rescan.read (w.setting t) p ⟨w.catalog, [], false⟩ (p, k) = r at hchanged hcases
    generalize Rescan.read (w.setting t) q ⟨w.catalog, [], false⟩ (q, k) = r' at hchanged hcases
    rw [← hchanged]
    cases hr : r.changed with
    | false => exact ⟨w, w, false, [], [], rfl, rfl, .refl _, fun _ => hseparate.paired⟩
    | true =>
      refine ⟨_, _, _, _, _, rfl, rfl, ?_⟩
      obtain ⟨htake, htake'⟩ | ⟨hforget, hforget'⟩ := hcases hr
      · rw [htake, htake']
        exact ⟨(h.alike_take hkind hw.modules).rebuild w.root, fun hends =>
          Catalog.paired_take hseparate hends h.same h.readsAlike.read⟩
      · rw [hforget, hforget']
        exact ⟨(h.alike_forget hkind).rebuild w.root, fun hends =>
          Catalog.paired_forget hseparate hends h.same⟩

/-- A rescan of any other file is the same for both of its spellings. -/
theorem rescan_of_other (w : Workspace) (t : Tree) (hsame : p.Same q) {relative : List Component}
    (hrelative : w.relative? p = some relative) (hkind : FileKind.ofPath? p = none) :
    w.rescan t p = w.rescan t q := by
  have hrelative' := (w.relative?_congr hsame).symm.trans hrelative
  have hkind' := (FileKind.ofPath?_congr hsame).symm.trans hkind
  have htargets : w.targets p = w.targets q := by
    simp only [targets, hkind, hkind', Platforms.visiting, Document.visits,
      Path.decide_same_congr hsame]
  have hread : Rescan.read (w.setting t) p = Rescan.read (w.setting t) q := by
    funext r target
    simp only [Rescan.read, Path.decide_same_congr hsame]
  simp only [rescan, hrelative, hrelative', hkind, hkind', htargets, hread]

/-- Below the root it is not refused. The platforms that included the file are read again without
any change of the declarations. -/
theorem exists_rescan_of_other (hw : w.catalog.declarations.Separate) (t : Tree)
    {relative : List Component} (hrelative : w.relative? p = some relative)
    (hkind : FileKind.ofPath? p = none) :
    ∃ next changed events, w.rescan t p = .ok (next, changed, events) ∧
      next.catalog.declarations.Separate := by
  have htargets : ∀ target ∈ w.targets p, target.2 = .platform := by
    intro target htarget
    rw [targets, hkind] at htarget
    obtain ⟨d, _, rfl⟩ := List.mem_map.1 htarget
    rfl
  cases hrescan : w.rescan t p with
  | error refusal =>
    refine absurd ?_ (rescan_eq_error_iff.1 hrescan).2
    exact Path.isUnder_iff.2 ⟨relative, relative?_eq_some_iff.1 hrelative⟩
  | ok result =>
    obtain ⟨next, changed, events⟩ := result
    refine ⟨next, changed, events, rfl, ?_⟩
    obtain ⟨_, rfl, _⟩ | ⟨_, _, rfl⟩ := of_rescan_eq_ok hrescan
    · exact hw
    · refine Rescan.foldl_read_induction (motive := fun c => c.declarations.Separate)
        ⟨w.catalog, [], false⟩ hw (fun c hc target htarget _ => ?_) fun c hc target _ => ?_
      · exact Catalog.separate_take hc _ fun hk => absurd (htargets target htarget) (by simp [hk])
      · exact Catalog.separate_forget hc _ _

variable {w₀ : Workspace} {t₀ : Tree} {events₀ : List Event}

/-- A scan is the first operation of a workspace. -/
theorem eq_run_of_scan (hscan : w₀.scan t₀ = .ok (w, events₀)) :
    w = (start w₀.root w₀.options).run [.scan t₀] := by
  have hstart : (start w₀.root w₀.options).scan t₀ = .ok (w, events₀) := hscan
  change w = (start w₀.root w₀.options).perform (.scan t₀)
  rw [perform, hstart]

/-- After a scan and any change of the tree, a path is given to a rescan in two spellings. Both are
refused, or both have the same result, leave one record of a file, and lead to the same answers but
for the spellings of paths. For a package declaration the include directories are the same if both
spellings end like the declaration that is known. -/
theorem rescan_respelled (ht : t₀.Named) (hscan : w₀.scan t₀ = .ok (w, events₀))
    (h : w.Respelled t p q) :
    (w.rescan t p = .error (.outsideWorkspace p) ∧
        w.rescan t q = .error (.outsideWorkspace q)) ∨
      ∃ next next' changed events events', w.rescan t p = .ok (next, changed, events) ∧
        w.rescan t q = .ok (next', changed, events') ∧
          next.catalog.OneEach ∧ next'.catalog.OneEach ∧
            next.catalog.AnswersAlike next'.catalog ∧
              ((FileKind.ofPath? p = some .declaration →
                  w.catalog.declarations.EndsAlike p q) →
                next.catalog.IncludesAlike next'.catalog) := by
  have hrun := eq_run_of_scan hscan
  have hsound : w.catalog.Sound w₀.root :=
    (hrun ▸ steady_run w₀.root w₀.options [.scan t₀] (List.forall_mem_singleton.2 ht)).sound
  have honly : w.catalog.Only FileKind.At := hrun ▸ named_run w₀.root w₀.options [.scan t₀]
  have hone : w.catalog.OneEach := hrun ▸ oneEach_run w₀.root w₀.options [.scan t₀]
  have hnext : ∀ {f next changed events}, w.rescan t f = .ok (next, changed, events) →
      next.catalog.OneEach := by
    intro f next changed events hrescan
    have hperform := oneEach_perform honly hone (.rescan t f)
    rwa [perform, hrescan] at hperform
  cases hrelative : w.relative? p with
  | none =>
    have hrelative' := (w.relative?_congr h.same).symm.trans hrelative
    exact .inl ⟨by rw [rescan, hrelative], by rw [rescan, hrelative']⟩
  | some relative =>
    refine .inr ?_
    cases hkind : FileKind.ofPath? p with
    | none =>
      have hequal := rescan_of_other w t h.same hrelative hkind
      obtain ⟨next, changed, events, hrescan, hseparate⟩ :=
        exists_rescan_of_other hsound.declarations.separate t hrelative hkind
      exact ⟨next, next, changed, events, events, hrescan, hequal ▸ hrescan, hnext hrescan,
        hnext hrescan, (Catalog.Respells.refl _).answers,
        fun _ => (Catalog.Respells.refl _).includesAlike hseparate.paired⟩
    | some k =>
      obtain ⟨next, next', changed, events, events', hrescan, hrescan', hrespells, hpaired⟩ :=
        exists_rescan_of_kind hsound h hrelative hkind
      exact ⟨next, next', changed, events, events', hrescan, hrescan', hnext hrescan,
        hnext hrescan', hrespells.answers, fun hends => hrespells.includesAlike
          (hpaired fun hk => hends (congrArg some hk))⟩

/-! ## A package in three spellings -/

/-- A rescan of a package declaration asks for nothing more if there is no platform description
beside it. -/
theorem short_of_asks {path f : Path} (hkind : FileKind.ofPath? path = some .declaration)
    (hread : (t.sources.read (path.withExtension "dsc")).toOption = none) (hpath : path.Short)
    (hbeside : (path.withExtension "dsc").Short) (hf : w.Asks t path f) : f.Short := by
  have hplatform := platformOf?_of_declaration hkind
  obtain rfl | ⟨d, hd, hf⟩ := hf
  · exact hpath
  obtain rfl := Option.some.inj (hplatform.symm.trans hd)
  obtain rfl | ⟨text, htext, _⟩ := hf
  · exact hbeside
  · have hfound : t.sources.read (path.withExtension "dsc") = .ok text := htext
    rw [hfound] at hread
    cases hread

/-- What is seen after a rescan that has changed something. -/
theorem exists_rescan_eq_ok {α : Type} {a : α} (f : Workspace → α) {path : Path}
    (h : (w.rescan t path).map (fun result => (result.2.1, f result.1)) = .ok (true, a)) :
    ∃ next events, w.rescan t path = .ok (next, true, events) ∧ f next = a := by
  cases hresult : w.rescan t path with
  | error refusal => rw [hresult] at h; cases h
  | ok result =>
    obtain ⟨next, changed, events⟩ := result
    rw [hresult] at h
    obtain ⟨rfl, hseen⟩ := Prod.mk.inj (Except.ok.inj h)
    exact ⟨next, events, rfl, hseen⟩

/-- A tree with a package and a module that uses it. -/
def usedPackage : Tree :=
  (Tree.empty.writeFile ⟨"/ws/Pkg/Pkg.dec"⟩ (Utf8.encode "[Includes]\nA\n")).writeFile
    ⟨"/ws/M.inf"⟩ (Utf8.encode "[Sources]\na.c\n[Packages]\nPkg/Pkg.dec\n")

/-- The tree once the package has another include directory. -/
def changedPackage : Tree :=
  usedPackage.writeFile ⟨"/ws/Pkg/Pkg.dec"⟩ (Utf8.encode "[Includes]\nB\n")

/-- The workspace of the package once it has been scanned. -/
def packageWorkspace : Workspace :=
  (start ⟨"/ws"⟩ .default).run [.scan usedPackage]

/-- The include directories of the source of the module. -/
def sourceIncludes (w : Workspace) : List Path :=
  (w.catalog.modules.includes w.catalog.declarations ⟨"/ws/a.c"⟩).map Path.canonical

/-- The entries of the tree have names. -/
theorem named_usedPackage : usedPackage.Named :=
  ((Tree.wellFormed_empty.writeFile _ _).writeFile _ _).named

/-- A scan of the tree succeeds. -/
theorem exists_scan_usedPackage :
    ∃ events, (start ⟨"/ws"⟩ .default).scan usedPackage = .ok (packageWorkspace, events) := by
  have hfound : ((start ⟨"/ws"⟩ .default).scan usedPackage).isOk = true := by decide +kernel
  cases hscan : (start ⟨"/ws"⟩ .default).scan usedPackage with
  | error refusal => rw [hscan] at hfound; cases hfound
  | ok result =>
    obtain ⟨scanned, events⟩ := result
    exact ⟨events, by rw [eq_run_of_scan hscan]; rfl⟩

/-- There is no platform description beside the package. -/
theorem respelled_changedPackage (hsame : p.Same q)
    (hlone : ∀ f ∈ [p, q], f.trimmed = f.text ∧ FileKind.ofPath? f = some .declaration ∧
      (changedPackage.sources.read (f.withExtension "dsc")).toOption = none ∧
        f.Short ∧ (f.withExtension "dsc").Short) :
    packageWorkspace.Respelled changedPackage p q := by
  obtain ⟨⟨htrimmed, hkind, hread, hpath, hbeside⟩, hq⟩ := List.forall_mem_cons.1 hlone
  obtain ⟨htrimmed', hkind', hread', hpath', hbeside'⟩ := List.forall_mem_singleton.1 hq
  exact ⟨hsame, htrimmed, htrimmed', fun f hf => hf.elim (short_of_asks hkind hread hpath hbeside)
    (short_of_asks hkind' hread' hpath' hbeside')⟩

/-- Both spellings of the changed package end like the known declaration. One of them leads to the
new include directory, so the other one does. -/
theorem respelled_package :
    ∃ w events, usedPackage.Named ∧
      (start ⟨"/ws"⟩ .default).scan usedPackage = .ok (w, events) ∧
        w.Respelled changedPackage ⟨"/ws//Pkg/Pkg.dec"⟩ ⟨"/ws/./Pkg/Pkg.dec"⟩ ∧
          w.catalog.declarations.EndsAlike ⟨"/ws//Pkg/Pkg.dec"⟩ ⟨"/ws/./Pkg/Pkg.dec"⟩ ∧
            ∃ next next' events events',
              w.rescan changedPackage ⟨"/ws//Pkg/Pkg.dec"⟩ = .ok (next, true, events) ∧
                w.rescan changedPackage ⟨"/ws/./Pkg/Pkg.dec"⟩ = .ok (next', true, events') ∧
                  next.catalog.AnswersAlike next'.catalog ∧
                    next.sourceIncludes = [⟨"/ws/Pkg/B"⟩] ∧
                      next'.sourceIncludes = next.sourceIncludes := by
  obtain ⟨events, hscan⟩ := exists_scan_usedPackage
  have hrespelled : packageWorkspace.Respelled changedPackage ⟨"/ws//Pkg/Pkg.dec"⟩
      ⟨"/ws/./Pkg/Pkg.dec"⟩ :=
    respelled_changedPackage (by decide) (by decide +kernel)
  have hends : packageWorkspace.catalog.declarations.EndsAlike ⟨"/ws//Pkg/Pkg.dec"⟩
      ⟨"/ws/./Pkg/Pkg.dec"⟩ := ⟨by decide, by decide +kernel⟩
  obtain ⟨first, found, hfirst, hnew⟩ : ∃ first found,
      packageWorkspace.rescan changedPackage ⟨"/ws//Pkg/Pkg.dec"⟩ = .ok (first, true, found) ∧
        first.sourceIncludes = [⟨"/ws/Pkg/B"⟩] :=
    exists_rescan_eq_ok sourceIncludes (by decide +kernel)
  obtain ⟨hrefused, _⟩ | ⟨next, next', changed, _, found', hrescan, hrescan', _, _, hanswers,
      hincludes⟩ := rescan_respelled named_usedPackage hscan hrespelled
  · rw [hfirst] at hrefused
    cases hrefused
  · rw [hfirst] at hrescan
    obtain ⟨rfl, rfl, rfl⟩ : first = next ∧ true = changed ∧ found = _ := by simpa using hrescan
    exact ⟨packageWorkspace, events, named_usedPackage, hscan, hrespelled, hends, first, next',
      found, found', hfirst, hrescan', hanswers, hnew,
      ((hincludes fun _ => hends).includes ⟨"/ws/a.c"⟩).symm⟩

/-- A spelling that ends otherwise than the known declaration gives the file a second declaration,
and the module still has the include directory of the old text. -/
theorem not_includes_respelled :
    ∃ w events, usedPackage.Named ∧
      (start ⟨"/ws"⟩ .default).scan usedPackage = .ok (w, events) ∧
        w.Respelled changedPackage ⟨"/ws/Pkg/Pkg.dec"⟩ ⟨"/ws/Pkg/./Pkg.dec"⟩ ∧
          ∃ next next' events events',
            w.rescan changedPackage ⟨"/ws/Pkg/Pkg.dec"⟩ = .ok (next, true, events) ∧
              w.rescan changedPackage ⟨"/ws/Pkg/./Pkg.dec"⟩ = .ok (next', true, events') ∧
                next.sourceIncludes = [⟨"/ws/Pkg/B"⟩] ∧ next'.sourceIncludes = [⟨"/ws/Pkg/A"⟩] ∧
                  ¬ next'.catalog.declarations.all.Pairwise
                    fun r other => ¬ r.path.Same other.path := by
  obtain ⟨events, hscan⟩ := exists_scan_usedPackage
  have hrespelled : packageWorkspace.Respelled changedPackage ⟨"/ws/Pkg/Pkg.dec"⟩
      ⟨"/ws/Pkg/./Pkg.dec"⟩ :=
    respelled_changedPackage (by decide) (by decide +kernel)
  obtain ⟨next, found, hrescan, hnew⟩ : ∃ next found,
      packageWorkspace.rescan changedPackage ⟨"/ws/Pkg/Pkg.dec"⟩ = .ok (next, true, found) ∧
        next.sourceIncludes = [⟨"/ws/Pkg/B"⟩] :=
    exists_rescan_eq_ok sourceIncludes (by decide +kernel)
  obtain ⟨next', found', hrescan', hseen⟩ : ∃ next' found',
      packageWorkspace.rescan changedPackage ⟨"/ws/Pkg/./Pkg.dec"⟩ = .ok (next', true, found') ∧
        (next'.sourceIncludes, decide (next'.catalog.declarations.all.Pairwise
          fun r other => ¬ r.path.Same other.path)) = ([⟨"/ws/Pkg/A"⟩], false) :=
    exists_rescan_eq_ok (fun w => (w.sourceIncludes, decide (w.catalog.declarations.all.Pairwise
      fun r other => ¬ r.path.Same other.path))) (by decide +kernel)
  obtain ⟨hold, htwice⟩ := Prod.mk.inj hseen
  exact ⟨packageWorkspace, events, named_usedPackage, hscan, hrespelled, next, next', found, found',
    hrescan, hrescan', hnew, hold, of_decide_eq_false htwice⟩

end Workspace

end FirmwareIndex
