import FirmwareIndex.Proofs.Workspace.Linked
import FirmwareIndex.Proofs.Workspace.Lazy

/-!
# The order of a scan

A directory lists its entries in an order of its own, and files that are read at the same time
arrive in any order. Neither has an effect. What is found is listed in the order of the paths, and
the files below a root are spelled by their names, so no two of them are one place
(`Discovery.runWith_perm`). The outcomes are told apart by the kind and the place of their files, so
arranging them leads to one list however they arrive (`Outcome.arranged_perm`). So a scan leads to
one workspace and one list of events (`Workspace.scanWith_eq_scan`).
-/

set_option autoImplicit false

namespace FirmwareIndex

namespace Discovery

variable {t : Tree} {o : Options} {root path : Path} {listing : Address → List Text}

/-- Directories that list their entries in another order lead to the same findings in another
order. -/
theorem below_perm (hlisting : ∀ a, (listing a).Perm (t.names a)) (depth : Nat)
    (above : List Address) (a : Address) (path : Path) :
    (below t listing o depth above a path).Perm (below t t.names o depth above a path) := by
  induction depth generalizing above a path with
  | zero => exact .refl _
  | succ depth ih =>
    refine List.Perm.flatMap (hlisting a) fun name _ => ?_
    dsimp only
    split
    case h_4 b _ =>
      split
      · exact .refl _
      · split
        · exact .refl _
        · exact ih _ _ _
    all_goals exact .refl _

/-- Findings at one place have one path. -/
theorem path_eq_of_same (ht : t.Named) {depth : Nat} {above : List Address} {a : Address}
    {f g : Finding} (hf : f ∈ below t listing o depth above a path)
    (hg : g ∈ below t listing o depth above a path) (hsame : f.path.Same g.path) :
    f.path = g.path := by
  obtain ⟨_, name, hdirectory, hname, hpath⟩ := exists_push_of_mem_below ht depth above hf
  obtain ⟨_, other, hdirectory', hother, hpath'⟩ := exists_push_of_mem_below ht depth above hg
  rw [hpath, hpath'] at hsame ⊢
  exact (hdirectory.push hname).eq_of_same (hdirectory'.push hother) hsame

/-- What is found below a root does not depend on the order in which the directories list their
entries. -/
theorem runWith_perm (ht : t.Named) (hlisting : ∀ a, (listing a).Perm (t.names a)) (o : Options)
    (root : Path) : runWith t listing o root = run t o root := by
  unfold run runWith
  split
  · rfl
  · rename_i a _
    dsimp only
    generalize hfound : below t listing o (maxDepth t) [a] a root = found
    have hperm : found.Perm (below t t.names o (maxDepth t) [a] a root) :=
      hfound ▸ below_perm hlisting _ _ _ _
    -- whatever part of the findings is sorted, the paths in it are known by their places
    have hsorted : ∀ (part : Finding → Option Path) (keep : Path → Bool),
        (∀ f p, part f = some p → f.path = p) →
          Path.sorted ((found.filterMap part).filter keep) =
            Path.sorted (((below t t.names o (maxDepth t) [a] a root).filterMap part).filter
              keep) := by
      intro part keep hpart
      refine Path.sorted_perm (fun p hp q hq hsame => ?_) ((hperm.filterMap part).filter keep)
      obtain ⟨f, hf, hfp⟩ := List.mem_filterMap.1 (List.mem_filter.1 hp).1
      obtain ⟨g, hg, hgq⟩ := List.mem_filterMap.1 (List.mem_filter.1 hq).1
      rw [← hpart f p hfp, ← hpart g q hgq] at hsame ⊢
      rw [← hfound] at hf hg
      exact path_eq_of_same ht hf hg hsame
    have hfile : ∀ (f : Finding) (p : Path), f.file? = some p → f.path = p := by
      intro f p hp
      cases f with
      | file q => exact Option.some.inj hp
      | deadEnd q => cases hp
    have hdead : ∀ (f : Finding) (p : Path), f.deadEnd? = some p → f.path = p := by
      intro f p hp
      cases f with
      | file q => cases hp
      | deadEnd q => exact Option.some.inj hp
    have hdeadEnds := hsorted Finding.deadEnd? (fun _ => true) hdead
    simp only [List.filter_true] at hdeadEnds
    simp only [ofKind, hsorted Finding.file? _ hfile, hdeadEnds]
  · rfl

end Discovery

namespace Outcome

variable {outcomes outcomes' : List Outcome}

/-- No two of the outcomes are of one kind and of files at one place. -/
def Distinct (outcomes : List Outcome) : Prop :=
  outcomes.Pairwise fun o o' => o.kind = o'.kind → ¬ o.path.Same o'.path

/-- The order of outcomes does not matter to whether they are distinct. -/
theorem Distinct.perm (h : Distinct outcomes) (hperm : outcomes.Perm outcomes') :
    Distinct outcomes' :=
  (hperm.pairwise_iff fun hdiff hkind hsame => hdiff hkind.symm hsame.symm).1 h

/-- The table that arranging goes through has each outcome of the kind under its place. -/
theorem getElem?_ofKind (h : Distinct outcomes) (k : FileKind) (key : List Component)
    (o : Outcome) :
    ((outcomes.filter fun o => o.kind = k).foldl (fun m o => m.insert o.path.components o)
        (∅ : PathMap Outcome))[key]? = some o ↔
      o ∈ outcomes ∧ o.kind = k ∧ o.path.components = key := by
  have hdiff : (outcomes.filter fun o => o.kind = k).Pairwise
      fun o o' => o.path.components ≠ o'.path.components := by
    refine (h.filter _).imp_of_mem fun {o o'} ho ho' hne => ?_
    have hkind : o.kind = k := of_decide_eq_true (List.mem_filter.1 ho).2
    have hkind' : o'.kind = k := of_decide_eq_true (List.mem_filter.1 ho').2
    exact hne (hkind.trans hkind'.symm)
  rw [Path.getElem?_foldl_insert_eq_some (f := fun o => o) hdiff]
  simp only [List.mem_filter, decide_eq_true_eq, Std.ExtTreeMap.getElem?_empty, reduceCtorEq,
    false_and, or_false]
  constructor
  · rintro ⟨_, ⟨ho, hkind⟩, hkey, rfl⟩
    exact ⟨ho, hkind, hkey⟩
  · rintro ⟨ho, hkind, hkey⟩
    exact ⟨o, ⟨ho, hkind⟩, hkey, rfl⟩

/-- The order in which distinct outcomes arrive has no effect on the order in which they are taken
in. -/
theorem arranged_perm (h : Distinct outcomes) (hperm : outcomes.Perm outcomes') :
    arranged outcomes = arranged outcomes' := by
  have hkind : ∀ k, ofKind k outcomes = ofKind k outcomes' := by
    intro k
    refine congrArg Std.ExtTreeMap.values (Std.ExtTreeMap.ext_getElem? fun key => ?_)
    apply Option.ext
    intro o
    rw [getElem?_ofKind h, getElem?_ofKind (h.perm hperm), hperm.mem_iff]
  simp only [arranged, hkind]

end Outcome

namespace Workspace

/-- A scan for which directories list their entries as `listing` says, and in which the outcomes of
the files arrive as `deliver` hands them over. -/
def scanWith (w : Workspace) (t : Tree) (listing : Address → List Text)
    (deliver : List Outcome → List Outcome) : Except Refusal (Workspace × List Event) :=
  (Discovery.runWith t listing w.options w.root).map fun files =>
    let outcomes := deliver (w.outcomes t files)
    let scanned := w.rebuiltFrom t files outcomes
    (scanned, scanned.scanEvents outcomes)

/-- A scan lists the entries of directories as the tree has them and takes the outcomes as they
come. -/
theorem scanWith_names (w : Workspace) (t : Tree) : w.scanWith t t.names id = w.scan t :=
  rfl

/-- Files that were found are read once for each kind. -/
theorem distinct_outcomes {w : Workspace} {t : Tree} {files : Files}
    (hrun : Discovery.run t w.options w.root = .ok files) :
    Outcome.Distinct (w.outcomes t files) := by
  obtain ⟨_, hd, hp⟩ := Discovery.ordered_of_run_eq_ok hrun
  have hread : ∀ (k : FileKind) {paths : List Path}, Path.Ordered paths →
      Outcome.Distinct (paths.map (Outcome.ofFile (w.setting t) k)) := by
    intro k paths h
    refine List.pairwise_map.2 (h.different.imp ?_)
    exact fun hdiff _ => hdiff
  have hother : ∀ {k k' : FileKind} (paths paths' : List Path), k ≠ k' →
      ∀ o ∈ paths.map (Outcome.ofFile (w.setting t) k),
        ∀ o' ∈ paths'.map (Outcome.ofFile (w.setting t) k'),
          o.kind = o'.kind → ¬ o.path.Same o'.path := by
    intro k k' paths paths' hne o ho o' ho' hkind
    obtain ⟨_, _, rfl⟩ := List.mem_map.1 ho
    obtain ⟨_, _, rfl⟩ := List.mem_map.1 ho'
    exact absurd hkind hne
  rw [outcomes_eq]
  refine List.pairwise_append.2 ⟨List.pairwise_append.2
    ⟨hread .module (ordered_modules hrun w.options.eager), hread .declaration hd, ?_⟩,
    hread .platform hp, ?_⟩
  · exact hother _ _ (by decide)
  · intro o ho
    rcases List.mem_append.1 ho with ho | ho
    · exact hother _ _ (by decide) o ho
    · exact hother _ _ (by decide) o ho

/-- The order in which directories list their entries, and the order in which the files that are
read arrive, have no effect on a scan: the workspace and the events are the same, and so is the
refusal if it is refused. -/
theorem scanWith_eq_scan (w : Workspace) {t : Tree} (ht : t.Named) {listing : Address → List Text}
    (hlisting : ∀ a, (listing a).Perm (t.names a)) {deliver : List Outcome → List Outcome}
    (hdeliver : ∀ outcomes, (deliver outcomes).Perm outcomes) :
    w.scanWith t listing deliver = w.scan t := by
  rw [scanWith, scan, Discovery.runWith_perm ht hlisting]
  cases hrun : Discovery.run t w.options w.root with
  | error refusal => rfl
  | ok files =>
    have harranged : Outcome.arranged (deliver (w.outcomes t files)) =
        Outcome.arranged (w.outcomes t files) :=
      (Outcome.arranged_perm (distinct_outcomes hrun) (hdeliver _).symm).symm
    have hrebuilt : w.rebuiltFrom t files (deliver (w.outcomes t files)) =
        w.rebuiltFrom t files (w.outcomes t files) := by
      simp only [rebuiltFrom, Catalog.ofOutcomes, harranged]
    simp only [Except.map, index, hrebuilt, scanEvents, harranged]

/-- The entries of the root are listed from the last to the first, and the outcomes of its files
arrive from the last to the first. -/
theorem scanWith_mixedTree :
    mixedTree.Named ∧
      (start ⟨"/ws"⟩ .default).scanWith mixedTree (fun a => (mixedTree.names a).reverse)
        List.reverse = (start ⟨"/ws"⟩ .default).scan mixedTree :=
  have hnamed : mixedTree.Named :=
    (((Tree.wellFormed_empty.writeFile _ _).writeFile _ _).writeFile _ _).named
  ⟨hnamed, scanWith_eq_scan _ hnamed (fun _ => List.reverse_perm _) List.reverse_perm⟩

end Workspace

end FirmwareIndex
