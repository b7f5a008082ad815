import FirmwareIndex.Proofs.Workspace.Mentions

/-!
# Files outside the root

A rescan compares the components of a path with those of the root, and takes each `..` for a
component of its own. What a scan finds is spelled below the root, so a path lies outside the root
although it starts like it only if a `..` comes after the components of the root
(`Path.climbs_of_not_liesUnder`). Paths without such a `..` are refused when they lie outside, and as
long as no other path is given to a rescan every file that is mentioned lies under the root
(`Workspace.outside_refused_iff`). A path that climbs out of the root is not refused
(`Workspace.mentions_climbing`).
-/

set_option autoImplicit false

namespace FirmwareIndex

namespace Path

/-- The components of a way with one more at its end, where `..` takes away the name before it. There
is nothing above the root. -/
def resolveStep (reached : List Component) : Component → List Component
  | .here => reached
  | .up =>
    match reached.getLast? with
    | some (.name _) => reached.dropLast
    | some .root => reached
    | _ => reached ++ [.up]
  | c => reached ++ [c]

/-- The components that are left of a path when its `.` and `..` are resolved without looking at the
tree. -/
def resolved (p : Path) : List Component :=
  p.components.foldl resolveStep []

/-- With `.` and `..` resolved, the path is that of a directory or of something below it. -/
def LiesUnder (p base : Path) : Prop :=
  base.resolved <+: p.resolved

instance (p base : Path) : Decidable (p.LiesUnder base) :=
  inferInstanceAs (Decidable (base.resolved <+: p.resolved))

/-- The path starts with the components of a directory, and a `..` comes after them. -/
def Climbs (p base : Path) : Prop :=
  ∃ rest, p.components = base.components ++ rest ∧ .up ∈ rest

variable {p base : Path}

/-- Without a `..` a way only goes down. -/
theorem prefix_foldl_resolveStep (reached : List Component) {rest : List Component}
    (h : .up ∉ rest) : reached <+: rest.foldl resolveStep reached := by
  induction rest generalizing reached with
  | nil => exact List.prefix_rfl
  | cons c rest ih =>
    obtain ⟨hc, hrest⟩ := not_or.1 (List.mem_cons.not.1 h)
    refine List.IsPrefix.trans ?_ (ih (resolveStep reached c) hrest)
    cases c with
    | up => contradiction
    | here => exact List.prefix_rfl
    | root | name => exact List.prefix_append _ _

/-- A path that goes on below a directory without `..` lies below it. -/
theorem liesUnder_of_components {rest : List Component} (h : p.components = base.components ++ rest)
    (hup : .up ∉ rest) : p.LiesUnder base := by
  unfold LiesUnder resolved
  rw [h, List.foldl_append]
  exact prefix_foldl_resolveStep _ hup

/-- A path that starts with the components of a directory, but does not lie under it, climbs out of
it. -/
theorem climbs_of_not_liesUnder (hout : ¬ p.LiesUnder base) (hunder : p.isUnder base) :
    p.Climbs base := by
  obtain ⟨rest, hrest⟩ := isUnder_iff.1 hunder
  by_contra hclimbs
  exact hout (liesUnder_of_components hrest fun hup => hclimbs ⟨rest, hrest, hup⟩)

/-- A path that climbs out of a directory is below it by its components. -/
theorem Climbs.isUnder (h : p.Climbs base) : p.isUnder base := by
  obtain ⟨rest, hrest, _⟩ := h
  exact isUnder_iff.2 ⟨rest, hrest⟩

/-- What is spelled below a directory goes down from it by its names. -/
theorem SpelledBelow.exists_components (h : p.SpelledBelow base) :
    ∃ rest, p.components = base.components ++ rest ∧ .up ∉ rest := by
  obtain ⟨names, hnames, rfl⟩ := h
  exact ⟨_, components_descend base hnames, by simp⟩

end Path

namespace Workspace

/-- A path that lies outside the root is refused, and the workspace stays as it is, unless the path
climbs out of the root. Every file that is mentioned starts with the components of the root, and it
lies under the root if no path that climbs out of it has been given to a rescan. -/
theorem outside_refused_iff (w : Workspace) {operations : List Operation}
    (hnamed : ∀ t, .scan t ∈ operations → t.Named) :
    (∀ (t : Tree) (p : Path), ¬ p.LiesUnder w.root →
        (w.rescan t p = .error (.outsideWorkspace p) ↔ ¬ p.Climbs w.root) ∧
        (¬ p.Climbs w.root → w.perform (.rescan t p) = w)) ∧
      (∀ p : Path, ((start w.root w.options).run operations).catalog.Mentions p →
        p.isUnder w.root) ∧
      ((∀ t p, .rescan t p ∈ operations → ¬ p.Climbs w.root) →
        ∀ p : Path, ((start w.root w.options).run operations).catalog.Mentions p →
          p.LiesUnder w.root) := by
  have hspelled : ∀ (t : Tree), .scan t ∈ operations → ∀ files,
      Discovery.run t w.options w.root = .ok files → ∀ k, ∀ file ∈ files.ofKind k,
        file.SpelledBelow w.root := fun t ht files hrun k file hfile =>
    (Discovery.spelledBelow_of_mem_ofKind (hnamed t ht) hrun hfile).1
  refine ⟨fun t p hout => ?_, fun p hp => ?_, fun hclimbs p hp => ?_⟩
  · have hunder : p.isUnder w.root ↔ p.Climbs w.root :=
      ⟨Path.climbs_of_not_liesUnder hout, Path.Climbs.isUnder⟩
    refine ⟨?_, fun hclimbs => perform_rescan_eq_self t (hunder.not.2 hclimbs)⟩
    rw [rescan_eq_error_iff, hunder]
    exact and_iff_right rfl
  · have honly := @only_run (fun _ key => ∃ rest, key = w.root.components ++ rest) w.root w.options
      operations fun operation hoperation => by
        cases operation with
        | scan t =>
          intro files hrun k file hfile
          obtain ⟨rest, hrest, _⟩ := (hspelled t hoperation files hrun k file hfile).exists_components
          exact ⟨rest, hrest⟩
        | rescan t path => exact fun _ hunder _ => Path.isUnder_iff.1 hunder
        | loadUnder t top => trivial
    obtain ⟨_, hrest⟩ := honly.mentions hp
    exact Path.isUnder_iff.2 hrest
  · have honly := @only_run (fun _ key => ∃ rest, key = w.root.components ++ rest ∧ .up ∉ rest)
      w.root w.options operations
      fun operation hoperation => by
        cases operation with
        | scan t =>
          exact fun files hrun k file hfile =>
            (hspelled t hoperation files hrun k file hfile).exists_components
        | rescan t path =>
          intro _ hunder _
          obtain ⟨rest, hrest⟩ := Path.isUnder_iff.1 hunder
          exact ⟨rest, hrest, fun hup => hclimbs t path hoperation ⟨rest, hrest, hup⟩⟩
        | loadUnder t top => trivial
    obtain ⟨_, rest, hrest, hup⟩ := honly.mentions hp
    exact Path.liesUnder_of_components hrest hup

/-- A tree with a module in the root of a workspace and one beside the root. -/
def neighbours : Tree :=
  (Tree.empty.writeFile ⟨"/ws/in/B.inf"⟩ []).writeFile ⟨"/ws/out/A.inf"⟩ []

/-- The entries of the tree have names. -/
theorem named_neighbours : neighbours.Named :=
  ((Tree.wellFormed_empty.writeFile _ _).writeFile _ _).named

/-- The module beside the root is refused by its own path. -/
theorem refused_neighbour :
    (∀ t, Operation.scan t ∈ [Operation.scan neighbours] → t.Named) ∧
      ¬ Path.LiesUnder ⟨"/ws/out/A.inf"⟩ ⟨"/ws/in"⟩ ∧ ¬ Path.Climbs ⟨"/ws/out/A.inf"⟩ ⟨"/ws/in"⟩ ∧
      ((start ⟨"/ws/in"⟩ .default).run [.scan neighbours]).rescan neighbours ⟨"/ws/out/A.inf"⟩ =
        .error (.outsideWorkspace ⟨"/ws/out/A.inf"⟩) := by
  have hnamed : ∀ t, Operation.scan t ∈ [Operation.scan neighbours] → t.Named := by
    intro t ht
    obtain rfl := Operation.scan.inj (List.mem_singleton.1 ht)
    exact named_neighbours
  have hout : ¬ Path.LiesUnder ⟨"/ws/out/A.inf"⟩ ⟨"/ws/in"⟩ := by decide
  have hclimbs : ¬ Path.Climbs ⟨"/ws/out/A.inf"⟩ ⟨"/ws/in"⟩ := by
    have hunder : ¬ Path.isUnder ⟨"/ws/out/A.inf"⟩ ⟨"/ws/in"⟩ := by decide
    exact fun h => hunder h.isUnder
  have hroot := (root_options_run ⟨"/ws/in"⟩ .default [.scan neighbours]).1
  have hrefused := (outside_refused_iff ((start ⟨"/ws/in"⟩ .default).run [.scan neighbours])
    hnamed).1 neighbours ⟨"/ws/out/A.inf"⟩
  rw [hroot] at hrefused
  exact ⟨hnamed, hout, hclimbs, (hrefused hout).1.2 hclimbs⟩

/-- The module beside the root is taken in by a path that climbs out of the root. -/
theorem mentions_climbing :
    ¬ Path.LiesUnder ⟨"/ws/in/../out/A.inf"⟩ ⟨"/ws/in"⟩ ∧
      (((start ⟨"/ws/in"⟩ .default).run [.scan neighbours]).rescan neighbours
          ⟨"/ws/in/../out/A.inf"⟩).isOk ∧
      (((start ⟨"/ws/in"⟩ .default).run [.scan neighbours,
        .rescan neighbours ⟨"/ws/in/../out/A.inf"⟩]).catalog.Mentions ⟨"/ws/in/../out/A.inf"⟩) := by
  have hlisted : ⟨"/ws/in/../out/A.inf"⟩ ∈ ((start ⟨"/ws/in"⟩ .default).run [.scan neighbours,
      .rescan neighbours ⟨"/ws/in/../out/A.inf"⟩]).catalog.modules.files := by
    decide +kernel
  exact ⟨by decide, by decide +kernel, .inl ⟨.module, .inl ⟨_, hlisted, rfl⟩⟩⟩

end Workspace

end FirmwareIndex
