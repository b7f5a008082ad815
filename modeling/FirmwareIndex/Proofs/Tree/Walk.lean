import FirmwareIndex.Proofs.Path.Spelling
import FirmwareIndex.Tree.Sources

/-!
# Ways through a tree

In a tree without links a way goes from directory to directory, and the way of a path that names
were pushed to is the way of the path, followed by the names. So a file some directories below a
root is found under its address, provided that its path is short enough
(`Tree.lookup_descend_eq_ok`).
-/

set_option autoImplicit false

namespace FirmwareIndex.Tree

/-- A name that an entry can have. -/
structure ValidName (name : Text) : Prop extends Path.IsName name where
  nul : Char.ofNat 0 ∉ name
  short : byteLength name ≤ maxName

instance (name : Text) : Decidable (ValidName name) :=
  decidable_of_iff (Path.IsName name ∧ Char.ofNat 0 ∉ name ∧ byteLength name ≤ maxName)
    ⟨fun ⟨hname, hnul, hshort⟩ => ⟨hname, hnul, hshort⟩, fun h => ⟨h.toIsName, h.nul, h.short⟩⟩

/-- A tree without links in which every entry has a name and stands in a directory. -/
structure WellFormed (t : Tree) : Prop where
  link : ∀ a target, t.node? a ≠ some (.link target)
  above : ∀ name a n, t.node? (name :: a) = some n → t.node? a = some .directory
  name : ∀ name a n, t.node? (name :: a) = some n → ValidName name

/-- Every entry of the tree has a name. There may be links. -/
def Named (t : Tree) : Prop :=
  ∀ name a n, t.node? (name :: a) = some n → Path.IsName name

/-- A well-formed tree has names for all its entries. -/
theorem WellFormed.named {t : Tree} (h : t.WellFormed) : t.Named :=
  fun name a n hn => (h.name name a n hn).toIsName

/-- The root is a directory. -/
@[simp]
theorem node?_nil (t : Tree) : t.node? [] = some .directory :=
  rfl

/-- The names in a directory are those of the entries below it. -/
theorem mem_names {t : Tree} {a : Address} {name : Text} :
    name ∈ t.names a ↔ ∃ n, t.node? (name :: a) = some n := by
  simp only [names, List.mem_filterMap, Std.ExtTreeMap.mem_keys, node?, reduceCtorEq, ↓reduceIte]
  constructor
  · rintro ⟨key, hkey, hname⟩
    cases key with
    | nil => cases hname
    | cons first above =>
      dsimp only at hname
      split at hname
      · rename_i habove
        obtain rfl := Option.some.inj hname
        rw [← habove]
        exact Option.isSome_iff_exists.1 (Std.ExtTreeMap.mem_iff_isSome_getElem?.1 hkey)
      · cases hname
  · rintro ⟨n, hn⟩
    refine ⟨name :: a, ?_, by simp⟩
    rw [Std.ExtTreeMap.mem_iff_isSome_getElem?, hn]
    rfl

namespace WellFormed

variable {t : Tree}

/-- What stands above an entry is a directory. -/
theorem directory_of_append (h : t.WellFormed) {front : List Text} {a : Address} {n : Node}
    (hn : t.node? (front ++ a) = some n) (hfront : front ≠ []) :
    t.node? a = some .directory := by
  induction front generalizing n with
  | nil => contradiction
  | cons name front ih =>
    have habove := h.above name (front ++ a) n hn
    cases front with
    | nil => exact habove
    | cons second rest => exact ih habove (by simp)

/-- The names on the way to an entry are valid. -/
theorem validName_of_append (h : t.WellFormed) {front : List Text} {a : Address} {n : Node}
    (hn : t.node? (front ++ a) = some n) : ∀ name ∈ front, ValidName name := by
  induction front generalizing n with
  | nil => simp
  | cons name front ih =>
    intro other hother
    rcases List.mem_cons.1 hother with rfl | hother
    · exact h.name _ _ n hn
    · exact ih (h.above name (front ++ a) n hn) other hother

end WellFormed

/-- Where one piece of a way leads in a tree without links, when a missing entry may be gone through
or not. -/
def advance (t : Tree) (admitted : Bool) (a : Address) (piece : Text) : Except ReadError Address :=
  match t.node? a with
  | some (.file _) => .error .notDirectory
  | _ =>
    if piece = [] || piece = ['.'] then .ok a
    else if piece = ['.', '.'] then .ok a.tail
    else if maxName < byteLength piece then .error .nameTooLong
    else if (t.node? (piece :: a)).isSome || admitted then .ok (piece :: a)
    else .error .noEntry

section Walk

variable {t t' : Tree} {mode mode' : Mode}
  {jump jump' : Address → List Text → Except ReadError Address}

/-- A mode without missing entries goes through none. -/
theorem Mode.admits_eq_false (hmode : mode.missing = .none) (rest : List Text) :
    mode.admits rest = false := by
  simp [Mode.admits, hmode]

/-- Without links a way goes on where its first piece leads. -/
theorem goWith_cons (hlink : ∀ a target, t.node? a ≠ some (.link target)) (a : Address)
    (piece : Text) (rest : List Text) :
    goWith t mode jump a (piece :: rest) =
      (t.advance (mode.admits rest) a piece).bind fun b => goWith t mode jump b rest := by
  rw [goWith, advance]
  rcases hnode : t.node? a with _ | (bytes | _ | target)
  case some.file => rfl
  case some.link => exact absurd hnode (hlink a target)
  all_goals
    dsimp only
    split
    · rfl
    · split
      · rfl
      · split
        · rfl
        · cases hnext : t.node? (piece :: a) with
          | none => cases mode.admits rest <;> rfl
          | some n =>
            cases n with
            | link target => exact absurd hnext (hlink _ target)
            | file bytes => rfl
            | directory => rfl

/-- Without links only what a way does with missing entries counts. -/
theorem goWith_congr (hlink : ∀ a target, t.node? a ≠ some (.link target))
    (hmode : mode.missing = mode'.missing) (pieces : List Text) (a : Address) :
    goWith t mode jump a pieces = goWith t mode' jump' a pieces := by
  induction pieces generalizing a with
  | nil => rfl
  | cons piece rest ih =>
    have hadmits : mode.admits rest = mode'.admits rest := by
      unfold Mode.admits
      rw [hmode]
    simp only [goWith_cons hlink, hadmits, ih]

/-- A way of pieces and further pieces goes on where the first ones lead. -/
theorem goWith_append (hlink : ∀ a target, t.node? a ≠ some (.link target))
    (hmode : ∀ rest rest', mode.admits rest = mode.admits rest') (pieces further : List Text)
    (a : Address) :
    goWith t mode jump a (pieces ++ further) =
      (goWith t mode jump a pieces).bind fun b => goWith t mode jump b further := by
  induction pieces generalizing a with
  | nil =>
    rw [List.nil_append, goWith]
    rfl
  | cons piece rest ih =>
    rw [List.cons_append, goWith_cons hlink, goWith_cons hlink, hmode (rest ++ further) rest]
    cases t.advance (mode.admits rest) a piece with
    | error reason => rfl
    | ok b => exact ih b

/-- The way of a path that a piece was pushed to. -/
theorem goWith_push (hlink : ∀ a target, t.node? a ≠ some (.link target))
    (hmode : ∀ rest rest', mode.admits rest = mode.admits rest') {p : Path} (hp : p.text ≠ [])
    {piece : Text} (hslash : '/' ∉ piece) (a : Address) :
    goWith t mode jump a ((p.push piece).text.splitOn '/') =
      (goWith t mode jump a (p.text.splitOn '/')).bind fun b => goWith t mode jump b [piece] := by
  obtain ⟨pre, _, hsplit, hpush⟩ := Path.exists_splitOn_push hp
  rw [hpush piece hslash, goWith_append hlink hmode]
  rcases hsplit with hsplit | hsplit
  · rw [hsplit]
  · rw [hsplit, goWith_append hlink hmode]
    -- the empty piece after the last slash leads nowhere else
    cases goWith t mode jump a pre with
    | error reason => rfl
    | ok b =>
      simp only [Except.bind, goWith_cons hlink, advance]
      cases hnode : t.node? b with
      | none => simp [goWith, hnode]
      | some n => cases n <;> simp [goWith, hnode]

/-- The way of the path of an entry some directories below. -/
theorem goWith_descend (hlink : ∀ a target, t.node? a ≠ some (.link target))
    (hmode : ∀ rest rest', mode.admits rest = mode.admits rest') {names : List Text}
    (hnames : ∀ name ∈ names, Path.IsName name) (a : Address) {root : Path}
    (hroot : root.text ≠ []) :
    goWith t mode jump a ((root.descend names).text.splitOn '/') =
      (goWith t mode jump a (root.text.splitOn '/')).bind fun b => goWith t mode jump b names := by
  induction names generalizing root with
  | nil =>
    simp only [Path.descend, List.foldl_nil, goWith]
    cases goWith t mode jump a (root.text.splitOn '/') <;> rfl
  | cons name names ih =>
    have hname := hnames name (by simp)
    have hpush : (root.push name).text ≠ [] := by
      simp [Path.push_eq root hname.slash, hname.ne_nil]
    have hrest := ih (fun n hn => hnames n (by simp [hn])) hpush
    rw [goWith_push hlink hmode hroot hname.slash] at hrest
    refine hrest.trans ?_
    cases goWith t mode jump a (root.text.splitOn '/') with
    | error reason => rfl
    | ok b => exact (goWith_append hlink hmode [name] names b).symm

/-- From a directory a name leads to the entry that has it, if there is one. -/
theorem advance_of_directory {a : Address} {name : Text} (ha : t.node? a = some .directory)
    (hname : ValidName name) : t.advance false a name =
      if (t.node? (name :: a)).isSome then .ok (name :: a) else .error .noEntry := by
  simp [advance, ha, hname.ne_nil, hname.ne_dot, hname.ne_dots, Nat.not_lt.2 hname.short]

/-- From a directory names lead to the entry with these names, if it is there. -/
theorem goWith_names_eq_ok (h : t.WellFormed) (hmode : mode.missing = .none) {names : List Text}
    (hnames : ∀ name ∈ names, ValidName name) {a b : Address} (ha : t.node? a = some .directory) :
    goWith t mode jump a names = .ok b ↔ b = names.reverse ++ a ∧ ∃ n, t.node? b = some n := by
  induction names generalizing a with
  | nil =>
    simp only [goWith, Except.ok.injEq, List.reverse_nil, List.nil_append]
    exact ⟨fun heq => ⟨heq.symm, _, heq ▸ ha⟩, fun hb => hb.1.symm⟩
  | cons name names ih =>
    have hname := hnames name (by simp)
    rw [goWith_cons h.link, Mode.admits_eq_false hmode, advance_of_directory ha hname,
      List.reverse_cons, List.append_assoc, List.singleton_append]
    have hbelow : ∀ n, t.node? (names.reverse ++ name :: a) = some n →
        names = [] ∨ t.node? (name :: a) = some .directory := by
      intro n hn
      by_cases hnil : names = []
      · exact .inl hnil
      · exact .inr (h.directory_of_append hn (by simpa using hnil))
    cases hnode : t.node? (name :: a) with
    | none =>
      refine ⟨fun herror => (nomatch herror), ?_⟩
      rintro ⟨hb, n, hn⟩
      rcases hbelow n (hb ▸ hn) with rfl | hdir
      · rw [hb, List.reverse_nil, List.nil_append, hnode] at hn
        cases hn
      · rw [hnode] at hdir
        cases hdir
    | some n =>
      simp only [Option.isSome_some, ↓reduceIte, Except.bind]
      by_cases hdir : t.node? (name :: a) = some .directory
      · exact ih (fun n hn => hnames n (by simp [hn])) hdir
      · cases names with
        | nil =>
          simp only [goWith, Except.ok.injEq, List.reverse_nil, List.nil_append]
          exact ⟨fun heq => ⟨heq.symm, _, heq ▸ hnode⟩, fun hb => hb.1.symm⟩
        | cons second rest =>
          have hfile : ∃ bytes, n = .file bytes := by
            cases n with
            | file bytes => exact ⟨bytes, rfl⟩
            | directory => exact absurd hnode hdir
            | link target => exact absurd hnode (h.link _ target)
          obtain ⟨bytes, rfl⟩ := hfile
          have herror : goWith t mode jump (name :: a) (second :: rest) = .error .notDirectory := by
            rw [goWith_cons h.link, advance, hnode]
            rfl
          rw [herror]
          refine ⟨fun herror => (nomatch herror), ?_⟩
          rintro ⟨hb, n, hn⟩
          rcases hbelow n (hb ▸ hn) with hnil | hdir'
          · cases hnil
          · exact absurd hdir' hdir

/-- On the way from a directory a file can only stand behind the first name. -/
theorem exists_file_on_way_cons {a : Address} {name : Text} {names : List Text}
    (ha : t.node? a = some .directory) :
    (∃ front bytes, front <+: name :: names ∧ t.node? (front.reverse ++ a) = some (.file bytes)) ↔
      ∃ front bytes, front <+: names ∧
        t.node? (front.reverse ++ name :: a) = some (.file bytes) := by
  constructor
  · rintro ⟨front, bytes, hfront, hbytes⟩
    cases front with
    | nil =>
      have hbytes' : t.node? a = some (.file bytes) := hbytes
      rw [ha] at hbytes'
      cases hbytes'
    | cons first rest =>
      obtain ⟨rfl, hrest⟩ := List.cons_prefix_cons.1 hfront
      exact ⟨rest, bytes, hrest, by simpa using hbytes⟩
  · rintro ⟨front, bytes, hfront, hbytes⟩
    exact ⟨name :: front, bytes, List.cons_prefix_cons.2 ⟨rfl, hfront⟩, by simpa using hbytes⟩

/-- From an entry names that lead to no entry fail where they come to a file, or else where an entry
is missing. -/
theorem goWith_names_eq_error (h : t.WellFormed) (hmode : mode.missing = .none)
    (jump : Address → List Text → Except ReadError Address) {names : List Text}
    (hnames : ∀ name ∈ names, ValidName name) {a : Address} (ha : ∃ n, t.node? a = some n)
    (hnone : t.node? (names.reverse ++ a) = none) :
    ((∃ front bytes, front <+: names ∧ t.node? (front.reverse ++ a) = some (.file bytes)) →
        goWith t mode jump a names = .error .notDirectory) ∧
      ((¬ ∃ front bytes, front <+: names ∧ t.node? (front.reverse ++ a) = some (.file bytes)) →
        goWith t mode jump a names = .error .noEntry) := by
  induction names generalizing a with
  | nil =>
    obtain ⟨n, hn⟩ := ha
    have hnone' : t.node? a = none := hnone
    rw [hn] at hnone'
    cases hnone'
  | cons name names ih =>
    have hname := hnames name (by simp)
    rw [goWith_cons h.link, Mode.admits_eq_false hmode]
    obtain ⟨n, hn⟩ := ha
    cases n with
    | link target => exact absurd hn (h.link a target)
    | file bytes =>
      have herror : t.advance false a name = .error .notDirectory := by
        rw [advance, hn]
      rw [herror]
      exact ⟨fun _ => rfl, fun hno => absurd ⟨[], bytes, List.nil_prefix, hn⟩ hno⟩
    | directory =>
      rw [advance_of_directory hn hname, exists_file_on_way_cons hn]
      cases hnext : t.node? (name :: a) with
      | some n =>
        exact ih (fun q hq => hnames q (by simp [hq])) ⟨n, hnext⟩ (by simpa using hnone)
      | none =>
        refine ⟨fun ⟨front, bytes, _, hbytes⟩ => ?_, fun _ => rfl⟩
        cases front with
        | nil =>
          have hbytes' : t.node? (name :: a) = some (.file bytes) := hbytes
          rw [hnext] at hbytes'
          cases hbytes'
        | cons first rest =>
          have hdir := h.directory_of_append hbytes (by simp)
          rw [hnext] at hdir
          cases hdir

/-- A piece that leads to an entry in a tree leads there in every tree with the same directories, if
the entry is one of them. -/
theorem advance_directory (h : t.WellFormed)
    (hdirectories : ∀ b, t.node? b = some .directory → t'.node? b = some .directory)
    {a c : Address} {piece : Text} (ha : t.node? a = some .directory)
    (hadvance : t.advance false a piece = .ok c) :
    (∃ n, t.node? c = some n) ∧
      (t.node? c = some .directory → t'.advance false a piece = .ok c) := by
  rw [advance, ha] at hadvance
  rw [advance, hdirectories a ha]
  dsimp only at hadvance ⊢
  split at hadvance
  · rename_i hempty
    obtain rfl := Except.ok.inj hadvance
    exact ⟨⟨_, ha⟩, fun _ => if_pos hempty⟩
  · rename_i hempty
    rw [if_neg hempty]
    split at hadvance
    · rename_i hup
      obtain rfl := Except.ok.inj hadvance
      refine ⟨?_, fun _ => if_pos hup⟩
      cases a with
      | nil => exact ⟨_, rfl⟩
      | cons name above => exact ⟨_, h.above name above _ ha⟩
    · rename_i hup
      rw [if_neg hup]
      split at hadvance
      · cases hadvance
      · rename_i hlong
        rw [if_neg hlong]
        split at hadvance
        · rename_i hnext
          obtain rfl := Except.ok.inj hadvance
          refine ⟨Option.isSome_iff_exists.1 (by simpa using hnext), ?_⟩
          intro hdir
          rw [hdirectories _ hdir]
          rfl
        · cases hadvance

/-- A way that leads to a directory is there as long as the directories are. -/
theorem goWith_directory (h : t.WellFormed) (h' : t'.WellFormed) (hmode : mode.missing = .none)
    (hdirectories : ∀ b, t.node? b = some .directory → t'.node? b = some .directory)
    {pieces : List Text} {a b : Address} (ha : t.node? a = some .directory)
    (hdir : t.node? b = some .directory) (hb : goWith t mode jump a pieces = .ok b) :
    goWith t' mode jump' a pieces = .ok b := by
  induction pieces generalizing a with
  | nil => exact hb
  | cons piece rest ih =>
    rw [goWith_cons h.link] at hb
    rw [goWith_cons h'.link]
    rw [Mode.admits_eq_false hmode] at hb ⊢
    cases hadvance : t.advance false a piece with
    | error reason => rw [hadvance] at hb; cases hb
    | ok c =>
      rw [hadvance] at hb
      obtain ⟨⟨n, hn⟩, hadvance'⟩ := advance_directory h hdirectories ha hadvance
      -- only the end of a way can be something else than a directory
      have hc : t.node? c = some .directory := by
        cases n with
        | directory => exact hn
        | link target => exact absurd hn (h.link c target)
        | file bytes =>
          cases rest with
          | nil =>
            obtain rfl : c = b := by simpa [Except.bind, goWith] using hb
            exact hdir
          | cons second rest =>
            simp only [Except.bind, goWith_cons h.link, advance, hn] at hb
            cases hb
      rw [hadvance' hc]
      exact ih hc hb

/-- A way that goes through no missing entry leads to an entry. -/
theorem exists_of_goWith (h : t.WellFormed) (hmode : mode.missing = .none) {pieces : List Text}
    {a b : Address} (ha : ∃ n, t.node? a = some n) (hb : goWith t mode jump a pieces = .ok b) :
    ∃ n, t.node? b = some n := by
  induction pieces generalizing a with
  | nil => exact Except.ok.inj hb ▸ ha
  | cons piece rest ih =>
    rw [goWith_cons h.link] at hb
    rw [Mode.admits_eq_false hmode] at hb
    cases hadvance : t.advance false a piece with
    | error reason => rw [hadvance] at hb; cases hb
    | ok c =>
      rw [hadvance] at hb
      have hdir : t.node? a = some .directory := by
        obtain ⟨n, hn⟩ := ha
        cases n with
        | directory => exact hn
        | link target => exact absurd hn (h.link a target)
        | file bytes =>
          rw [advance, hn] at hadvance
          cases hadvance
      exact ih (advance_directory h (fun _ hb => hb) hdir hadvance).1 hb

/-- A name leads to the entry with that name, if it leads anywhere. -/
theorem advance_name {a b : Address} {name : Text} (hname : Path.IsName name)
    (hadvance : t.advance false a name = .ok b) : b = name :: a ∧ ∃ n, t.node? b = some n := by
  unfold advance at hadvance
  split at hadvance
  · cases hadvance
  · rw [if_neg (by simp [hname.ne_nil, hname.ne_dot]), if_neg hname.ne_dots] at hadvance
    split at hadvance
    · cases hadvance
    · split at hadvance
      · rename_i hentry
        obtain rfl := Except.ok.inj hadvance
        exact ⟨rfl, Option.isSome_iff_exists.1 (by simpa using hentry)⟩
      · cases hadvance

/-- Names that lead to an entry are valid. -/
theorem validName_of_goWith (h : t.WellFormed) (hmode : mode.missing = .none) {names : List Text}
    {a b : Address} (hnames : ∀ name ∈ names, Path.IsName name)
    (hway : goWith t mode jump a names = .ok b) : ∀ name ∈ names, ValidName name := by
  induction names generalizing a with
  | nil => exact fun _ hname => nomatch hname
  | cons name rest ih =>
    obtain ⟨hname, hrest⟩ := List.forall_mem_cons.1 hnames
    rw [goWith_cons h.link, Mode.admits_eq_false hmode] at hway
    cases hadvance : t.advance false a name with
    | error reason => rw [hadvance] at hway; cases hway
    | ok c =>
      rw [hadvance] at hway
      obtain ⟨rfl, n, hn⟩ := advance_name hname hadvance
      exact List.forall_mem_cons.2 ⟨h.name name a n hn, ih hrest hway⟩

end Walk

section Lookup

variable {t t' : Tree} {mode : Mode} {root p : Path} {a b : Address} {names : List Text} {n : Node}

/-- Only paths that are short enough and not empty are looked up. -/
theorem locate_eq_ok :
    t.locate mode p = .ok b ↔
      Char.ofNat 0 ∉ p.text ∧ byteLength p.text < maxPath ∧ p.text ≠ [] ∧
        t.go mode maxLinks [] (p.text.splitOn '/') = .ok b := by
  unfold locate
  by_cases hnul : Char.ofNat 0 ∈ p.text
  · simp [hnul]
  · by_cases hlong : maxPath ≤ byteLength p.text
    · simp [hnul, hlong, Nat.not_lt.2 hlong]
    · by_cases hempty : p.text = []
      · have hcontains : ¬ p.text.contains (Char.ofNat 0) = true := by simpa using hnul
        rw [if_neg hcontains, if_neg hlong, if_pos hempty]
        simp [hempty]
      · simp [hnul, hlong, Nat.lt_of_not_le hlong, hempty]

/-- Looking up a path is locating it and finding an entry there. -/
theorem lookup_eq_ok :
    t.lookup p = .ok (b, n) ↔ t.locate .follow p = .ok b ∧ t.node? b = some n := by
  unfold lookup
  constructor
  · intro hlookup
    split at hlookup
    · cases hlookup
    · rename_i c hlocate
      split at hlookup
      · cases hlookup
      · rename_i m hnode
        obtain ⟨rfl, rfl⟩ := Prod.mk.inj (Except.ok.inj hlookup)
        exact ⟨hlocate, hnode⟩
  · rintro ⟨hlocate, hn⟩
    rw [hlocate]
    dsimp only
    rw [hn]

/-- The bytes of two texts are counted one after the other. -/
theorem byteLength_append (s u : Text) : byteLength (s ++ u) = byteLength s + byteLength u := by
  induction s with
  | nil => exact (Nat.zero_add _).symm
  | cons c s ih => rw [List.cons_append, byteLength, byteLength, ih, Nat.add_assoc]

/-- A path is no longer than the path of an entry below it. -/
theorem byteLength_le_push (p : Path) (name : Text) (hslash : '/' ∉ name) :
    byteLength p.text ≤ byteLength (p.push name).text := by
  rw [Path.push_eq p hslash, byteLength_append]
  unfold Path.lead
  split
  · omega
  · rw [byteLength_append]
    omega

/-- A path below another one is no shorter. -/
theorem byteLength_le_descend (p : Path) (hnames : ∀ name ∈ names, Path.IsName name) :
    byteLength p.text ≤ byteLength (p.descend names).text := by
  induction names generalizing p with
  | nil => exact Nat.le_refl _
  | cons name names ih =>
    exact Nat.le_trans (byteLength_le_push p name (hnames name (by simp)).slash)
      (ih (p.push name) fun n hn => hnames n (by simp [hn]))

/-- A path below another one is not empty. -/
theorem descend_text_ne_nil (hroot : root.text ≠ []) (hnames : ∀ name ∈ names, Path.IsName name) :
    (root.descend names).text ≠ [] := by
  intro heq
  have hle := byteLength_le_descend root hnames
  have hpos := length_le_byteLength root.text
  have hlength := List.length_pos_of_ne_nil hroot
  rw [heq] at hle
  have hzero : byteLength [] = 0 := rfl
  omega

/-- The characters of a path below another one are those of that path and of the names. -/
theorem mem_descend_text {c : Char} (hc : c ≠ '/') (hnames : ∀ name ∈ names, Path.IsName name) :
    c ∈ (root.descend names).text ↔ c ∈ root.text ∨ ∃ name ∈ names, c ∈ name := by
  induction names generalizing root with
  | nil => simp [Path.descend]
  | cons name names ih =>
    have hlead : c ∈ root.lead ↔ c ∈ root.text := by
      unfold Path.lead
      split <;> simp [hc]
    have hrest : c ∈ ((root.push name).descend names).text ↔
        c ∈ (root.push name).text ∨ ∃ n ∈ names, c ∈ n := ih fun n hn => hnames n (by simp [hn])
    rw [Path.push_eq root (hnames name (by simp)).slash, List.mem_append, hlead, or_assoc] at hrest
    simpa [Path.descend, Path.push_eq root (hnames name (by simp)).slash] using hrest

/-- The way to an entry below a root goes on from the root, if its path is short enough. -/
theorem locate_descend (h : t.WellFormed) (hroot : t.lookup root = .ok (a, .directory))
    (hmode : mode.missing = .none) (hnames : ∀ name ∈ names, ValidName name) :
    t.locate mode (root.descend names) =
      if byteLength (root.descend names).text < maxPath then goWith t mode (t.go mode 39) a names
      else .error .nameTooLong := by
  obtain ⟨hnul, _, hempty, hway⟩ := locate_eq_ok.1 (lookup_eq_ok.1 hroot).1
  have hplain : ∀ name ∈ names, Path.IsName name := fun name hname => (hnames name hname).toIsName
  have hadmits : ∀ rest rest', mode.admits rest = mode.admits rest' := fun rest rest' =>
    (Mode.admits_eq_false hmode rest).trans (Mode.admits_eq_false hmode rest').symm
  have hway' : goWith t mode (t.go mode 39) [] (root.text.splitOn '/') = .ok a :=
    (goWith_congr h.link hmode _ _).trans hway
  have hbelow : t.go mode maxLinks [] ((root.descend names).text.splitOn '/') =
      goWith t mode (t.go mode 39) a names := by
    have hdescend : goWith t mode (t.go mode 39) [] ((root.descend names).text.splitOn '/') =
        (goWith t mode (t.go mode 39) [] (root.text.splitOn '/')).bind fun b =>
          goWith t mode (t.go mode 39) b names :=
      goWith_descend h.link hadmits hplain [] hempty
    refine hdescend.trans ?_
    rw [hway']
    rfl
  have hnul' : Char.ofNat 0 ∉ (root.descend names).text := by
    rw [mem_descend_text (by decide) hplain]
    rintro (hmem | ⟨name, hname, hmem⟩)
    · exact hnul hmem
    · exact (hnames name hname).nul hmem
  have hempty' := descend_text_ne_nil hempty hplain
  unfold locate
  by_cases hshort : byteLength (root.descend names).text < maxPath
  · simp [hnul', hempty', hbelow, hshort, Nat.not_le.2 hshort]
  · simp [hnul', hshort, Nat.le_of_not_lt hshort]

/-- An entry below a root is found under its address if its path is short enough. -/
theorem locate_descend_eq_ok (h : t.WellFormed) (hroot : t.lookup root = .ok (a, .directory))
    (hmode : mode.missing = .none) (hnames : ∀ name ∈ names, ValidName name) :
    t.locate mode (root.descend names) = .ok b ↔
      byteLength (root.descend names).text < maxPath ∧ b = names.reverse ++ a ∧
        ∃ n, t.node? b = some n := by
  have ha := (lookup_eq_ok.1 hroot).2
  rw [locate_descend h hroot hmode hnames]
  by_cases hshort : byteLength (root.descend names).text < maxPath
  · rw [if_pos hshort, goWith_names_eq_ok h hmode hnames ha]
    exact (and_iff_right hshort).symm
  · rw [if_neg hshort]
    exact iff_of_false (fun hb => (nomatch hb)) fun hb => hshort hb.1

/-- Below a directory, valid names lead to the entry at their address, if the path is not too long.
-/
theorem lookup_descend_eq_ok (h : t.WellFormed) (hroot : t.lookup root = .ok (a, .directory))
    (hnames : ∀ name ∈ names, ValidName name) :
    t.lookup (root.descend names) = .ok (b, n) ↔
      byteLength (root.descend names).text < maxPath ∧ b = names.reverse ++ a ∧
        t.node? b = some n := by
  rw [lookup_eq_ok, locate_descend_eq_ok h hroot rfl hnames]
  constructor
  · rintro ⟨⟨hshort, hb, _⟩, hn⟩
    exact ⟨hshort, hb, hn⟩
  · rintro ⟨hshort, hb, hn⟩
    exact ⟨⟨hshort, hb, n, hn⟩, hn⟩

/-- A path is one of a file if it leads to some bytes. -/
theorem isFile_eq_true : t.isFile p = true ↔ ∃ b bytes, t.lookup p = .ok (b, .file bytes) := by
  unfold isFile
  cases t.lookup p with
  | error reason => simp
  | ok found =>
    obtain ⟨b, n⟩ := found
    cases n <;> simp

/-- A path is one of a directory if it leads to one. -/
theorem isDirectory_eq_true :
    t.isDirectory root = true ↔ ∃ a, t.lookup root = .ok (a, .directory) := by
  unfold isDirectory
  cases t.lookup root with
  | error reason => simp
  | ok found =>
    obtain ⟨b, n⟩ := found
    cases n <;> simp

/-- A directory is no file. -/
theorem names_ne_nil_of_isFile (hroot : t.lookup root = .ok (a, .directory))
    (hfile : t.isFile (root.descend names) = true) : names ≠ [] := by
  rintro rfl
  obtain ⟨b, bytes, hlookup⟩ := isFile_eq_true.1 hfile
  have hsame : Except.ok (a, Node.directory) = Except.ok (b, Node.file bytes) :=
    hroot.symm.trans hlookup
  cases hsame

/-- A `..` at the end leads to no file. -/
theorem isFile_push_up (h : t.WellFormed) (hp : p.text ≠ []) :
    t.isFile (p.push ['.', '.']) = false := by
  apply Bool.eq_false_iff.2
  intro hfile
  obtain ⟨b, bytes, hlookup⟩ := isFile_eq_true.1 hfile
  obtain ⟨hlocate, hb⟩ := lookup_eq_ok.1 hlookup
  have hway :
      goWith t .follow (t.go .follow 39) [] ((p.push ['.', '.']).text.splitOn '/') = .ok b :=
    (locate_eq_ok.1 hlocate).2.2.2
  rw [goWith_push h.link (fun _ _ => rfl) hp (by decide)] at hway
  cases hc : goWith t .follow (t.go .follow 39) [] (p.text.splitOn '/') with
  | error reason => rw [hc] at hway; cases hway
  | ok c =>
    obtain ⟨n, hn⟩ := exists_of_goWith h rfl ⟨_, node?_nil t⟩ hc
    simp only [hc, Except.bind, goWith_cons h.link, advance, hn] at hway
    cases n with
    | file old => cases hway
    | link target => exact h.link c target hn
    | directory =>
      obtain rfl : c.tail = b := by simpa [goWith] using hway
      cases c with
      | nil => simp at hb
      | cons name above =>
        rw [List.tail_cons, h.above name above _ hn] at hb
        cases hb

/-- The names that lead from a directory to a file are valid. -/
theorem validName_of_isFile (h : t.WellFormed) (hroot : t.lookup root = .ok (a, .directory))
    (hnames : ∀ name ∈ names, Path.IsName name) (hfile : t.isFile (root.descend names) = true) :
    ∀ name ∈ names, ValidName name := by
  obtain ⟨b, bytes, hlookup⟩ := isFile_eq_true.1 hfile
  obtain ⟨_, _, _, hway⟩ := locate_eq_ok.1 (lookup_eq_ok.1 hlookup).1
  obtain ⟨_, _, hempty, hbase⟩ := locate_eq_ok.1 (lookup_eq_ok.1 hroot).1
  have hbelow : goWith t .follow (t.go .follow 39) a names = .ok b := by
    have hdescend : goWith t .follow (t.go .follow 39) [] ((root.descend names).text.splitOn '/') =
        (goWith t .follow (t.go .follow 39) [] (root.text.splitOn '/')).bind fun b =>
          goWith t .follow (t.go .follow 39) b names :=
      goWith_descend h.link (fun _ _ => rfl) hnames [] hempty
    have hbase' : goWith t .follow (t.go .follow 39) [] (root.text.splitOn '/') = .ok a := hbase
    rw [hbase'] at hdescend
    exact hdescend.symm.trans hway
  exact validName_of_goWith h rfl hnames hbelow

/-- A path below a root leads to a file if a file has its address and the path is short enough. -/
theorem isFile_descend (h : t.WellFormed) (hroot : t.lookup root = .ok (a, .directory))
    (hnames : ∀ name ∈ names, ValidName name) :
    t.isFile (root.descend names) = true ↔
      byteLength (root.descend names).text < maxPath ∧
        ∃ bytes, t.node? (names.reverse ++ a) = some (.file bytes) := by
  rw [isFile_eq_true]
  constructor
  · rintro ⟨b, bytes, hfound⟩
    obtain ⟨hshort, rfl, hn⟩ := (lookup_descend_eq_ok h hroot hnames).1 hfound
    exact ⟨hshort, bytes, hn⟩
  · rintro ⟨hshort, bytes, hn⟩
    exact ⟨_, bytes, (lookup_descend_eq_ok h hroot hnames).2 ⟨hshort, rfl, hn⟩⟩

/-- What is read from a file below a directory, or why it cannot be read. -/
theorem read_descend (h : t.WellFormed) (hroot : t.lookup root = .ok (a, .directory))
    (hnames : ∀ name ∈ names, ValidName name) {bytes : List UInt8}
    (hfile : t.node? (names.reverse ++ a) = some (.file bytes)) :
    t.read (root.descend names) =
      if t.isDenied (root.descend names) then .error .denied
      else if byteLength (root.descend names).text < maxPath then .ok (Utf8.decode bytes)
      else .error .nameTooLong := by
  unfold read
  by_cases hdenied : t.isDenied (root.descend names) = true
  · rw [if_pos hdenied, if_pos hdenied]
  · rw [if_neg hdenied, if_neg hdenied]
    by_cases hshort : byteLength (root.descend names).text < maxPath
    · rw [if_pos hshort, (lookup_descend_eq_ok h hroot hnames).2 ⟨hshort, rfl, hfile⟩]
    · have herror : t.lookup (root.descend names) = .error .nameTooLong := by
        rw [lookup, locate_descend h hroot rfl hnames, if_neg hshort]
      rw [if_neg hshort, herror]

/-- A root that is a directory stays one as long as the directories stay. -/
theorem lookup_directory (h : t.WellFormed) (h' : t'.WellFormed)
    (hdirectories : ∀ b, t.node? b = some .directory → t'.node? b = some .directory)
    (hroot : t.lookup root = .ok (a, .directory)) : t'.lookup root = .ok (a, .directory) := by
  obtain ⟨hlocate, ha⟩ := lookup_eq_ok.1 hroot
  obtain ⟨hnul, hshort, hempty, hway⟩ := locate_eq_ok.1 hlocate
  refine lookup_eq_ok.2 ⟨locate_eq_ok.2 ⟨hnul, hshort, hempty, ?_⟩, hdirectories a ha⟩
  exact goWith_directory h h' rfl hdirectories (node?_nil t) ha hway

end Lookup

end FirmwareIndex.Tree
