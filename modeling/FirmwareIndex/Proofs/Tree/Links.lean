import FirmwareIndex.Path.Absolute
import FirmwareIndex.Proofs.Path.Sibling
import FirmwareIndex.Proofs.Tree.Walk

/-!
# Ways through trees with links

What is said here holds of every tree, also of one with links. A way that leads to a file does not
end in a silent piece (`Tree.trimmed_of_isFile`), and where it leads depends on the pieces that are
not silent alone (`Tree.lookup_eq_of_same`). It depends on the tree only by its entries, whatever
bytes its files have (`Tree.go_congr`).
-/

set_option autoImplicit false

namespace FirmwareIndex

namespace Path

/-- The piece that a component stands for, if it is not where a path starts. -/
def pieceOf : Component → Option Text
  | .root => none
  | .here => none
  | .up => some ['.', '.']
  | .name t => some t

/-- A piece that stands for a component is the piece of this component. -/
theorem pieceOf_eq_some {piece : Text} {c : Component} (h : Component.ofPiece? piece = some c) :
    pieceOf c = some piece := by
  unfold Component.ofPiece? at h
  split at h
  · cases h
  · cases h
  · obtain rfl := Option.some.inj h
    rfl
  · obtain rfl := Option.some.inj h
    rfl

/-- The steps of a path are the pieces of its components. -/
theorem filterMap_components (p : Path) : p.components.filterMap pieceOf = p.steps := by
  have hpieces : ∀ pieces : List Text, (pieces.filterMap Component.ofPiece?).filterMap pieceOf =
      pieces.filter fun piece => (Component.ofPiece? piece).isSome := by
    intro pieces
    induction pieces with
    | nil => rfl
    | cons piece rest ih =>
      cases hpiece : Component.ofPiece? piece with
      | none => simp [hpiece, ih]
      | some c => simp [hpiece, ih, pieceOf_eq_some hpiece]
  have hstart : ∀ piece : Text, (startOf piece).filterMap pieceOf =
      [piece].filter fun piece => (Component.ofPiece? piece).isSome := by
    intro piece
    by_cases hnil : piece = []
    · rw [hnil]
      rfl
    by_cases hdot : piece = ['.']
    · rw [hdot]
      rfl
    rw [startOf_eq hnil hdot, ← hpieces]
    cases hpiece : Component.ofPiece? piece <;> simp [hpiece]
  rw [components_eq_ofPieces, steps]
  unfold ofPieces
  split
  · rename_i heq
    rw [heq]
    rfl
  · rename_i heq
    rw [heq]
    rfl
  · rename_i first rest _ heq
    rw [heq, List.filterMap_append, hpieces, hstart, ← List.filter_append]
    rfl

/-- Paths that are the same place take the same steps. -/
theorem steps_congr {p q : Path} (h : p.Same q) : p.steps = q.steps := by
  have hkey : p.components = q.components := h
  rw [← filterMap_components, ← filterMap_components, hkey]

end Path

/-- The entry without the bytes of a file. -/
def Node.blank : Node → Node
  | .file _ => .file []
  | n => n

/-- Entries that are alike without the bytes of files are equal, or both are files. -/
theorem Node.eq_or_file {n n' : Option Node} (h : n'.map blank = n.map blank) :
    n' = n ∨ ∃ old new, n = some (.file old) ∧ n' = some (.file new) := by
  rcases n with _ | (old | _ | target) <;> rcases n' with _ | (new | _ | target') <;>
    simp_all [blank]

namespace Tree

/-- Where one piece of a way leads that follows all links. -/
inductive Turn where
  | move (a : Address)
  /-- The way goes on from an address with the pieces of a link. -/
  | jump (a : Address) (pieces : List Text)

/-- Where one piece of a way leads from an address, when a missing entry may be gone through or
not. -/
def turn (t : Tree) (admitted : Bool) (a : Address) (piece : Text) : Except ReadError Turn :=
  match t.node? a with
  | some (.file _) | some (.link _) => .error .notDirectory
  | none | some .directory =>
    if piece = [] || piece = ['.'] then .ok (.move a)
    else if piece = ['.', '.'] then .ok (.move a.tail)
    else if maxName < byteLength piece then .error .nameTooLong
    else
      match t.node? (piece :: a) with
      | none => if admitted then .ok (.move (piece :: a)) else .error .noEntry
      | some (.link target) =>
        .ok (.jump (if target.head? = some '/' then [] else a) (target.splitOn '/'))
      | some _ => .ok (.move (piece :: a))

section Ways

variable {t t' : Tree} {mode : Mode} {jump jump' : Address → List Text → Except ReadError Address}
  {a b : Address} {piece : Text} {pieces rest : List Text} {links : Nat} {x : Turn}

/-- The end of a way whose first piece leads somewhere and which has further pieces. -/
def Turn.goOn (t : Tree) (mode : Mode) (jump : Address → List Text → Except ReadError Address)
    (rest : List Text) : Turn → Except ReadError Address
  | .move b => goWith t mode jump b rest
  | .jump b pieces => jump b (pieces ++ rest)

/-- A way that follows all links goes on where its first piece leads. -/
theorem goWith_cons_eq_bind (hmode : mode.followLast = true) :
    goWith t mode jump a (piece :: rest) =
      (t.turn (mode.admits rest) a piece).bind (Turn.goOn t mode jump rest) := by
  rw [goWith, turn]
  rcases hnode : t.node? a with _ | (bytes | _ | target)
  case some.file | some.link => rfl
  all_goals
    dsimp only
    split
    · rfl
    · split
      · rfl
      · split
        · rfl
        · rcases hnext : t.node? (piece :: a) with _ | (bytes | _ | target)
          · cases mode.admits rest <;> rfl
          · rfl
          · rfl
          · simp [hmode, Except.bind, Turn.goOn]

/-- A way leads to where its first piece and then the others lead. -/
theorem goWith_cons_eq_ok (hmode : mode.followLast = true) :
    goWith t mode jump a (piece :: rest) = .ok b ↔
      ∃ x, t.turn (mode.admits rest) a piece = .ok x ∧ x.goOn t mode jump rest = .ok b := by
  rw [goWith_cons_eq_bind hmode]
  cases t.turn (mode.admits rest) a piece with
  | error reason => simp [Except.bind]
  | ok x => simp [Except.bind]

/-- What holds of a way that follows no link, and of one more link whenever it holds of some, holds
of a way with any number of links. -/
theorem go_induction {P : (Address → List Text → Except ReadError Address) → Prop}
    (hnone : P fun _ _ => .error .tooManyLinks) (hstep : ∀ jump, P jump → P (goWith t .follow jump))
    (links : Nat) : P (t.go .follow links) := by
  induction links with
  | zero => exact hstep _ hnone
  | succ links ih => exact hstep _ ih

/-- A silent piece leads nowhere else, and does not go through a file. -/
theorem turn_silent {admitted : Bool} (hpiece : Component.ofPiece? piece = none)
    (h : t.turn admitted a piece = .ok x) :
    x = .move a ∧ ∀ bytes, t.node? a ≠ some (.file bytes) := by
  have hsilent : piece = [] ∨ piece = ['.'] := by
    unfold Component.ofPiece? at hpiece
    split at hpiece
    · exact .inl rfl
    · exact .inr rfl
    · cases hpiece
    · cases hpiece
  have hcond : (piece = [] || piece = ['.']) = true := by simpa using hsilent
  unfold turn at h
  split at h
  · cases h
  · cases h
  · rename_i hnode
    rw [if_pos hcond] at h
    exact ⟨(Except.ok.inj h).symm, by simp [hnode]⟩
  · rename_i hnode
    rw [if_pos hcond] at h
    exact ⟨(Except.ok.inj h).symm, by simp [hnode]⟩

/-- A way that ends in a silent piece does not lead to a file. -/
theorem go_concat_silent (hpiece : Component.ofPiece? piece = none)
    (h : t.go .follow links a (pieces ++ [piece]) = .ok b) (bytes : List UInt8) :
    t.node? b ≠ some (.file bytes) := by
  refine go_induction (t := t) (P := fun jump => ∀ a pieces b,
    jump a (pieces ++ [piece]) = .ok b → t.node? b ≠ some (.file bytes))
    (fun _ _ _ h => by cases h) (fun jump hjump a pieces b h => ?_) links a pieces b h
  induction pieces generalizing a with
  | nil =>
    obtain ⟨x, hx, hb⟩ := (goWith_cons_eq_ok rfl).1 h
    obtain ⟨rfl, ha⟩ := turn_silent hpiece hx
    obtain rfl : a = b := Except.ok.inj hb
    exact ha bytes
  | cons first rest ih =>
    rw [List.cons_append] at h
    obtain ⟨x, _, hb⟩ := (goWith_cons_eq_ok rfl).1 h
    cases x with
    | move c => exact ih c hb
    | jump c target =>
      rw [Turn.goOn, ← List.append_assoc] at hb
      exact hjump c _ b hb

/-- A way leads to the same end without its silent pieces. -/
theorem go_filter (h : t.go .follow links a pieces = .ok b) :
    t.go .follow links a (pieces.filter fun piece => (Component.ofPiece? piece).isSome) =
      .ok b := by
  let loud := fun piece : Text => (Component.ofPiece? piece).isSome
  -- what comes from a link keeps its silent pieces, so some pieces stand in front
  refine go_induction (t := t) (P := fun jump => ∀ a front rest b,
    jump a (front ++ rest) = .ok b → jump a (front ++ rest.filter loud) = .ok b)
    (fun _ _ _ _ h => by cases h) (fun jump hjump a front rest b h => ?_) links a [] pieces b h
  induction front generalizing a with
  | nil =>
    rw [List.nil_append] at h ⊢
    induction rest generalizing a with
    | nil => exact h
    | cons piece rest ih =>
      obtain ⟨x, hx, hb⟩ := (goWith_cons_eq_ok rfl).1 h
      cases hpiece : Component.ofPiece? piece with
      | none =>
        obtain ⟨rfl, _⟩ := turn_silent hpiece hx
        rw [List.filter_cons_of_neg (by simp [loud, hpiece])]
        exact ih a hb
      | some c =>
        rw [List.filter_cons_of_pos (by simp [loud, hpiece])]
        refine (goWith_cons_eq_ok rfl).2 ⟨x, hx, ?_⟩
        cases x with
        | move c => exact ih c hb
        | jump c target => exact hjump c target rest b hb
  | cons piece front ih =>
    rw [List.cons_append] at h ⊢
    obtain ⟨x, hx, hb⟩ := (goWith_cons_eq_ok rfl).1 h
    refine (goWith_cons_eq_ok rfl).2 ⟨x, hx, ?_⟩
    cases x with
    | move c => exact ih c hb
    | jump c target =>
      rw [Turn.goOn, ← List.append_assoc] at hb ⊢
      exact hjump c _ rest b hb

/-- A way through entries that are there is also a way that may go through missing ones. -/
theorem go_make_of_follow (h : t.go .follow links a pieces = .ok b) :
    t.go .make links a pieces = .ok b := by
  have hturn : ∀ {a piece x}, t.turn false a piece = .ok x → t.turn true a piece = .ok x := by
    intro a piece x hx
    unfold turn at hx ⊢
    rcases hnode : t.node? a with _ | (bytes | _ | target) <;> simp only [hnode] at hx ⊢
    case some.file | some.link => cases hx
    all_goals
      split at hx
      · simp_all
      · split at hx
        · simp_all
        · split at hx
          · cases hx
          · rcases hnext : t.node? (piece :: a) with _ | (bytes | _ | target) <;> simp_all
  have hway : ∀ jump jump' : Address → List Text → Except ReadError Address,
      (∀ a pieces b, jump a pieces = .ok b → jump' a pieces = .ok b) →
      ∀ a pieces b, goWith t .follow jump a pieces = .ok b →
        goWith t .make jump' a pieces = .ok b := by
    intro jump jump' hjump a pieces b h
    induction pieces generalizing a with
    | nil => exact h
    | cons piece rest ih =>
      obtain ⟨x, hx, hb⟩ := (goWith_cons_eq_ok rfl).1 h
      refine (goWith_cons_eq_ok rfl).2 ⟨x, hturn hx, ?_⟩
      cases x with
      | move c => exact ih c hb
      | jump c target => exact hjump c _ b hb
  induction links generalizing a b pieces with
  | zero => exact hway _ _ (fun _ _ _ h => by cases h) a pieces b h
  | succ links ih => exact hway _ _ (fun _ _ _ h => ih h) a pieces b h

/-- All that is above an address is a directory. -/
def Stands (t : Tree) (a : Address) : Prop :=
  ∀ b, b <:+ a.tail → t.node? b = some .directory

/-- Nothing is above the root. -/
theorem stands_nil (t : Tree) : t.Stands [] := by
  intro b hb
  rw [List.suffix_nil.1 hb, node?_nil]

/-- What is above a directory is above its entries. -/
theorem Stands.tail (h : t.Stands a) : t.Stands a.tail :=
  fun b hb => h b (hb.trans (List.tail_suffix _))

/-- What is entered by its name from a directory stands below directories. -/
theorem Stands.cons (h : t.Stands a) (ha : t.node? a = some .directory) (name : Text) :
    t.Stands (name :: a) := by
  intro b hb
  cases a with
  | nil =>
    rw [List.suffix_nil.1 hb, node?_nil]
  | cons first above =>
    rcases List.suffix_cons_iff.1 hb with rfl | hb
    · exact ha
    · exact h b hb

/-- The address from which a way goes on. -/
def Turn.address : Turn → Address
  | .move a => a
  | .jump a _ => a

/-- From an entry below directories a way goes on from another such entry. -/
theorem Stands.address (h : t.Stands a) (hentry : (t.node? a).isSome)
    (hx : t.turn false a piece = .ok x) :
    t.Stands x.address ∧ (t.node? x.address).isSome := by
  have hdirectory : t.node? a = some .directory := by
    unfold turn at hx
    rcases hnode : t.node? a with _ | (bytes | _ | target) <;> simp_all
  have htail : t.node? a.tail = some .directory := h a.tail (List.suffix_refl _)
  unfold turn at hx
  simp only [hdirectory] at hx
  split at hx
  · obtain rfl := Except.ok.inj hx
    exact ⟨h, hentry⟩
  · split at hx
    · obtain rfl := Except.ok.inj hx
      exact ⟨h.tail, by simp [Turn.address, htail]⟩
    · split at hx
      · cases hx
      · split at hx
        · cases hx
        · obtain rfl := Except.ok.inj hx
          rw [Turn.address]
          split
          · exact ⟨t.stands_nil, by rw [node?_nil]; rfl⟩
          · exact ⟨h, hentry⟩
        · rename_i n _ hnext
          obtain rfl := Except.ok.inj hx
          exact ⟨h.cons hdirectory piece, by simp [Turn.address, hnext]⟩

/-- A way through entries that are there leads to an entry below directories. -/
theorem Stands.go (h : t.Stands a) (hentry : (t.node? a).isSome)
    (hb : t.go .follow links a pieces = .ok b) : t.Stands b ∧ (t.node? b).isSome := by
  refine go_induction (t := t) (P := fun jump => ∀ a pieces b,
    t.Stands a → (t.node? a).isSome → jump a pieces = .ok b → t.Stands b ∧ (t.node? b).isSome)
    (fun _ _ _ _ _ h => by cases h) (fun jump hjump a pieces b h hentry hb => ?_)
    links a pieces b h hentry hb
  induction pieces generalizing a with
  | nil => exact Except.ok.inj hb ▸ ⟨h, hentry⟩
  | cons piece rest ih =>
    obtain ⟨x, hx, hb⟩ := (goWith_cons_eq_ok rfl).1 hb
    obtain ⟨hstands, hsome⟩ := h.address hentry hx
    cases x with
    | move c => exact ih c hstands hsome hb
    | jump c target => exact hjump c _ b hstands hsome hb

/-- Where a piece leads does not depend on the bytes of files. -/
theorem turn_congr (hblank : ∀ b, (t'.node? b).map Node.blank = (t.node? b).map Node.blank)
    (admitted : Bool) (a : Address) (piece : Text) :
    t'.turn admitted a piece = t.turn admitted a piece := by
  have halike : ∀ c, t'.node? c = t.node? c ∨
      ∃ old new, t.node? c = some (.file old) ∧ t'.node? c = some (.file new) :=
    fun c => Node.eq_or_file (hblank c)
  rcases halike a with hhere | ⟨old, new, hold, hnew⟩
  · rcases halike (piece :: a) with hnext | ⟨old, new, hold, hnew⟩
    · rw [turn, turn, hhere, hnext]
    · rw [turn, turn, hhere, hold, hnew]
  · rw [turn, turn, hold, hnew]

/-- Ways do not depend on the bytes of files. -/
theorem go_congr (hblank : ∀ b, (t'.node? b).map Node.blank = (t.node? b).map Node.blank)
    (links : Nat) : t'.go .follow links = t.go .follow links := by
  have hway : ∀ jump, goWith t' .follow jump = goWith t .follow jump := by
    intro jump
    funext a pieces
    induction pieces generalizing a with
    | nil => rfl
    | cons piece rest ih =>
      rw [goWith_cons_eq_bind rfl, goWith_cons_eq_bind rfl, turn_congr hblank]
      cases t.turn (Mode.follow.admits rest) a piece with
      | error reason => rfl
      | ok x =>
        cases x with
        | move c => exact ih c
        | jump c target => rfl
  induction links with
  | zero => exact hway _
  | succ links ih => rw [Tree.go, Tree.go, ih, hway]

end Ways

section Files

variable {t : Tree} {p q : Path} {a b : Address} {old bytes : List UInt8}

/-- The way of a path that is looked up leads to its entry. -/
theorem go_of_lookup {n : Node} (h : t.lookup p = .ok (a, n)) :
    p.text ≠ [] ∧ t.go .follow maxLinks [] (p.text.splitOn '/') = .ok a ∧ t.node? a = some n := by
  obtain ⟨hlocate, hnode⟩ := lookup_eq_ok.1 h
  obtain ⟨_, _, hempty, hway⟩ := locate_eq_ok.1 hlocate
  exact ⟨hempty, hway, hnode⟩

/-- Nothing follows the name of a file. -/
theorem trimmed_of_isFile (h : t.isFile p = true) : p.trimmed = p.text := by
  obtain ⟨b, bytes, hlookup⟩ := isFile_eq_true.1 h
  obtain ⟨hempty, hway, hnode⟩ := go_of_lookup hlookup
  refine (Path.trimmed_eq_or hempty).resolve_right ?_
  rintro ⟨pieces, piece, hsplit, hpiece⟩
  rw [hsplit] at hway
  exact go_concat_silent hpiece hway bytes hnode

/-- Paths that are the same place lead to one entry, if both are short enough to lead to one. -/
theorem lookup_eq_of_same (h : p.Same q) {n m : Node} (hp : t.lookup p = .ok (a, n))
    (hq : t.lookup q = .ok (b, m)) : t.lookup p = t.lookup q := by
  obtain ⟨_, hway, hnode⟩ := go_of_lookup hp
  obtain ⟨_, hway', hnode'⟩ := go_of_lookup hq
  have hsteps := go_filter hway
  rw [← Path.steps, Path.steps_congr h] at hsteps
  obtain rfl : a = b := Except.ok.inj (hsteps.symm.trans (go_filter hway'))
  obtain rfl := Option.some.inj (hnode.symm.trans hnode')
  rw [hp, hq]

/-- What can be read is the text of a file that the path leads to. -/
theorem exists_lookup_of_read {text : Text} (h : t.read p = .ok text) :
    ∃ a bytes, t.lookup p = .ok (a, .file bytes) ∧ text = Utf8.decode bytes := by
  unfold read at h
  split at h
  · cases h
  · split at h
    · cases h
    · rename_i a bytes hlookup
      exact ⟨a, bytes, hlookup, (Except.ok.inj h).symm⟩
    · cases h

/-- Paths that are the same place have one text, if both are short enough to lead to a file. -/
theorem eq_of_read_of_same (h : p.Same q) {text text' : Text} (hp : t.read p = .ok text)
    (hq : t.read q = .ok text') : text = text' := by
  obtain ⟨a, bytes, hlookup, rfl⟩ := exists_lookup_of_read hp
  obtain ⟨b, bytes', hlookup', rfl⟩ := exists_lookup_of_read hq
  have heq := lookup_eq_of_same h hlookup hlookup'
  rw [hlookup, hlookup'] at heq
  cases heq
  rfl

/-- A path that can be read leads to the text of any file that is the same place. -/
theorem read_of_same (h : p.Same q) {text : Text} (hp : t.read p = .ok text)
    (hq : t.lookup q = .ok (a, .file bytes)) : t.read q = .ok (Utf8.decode bytes) := by
  have hkey : p.components = q.components := h
  have hallowed : t.isDenied q = false := by
    rw [isDenied, ← hkey]
    refine Bool.eq_false_iff.2 fun hdenied => ?_
    have herror : t.read p = .error .denied := if_pos hdenied
    rw [herror] at hp
    cases hp
  rw [read, hallowed, hq]
  rfl

end Files

end Tree

end FirmwareIndex
