import FirmwareIndex.Proofs.Platform.Components
import Mathlib.Data.List.Induction

/-!
# Headers with unknown names

A header is noted once for each of its names that is no section, in whatever case the name is
repeated (`Qualifier.represents_unknown`). Whatever its names are, a header adds its problems after
those that were there (`Visit.problems_header`), and apart from its problems it closes the block that
is open and sets the section (`Reading.unnoted_header`). With an unknown name no section is active
after it (`Active.ofHeader?_of_namesUnknown`).
-/

set_option autoImplicit false

namespace FirmwareIndex

namespace Qualifier

/-- Some of the bases stand for all of them: no two are the same name, and each base is the same
name as one of them. -/
structure Represents (names bases : List Text) : Prop where
  sublist : names.Sublist bases
  distinct : names.Pairwise fun a b => ¬ Text.sameName a b
  complete : ∀ base ∈ bases, ∃ name ∈ names, Text.sameName name base

/-- A name is left out if it is there in some case of its letters, and comes last otherwise. -/
theorem addName_cases (names : List Text) (name : Text) :
    ((∃ other ∈ names, Text.sameName other name) ∧ addName names name = names) ∨
      ((∀ other ∈ names, ¬ Text.sameName other name) ∧ addName names name = names ++ [name]) := by
  unfold addName
  split
  · rename_i hany
    exact .inl ⟨List.any_eq_true.1 hany, rfl⟩
  · rename_i hany
    exact .inr ⟨by simpa using hany, rfl⟩

/-- Adding names one after the other keeps the first of those that are the same. -/
theorem represents_foldl_addName (bases : List Text) : Represents (bases.foldl addName []) bases := by
  induction bases using List.reverseRecOn with
  | nil => exact ⟨.slnil, .nil, by simp⟩
  | append_singleton bases base ih =>
    rw [List.foldl_append, List.foldl_cons, List.foldl_nil]
    rcases addName_cases (bases.foldl addName []) base with ⟨hknown, heq⟩ | ⟨hnew, heq⟩
    · rw [heq]
      exact ⟨ih.sublist.trans (List.sublist_append_left _ _), ih.distinct,
        List.forall_mem_append.2 ⟨ih.complete, List.forall_mem_singleton.2 hknown⟩⟩
    · rw [heq]
      refine ⟨ih.sublist.append_right [base], ?_, ?_⟩
      · exact List.pairwise_append.2 ⟨ih.distinct, List.pairwise_singleton _ _,
          fun other hother => List.forall_mem_singleton.2 (hnew other hother)⟩
      · refine List.forall_mem_append.2 ⟨fun other hother => ?_, ?_⟩
        · obtain ⟨name, hname, hsame⟩ := ih.complete other hother
          exact ⟨name, List.mem_append_left _ hname, hsame⟩
        · exact List.forall_mem_singleton.2 ⟨base, by simp, by simp [Text.sameName]⟩

/-- Bases that are all the same name are represented by one of them. -/
theorem Represents.length_eq_one {names bases : List Text} (h : Represents names bases)
    (hne : bases ≠ []) (hsame : ∀ a ∈ bases, ∀ b ∈ bases, Text.sameName a b) :
    names.length = 1 := by
  obtain ⟨base, hbase⟩ := List.exists_mem_of_ne_nil bases hne
  obtain ⟨name, hname, _⟩ := h.complete base hbase
  match names, h with
  | [], _ => cases hname
  | [_], _ => rfl
  | first :: second :: rest, h =>
    have hdistinct : ¬ Text.sameName first second :=
      (List.pairwise_cons.1 h.distinct).1 second (by simp)
    exact absurd (hsame first (h.sublist.subset (by simp)) second (h.sublist.subset (by simp)))
      hdistinct

/-- The bases of qualifiers that are no sections. -/
def unknownBases (qualifiers : List Qualifier) : List Text :=
  (qualifiers.map base).filter fun base => (SectionName.ofText? base).isNone

/-- The unknown names that are noted stand for all unknown bases. -/
theorem represents_unknown (qualifiers : List Qualifier) :
    Represents (unknown qualifiers) (unknownBases qualifiers) :=
  represents_foldl_addName _

/-- Where a base is unknown, an unknown name is noted. -/
theorem unknown_ne_nil {qualifiers : List Qualifier} (h : unknownBases qualifiers ≠ []) :
    unknown qualifiers ≠ [] := by
  obtain ⟨base, hbase⟩ := List.exists_mem_of_ne_nil _ h
  obtain ⟨name, hname, _⟩ := (represents_unknown qualifiers).complete base hbase
  exact List.ne_nil_of_mem hname

end Qualifier

namespace Header

/-- The qualifiers of a header of a platform description. -/
def qualifiers (line : Text) : List Qualifier :=
  Qualifier.ofBody (Text.trim (body line))

/-- The header has no name, and nothing else either. -/
def IsEmpty (line : Text) : Prop :=
  Text.trim (body line) = []

instance (line : Text) : Decidable (IsEmpty line) :=
  inferInstanceAs (Decidable (_ = _))

/-- The names in the qualifiers of a header that are no sections. -/
def unknownBases (line : Text) : List Text :=
  Qualifier.unknownBases (qualifiers line)

end Header

/-- A header with an unknown name opens no section. -/
theorem Active.ofHeader?_of_unknown {line : Text} (h : Header.unknownBases line ≠ []) :
    Active.ofHeader? line = none := by
  have hunknown : Qualifier.unknown (Qualifier.ofBody (Text.trim (Header.body line))) ≠ [] :=
    Qualifier.unknown_ne_nil h
  simp only [Active.ofHeader?, if_neg hunknown, ite_self]

namespace Reading

variable (r : Reading) (here : Place)

/-! ## The problems of a header -/

/-- A block that a header finds open is the only problem that is noted then. -/
theorem problems_abandonBlock :
    (r.abandonBlock here).document.problems = r.document.problems ++
      r.block.toList.map fun b =>
        ⟨r.location here, .openBlock b.path, here.line.text, here.line.raw⟩ := by
  obtain ⟨document, active, conditions, macros, block⟩ := r
  cases block with
  | none => exact (List.append_nil _).symm
  | some b => rfl

/-- Abandoning a block changes nothing of where problems are noted. -/
theorem location_abandonBlock : (r.abandonBlock here).location here = r.location here := by
  obtain ⟨document, active, conditions, macros, block⟩ := r
  cases block <;> rfl

/-- Mixed sections are noted once, with the first name and the first one that differs from it. -/
theorem problems_noteMixed (qualifiers : List Qualifier) :
    (r.noteMixed here qualifiers).document.problems = r.document.problems ++
      (Qualifier.mismatch? qualifiers).toList.map fun pair =>
        ⟨r.location here, .mixedSections pair.1 pair.2, pair.2, here.line.raw⟩ := by
  unfold noteMixed
  cases Qualifier.mismatch? qualifiers with
  | none => exact (List.append_nil _).symm
  | some pair => rfl

/-- Noting mixed sections changes nothing of where problems are noted. -/
theorem location_noteMixed (qualifiers : List Qualifier) :
    (r.noteMixed here qualifiers).location here = r.location here := by
  unfold noteMixed
  split <;> rfl

/-- A list of problems is noted at one location, in order. -/
theorem problems_foldl_note (names : List Text) (cause : Text → Cause) (r : Reading) :
    (names.foldl (fun r name => r.note here (cause name) name) r).document.problems =
      r.document.problems ++
        names.map fun name => ⟨r.location here, cause name, name, here.line.raw⟩ := by
  induction names generalizing r with
  | nil => exact (List.append_nil _).symm
  | cons name names ih =>
    rw [List.foldl_cons, ih, List.map_cons, ← List.singleton_append, ← List.append_assoc]
    rfl

/-- Each unknown name of a header is noted. -/
theorem problems_enterSection (qualifiers : List Qualifier) :
    (r.enterSection here qualifiers).document.problems = r.document.problems ++
      (Qualifier.unknown qualifiers).map fun name =>
        ⟨r.location here, .unknownSection name, name, here.line.raw⟩ := by
  unfold enterSection
  cases Qualifier.unknown qualifiers with
  | nil => exact (List.append_nil _).symm
  | cons name names => exact problems_foldl_note here (name :: names) .unknownSection r

/-! ## What a header does apart from its problems -/

end Reading

/-- The document without its problems. -/
def Document.unnoted (d : Document) : Document :=
  { d with problems := [] }

namespace Reading

/-- The reading without its problems. -/
def unnoted (r : Reading) : Reading :=
  { r with document := r.document.unnoted }

/-- The reading without its problems, when the open block is closed and no section is active. -/
def settled (r : Reading) : Reading :=
  ((r.closeBlock r.gathered.scopes).activate none).unnoted

variable (r : Reading) (here : Place)

/-- No block is open after one has been closed. -/
theorem block_closeBlock (scopes : List Scope) : (r.closeBlock scopes).block = none := by
  unfold closeBlock
  split
  · assumption
  · rfl

/-- With no block open, only the section and the problems are dropped. -/
theorem settled_of_block_eq_none {r : Reading} (h : r.block = none) :
    r.settled = (r.activate none).unnoted := by
  rw [settled, closeBlock, h]

/-- A problem is dropped when a reading is settled. -/
@[simp]
theorem settled_note (cause : Cause) (offending : Text) :
    (r.note here cause offending).settled = r.settled := by
  obtain ⟨document, active, conditions, macros, block⟩ := r
  cases block <;> rfl

/-- With no block open, the section does not matter to a settled reading. -/
theorem settled_activate {r : Reading} (h : r.block = none) (active : Option Active) :
    (r.activate active).settled = r.settled := by
  have hactivate : (r.activate active).settled = ((r.activate active).activate none).unnoted :=
    settled_of_block_eq_none h
  rw [hactivate, settled_of_block_eq_none h]
  rfl

/-- A settled reading has its block closed already. -/
theorem settled_closeBlock : (r.closeBlock r.gathered.scopes).settled = r.settled :=
  settled_of_block_eq_none (block_closeBlock r _)

/-- Abandoning a block settles it as the end of a section does. -/
theorem settled_abandonBlock : (r.abandonBlock here).settled = r.settled := by
  unfold abandonBlock
  split
  · rfl
  · rename_i b _
    exact (settled_closeBlock (r.note here (.openBlock b.path) here.line.text)).trans
      (settled_note r here _ _)

/-- Mixed sections do not matter to a settled reading. -/
theorem settled_noteMixed (qualifiers : List Qualifier) :
    (r.noteMixed here qualifiers).settled = r.settled := by
  unfold noteMixed
  split
  · rfl
  · exact settled_note r here _ _

/-- With no block open, the section that is entered does not matter to a settled reading. -/
theorem settled_enterSection {r : Reading} (h : r.block = none) (here : Place)
    (qualifiers : List Qualifier) : (r.enterSection here qualifiers).settled = r.settled := by
  unfold enterSection
  split
  · exact settled_activate h _
  · -- the problems that are noted neither open a block nor leave a trace
    have hnotes : ∀ names : List Text,
        (names.foldl (fun r name => r.note here (.unknownSection name) name) r).block = none ∧
          (names.foldl (fun r name => r.note here (.unknownSection name) name) r).settled =
            r.settled := fun names =>
      List.foldlRecOn names _
        (motive := fun next : Reading => next.block = none ∧ next.settled = r.settled) ⟨h, rfl⟩
        fun next hnext _ _ => ⟨hnext.1, (settled_note next here _ _).trans hnext.2⟩
    obtain ⟨hblock, hsettled⟩ := hnotes (Qualifier.unknown qualifiers)
    rw [settled_activate hblock, hsettled]

/-- A reading without an open block is settled but for its section and its problems. -/
theorem unnoted_eq {r : Reading} (h : r.block = none) :
    r.unnoted = r.settled.activate r.active := by
  rw [settled_of_block_eq_none h]
  rfl

/-- No block is open after one has been abandoned. -/
theorem block_abandonBlock : (r.abandonBlock here).block = none := by
  unfold abandonBlock
  split
  · assumption
  · exact block_closeBlock _ _

/-- No block is open after a header. -/
theorem block_header : (r.header here).block = none := by
  have hblock := congrArg Gathered.block (gathered_header r here)
  refine hblock.trans ?_
  unfold Gathered.close
  split
  · assumption
  · rfl

/-- After a header its section is active, or none. -/
theorem active_header : (r.header here).active = Active.ofHeader? here.line.text := by
  have hactive := congrArg Gathered.active (gathered_header r here)
  exact hactive

/-- Apart from its problems and its section, a header closes the open block and does nothing else. -/
theorem settled_header : (r.header here).settled = r.settled := by
  have hblock := block_abandonBlock r here
  have hmixed : ∀ qualifiers, ((r.abandonBlock here).noteMixed here qualifiers).block = none :=
    fun qualifiers =>
      (congrArg Gathered.block (gathered_noteMixed (r.abandonBlock here) here qualifiers)).trans
        hblock
  rw [header_eq]
  split
  · have hnote : ((r.abandonBlock here).note here .emptyHeader here.line.text).block = none := hblock
    rw [settled_activate hnote, settled_note, settled_abandonBlock]
  · rw [settled_enterSection (hmixed _), settled_noteMixed, settled_abandonBlock]

/-- Apart from problems, a header settles the reading and makes its section active. -/
theorem unnoted_header :
    (r.header here).unnoted = r.settled.activate (Active.ofHeader? here.line.text) := by
  rw [unnoted_eq (block_header r here), settled_header, active_header]

end Reading

namespace Visit

variable (v : Visit)

/-- A problem that is noted on a line. -/
def problem (cause : Cause) (offending : Text) : Problem :=
  ⟨v.location, cause, offending, v.here.line.raw⟩

/-- The warnings of a header: the block that it finds open, and sections that are mixed. -/
def warnings : List Problem :=
  (v.reading.block.toList.map fun b => v.problem (.openBlock b.path) v.text) ++
    if Header.IsEmpty v.text then []
    else (Qualifier.mismatch? (Header.qualifiers v.text)).toList.map fun pair =>
      v.problem (.mixedSections pair.1 pair.2) pair.2

/-- The fatal problems of a header: it is empty, or some of its names are no sections. -/
def faults : List Problem :=
  if Header.IsEmpty v.text then [v.problem .emptyHeader v.text]
  else (Qualifier.unknown (Header.qualifiers v.text)).map fun name =>
    v.problem (.unknownSection name) name

/-- A header adds its warnings, and then its fatal problems. -/
theorem problems_header :
    (v.reading.header v.here).document.problems =
      v.reading.document.problems ++ v.warnings ++ v.faults := by
  rw [Reading.header_eq, warnings, faults]
  split
  · rename_i hempty
    have hwarnings : Header.IsEmpty v.text := hempty
    have hnote : (((v.reading.abandonBlock v.here).note v.here .emptyHeader v.text).activate
        none).document.problems = (v.reading.abandonBlock v.here).document.problems ++
          [⟨(v.reading.abandonBlock v.here).location v.here, .emptyHeader, v.text,
            v.here.line.raw⟩] := rfl
    rw [if_pos hwarnings, if_pos hwarnings, List.append_nil]
    refine hnote.trans ?_
    rw [Reading.location_abandonBlock, Reading.problems_abandonBlock]
    rfl
  · rename_i hbody
    have hwarnings : ¬ Header.IsEmpty v.text := hbody
    rw [if_neg hwarnings, if_neg hwarnings, Reading.problems_enterSection,
      Reading.location_noteMixed, Reading.problems_noteMixed, Reading.location_abandonBlock,
      Reading.problems_abandonBlock]
    simp only [List.append_assoc]
    rfl

/-- An open block and mixed sections are warnings. -/
theorem severity_of_mem_warnings : ∀ p ∈ v.warnings, p.cause.severity = .warning := by
  intro p hp
  unfold warnings at hp
  rcases List.mem_append.1 hp with hp | hp
  · obtain ⟨b, _, rfl⟩ := List.mem_map.1 hp
    rfl
  · split at hp
    · cases hp
    · obtain ⟨pair, _, rfl⟩ := List.mem_map.1 hp
      rfl

/-- Empty headers and unknown names are fatal. -/
theorem severity_of_mem_faults : ∀ p ∈ v.faults, p.cause.severity = .fatal := by
  intro p hp
  unfold faults at hp
  split at hp
  · rw [List.mem_singleton.1 hp]
    rfl
  · obtain ⟨name, _, rfl⟩ := List.mem_map.1 hp
    rfl

/-- A header is noted as fatal once if all its unknown names are the same. -/
theorem length_faults (hne : Header.unknownBases v.text ≠ [])
    (hsame : ∀ a ∈ Header.unknownBases v.text, ∀ b ∈ Header.unknownBases v.text,
      Text.sameName a b) : v.faults.length = 1 := by
  unfold faults
  split
  · rfl
  · rw [List.length_map]
    exact (Qualifier.represents_unknown _).length_eq_one hne hsame

end Visit

end FirmwareIndex
