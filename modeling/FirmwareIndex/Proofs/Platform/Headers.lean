import FirmwareIndex.Proofs.Platform.Gathered
import FirmwareIndex.Proofs.Text.Trimmed

/-!
# Headers in build files and in platform descriptions

A header of a platform description is read qualifier by qualifier, from a body without blanks at its
ends, while the header of another build file has its key cut off the body as it stands. Blanks around
a qualifier and around its parts make no difference (`Qualifier.ofText_trim`), and so the two agree:
the key is the first name in small letters, and the architectures are those of the scopes, each once
(`Header.agrees_header`).
-/

set_option autoImplicit false

namespace FirmwareIndex

namespace Header

/-- A part of a qualifier, read off its trimmed parts. -/
theorem part?_eq (parts : List Text) (i : Nat) :
    part? parts i = ((parts.map Text.trim)[i]?).filter (· ≠ []) := by
  rw [part?, List.getElem?_map]

/-- Blanks around the parts do not matter to the architecture. -/
theorem archOf_eq_of_map_trim {parts others : List Text}
    (h : parts.map Text.trim = others.map Text.trim) : archOf parts = archOf others := by
  simp only [archOf, part?_eq, h]

/-- A header that is read both ways: its key and architectures, its qualifiers, and the section that
it opens in a platform description, if it opens one. -/
structure Agrees (h : Header) (qualifiers : List Qualifier) (active : Option Active) : Prop where
  /-- The key is the name in the first qualifier, in small letters. -/
  key : qualifiers.head?.map (fun q => Text.lower q.base) = some h.key
  arches : h.arches = (qualifiers.map fun q => q.scope.arch).eraseDups
  /-- A section that is opened has the key as its name, and its lines are for the architectures. -/
  opened : ∀ a, active = some a →
    h.key = Text.lower a.kind.name ∧ h.arches = (a.scopes.map Scope.arch).eraseDups

end Header

namespace Qualifier

/-- A qualifier is read from its parts without the blanks at their ends. -/
theorem ofText_eq_of_map_trim {t u : Text}
    (h : (t.splitOn '.').map Text.trim = (u.splitOn '.').map Text.trim) : ofText t = ofText u := by
  have hbase : ∀ parts : List Text, Text.trim (parts.headD []) = (parts.map Text.trim).headD [] := by
    intro parts
    cases parts <;> rfl
  simp only [ofText, hbase, h, Header.archOf_eq_of_map_trim h, Header.part?_eq]

/-- Blanks around a qualifier do not matter. -/
@[simp]
theorem ofText_trim (t : Text) : ofText (Text.trim t) = ofText t :=
  ofText_eq_of_map_trim (Text.map_trim_splitOn_trim (by decide) t)

/-- Blanks at the ends of a body make no difference to its qualifiers. -/
@[simp]
theorem ofBody_trim (body : Text) : ofBody (Text.trim body) = ofBody body := by
  have htrim : ∀ pieces : List Text, pieces.map ofText = (pieces.map Text.trim).map ofText := by
    intro pieces
    simp
  rw [ofBody, htrim, Text.map_trim_splitOn_trim (by decide), ← htrim, ofBody]

/-- The name in the first qualifier goes to the first dot or comma. -/
theorem map_base_head?_ofBody (body : Text) :
    (ofBody body).head?.map base =
      some (Text.trim (body.takeWhile fun c => c != '.' && c != ',')) := by
  obtain ⟨first, rest, hsplit⟩ := List.exists_cons_of_ne_nil (List.splitOn_ne_nil ',' body)
  have hfirst : first = Text.before ',' body := by
    rw [← Text.headD_splitOn, hsplit, List.headD_cons]
  have hname : Text.before '.' (Text.before ',' body) =
      body.takeWhile fun c => c != '.' && c != ',' := by
    rw [Text.before, Text.before, List.takeWhile_takeWhile]
    congr 1
    funext c
    simp [bne, Bool.beq_eq_decide_eq]
  have hbase : (ofText first).base = Text.trim (Text.before '.' first) := by
    rw [← Text.headD_splitOn]
    rfl
  rw [ofBody, hsplit, List.map_cons, List.head?_cons, Option.map_some, hbase, hfirst, hname]

/-- The names in the qualifiers of a body have no blanks at their ends. -/
theorem trim_base {body : Text} {q : Qualifier} (h : q ∈ ofBody body) :
    Text.trim q.base = q.base := by
  obtain ⟨piece, _, rfl⟩ := List.mem_map.1 h
  exact Text.trim_trim _

end Qualifier

/-- A section is found by its name, apart from blanks around it and the case of its letters. -/
theorem SectionName.lower_name {t : Text} {kind : SectionName} (h : ofText? t = some kind) :
    Text.lower kind.name = Text.lower (Text.trim t) := by
  have hfind : all.find? (fun s => Text.sameName s.name (Text.trim t)) = some kind := h
  have hsame := List.find?_some hfind
  exact of_decide_eq_true hsame

/-- A header that opens a section has known names only, and opens the section of the first one. -/
theorem Active.ofQualifiers?_eq {line : Text} {a : Active} (h : ofHeader? line = some a) :
    ofQualifiers? (Qualifier.ofBody (Header.body line)) = some a := by
  rw [ofHeader?, Qualifier.ofBody_trim] at h
  split at h
  · cases h
  · split at h
    · exact h
    · cases h

/-- The section that qualifiers open is known by the first one, and has the scopes of all. -/
theorem Active.ofQualifiers?_eq_some {qualifiers : List Qualifier} {a : Active}
    (h : ofQualifiers? qualifiers = some a) :
    (∃ first rest, qualifiers = first :: rest ∧ SectionName.ofText? first.base = some a.kind) ∧
      a.scopes = qualifiers.map Qualifier.scope := by
  unfold ofQualifiers? at h
  split at h
  · cases h
  · obtain ⟨kind, hkind, rfl⟩ := Option.map_eq_some_iff.1 h
    exact ⟨⟨_, _, rfl, hkind⟩, rfl⟩

namespace Header

/-- A header says the same in a platform description and in another build file. -/
theorem agrees_header (r : Reading) (here : Place) :
    (ofLine here.line.text).Agrees (Qualifier.ofBody (Text.trim (body here.line.text)))
      (r.header here).active := by
  have hactive : (r.header here).active = Active.ofHeader? here.line.text :=
    congrArg Gathered.active (Reading.gathered_header r here)
  have hkey : (Qualifier.ofBody (body here.line.text)).head?.map (fun q => Text.lower q.base) =
      some (ofLine here.line.text).key := by
    have hbase := congrArg (Option.map Text.lower)
      (Qualifier.map_base_head?_ofBody (body here.line.text))
    rwa [Option.map_map] at hbase
  have harches : (ofLine here.line.text).arches =
      ((Qualifier.ofBody (body here.line.text)).map fun q => q.scope.arch).eraseDups := by
    rw [Qualifier.ofBody, List.map_map]
    rfl
  rw [Qualifier.ofBody_trim, hactive]
  refine ⟨hkey, harches, fun a ha => ?_⟩
  obtain ⟨⟨first, rest, hqualifiers, hkind⟩, hscopes⟩ :=
    Active.ofQualifiers?_eq_some (Active.ofQualifiers?_eq ha)
  constructor
  · have hbase : Text.trim first.base = first.base :=
      Qualifier.trim_base (hqualifiers ▸ List.mem_cons_self)
    rw [SectionName.lower_name hkind, hbase]
    rw [hqualifiers] at hkey
    exact (Option.some.inj hkey).symm
  · rw [harches, hscopes, List.map_map]
    rfl

end Header

end FirmwareIndex
