import FirmwareIndex.Proofs.Path.Spelling
import FirmwareIndex.Workspace.FileKind

/-!
# Kinds of named files

A file of a kind by its extension is of that kind by the end of its name too, and the other way round
if its name is more than the dot and the extension (`FileKind.ofPath?_push`). A package declaration
whose extension is `dec` and a platform description stand beside each other in both directions: if
the one leads to the other by exchanging the extension, then the other leads back
(`FileKind.withExtension_same`).
-/

set_option autoImplicit false

namespace FirmwareIndex

/-- The number of a character once a capital has been made small. -/
theorem Text.toNat_toLower (c : Char) :
    c.toLower.toNat = if 65 ≤ c.toNat ∧ c.toNat ≤ 90 then c.toNat + 32 else c.toNat := by
  unfold Char.toLower
  split
  · rename_i hcapital
    have hbound : c.toNat + 32 < 2 ^ 32 :=
      Nat.lt_of_le_of_lt (Nat.add_le_add_right hcapital.2 32) (by decide)
    refine Eq.trans ?_ (if_pos hcapital).symm
    exact (UInt32.toNat_add _ _).trans (Nat.mod_eq_of_lt hbound)
  · rename_i hother
    exact (if_neg hother).symm

/-- No other character becomes a dot when capitals are made small. -/
theorem Text.eq_dot_of_toLower {c : Char} (h : c.toLower = '.') : c = '.' := by
  have hdot : c.toLower.toNat = 46 := congrArg Char.toNat h
  rw [toNat_toLower] at hdot
  apply Char.toNat_inj.1
  change c.toNat = 46
  split at hdot <;> omega

namespace FileKind

open FirmwareIndex.Path

variable {k : FileKind} {p d : Path} {name stem ending : Text}

/-- The kind of a path that a name was pushed to. -/
theorem ofPath?_push_eq_some (p : Path) (h : IsName name) :
    ofPath? (p.push name) = some k ↔
      ∃ stem ending, splitName name = (stem, some ending) ∧ Text.lower ending = k.extension := by
  have hfind : ∀ ext : Text, (all.find? fun k => k.extension = ext) = some k ↔
      ext = k.extension := by
    intro ext
    constructor
    · intro hfound
      have hext := List.find?_some hfound
      exact (of_decide_eq_true hext).symm
    · rintro rfl
      cases k <;> decide
  rw [ofPath?, extension?_push p h]
  cases hname : (splitName name).2 with
  | none =>
    refine ⟨fun hnone => by simp at hnone, ?_⟩
    rintro ⟨_, _, hsplit, _⟩
    rw [hsplit] at hname
    cases hname
  | some ending =>
    rw [Option.map_some, Option.bind_some, hfind]
    constructor
    · exact fun hext => ⟨(splitName name).1, ending, Prod.ext rfl hname, hext⟩
    · rintro ⟨stem, ending', hsplit, hext⟩
      rw [hsplit] at hname
      exact Option.some.inj hname ▸ hext

/-- A name with the extension of a kind ends like the names of that kind. -/
theorem ofName?_eq_some (hname : splitName name = (stem, some ending))
    (hext : Text.lower ending = k.extension) : ofName? name = some k := by
  obtain ⟨rfl, _, _⟩ := splitName_eq_some_iff.1 hname
  have hlower : Text.lower (stem ++ '.' :: ending) = Text.lower stem ++ '.' :: k.extension := by
    have hdot : '.'.toLower = '.' := by decide
    rw [← hext]
    simp [Text.lower, hdot]
  have hsuffix : ∀ k' : FileKind,
      ('.' :: k'.extension).isSuffixOf (Text.lower stem ++ '.' :: k.extension) = true ↔ k' = k := by
    intro k'
    rw [List.isSuffixOf_iff_suffix]
    constructor
    · intro hs
      have hlength : ('.' :: k'.extension).length = ('.' :: k.extension).length := by
        cases k' <;> cases k <;> rfl
      have heq : '.' :: k'.extension = '.' :: k.extension :=
        (List.suffix_of_suffix_length_le hs (List.suffix_append _ _)
          (Nat.le_of_eq hlength)).eq_of_length hlength
      revert heq
      cases k' <;> cases k <;> decide
    · rintro rfl
      exact List.suffix_append _ _
  rw [ofName?, hlower]
  cases k <;> simp [all, hsuffix]

/-- A name that ends like the names of a kind has the extension of the kind, or is nothing but the
dot and that extension, which counts as no extension. -/
theorem splitName_of_ofName? (h : ofName? name = some k) :
    (∃ stem ending, splitName name = (stem, some ending) ∧ Text.lower ending = k.extension) ∨
      (splitName name = (name, none) ∧ Text.lower name = '.' :: k.extension) := by
  have hends : '.' :: k.extension <:+ Text.lower name := by
    have hfound := List.find?_some h
    exact List.isSuffixOf_iff_suffix.1 hfound
  obtain ⟨front, hfront⟩ := hends
  obtain ⟨stem, rest, rfl, hstem, hrest⟩ := List.map_eq_append_iff.1 hfront.symm
  obtain ⟨c, ending, rfl, hc, hending⟩ := List.map_eq_cons_iff.1 hrest
  obtain rfl := Text.eq_dot_of_toLower hc
  have hdot : '.' ∉ ending := by
    intro hmem
    have hsmall : '.' ∈ k.extension := hending ▸ List.mem_map_of_mem (f := Char.toLower) hmem
    revert hsmall
    cases k <;> decide
  by_cases hnil : stem = []
  · obtain rfl : front = [] := by rw [← hstem, hnil]; rfl
    subst hnil
    have hcut : Text.cut? '.' ([] ++ '.' :: ending).reverse = some (ending.reverse, []) :=
      Text.cut?_eq_some_iff.2 ⟨by simp, by simpa using hdot⟩
    refine .inr ⟨?_, hfront.symm⟩
    unfold splitName
    rw [hcut]
  · exact .inl ⟨stem, ending, splitName_eq_some_iff.2 ⟨rfl, hnil, hdot⟩, hending⟩

/-- A name is bare if it is nothing but the dot and the extension of a kind, whatever the case of its
letters. -/
def Bare (name : Text) : Prop :=
  ∃ k ∈ all, Text.lower name = '.' :: k.extension

instance (name : Text) : Decidable (Bare name) :=
  inferInstanceAs (Decidable (∃ k ∈ all, _))

/-- The end of a name that is not bare tells the same kind as its extension. -/
theorem ofPath?_push (p : Path) (h : IsName name) (hbare : ¬ Bare name) :
    ofPath? (p.push name) = ofName? name := by
  refine Option.ext fun k => ?_
  rw [ofPath?_push_eq_some p h]
  constructor
  · rintro ⟨stem, ending, hname, hext⟩
    exact ofName?_eq_some hname hext
  · intro hkind
    have hall : k ∈ all := by cases k <;> decide
    exact (splitName_of_ofName? hkind).resolve_right fun ⟨_, hlower⟩ => hbare ⟨k, hall, hlower⟩

/-- The kind of a file by the end of its name. -/
def ofFileName? (p : Path) : Option FileKind :=
  p.fileName?.bind ofName?

/-- The end of a file name is the same in all spellings of its place. -/
theorem ofFileName?_congr {p q : Path} (h : p.Same q) : ofFileName? p = ofFileName? q := by
  have hkey : p.components = q.components := h
  rw [ofFileName?, ofFileName?, fileName?, fileName?, hkey]

/-- All spellings of a place have one kind. -/
theorem ofPath?_congr {p q : Path} (h : p.Same q) : ofPath? p = ofPath? q := by
  have hkey : p.components = q.components := h
  rw [ofPath?, ofPath?, extension?, extension?, fileName?, fileName?, hkey]

/-- A file of a kind by its extension is of that kind by the end of its name. -/
theorem ofFileName?_of_ofPath? {p : Path} (h : ofPath? p = some k) : ofFileName? p = some k := by
  obtain ⟨ext, hext, hfound⟩ := Option.bind_eq_some_iff.1 h
  obtain ⟨ending, hending, rfl⟩ := Option.map_eq_some_iff.1 hext
  obtain ⟨name, hname, hsplit⟩ := Option.bind_eq_some_iff.1 hending
  have hkind := List.find?_some hfound
  rw [ofFileName?, hname, Option.bind_some]
  exact ofName?_eq_some (Prod.ext rfl hsplit) (of_decide_eq_true hkind).symm

/-- If exchanging the extension leads from a package declaration to a platform description, then it
leads back. -/
theorem withExtension_same {m : Text} (hn : IsName name) (hm : IsName m)
    (hdec : (splitName name).2 = some "dec".toList) (hdsc : ofPath? (p.push m) = some .platform)
    (hsame : ((d.push name).withExtension "dsc").Same (p.push m)) :
    ((p.push m).withExtension "dec").Same (d.push name) := by
  have hname : splitName name = ((splitName name).1, some "dec".toList) := Prod.ext rfl hdec
  obtain ⟨hname', hstem, _⟩ := splitName_eq_some_iff.1 hname
  obtain ⟨stem', ending, hm', hending⟩ := (ofPath?_push_eq_some p hm).1 hdsc
  generalize (splitName name).1 = stem at hname hname' hstem
  rw [withExtension_push d hn hname (by decide) (by decide)] at hsame
  have hsame' : (d.push (if stem = ['.'] then ['.', '.'] else stem ++ '.' :: "dsc".toList)).components =
    (p.push m).components := hsame
  rw [components_push_name p hm] at hsame'
  by_cases hdot : stem = ['.']
  · -- the platform description would be the directory above
    rw [if_pos hdot, components_push d (c := .up) (by decide) rfl] at hsame'
    have hlast := (List.append_inj' hsame' rfl).2
    cases hlast
  · rw [if_neg hdot] at hsame'
    have hplatform : IsName (stem ++ '.' :: "dsc".toList) :=
      (hname' ▸ hn).withEnding (by decide) (by decide) (by decide)
    rw [components_push_name d hplatform] at hsame'
    obtain ⟨hdirectory, hlast⟩ := List.append_inj' hsame' rfl
    obtain rfl : stem ++ '.' :: "dsc".toList = m := by simpa using hlast
    have hsplit : splitName (stem ++ '.' :: "dsc".toList) = (stem, some "dsc".toList) :=
      splitName_eq_some_iff.2 ⟨rfl, hstem, by decide⟩
    rw [withExtension_push p hm hsplit (by decide) (by decide), if_neg hdot, ← hname']
    have hcomponents : (p.push name).components = (d.push name).components := by
      rw [components_push_name p hn, components_push_name d hn, hdirectory]
    exact hcomponents

end FileKind

end FirmwareIndex
