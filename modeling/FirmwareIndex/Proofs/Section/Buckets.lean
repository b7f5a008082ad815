import FirmwareIndex.Proofs.Section.Joining
import FirmwareIndex.Proofs.Section.Normal
import Mathlib.Data.List.Induction

/-!
# What the sections hold

A header stands over the lines up to the next one, and each of these lines goes once into the lines
of its section and once into the bucket of every architecture that the header lists. However often
a section is opened, and whatever architectures its headers repeat or leave out, its lines are
those that stand under its headers, the bucket of an architecture has those of them whose header
lists it, and all of them are in normal form (`Sections.faithful_ofText`).
-/

set_option autoImplicit false

namespace FirmwareIndex

/-- What a table says about a key once the entry of one key has been changed. -/
theorem TextMap.getElem?_alter {α : Type} (m : TextMap α) (key other : Text)
    (f : Option α → Option α) :
    (m.alter key f)[other]? = if key = other then f m[key]? else m[other]? := by
  rw [Std.ExtTreeMap.getElem?_alter]
  by_cases hkey : key = other
  · rw [if_pos hkey, if_pos (Std.LawfulEqCmp.compare_eq_iff_eq.2 hkey)]
  · rw [if_neg hkey, if_neg fun heq => hkey (Std.LawfulEqCmp.compare_eq_iff_eq.1 heq)]

namespace Header

/-- No name is left twice. -/
theorem nodup_eraseDups (names : List Text) : names.eraseDups.Nodup := by
  induction names using List.reverseRecOn with
  | nil => simp
  | append_singleton names name ih =>
    rw [List.eraseDups_append]
    by_cases hname : name ∈ names
    · simpa [List.removeAll, hname] using ih
    · have hne : ∀ other ∈ names, other ≠ name := fun other hmem heq => hname (heq ▸ hmem)
      simpa [List.removeAll, hname, List.eraseDups_cons, List.nodup_append] using ⟨ih, hne⟩

/-- A header lists each of its architectures once. -/
theorem nodup_arches (line : Text) : (ofLine line).arches.Nodup :=
  nodup_eraseDups _

/-- A header lists an architecture, if only `common`. -/
theorem exists_mem_arches (line : Text) : ∃ arch, arch ∈ (ofLine line).arches := by
  obtain ⟨qualifier, _, hsplit⟩ :=
    List.exists_cons_of_ne_nil (List.splitOn_ne_nil ',' (body line))
  refine ⟨archOf (qualifier.splitOn '.'), ?_⟩
  rw [ofLine, List.mem_eraseDups, hsplit]
  exact List.mem_cons_self

end Header

namespace Sections

/-- The headers among some lines, in order. -/
def headers (lines : List Text) : List Header :=
  (lines.filter fun line => line.head? = some '[').map Header.ofLine

/-- The lines that stand under headers, each with its header, when the first of them stand under
`current`. -/
def standing (current : Option Header) : List Text → List (Header × Text)
  | [] => []
  | line :: rest =>
    if line.head? = some '[' then standing (some (Header.ofLine line)) rest
    else (current.map (·, line)).toList ++ standing current rest

/-- The lines of a section among those that stand under headers. -/
def ofKey (occurrences : List (Header × Text)) (key : Text) : List (Header × Text) :=
  occurrences.filter fun occurrence => occurrence.1.key = key

/-- The lines of a section whose header lists an architecture. -/
def ofArch (occurrences : List (Header × Text)) (key arch : Text) : List (Header × Text) :=
  (ofKey occurrences key).filter fun occurrence => arch ∈ occurrence.1.arches

/-- The lines of a section for an architecture, if there are any. -/
def bucket? (s : Sections) (key arch : Text) : Option (List Text) :=
  s.byArch[key]?.bind (·[arch]?)

/-- A line as it is stored: in normal form, not empty, of one line, and no header. -/
structure Clean (line : Text) : Prop where
  nonempty : line ≠ []
  normal : Line.Normal line
  feed : '\n' ∉ line
  carriage : '\r' ∉ line
  entry : line.head? ≠ some '['

/-- The sections hold the lines that stand under the headers among `lines`. -/
structure Faithful (s : Sections) (lines : List Text) : Prop where
  merged : ∀ key : Text, s.merged[key]? =
    if key ∈ (headers lines).map Header.key then
      some ((ofKey (standing none lines) key).map Prod.snd)
    else none
  /-- The bucket of an architecture has the lines of the section under headers that list it. -/
  bucket : ∀ (key arch : Text) (bucket : List Text), s.bucket? key arch = some bucket ↔
    bucket = (ofArch (standing none lines) key arch).map Prod.snd ∧ bucket ≠ []
  /-- Every line stands in the bucket of an architecture that its header lists, and its header
  lists none twice. -/
  placed : ∀ occurrence ∈ standing none lines, occurrence.1.arches.Nodup ∧
    ∃ arch ∈ occurrence.1.arches, ∃ bucket, s.bucket? occurrence.1.key arch = some bucket ∧
      occurrence.2 ∈ bucket
  clean : ∀ (key : Text) (list : List Text), s.merged[key]? = some list → ∀ line ∈ list, Clean line
  clean_bucket : ∀ (key arch : Text) (bucket : List Text), s.bucket? key arch = some bucket →
    ∀ line ∈ bucket, Clean line

section Filling

variable {s : Sections} {named : List Text} {occurrences : List (Header × Text)}
  {current : Option Header} {h : Header} {lines : List Text}

/-- What is in the tables after some headers, whose keys are `named`, and some lines under them. -/
structure Tells (s : Sections) (named : List Text) (occurrences : List (Header × Text)) : Prop where
  merged : ∀ key : Text, s.merged[key]? =
    if key ∈ named then some ((ofKey occurrences key).map Prod.snd) else none
  bucket : ∀ key arch : Text,
    (s.bucket? key arch).getD [] = (ofArch occurrences key arch).map Prod.snd
  nonempty : ∀ key arch : Text, s.bucket? key arch ≠ some []
  /-- Only sections that have been named have lines. -/
  known : ∀ occurrence ∈ occurrences, occurrence.1.key ∈ named

/-- Empty tables tell of no headers and no lines. -/
theorem tells_empty : Tells empty [] [] where
  merged := by simp [empty]
  bucket := by simp [empty, bucket?, ofArch, ofKey]
  nonempty := by simp [empty, bucket?]
  known := by simp

/-- A header names its section and stands over no line yet. -/
theorem Tells.addHeader (hs : Tells s named occurrences) (h : Header) :
    Tells (s.addHeader h) (named ++ [h.key]) occurrences where
  merged key := by
    rw [Sections.addHeader, TextMap.getElem?_alter, hs.merged, hs.merged]
    by_cases hkey : h.key = key
    · subst hkey
      by_cases hnamed : h.key ∈ named
      · simp [hnamed]
      · have hnone : ofKey occurrences h.key = [] := by
          refine List.filter_eq_nil_iff.2 fun occurrence hmem hkey => hnamed ?_
          rw [← of_decide_eq_true hkey]
          exact hs.known occurrence hmem
        simp [hnamed, hnone]
    · simp [hkey, Ne.symm hkey]
  bucket := hs.bucket
  nonempty := hs.nonempty
  known occurrence hmem := List.mem_append_left _ (hs.known occurrence hmem)

/-- A line is put once at the end of each list that is named once. -/
theorem getElem?_foldl_append {arches : List Text} (hnodup : arches.Nodup) (line : Text)
    (m : TextMap (List Text)) (arch : Text) :
    (arches.foldl (fun m arch => append m arch line) m)[arch]? =
      if arch ∈ arches then some (m[arch]?.getD [] ++ [line]) else m[arch]? := by
  induction arches generalizing m with
  | nil => simp
  | cons first rest ih =>
    obtain ⟨hfirst, hrest⟩ := List.nodup_cons.1 hnodup
    rw [List.foldl_cons, ih hrest, append, TextMap.getElem?_alter]
    by_cases harch : first = arch
    · subst harch
      simp [hfirst]
    · simp [harch, Ne.symm harch]

/-- A line is added for each architecture of its header, once, and nowhere else. -/
theorem bucket?_addLine (hnodup : h.arches.Nodup) (s : Sections) (line key arch : Text) :
    (s.addLine h line).bucket? key arch =
      if h.key = key ∧ arch ∈ h.arches then some ((s.bucket? key arch).getD [] ++ [line])
      else s.bucket? key arch := by
  rw [bucket?, addLine, TextMap.getElem?_alter]
  by_cases hkey : h.key = key
  · subst hkey
    rw [if_pos rfl, Option.bind_some, getElem?_foldl_append hnodup]
    have hbucket : (s.byArch[h.key]?.getD ∅)[arch]? = s.bucket? h.key arch := by
      rw [bucket?]
      cases s.byArch[h.key]? <;> simp
    simp [hbucket]
  · simp [hkey, bucket?]

/-- A line under a header is one more line of its section and of the buckets of its
architectures. -/
theorem Tells.addLine (hs : Tells s named occurrences) (hnamed : h.key ∈ named)
    (hnodup : h.arches.Nodup) (line : Text) :
    Tells (s.addLine h line) named (occurrences ++ [(h, line)]) where
  merged key := by
    rw [Sections.addLine, append, TextMap.getElem?_alter, hs.merged, hs.merged, if_pos hnamed]
    by_cases hkey : h.key = key
    · subst hkey
      simp [hnamed, ofKey]
    · simp [hkey, ofKey]
  bucket key arch := by
    have hold := hs.bucket key arch
    rw [bucket?_addLine hnodup]
    by_cases hplace : h.key = key ∧ arch ∈ h.arches
    · rw [if_pos hplace, Option.getD_some, hold]
      simp [ofArch, ofKey, hplace]
    · rw [if_neg hplace, hold]
      simp only [ofArch, ofKey, List.filter_filter, List.filter_append, List.map_append]
      simp [and_comm, hplace]
  nonempty key arch := by
    rw [bucket?_addLine hnodup]
    split
    · simp
    · exact hs.nonempty key arch
  known occurrence hmem := by
    rcases List.mem_append.1 hmem with hmem | hmem
    · exact hs.known occurrence hmem
    · rwa [List.mem_singleton.1 hmem]

/-- Walking lines names the sections of their headers and fills in what stands under them. -/
theorem Tells.walk (hs : Tells s named occurrences)
    (hcurrent : ∀ h ∈ current, h.key ∈ named ∧ h.arches.Nodup) (lines : List Text) :
    Tells (walk s current lines) (named ++ (headers lines).map Header.key)
      (occurrences ++ standing current lines) := by
  induction lines generalizing s named occurrences current with
  | nil => simpa [Sections.walk, headers, standing] using hs
  | cons line rest ih =>
    rw [Sections.walk, standing]
    by_cases hline : line.head? = some '['
    · have hheaders : named ++ (headers (line :: rest)).map Header.key =
          named ++ [(Header.ofLine line).key] ++ (headers rest).map Header.key := by
        simp [headers, hline]
      rw [if_pos hline, if_pos hline, hheaders]
      refine ih (hs.addHeader (Header.ofLine line)) fun h hh => ?_
      obtain rfl := Option.some.inj hh
      exact ⟨by simp, Header.nodup_arches line⟩
    · have hheaders : headers (line :: rest) = headers rest := by
        simp [headers, hline]
      rw [if_neg hline, if_neg hline, hheaders, ← List.append_assoc]
      cases current with
      | none => simpa using ih hs hcurrent
      | some h =>
        obtain ⟨hnamed, hnodup⟩ := hcurrent h rfl
        exact ih (hs.addLine hnamed hnodup line) hcurrent

/-- A bucket has the lines of its section for its architecture, and there is none without lines. -/
theorem Tells.bucket?_eq_some_iff (hs : Tells s named occurrences) (key arch : Text)
    (bucket : List Text) : s.bucket? key arch = some bucket ↔
      bucket = (ofArch occurrences key arch).map Prod.snd ∧ bucket ≠ [] := by
  rw [← hs.bucket]
  have hne := hs.nonempty key arch
  cases hfound : s.bucket? key arch with
  | none => simp
  | some found =>
    have hfoundNe : found ≠ [] := fun heq => hne (heq ▸ hfound)
    rw [Option.getD_some]
    exact ⟨fun heq => Option.some.inj heq ▸ ⟨rfl, hfoundNe⟩, fun heq => congrArg some heq.1.symm⟩

end Filling

section Lines

variable {t line : Text}

/-- No carriage return is left when line breaks are made line feeds. -/
theorem not_mem_unifyBreaks (t : Text) : '\r' ∉ unifyBreaks t := by
  fun_induction unifyBreaks t with
  | case1 t ih => simpa using ih
  | case2 t _ ih => simpa using ih
  | case3 c t _ hreturn ih =>
    have hc : c ≠ '\r' := fun heq => hreturn heq
    simpa [Ne.symm hc] using ih
  | case4 => simp

/-- The lines of a text are in normal form and have no line breaks. -/
theorem normal_of_mem_linesOf (h : line ∈ linesOf t) :
    Line.Normal line ∧ '\n' ∉ line ∧ '\r' ∉ line := by
  obtain ⟨piece, hpiece, rfl⟩ := List.mem_map.1 h
  obtain ⟨hfeed, hchars⟩ := Text.mem_splitOn hpiece
  -- normalizing brings in no characters but spaces
  have hout : ∀ c, c ≠ ' ' → c ∉ piece → c ∉ Line.normalize piece := fun c hspace hc hmem =>
    (Line.mem_of_mem_normalize hmem).elim hspace fun hin => hc hin.1
  exact ⟨Line.normal_normalize piece, hout '\n' (by decide) hfeed,
    hout '\r' (by decide) fun hmem => not_mem_unifyBreaks _ (hchars '\r' hmem)⟩

/-- What stands under a header is one of the lines, and no header, and the header is one of them. -/
theorem mem_of_mem_standing {current : Option Header} {lines : List Text}
    {occurrence : Header × Text} (h : occurrence ∈ standing current lines) :
    occurrence.2 ∈ lines ∧ occurrence.2.head? ≠ some '[' ∧
      (some occurrence.1 = current ∨ occurrence.1 ∈ headers lines) := by
  induction lines generalizing current with
  | nil => cases h
  | cons line rest ih =>
    rw [standing] at h
    split at h
    · rename_i hline
      have hheaders : headers (line :: rest) = Header.ofLine line :: headers rest := by
        simp [headers, hline]
      obtain ⟨hmem, hentry, hheader⟩ := ih h
      refine ⟨List.mem_cons_of_mem _ hmem, hentry, .inr ?_⟩
      rw [hheaders]
      rcases hheader with heq | hheader
      · exact Option.some.inj heq ▸ List.mem_cons_self
      · exact List.mem_cons_of_mem _ hheader
    · rename_i hline
      have hheaders : headers (line :: rest) = headers rest := by simp [headers, hline]
      rw [hheaders]
      rcases List.mem_append.1 h with hfirst | hrest
      · cases current with
        | none => cases hfirst
        | some header =>
          obtain rfl : occurrence = (header, line) := by simpa using hfirst
          exact ⟨List.mem_cons_self, hline, .inl rfl⟩
      · exact (ih hrest).imp_left (List.mem_cons_of_mem _)

/-- Every line that stands under a header of a text is stored in normal form. -/
theorem clean_of_mem_standing {current : Option Header} {occurrences : List (Header × Text)}
    (hsub : occurrences ⊆ standing current ((linesOf t).filter (· ≠ [])))
    (h : line ∈ occurrences.map Prod.snd) : Clean line := by
  obtain ⟨occurrence, hmem, rfl⟩ := List.mem_map.1 h
  obtain ⟨hline, hentry, _⟩ := mem_of_mem_standing (hsub hmem)
  rw [List.mem_filter, decide_eq_true_eq] at hline
  obtain ⟨hnormal, hfeed, hcarriage⟩ := normal_of_mem_linesOf hline.1
  exact ⟨hline.2, hnormal, hfeed, hcarriage, hentry⟩

end Lines

/-- The sections of a text hold the lines that stand under its headers. -/
theorem faithful_ofText (t : Text) : Faithful (ofText t) ((linesOf t).filter (· ≠ [])) := by
  have hfilled : Tells (ofText t) ((headers ((linesOf t).filter (· ≠ []))).map Header.key)
      (standing none ((linesOf t).filter (· ≠ []))) := by
    rw [ofText, sections_foldl_line]
    simpa using tells_empty.walk (by simp) ((linesOf t).filter (· ≠ []))
  refine ⟨hfilled.merged, hfilled.bucket?_eq_some_iff, ?placed, ?clean, ?cleanBucket⟩
  case placed =>
    intro occurrence hmem
    obtain ⟨line, _, hheader⟩ : ∃ line, _ ∧ Header.ofLine line = occurrence.1 :=
      List.mem_map.1 ((mem_of_mem_standing hmem).2.2.resolve_left (by simp))
    obtain ⟨arch, harch⟩ := Header.exists_mem_arches line
    rw [hheader] at harch
    have hin : occurrence ∈ ofArch (standing none ((linesOf t).filter (· ≠ [])))
        occurrence.1.key arch :=
      List.mem_filter.2 ⟨List.mem_filter.2 ⟨hmem, decide_eq_true rfl⟩, decide_eq_true harch⟩
    exact ⟨hheader.symm ▸ Header.nodup_arches line, arch, harch, _,
      (hfilled.bucket?_eq_some_iff _ _ _).2 ⟨rfl, List.ne_nil_of_mem (List.mem_map_of_mem hin)⟩,
      List.mem_map_of_mem hin⟩
  case clean =>
    intro key list hlist line hline
    rw [hfilled.merged] at hlist
    split at hlist
    · obtain rfl := Option.some.inj hlist
      exact clean_of_mem_standing (List.filter_subset_self _) hline
    · cases hlist
  case cleanBucket =>
    intro key arch bucket hfound line hline
    obtain ⟨rfl, _⟩ := (hfilled.bucket?_eq_some_iff key arch bucket).1 hfound
    exact clean_of_mem_standing
      (fun _ hmem => List.mem_of_mem_filter (List.mem_of_mem_filter hmem)) hline

end Sections

end FirmwareIndex
