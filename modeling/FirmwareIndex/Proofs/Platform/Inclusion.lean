import FirmwareIndex.Proofs.Platform.Expansion
import FirmwareIndex.Proofs.Platform.Visited
import FirmwareIndex.Source.FileSet

/-!
# Inclusion is textual

Two readings that say the same go on saying the same, and visit the same files, when they read lines
with the same texts (`Reads.transfer`). Lines that include no file may even stand in different files
(`Reads.exists_flat`). So an include of a file leads to the document that the text of the file would
lead to in the place of the include, up to places and the visit itself (`Machine.ofText_include`).
-/

set_option autoImplicit false

namespace FirmwareIndex

/-- A line that includes no file. -/
def Line.Flat (l : Line) : Prop :=
  ∀ target, LineKind.ofText l.text ≠ .inclusion target

instance (l : Line) : Decidable l.Flat :=
  match h : LineKind.ofText l.text with
  | .inclusion target => isFalse fun hflat => hflat target h
  | .header | .definition | .openCondition | .branch | .closeCondition | .ignored | .content =>
    isTrue (by simp [Line.Flat, h])

namespace Reading

variable {s : Setting} {r q : Reading}

/-- A line that includes no file is read as its kind says. -/
theorem effect_flat (s : Setting) (opened : List Path) (r : Reading) {here : Place}
    (h : here.line.Flat) :
    r.effect s opened here = .carry (r.plain here (LineKind.ofText here.line.text)) := by
  unfold effect
  cases hkind : LineKind.ofText here.line.text with
  | inclusion target => exact absurd hkind (h target)
  | header | definition | openCondition | branch | closeCondition | ignored | content => rfl

/-- Two readings that say the same visit the same file at an include, or say the same after it. -/
theorem inclusion_said (opened : List Path) (file : Path) {l l' : Line} (target : Text)
    (hsaid : r.said = q.said) (hline : l.said = l'.said) :
    (∃ r₁ q₁, r.inclusion s opened ⟨file, l⟩ target = .carry r₁ ∧
      q.inclusion s opened ⟨file, l'⟩ target = .carry q₁ ∧ r₁.said = q₁.said ∧
      r₁.document.included = r.document.included ∧
      q₁.document.included = q.document.included) ∨
    ∃ visited text, r.inclusion s opened ⟨file, l⟩ target = .enter visited text (r.visit visited) ∧
      q.inclusion s opened ⟨file, l'⟩ target = .enter visited text (q.visit visited) := by
  have hmacros : q.macros = r.macros := (congrArg Reading.macros hsaid).symm
  have hnote : ∀ cause offending,
      (r.note ⟨file, l⟩ cause offending).said = (q.note ⟨file, l'⟩ cause offending).said := by
    intro cause offending
    rw [said_note, said_note, hsaid, Place.said, Place.said, hline]
  have htext : l'.text = l.text := (Line.text_eq_of_said hline).symm
  simp only [inclusion, hmacros, htext]
  split
  · exact .inl ⟨_, _, rfl, rfl, hnote _ _, rfl, rfl⟩
  · split
    · exact .inl ⟨_, _, rfl, rfl, hnote _ _, rfl, rfl⟩
    · cases s.sources.read (Machine.resolve s r.macros file target) with
      | error reason => exact .inl ⟨_, _, rfl, rfl, hnote _ _, rfl, rfl⟩
      | ok text => exact .inr ⟨_, _, rfl, rfl⟩

/-- Two readings that say the same visit the same file at lines with the same text, or say the same
after them. -/
theorem effect_said (opened : List Path) (file : Path) {l l' : Line}
    (hsaid : r.said = q.said) (hline : l.said = l'.said) :
    (∃ r₁ q₁, r.effect s opened ⟨file, l⟩ = .carry r₁ ∧
      q.effect s opened ⟨file, l'⟩ = .carry q₁ ∧ r₁.said = q₁.said ∧
      r₁.document.included = r.document.included ∧
      q₁.document.included = q.document.included) ∨
    ∃ visited text, r.effect s opened ⟨file, l⟩ = .enter visited text (r.visit visited) ∧
      q.effect s opened ⟨file, l'⟩ = .enter visited text (q.visit visited) := by
  have htext : l'.text = l.text := (Line.text_eq_of_said hline).symm
  by_cases hflat : l.Flat
  · have hflat' : l'.Flat := by rwa [Line.Flat, htext]
    refine .inl ⟨_, _, effect_flat s opened r hflat, effect_flat s opened q hflat', ?_,
      included_plain r _ _, included_plain q _ _⟩
    rw [said_plain, said_plain, hsaid, Place.said, Place.said, hline, htext]
  · obtain ⟨target, hkind⟩ : ∃ target, LineKind.ofText l.text = .inclusion target := by
      simpa [Line.Flat] using hflat
    simp only [effect, htext, hkind]
    exact inclusion_said opened file target hsaid hline

end Reading

namespace Reads

variable {s : Setting} {opened : List Path} {file : Path} {lines lines' : List Line}
  {r r' q : Reading}

/-- A reading can be repeated with lines of the same texts from a state that says the same: it ends
in a state that says the same and visits the same files. -/
theorem transfer (h : Reads s opened file lines r r') (hsaid : r.said = q.said)
    (hlines : lines.map Line.said = lines'.map Line.said) :
    ∃ q' visited, Reads s opened file lines' q q' ∧ r'.said = q'.said ∧
      r'.document.included = r.document.included ++ visited ∧
      q'.document.included = q.document.included ++ visited := by
  induction h generalizing q lines' with
  | done =>
    obtain rfl : lines' = [] := by simpa using hlines.symm
    exact ⟨q, [], .done, hsaid, by simp, by simp⟩
  | @carry opened file l lines r r₁ r' effect rest ih =>
    obtain ⟨l', lines', rfl, hline, hrest⟩ := List.map_eq_cons_iff.1 hlines.symm
    rcases Reading.effect_said (s := s) (file :: opened) file hsaid hline.symm with
      ⟨r₂, q₁, hr, hq, hsaid₁, hincluded, hincluded'⟩ | ⟨visited, text, hr, hq⟩
    · obtain rfl : r₂ = r₁ := by simpa [hr] using effect
      obtain ⟨q', visited, hreads, hsaid', hr', hq'⟩ := ih hsaid₁ hrest.symm
      exact ⟨q', visited, .carry hq hreads, hsaid', hincluded ▸ hr', hincluded' ▸ hq'⟩
    · simp [hr] at effect
  | @enter opened file target l lines text r r₁ r₂ r' effect inner rest ihInner ihRest =>
    obtain ⟨l', lines', rfl, hline, hrest⟩ := List.map_eq_cons_iff.1 hlines.symm
    rcases Reading.effect_said (s := s) (file :: opened) file hsaid hline.symm with
      ⟨r₃, q₁, hr, hq, hsaid₁, hincluded, hincluded'⟩ | ⟨visited, text', hr, hq⟩
    · simp [hr] at effect
    · obtain ⟨rfl, rfl, rfl⟩ : visited = target ∧ text' = text ∧ r.visit visited = r₁ := by
        simpa [hr] using effect
      obtain ⟨q₂, inside, hreads, hsaid₂, hr₂, hq₂⟩ :=
        ihInner (q := q.visit visited) (by simpa using hsaid) rfl
      obtain ⟨q', after, hreads', hsaid', hr', hq'⟩ := ihRest hsaid₂ hrest.symm
      refine ⟨q', visited :: inside ++ after, .enter hq hreads hreads', hsaid', ?_, ?_⟩
      · simp [hr', hr₂]
      · simp [hq', hq₂]

/-- Lines that include no file are read alike in every file, from states that say the same. -/
theorem exists_flat (s : Setting) (opened opened' : List Path) (file file' : Path)
    (hflat : ∀ l ∈ lines, l.Flat) (hlines : lines.map Line.said = lines'.map Line.said)
    (hsaid : r.said = q.said) :
    ∃ r' q', Reads s opened file lines r r' ∧ Reads s opened' file' lines' q q' ∧
      r'.said = q'.said ∧ r'.document.included = r.document.included ∧
      q'.document.included = q.document.included := by
  induction lines generalizing lines' r q with
  | nil =>
    obtain rfl : lines' = [] := by simpa using hlines.symm
    exact ⟨r, q, .done, .done, hsaid, rfl, rfl⟩
  | cons l lines ih =>
    obtain ⟨l', lines', rfl, hline, hrest⟩ := List.map_eq_cons_iff.1 hlines.symm
    have htext : l'.text = l.text := Line.text_eq_of_said hline
    have hl : l.Flat := hflat l (by simp)
    have hl' : l'.Flat := by rwa [Line.Flat, htext]
    have hsaid₁ : (r.plain ⟨file, l⟩ (LineKind.ofText l.text)).said =
        (q.plain ⟨file', l'⟩ (LineKind.ofText l'.text)).said := by
      rw [Reading.said_plain, Reading.said_plain, hsaid, Place.said, Place.said, hline, htext]
    obtain ⟨r', q', hr, hq, hsaid', hincluded, hincluded'⟩ :=
      ih (fun m hm => hflat m (by simp [hm])) hrest.symm hsaid₁
    refine ⟨r', q', .carry (Reading.effect_flat s _ r hl) hr,
      .carry (Reading.effect_flat s _ q hl') hq, hsaid', ?_, ?_⟩
    · rw [hincluded, Reading.included_plain]
    · rw [hincluded', Reading.included_plain]

end Reads

namespace Machine

/-- A target without a dollar sign means the same file whatever the macros are. -/
theorem resolve_eq_of_not_mem {s : Setting} (macros : Macros) {including : Path} {target : Text}
    (h : '$' ∉ unquoted target) :
    resolve s macros including target = resolve s ∅ including target := by
  simp only [resolve, candidates, Macros.expand_eq_self _ h]

/-- An include is textual. The platform file says `a`, then one line that includes a file with the
text `c`, then `b`; the included file is another one than the platform file and includes none
itself. Then the document says what it says when `c` stands in the place of that line, and visits
the same files, apart from the included one after those that `a` visits. -/
theorem ofText_include {s : Setting} {file included : Path} {a b c i target : Text}
    (ha : Line.Complete a) (hi : Line.Complete i) (hc : Line.Complete c)
    (hline : (Line.ofText i).map (fun l => LineKind.ofText l.text) = [.inclusion target])
    (htarget : target ≠ [])
    (hresolve : resolve s (readingOf s file a).macros file target = included)
    (hdiff : ¬ included.Same file) (hread : s.sources.read included = .ok c)
    (hflat : ∀ l ∈ Line.ofText c, l.Flat) :
    (Document.ofText s file (a ++ i ++ b)).said = (Document.ofText s file (a ++ c ++ b)).said ∧
      ∃ after,
        (Document.ofText s file (a ++ i ++ b)).included =
          (Document.ofText s file a).included ++ included :: after ∧
        (Document.ofText s file (a ++ c ++ b)).included =
          (Document.ofText s file a).included ++ after := by
  obtain ⟨l, hl, hkind⟩ : ∃ l, Line.ofText i = [l] ∧ LineKind.ofText l.text = .inclusion target := by
    obtain ⟨l, rest, hl, hkind, hrest⟩ := List.map_eq_cons_iff.1 hline
    obtain rfl : rest = [] := by simpa using hrest
    exact ⟨l, hl, hkind⟩
  have hinclude := reads_readingOf s file (a ++ i ++ b)
  have hinline := reads_readingOf s file (a ++ c ++ b)
  rw [List.append_assoc, ha.ofText_append, hi.ofText_append, hl, List.map_append] at hinclude
  rw [List.append_assoc, ha.ofText_append, hc.ofText_append, List.map_append] at hinline
  -- both readings go through `a` to the same state
  obtain ⟨r, hr, hinclude⟩ := Reads.append_iff.1 hinclude
  obtain ⟨r', hr', hinline⟩ := Reads.append_iff.1 hinline
  obtain rfl := readingOf_eq hr
  obtain rfl := readingOf_eq hr'
  -- the include opens the file, and the two readings go through `c` alike
  obtain ⟨rc, qc, hrc, hqc, hsaid, hvisited, hvisited'⟩ :=
    Reads.exists_flat s [file] [] included file hflat (Line.map_said_moved _ _).symm
      (Reading.said_visit (readingOf s file a) included)
  have henter : (readingOf s file a).effect s [file] ⟨file, l.moved (Line.breaks a)⟩ =
      .enter included c ((readingOf s file a).visit included) := by
    have hopen : ¬ file.Same included := fun hsame => hdiff hsame.symm
    have htext : (l.moved (Line.breaks a)).text = l.text := rfl
    simp [Reading.effect, Reading.inclusion, htext, hkind, htarget, hresolve, hopen, hread]
  obtain ⟨q, hq, hinclude⟩ := Reads.append_iff.1 hinclude
  obtain rfl := hq.unique (.enter henter hrc .done)
  obtain ⟨q', hq', hinline⟩ := Reads.append_iff.1 hinline
  obtain rfl := hq'.unique hqc
  -- what follows is read from states that say the same
  have hsame : (((Line.ofText b).map (Line.moved (Line.breaks i))).map
        (Line.moved (Line.breaks a))).map Line.said =
      (((Line.ofText b).map (Line.moved (Line.breaks c))).map
        (Line.moved (Line.breaks a))).map Line.said := by
    simp only [Line.map_said_moved]
  obtain ⟨p, after, hp, hend, hafter, hafter'⟩ := hinclude.transfer hsaid hsame
  obtain rfl := hp.unique hinline
  rw [List.append_assoc, List.append_assoc]
  simp only [ofText_eq_finish, Reading.included_finish]
  refine ⟨Reading.said_finish_document hend, after, ?_, ?_⟩
  · rw [hafter, hvisited, Reading.included_visit, List.append_assoc, List.singleton_append]
  · rw [hafter', hvisited']

/-- A workspace with a file that opens a component block. -/
def openedBlock : Setting :=
  ⟨(FileSet.empty.write ⟨"/ws/x.inc"⟩ "A/A.inf \x7b\n").sources, some ⟨"/ws"⟩⟩

/-- A block that an included file opens in a section of the including one is closed by it. -/
theorem ofText_include_openedBlock :
    (Document.ofText openedBlock ⟨"/ws/p.dsc"⟩
        ("[Components]\n" ++ "!include x.inc\n" ++ "\x7d\n" : Text)).said =
      (Document.ofText openedBlock ⟨"/ws/p.dsc"⟩
        ("[Components]\n" ++ "A/A.inf \x7b\n" ++ "\x7d\n" : Text)).said := by
  have hline : (Line.ofText "!include x.inc\n").map (fun l => LineKind.ofText l.text) =
      [.inclusion "x.inc"] := by decide +kernel
  have hresolve : resolve openedBlock (readingOf openedBlock ⟨"/ws/p.dsc"⟩ "[Components]\n").macros
      ⟨"/ws/p.dsc"⟩ "x.inc" = ⟨"/ws/x.inc"⟩ := by
    rw [resolve_eq_of_not_mem _ (by decide)]
    decide +kernel
  have hread : openedBlock.sources.read ⟨"/ws/x.inc"⟩ = .ok "A/A.inf \x7b\n" := by cbv
  exact (ofText_include (.inr ⟨"[Components]", "[Components]", by decide, by decide, by decide⟩)
    (.inr ⟨"!include x.inc", "!include x.inc", by decide, by decide, by decide⟩)
    (.inr ⟨"A/A.inf \x7b", "A/A.inf \x7b", by decide, by decide, by decide⟩)
    hline (by decide) hresolve (by decide) hread (by decide +kernel)).1

end Machine

end FirmwareIndex
