import FirmwareIndex.Proofs.Section.Buckets
import FirmwareIndex.Proofs.Section.Lines
import FirmwareIndex.Proofs.Section.Partition

/-!
# A line in its surroundings

A line without backslashes and line breaks is read as it stands, whatever is written around it: when
a line begins behind the text before it, the lines of the whole are those of the two sides with the
line between them (`Sections.linesOf_append`), and the line belongs to the section of the last header
before it (`Sections.exists_get_append`). A logical line whose first physical line does not go on is
made of that line alone (`Line.text_eq_normalize`).
-/

set_option autoImplicit false

namespace FirmwareIndex

namespace Sections

/-- The text with continued lines joined, and with a line feed for every line break. -/
def unfolded (t : Text) : Text :=
  unifyBreaks (joinNarrow (joinWide t))

/-- A line begins behind the text: nothing is there, or a line break that is not taken out. -/
def LineBegins (front : Text) : Prop :=
  unfolded front = [] ∨ (unfolded front).getLast? = some '\n'

/-- A line ends before the text: nothing is there, or a line break. -/
def LineEnds (back : Text) : Prop :=
  back = [] ∨ back.head? = some '\n' ∨ back.head? = some '\r'

/-- The character is no part of a line break, and takes none out. -/
def Plain (c : Char) : Prop :=
  c ≠ '\\' ∧ c ≠ '\n' ∧ c ≠ '\r'

section Unfolded

variable {front line back t : Text} {c : Char}

/-- The lines of a text are those of its unfolded text in normal form. -/
theorem linesOf_eq (t : Text) : linesOf t = ((unfolded t).splitOn '\n').map Line.normalize :=
  rfl

/-- A character that is no carriage return is kept. -/
theorem unifyBreaks_cons (hc : c ≠ '\r') (t : Text) :
    unifyBreaks (c :: t) = c :: unifyBreaks t := by
  rw [unifyBreaks]
  · exact fun _ heq _ => hc heq
  · exact hc

/-- A plain character is kept. -/
theorem unfolded_cons (hc : Plain c) (t : Text) : unfolded (c :: t) = c :: unfolded t := by
  obtain ⟨hslash, _, hreturn⟩ := hc
  rw [unfolded, joinWide_cons hslash, joinNarrow_cons fun heq => absurd heq hslash,
    unifyBreaks_cons hreturn, unfolded]

/-- A wide break behind a backslash is taken out on each side, if it does not stand on both. -/
theorem joinWide_append (hreturn : back.head? = some '\r' → front.getLast? ≠ some '\\')
    (hfeed : back.head? = some '\n' → front.getLast? ≠ some '\r') :
    joinWide (front ++ back) = joinWide front ++ joinWide back := by
  fun_induction joinWide front with
  | case1 front ih =>
    cases front with
    | nil => rfl
    | cons d front => exact ih hreturn hfeed
  | case2 d front hbreak ih =>
    have hrest : joinWide (front ++ back) = joinWide front ++ joinWide back := by
      cases front with
      | nil => rfl
      | cons e front => exact ih hreturn hfeed
    rw [List.cons_append, joinWide, hrest, List.cons_append]
    -- a break that is taken out does not reach into what follows
    rintro rest rfl hjoined
    rcases front with _ | ⟨e, _ | ⟨f, front⟩⟩
    · exact hreturn (by rw [show back = '\r' :: '\n' :: rest from hjoined]; rfl) rfl
    · obtain ⟨rfl, rfl⟩ := List.cons.inj hjoined
      exact hfeed rfl rfl
    · simp only [List.cons_append, List.cons.injEq] at hjoined
      obtain ⟨rfl, rfl, _⟩ := hjoined
      exact hbreak front rfl rfl
  | case3 => rfl

/-- Joining goes piece by piece, unless the pieces meet in a backslash and a line feed. -/
theorem joinNarrow_append (hfeed : back.head? = some '\n' → front.getLast? ≠ some '\\') :
    joinNarrow (front ++ back) = joinNarrow front ++ joinNarrow back := by
  fun_induction joinNarrow front with
  | case1 front ih =>
    cases front with
    | nil => rfl
    | cons d front => exact ih hfeed
  | case2 d front hbreak ih =>
    have hrest : joinNarrow (front ++ back) = joinNarrow front ++ joinNarrow back := by
      cases front with
      | nil => rfl
      | cons e front => exact ih hfeed
    rw [List.cons_append, joinNarrow, hrest, List.cons_append]
    rintro rest rfl hjoined
    cases front with
    | nil => exact hfeed (by rw [show back = '\n' :: rest from hjoined]; rfl) rfl
    | cons e front =>
      obtain ⟨rfl, _⟩ := List.cons.inj hjoined
      exact hbreak front rfl rfl
  | case3 => rfl

/-- Line breaks are unified piece by piece, unless the pieces meet within one. -/
theorem unifyBreaks_append (hfeed : back.head? = some '\n' → front.getLast? ≠ some '\r') :
    unifyBreaks (front ++ back) = unifyBreaks front ++ unifyBreaks back := by
  fun_induction unifyBreaks front with
  | case1 front ih =>
    cases front with
    | nil => rfl
    | cons d front => exact congrArg (List.cons '\n') (ih hfeed)
  | case2 front hbreak ih =>
    have hrest : unifyBreaks (front ++ back) = unifyBreaks front ++ unifyBreaks back := by
      cases front with
      | nil => rfl
      | cons e front => exact ih hfeed
    rw [List.cons_append, unifyBreaks, hrest, List.cons_append]
    intro rest hjoined
    cases front with
    | nil => exact hfeed (by rw [show back = '\n' :: rest from hjoined]; rfl) rfl
    | cons e front =>
      obtain ⟨rfl, _⟩ := List.cons.inj hjoined
      exact hbreak front rfl
  | case3 d front _ hreturn ih =>
    have hrest : unifyBreaks (front ++ back) = unifyBreaks front ++ unifyBreaks back := by
      cases front with
      | nil => rfl
      | cons e front => exact ih hfeed
    rw [List.cons_append, unifyBreaks_cons hreturn, hrest, List.cons_append]
  | case4 => rfl

/-- No line break goes from a text over into a line behind it. -/
theorem unfolded_append (hc : Plain c) (front t : Text) :
    unfolded (front ++ c :: t) = unfolded front ++ unfolded (c :: t) := by
  have hwide : joinWide (c :: t) = c :: joinWide t := joinWide_cons hc.1 t
  have hnarrow : joinNarrow (c :: joinWide t) = c :: joinNarrow (joinWide t) :=
    joinNarrow_cons fun heq => absurd heq hc.1
  have hfeed : ∀ t : Text, (c :: t).head? ≠ some '\n' := fun _ heq =>
    hc.2.1 (Option.some.inj heq)
  have hreturn : (c :: t).head? ≠ some '\r' := fun heq => hc.2.2 (Option.some.inj heq)
  rw [unfolded, joinWide_append (fun heq => absurd heq hreturn) (fun heq => absurd heq (hfeed t)),
    hwide, joinNarrow_append (fun heq => absurd heq (hfeed _)), hnarrow,
    unifyBreaks_append (fun heq => absurd heq (hfeed _)), unfolded, unfolded, hwide, hnarrow]

/-- A line of plain characters is kept in front of any text. -/
theorem unfolded_line (hline : ∀ c ∈ line, Plain c) (back : Text) :
    unfolded (line ++ back) = line ++ unfolded back := by
  induction line with
  | nil => rfl
  | cons c line ih =>
    obtain ⟨hc, hrest⟩ := List.forall_mem_cons.1 hline
    rw [List.cons_append, unfolded_cons hc, ih hrest, List.cons_append]

/-- A carriage return becomes a line feed, with or without one behind it. -/
theorem exists_unifyBreaks_return (t : Text) : ∃ u, unifyBreaks ('\r' :: t) = '\n' :: u := by
  by_cases hfeed : ∃ u, t = '\n' :: u
  · obtain ⟨u, rfl⟩ := hfeed
    exact ⟨_, rfl⟩
  · refine ⟨unifyBreaks t, ?_⟩
    rw [unifyBreaks]
    exact fun u heq => hfeed ⟨u, heq⟩

/-- A line that ends before a text is not joined with it. -/
theorem LineEnds.unfolded (h : LineEnds back) :
    unfolded back = [] ∨ ∃ t, unfolded back = '\n' :: t := by
  rcases h with rfl | hfeed | hreturn
  · exact .inl rfl
  · obtain ⟨t, rfl⟩ := List.head?_eq_some_iff.1 hfeed
    exact .inr ⟨_, by
      rw [Sections.unfolded, joinWide_cons (by decide), joinNarrow_cons (by simp),
        unifyBreaks_cons (by decide)]⟩
  · obtain ⟨t, rfl⟩ := List.head?_eq_some_iff.1 hreturn
    rw [Sections.unfolded, joinWide_cons (by decide), joinNarrow_cons (by simp)]
    exact .inr (exists_unifyBreaks_return _)

/-- The lines of a line and what follows it. -/
theorem splitOn_line (hfeed : '\n' ∉ line) (h : LineEnds back) :
    ∃ after, (line ++ unfolded back).splitOn '\n' = line :: after := by
  rcases h.unfolded with heq | ⟨t, heq⟩
  · exact ⟨[], by rw [heq, List.append_nil, List.splitOn_eq_singleton hfeed]⟩
  · refine ⟨t.splitOn '\n', ?_⟩
    rw [heq, List.splitOn_append_cons_self, List.splitOn_eq_singleton hfeed, List.singleton_append]

/-- A line stands between the lines before it and after it. -/
theorem linesOf_append (hbegins : LineBegins front) (hline : ∀ c ∈ line, Plain c) (hne : line ≠ [])
    (hends : LineEnds back) :
    ∃ before after, linesOf (front ++ (line ++ back)) = before ++ Line.normalize line :: after ∧
      headers before = headers (linesOf front) := by
  have hfeed : '\n' ∉ line := fun hmem => (hline _ hmem).2.1 rfl
  obtain ⟨after, hafter⟩ := splitOn_line hfeed hends
  have hunfolded : unfolded (front ++ (line ++ back)) =
      unfolded front ++ (line ++ unfolded back) := by
    obtain ⟨c, rest, rfl⟩ := List.exists_cons_of_ne_nil hne
    rw [List.cons_append, unfolded_append (hline c List.mem_cons_self), ← List.cons_append,
      unfolded_line hline]
  rw [linesOf_eq, linesOf_eq, hunfolded]
  rcases hbegins with hnil | hlast
  · exact ⟨[], after.map Line.normalize, by rw [hnil, List.nil_append, hafter]; rfl, by
      rw [hnil]; rfl⟩
  · obtain ⟨t, ht⟩ := List.getLast?_eq_some_iff.1 hlast
    refine ⟨(t.splitOn '\n').map Line.normalize, after.map Line.normalize, ?_, ?_⟩
    · rw [ht, List.append_assoc, List.singleton_append, List.splitOn_append_cons_self, hafter]
      simp
    · -- the empty piece behind the last line feed is no header
      rw [ht, List.splitOn_append_cons_self]
      simp [headers, Line.normalize, Text.before, Line.collapse, Line.collapseFrom, Line.writeRun,
        Text.trim, Text.trimStart, Text.trimEnd]

end Unfolded

section Standing

variable {front line back : Text} {h : Header}

/-- The lines after some others stand under the last header of those, if they have one. -/
theorem standing_append (current : Option Header) (before after : List Text) :
    standing current (before ++ after) =
      standing current before ++ standing ((headers before).getLast?.or current) after := by
  induction before generalizing current with
  | nil => rfl
  | cons line before ih =>
    rw [List.cons_append, standing, standing, ih, ih]
    by_cases hline : line.head? = some '['
    · have hheaders : headers (line :: before) = Header.ofLine line :: headers before := by
        simp [headers, hline]
      rw [if_pos hline, if_pos hline, hheaders, List.getLast?_cons]
      cases (headers before).getLast? <;> rfl
    · have hheaders : headers (line :: before) = headers before := by simp [headers, hline]
      rw [if_neg hline, if_neg hline, hheaders, List.append_assoc]

/-- Empty lines are no headers. -/
theorem headers_filter (lines : List Text) : headers (lines.filter (· ≠ [])) = headers lines := by
  rw [headers, headers, List.filter_filter]
  refine congrArg (List.map Header.ofLine) (List.filter_congr fun line _ => ?_)
  cases line <;> simp

/-- A line among others belongs to the section of the last header before it. -/
theorem exists_get_eq {t : Text} {before after : List Text}
    (hlines : linesOf t = before ++ line :: after)
    (hheader : (headers before).getLast? = some h) (hne : line ≠ []) (hentry : line.head? ≠ some '[')
    {name : Text} (hname : Header.canonical name = h.key) :
    ∃ earlier later, (ofText t).get name = earlier ++ line :: later := by
  have hfaithful := (faithful_ofText t).merged h.key
  have hfilter : (linesOf t).filter (· ≠ []) =
      before.filter (· ≠ []) ++ line :: after.filter (· ≠ []) := by
    rw [hlines, List.filter_append, List.filter_cons_of_pos (by simpa using hne)]
  have hstanding : standing none ((linesOf t).filter (· ≠ [])) =
      standing none (before.filter (· ≠ [])) ++
        (h, line) :: standing (some h) (after.filter (· ≠ [])) := by
    rw [hfilter, standing_append, headers_filter, hheader, Option.some_or, standing, if_neg hentry]
    rfl
  have hnamed : h.key ∈ (headers ((linesOf t).filter (· ≠ []))).map Header.key := by
    rw [headers_filter, hlines]
    refine List.mem_map_of_mem ?_
    rw [headers, List.filter_append, List.map_append]
    exact List.mem_append_left _ (List.mem_of_getLast? hheader)
  rw [if_pos hnamed, hstanding, ofKey, List.filter_append,
    List.filter_cons_of_pos (by simp), List.map_append, List.map_cons] at hfaithful
  exact ⟨_, _, by rw [get, get?, hname, hfaithful, Option.getD_some]⟩

/-- A line in a text belongs to the section of the last header before it. -/
theorem exists_get_append (hbegins : LineBegins front) (hline : ∀ c ∈ line, Plain c)
    (hends : LineEnds back) (hheader : (headers (linesOf front)).getLast? = some h)
    (hne : Line.normalize line ≠ []) (hentry : (Line.normalize line).head? ≠ some '[')
    {name : Text} (hname : Header.canonical name = h.key) :
    ∃ earlier later, (ofText (front ++ (line ++ back))).get name =
      earlier ++ Line.normalize line :: later := by
  have hnil : line ≠ [] := by
    rintro rfl
    exact hne rfl
  obtain ⟨before, after, hlines, hheaders⟩ := linesOf_append hbegins hline hnil hends
  exact exists_get_eq hlines (hheaders ▸ hheader) hne hentry hname

end Standing

end Sections

namespace Line

/-- A logical line whose first physical line does not go on is made of that line alone. -/
theorem text_eq_normalize {t : Text} {l : Line} (hl : l ∈ ofText t)
    (hends : l.raw.getLast? ≠ some '\\') : l.text = normalize l.raw := by
  rw [(partitions_ofText t).entries] at hl
  obtain ⟨place, hplace, hentry⟩ := List.mem_filterMap.1 hl
  obtain ⟨before, after, hruns, _⟩ := exists_of_mem_numbered hplace
  have hgrouped := grouped_runs (physical t)
  have hmem : place.2 ∈ runs (physical t) := by rw [hruns]; simp
  obtain ⟨first, others, hrun⟩ := List.exists_cons_of_ne_nil (hgrouped.ne_nil _ hmem)
  have hraw : l.raw = first := by rw [(ofRun?_eq_some hentry).2, hrun, List.headD_cons]
  have hothers : others = [] := by
    by_contra hne
    refine hends (hraw ▸ hgrouped.continued _ hmem first ?_)
    rw [hrun, List.dropLast_cons_of_ne_nil hne]
    exact List.mem_cons_self
  have hjoined : joined place.2 = first := by
    rw [hrun, hothers, joined_cons, stripLast?_eq_none_iff.2 (hraw ▸ hends)]
    exact List.append_nil first
  unfold ofRun? at hentry
  split at hentry
  · cases hentry
  · obtain rfl := Option.some.inj hentry
    rw [hraw, ← hjoined]

/-- A physical line ends before the text: nothing is there, or a line feed, which may have a carriage
return before it. -/
def Ends (back : Text) : Prop :=
  back = [] ∨ (∃ rest, back = '\n' :: rest) ∨ ∃ rest, back = '\r' :: '\n' :: rest

/-- A line without line breaks is a physical line. -/
theorem exists_physical_eq {line back : Text} (hline : ∀ c ∈ line, Sections.Plain c)
    (hends : Ends back) : ∃ others, physical (line ++ back) = line :: others := by
  have hfeed : '\n' ∉ line := fun hmem => (hline _ hmem).2.1 rfl
  have hreturn : stripLast? '\r' line = none :=
    stripLast?_eq_none_iff.2 fun hlast => (hline _ (List.mem_of_getLast? hlast)).2.2 rfl
  have hline : physical line = [line] := by
    rw [physical, List.splitOn_eq_singleton hfeed, List.map_singleton, hreturn, Option.getD_none]
  rcases hends with rfl | ⟨rest, rfl⟩ | ⟨rest, rfl⟩
  · exact ⟨[], by rw [List.append_nil, hline]⟩
  · exact ⟨physical rest, by rw [physical_append_cons, hline, List.singleton_append]⟩
  · have hbroken : physical (line ++ ['\r']) = [line] := by
      rw [physical, List.splitOn_eq_singleton (by simpa using hfeed), List.map_singleton,
        stripLast?_eq_some_iff.2 rfl, Option.getD_some]
    refine ⟨physical rest, ?_⟩
    rw [List.append_cons line, physical_append_cons, hbroken, List.singleton_append]

/-- A line without backslashes and line breaks is a logical line where it begins behind a complete
text. -/
theorem mem_ofText_append {front line back : Text} (hfront : Complete front)
    (hline : ∀ c ∈ line, Sections.Plain c) (hne : normalize line ≠ []) (hends : Ends back) :
    ⟨breaks front, normalize line, line⟩ ∈ ofText (front ++ (line ++ back)) := by
  obtain ⟨others, hphysical⟩ := exists_physical_eq hline hends
  have hgoes : stripLast? '\\' line = none :=
    stripLast?_eq_none_iff.2 fun hlast => (hline _ (List.mem_of_getLast? hlast)).1 rfl
  have hfirst : (⟨0, normalize line, line⟩ : Line) ∈ ofText (line ++ back) := by
    rw [ofText, hphysical, gather, hgoes]
    simp [Open.close, hne]
  rw [hfront.ofText_append]
  exact List.mem_append_right _ (List.mem_map.2 ⟨_, hfirst, rfl⟩)

end Line

end FirmwareIndex
