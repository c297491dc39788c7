import MessageRouting.Proofs.Journal.TornFiles

/-!
# Journal files of any bytes

What is found at the path of a journal need not have been written by one. It is
opened all the same unless a line of it, ended by a newline, is neither blank
nor an entry. Then the entries are replayed in order, and a last piece without
a newline is dropped if it is neither blank nor an entry, and ended by a newline
otherwise. So the file is one of whole lines: it is opened again as it is, and
what is written later stands on lines of its own.

Results:

* `segments_eq`: the segments of a file are its lines and its last piece.
* `openBytes?_eq_none_iff`, `openBytes?_of_not_broken`: what is opened.
* `openBytes?_mended_append`: what is opened of a mended file and lines behind it.
* `opens_any`: all of it, for a journal in use.
-/

namespace MessageRouting

/-! ## Lines and the last piece -/

/-- The lines of a file that are ended by a newline, each with it. -/
def wholeLines (contents : Bytes) : List Bytes :=
  (contents.splitOn newline).dropLast.map (· ++ [newline])

/-- What stands behind the last newline of a file. -/
def lastPiece (contents : Bytes) : Bytes := (contents.splitOn newline).getLastD []

/-- Bytes are a line and then others, as long as there is a newline in them. -/
theorem lines_induction {P : Bytes → Prop} (piece : ∀ t, newline ∉ t → P t)
    (line : ∀ l rest, newline ∉ l → P rest → P (l ++ newline :: rest)) (bytes : Bytes) :
    P bytes := by
  by_cases h : newline ∈ bytes
  · obtain ⟨l, rest, heq, hl⟩ := List.eq_append_cons_of_mem h
    rw [heq]
    exact line l rest hl (lines_induction piece line rest)
  · exact piece bytes h
termination_by bytes.length
decreasing_by
  rw [heq, List.length_append, List.length_cons]
  omega

section

variable {l t : Bytes} (contents rest : Bytes)

theorem wholeLines_of_no_newline (h : newline ∉ t) : wholeLines t = [] := by
  rw [wholeLines, List.splitOn_eq_singleton h]
  rfl

theorem lastPiece_of_no_newline (h : newline ∉ t) : lastPiece t = t := by
  rw [lastPiece, List.splitOn_eq_singleton h]
  rfl

theorem wholeLines_line_append (h : newline ∉ l) :
    wholeLines (l ++ newline :: rest) = (l ++ [newline]) :: wholeLines rest := by
  rw [wholeLines, List.splitOn_append_cons_self_of_not_mem h,
    List.dropLast_cons_of_ne_nil (List.splitOn_ne_nil newline rest)]
  rfl

theorem lastPiece_line_append (h : newline ∉ l) :
    lastPiece (l ++ newline :: rest) = lastPiece rest := by
  obtain ⟨p, ps, hsplit⟩ := List.exists_cons_of_ne_nil (List.splitOn_ne_nil newline rest)
  rw [lastPiece, lastPiece, List.splitOn_append_cons_self_of_not_mem h, hsplit]
  rfl

theorem newline_not_mem_lastPiece : newline ∉ lastPiece contents := by
  induction contents using lines_induction with
  | piece t ht => rwa [lastPiece_of_no_newline ht]
  | line l rest hl ih => rwa [lastPiece_line_append rest hl]

/-- The lines of a file and its last piece are all there is in it. -/
theorem flatten_wholeLines : (wholeLines contents).flatten ++ lastPiece contents = contents := by
  induction contents using lines_induction with
  | piece t ht =>
    rw [wholeLines_of_no_newline ht, lastPiece_of_no_newline ht]
    rfl
  | line l rest hl ih =>
    rw [wholeLines_line_append rest hl, lastPiece_line_append rest hl, List.flatten_cons,
      List.append_assoc, ih]
    simp

/-- What stands behind whole lines begins a line of its own. -/
theorem wholeLines_append (h : lastPiece contents = []) :
    wholeLines (contents ++ rest) = wholeLines contents ++ wholeLines rest ∧
      lastPiece (contents ++ rest) = lastPiece rest := by
  induction contents using lines_induction with
  | piece t ht =>
    rw [lastPiece_of_no_newline ht] at h
    subst h
    exact ⟨rfl, rfl⟩
  | line l more hl ih =>
    rw [lastPiece_line_append more hl] at h
    rw [List.append_assoc, List.cons_append, wholeLines_line_append _ hl,
      wholeLines_line_append _ hl, lastPiece_line_append _ hl, (ih h).1, (ih h).2]
    exact ⟨rfl, rfl⟩

/-- A newline makes the last piece a line. -/
theorem wholeLines_append_newline :
    wholeLines (contents ++ [newline]) = wholeLines contents ++ [lastPiece contents ++ [newline]] ∧
      lastPiece (contents ++ [newline]) = [] := by
  induction contents using lines_induction with
  | piece t ht =>
    rw [wholeLines_line_append [] ht, lastPiece_line_append [] ht, wholeLines_of_no_newline ht,
      lastPiece_of_no_newline ht]
    exact ⟨rfl, rfl⟩
  | line l rest hl ih =>
    rw [List.append_assoc, List.cons_append, wholeLines_line_append _ hl,
      wholeLines_line_append _ hl, lastPiece_line_append _ hl, lastPiece_line_append _ hl,
      ih.1, ih.2]
    exact ⟨rfl, rfl⟩

/-- The lines alone have no last piece. -/
theorem wholeLines_flatten :
    wholeLines (wholeLines contents).flatten = wholeLines contents ∧
      lastPiece (wholeLines contents).flatten = [] := by
  induction contents using lines_induction with
  | piece t ht =>
    rw [wholeLines_of_no_newline ht]
    exact ⟨rfl, rfl⟩
  | line l rest hl ih =>
    have hfile : (wholeLines (l ++ newline :: rest)).flatten =
        l ++ newline :: (wholeLines rest).flatten := by
      rw [wholeLines_line_append rest hl]
      simp
    rw [hfile, wholeLines_line_append _ hl, lastPiece_line_append _ hl, ih.1, ih.2,
      wholeLines_line_append _ hl]
    exact ⟨rfl, rfl⟩

/-- The segments of a file are its lines and its last piece, unless this is empty. -/
theorem segments_eq :
    segments contents = (wholeLines contents).map (⟨·, true⟩) ++
      (if lastPiece contents = [] then [] else [⟨lastPiece contents, false⟩]) := by
  induction contents using lines_induction with
  | piece t ht =>
    rw [wholeLines_of_no_newline ht, lastPiece_of_no_newline ht]
    split
    · rename_i hnil
      rw [hnil]
      rfl
    · rename_i hne
      exact segments_of_no_newline ht hne
  | line l rest hl ih =>
    rw [segments_line_append hl, wholeLines_line_append rest hl, lastPiece_line_append rest hl, ih]
    rfl

/-- Without a newline more bytes only make the last piece longer. -/
theorem lastPiece_append (h : newline ∉ t) :
    lastPiece (contents ++ t) = lastPiece contents ++ t := by
  induction contents using lines_induction with
  | piece p hp =>
    have hboth : newline ∉ p ++ t := by
      rw [List.mem_append, not_or]
      exact ⟨hp, h⟩
    rw [lastPiece_of_no_newline hp, lastPiece_of_no_newline hboth]
  | line l rest hl ih =>
    rw [List.append_assoc, List.cons_append, lastPiece_line_append _ hl, lastPiece_line_append _ hl,
      ih]

/-- A file is empty or ends with a newline if nothing stands behind its last newline. -/
theorem endsLine_eq : JournalFile.endsLine contents = decide (lastPiece contents = []) := by
  rcases List.eq_nil_or_concat contents with rfl | ⟨bs, b, rfl⟩
  · rfl
  have hends : JournalFile.endsLine (bs ++ [b]) = decide (b = newline) := by
    rw [JournalFile.endsLine, List.getLast?_concat]
    rfl
  rw [List.concat_eq_append, hends]
  by_cases hb : b = newline
  · rw [hb, (wholeLines_append_newline bs).2]
    rfl
  · have hlast : lastPiece (bs ++ [b]) = lastPiece bs ++ [b] :=
      lastPiece_append bs fun h => hb (List.mem_singleton.1 h).symm
    rw [hlast]
    simp [hb]

end

/-! ## What lines spell -/

/-- Whether the line holds nothing but blanks. -/
def isBlankLine (l : Bytes) : Bool := l.all isBlankByte

/-- Whether the line is neither blank nor an entry. -/
def isUnreadable (l : Bytes) : Bool := !isBlankLine l && (Entry.ofBytes? l).isNone

/-- The entries that the lines spell; blank lines spell none. -/
def spelled (ls : List Bytes) : List Entry :=
  (ls.filter fun l => !isBlankLine l).filterMap Entry.ofBytes?

theorem spelled_append (ls ms : List Bytes) : spelled (ls ++ ms) = spelled ls ++ spelled ms := by
  rw [spelled, List.filter_append, List.filterMap_append]
  rfl

theorem spelled_of_blank {l : Bytes} (h : isBlankLine l = true) : spelled [l] = [] := by
  simp [spelled, h]

theorem spelled_of_unreadable {l : Bytes} (h : isUnreadable l = true) : spelled [l] = [] := by
  simp only [isUnreadable, Bool.and_eq_true, Bool.not_eq_true', Option.isNone_iff_eq_none] at h
  simp [spelled, h.1, h.2]

theorem spelled_of_entry {l : Bytes} {e : Entry} (hblank : isBlankLine l = false)
    (he : Entry.ofBytes? l = some e) : spelled [l] = [e] := by
  simp [spelled, hblank, he]

/-- A line is blank, or unreadable, or an entry. -/
theorem line_cases (l : Bytes) : isBlankLine l = true ∨ isUnreadable l = true ∨
    isBlankLine l = false ∧ ∃ e, Entry.ofBytes? l = some e := by
  cases hblank : isBlankLine l with
  | true => exact .inl rfl
  | false =>
    cases he : Entry.ofBytes? l with
    | none => exact .inr (.inl (by rw [isUnreadable, hblank, he]; rfl))
    | some e => exact .inr (.inr ⟨rfl, e, rfl⟩)

theorem isUnreadable_of_blank {l : Bytes} (h : isBlankLine l = true) : isUnreadable l = false := by
  rw [isUnreadable, h]
  rfl

theorem isUnreadable_of_entry {l : Bytes} {e : Entry} (h : Entry.ofBytes? l = some e) :
    isUnreadable l = false := by
  rw [isUnreadable, h]
  exact Bool.and_false _

theorem isBlankLine_append_newline (l : Bytes) :
    isBlankLine (l ++ [newline]) = isBlankLine l := by
  rw [isBlankLine, List.all_append]
  exact Bool.and_true _

/-! ## A newline behind an entry -/

namespace Json

theorem skipBlank_append_newline {cs : List Char} (h : skipBlank cs = []) :
    skipBlank (cs ++ ['\n']) = [] := by
  induction cs with
  | nil => rfl
  | cons c cs ih =>
    rw [skipBlank] at h
    split at h
    · rename_i hc
      rw [List.cons_append, skipBlank, if_pos hc]
      exact ih h
    · cases h

/-- A value that is no number is read with a newline behind it as well. -/
theorem parse_append_newline {cs : List Char} {v : Value} (h : parse true cs = some v)
    (hnumber : ∀ n, v ≠ .number n) : parse true (cs ++ ['\n']) = some v := by
  obtain ⟨rest, hread, hrest⟩ := parse_strict_eq_some_iff.1 h
  have hcs : skipBlank cs ≠ [] := fun hnil => by
    rw [hnil] at hread
    cases hread
  refine parse_strict_eq_some_iff.2 ⟨rest ++ ['\n'], ?_, skipBlank_append_newline hrest⟩
  rw [skipBlank_append hcs]
  exact readValue_append (by rw [List.length_append]; omega) hread hnumber _

end Json

namespace Entry

theorem ne_number_of_ofJson? {v : Json.Value} {e : Entry} (h : Entry.ofJson? v = some e)
    (n : Json.Number) : v ≠ .number n := by
  rintro rfl
  cases h

/-- An entry is found with a newline behind it as well. -/
theorem ofBytes?_append_newline {l : Bytes} {e : Entry} (h : Entry.ofBytes? l = some e) :
    Entry.ofBytes? (l ++ [newline]) = some e := by
  obtain ⟨cs, hcs, hparsed⟩ := Option.bind_eq_some_iff.1 h
  obtain ⟨v, hv, he⟩ := Option.bind_eq_some_iff.1 hparsed
  have hdecode : Utf8.decode (l ++ [newline]) = some (cs ++ ['\n']) := by
    rw [Utf8.decode_append hcs]
    rfl
  have hparse := Json.parse_append_newline hv (ne_number_of_ofJson? he)
  rw [ofBytes?, hdecode]
  simp only [Option.bind_eq_bind, Option.bind_some, hparse]
  exact he

end Entry

/-- A newline changes nothing in what a piece spells. -/
theorem spelled_append_newline {l : Bytes} (h : isUnreadable l = false) :
    isUnreadable (l ++ [newline]) = false ∧ spelled [l ++ [newline]] = spelled [l] := by
  rcases line_cases l with hblank | hbad | ⟨hblank, e, he⟩
  · have hblank' := (isBlankLine_append_newline l).trans hblank
    exact ⟨isUnreadable_of_blank hblank',
      (spelled_of_blank hblank').trans (spelled_of_blank hblank).symm⟩
  · rw [h] at hbad
    cases hbad
  · have he' := Entry.ofBytes?_append_newline he
    have hblank' := (isBlankLine_append_newline l).trans hblank
    exact ⟨isUnreadable_of_entry he',
      (spelled_of_entry hblank' he').trans (spelled_of_entry hblank he).symm⟩

namespace JournalFile

/-! ## Replaying -/

theorem segment?_eq {l : Bytes} (h : isUnreadable l = false) (complete : Bool) (r : Replay)
    (offset : Nat) :
    r.segment? offset ⟨l, complete⟩ =
      some { r with ledger := r.ledger.applyAll (spelled [l]),
                    entries := r.entries + (spelled [l]).length } := by
  rcases line_cases l with hblank | hbad | ⟨hblank, e, he⟩
  · rw [spelled_of_blank hblank]
    exact if_pos hblank
  · rw [h] at hbad
    cases hbad
  · rw [spelled_of_entry hblank he, Replay.segment?,
      if_neg (show ¬ (Segment.mk l complete).isBlank = true from Bool.eq_false_iff.1 hblank)]
    simp only [he]
    rfl

theorem segment?_of_unreadable {l : Bytes} (h : isUnreadable l = true) (complete : Bool)
    (r : Replay) (offset : Nat) :
    r.segment? offset ⟨l, complete⟩ =
      if complete then none else some { r with tornAt := some offset } := by
  simp only [isUnreadable, Bool.and_eq_true, Bool.not_eq_true', Option.isNone_iff_eq_none] at h
  rw [Replay.segment?,
    if_neg (show ¬ (Segment.mk l complete).isBlank = true from Bool.eq_false_iff.1 h.1)]
  simp only [h.2]

/-- A line that is neither blank nor an entry ends the replay. -/
theorem replay?_of_unreadable {ls : List Bytes} (h : ∃ l ∈ ls, isUnreadable l = true)
    (more : List Segment) (offset : Nat) (r : Replay) :
    replay? (ls.map (⟨·, true⟩) ++ more) offset r = none := by
  induction ls generalizing offset r with
  | nil =>
    obtain ⟨l, hl, -⟩ := h
    cases hl
  | cons l ls ih =>
    rw [List.map_cons, List.cons_append, replay?, Option.bind_eq_bind]
    cases hl : isUnreadable l with
    | true =>
      rw [segment?_of_unreadable hl]
      rfl
    | false =>
      rw [segment?_eq hl, Option.bind_some]
      obtain ⟨m, hm, hbad⟩ := h
      rcases List.mem_cons.1 hm with rfl | hm
      · rw [hl] at hbad
        cases hbad
      · exact ih ⟨m, hm, hbad⟩ _ _

/-- Readable lines are replayed one after the other. -/
theorem replay?_of_readable {ls : List Bytes} (h : ∀ l ∈ ls, isUnreadable l = false)
    (more : List Segment) (offset : Nat) (r : Replay) :
    replay? (ls.map (⟨·, true⟩) ++ more) offset r =
      replay? more (offset + ls.flatten.length)
        { r with ledger := r.ledger.applyAll (spelled ls),
                 entries := r.entries + (spelled ls).length } := by
  induction ls generalizing offset r with
  | nil => rfl
  | cons l ls ih =>
    have hspelled : spelled (l :: ls) = spelled [l] ++ spelled ls := spelled_append [l] ls
    rw [List.map_cons, List.cons_append, replay?, Option.bind_eq_bind,
      segment?_eq (h l List.mem_cons_self), Option.bind_some,
      ih fun m hm => h m (List.mem_cons_of_mem l hm), hspelled, Ledger.applyAll_append,
      List.length_append, List.flatten_cons, List.length_append, Nat.add_assoc, Nat.add_assoc]

/-! ## Opening -/

/-- Whether a line of the file, ended by a newline, is neither blank nor an entry. -/
def Broken (contents : Bytes) : Prop := ∃ l ∈ wholeLines contents, isUnreadable l = true

/-- The entries that the lines of a file and its last piece spell. -/
def found (contents : Bytes) : List Entry := spelled (wholeLines contents ++ [lastPiece contents])

/-- The file without its last piece if this is neither blank nor an entry, and ended by a newline
otherwise. -/
def mended (contents : Bytes) : Bytes :=
  if lastPiece contents = [] then contents
  else if isUnreadable (lastPiece contents) then (wholeLines contents).flatten
  else contents ++ [newline]

variable {contents : Bytes}

theorem openBytes?_of_broken (h : Broken contents) : openBytes? contents = none := by
  rw [openBytes?, segments_eq, replay?_of_unreadable h]
  rfl

/-- A file without an unreadable line is opened. -/
theorem openBytes?_of_not_broken (h : ¬ Broken contents) :
    openBytes? contents = some
      { contents := mended contents
        ledger := ({} : Ledger).applyAll (found contents)
        entries := (found contents).length } := by
  have hlines : ∀ l ∈ wholeLines contents, isUnreadable l = false := fun l hl =>
    Bool.eq_false_iff.2 fun hbad => h ⟨l, hl, hbad⟩
  rw [openBytes?, segments_eq, replay?_of_readable hlines, endsLine_eq, mended, found,
    spelled_append, Ledger.applyAll_append, List.length_append, Nat.zero_add, Nat.zero_add]
  by_cases hnil : lastPiece contents = []
  · have hnone : spelled [lastPiece contents] = [] := by
      rw [hnil]
      rfl
    rw [hnone, if_pos hnil, if_pos hnil]
    simp [replay?, hnil, Ledger.applyAll]
  rw [if_neg hnil, if_neg hnil, replay?, Option.bind_eq_bind]
  cases hbad : isUnreadable (lastPiece contents) with
  | true =>
    -- What is dropped is what stands behind the lines.
    have hkept : contents.take (wholeLines contents).flatten.length =
        (wholeLines contents).flatten := by
      have hleft : ((wholeLines contents).flatten ++ lastPiece contents).take
          (wholeLines contents).flatten.length = (wholeLines contents).flatten :=
        List.take_left' rfl
      rwa [flatten_wholeLines] at hleft
    rw [segment?_of_unreadable hbad, spelled_of_unreadable hbad]
    simp [-List.length_flatten, replay?, hkept, Ledger.applyAll]
  | false =>
    rw [segment?_eq hbad]
    simp [replay?, hnil]

theorem openBytes?_eq_none_iff : openBytes? contents = none ↔ Broken contents := by
  refine ⟨fun hnone => ?_, openBytes?_of_broken⟩
  by_cases h : Broken contents
  · exact h
  · rw [openBytes?_of_not_broken h] at hnone
    cases hnone

/-! ## Mended files -/

/-- The lines of a mended file are those of the file, and what was its last piece. -/
theorem wholeLines_mended (contents : Bytes) :
    wholeLines (mended contents) = wholeLines contents ++
      (if lastPiece contents = [] ∨ isUnreadable (lastPiece contents) = true then []
        else [lastPiece contents ++ [newline]]) ∧
      lastPiece (mended contents) = [] := by
  rw [mended]
  by_cases hnil : lastPiece contents = []
  · rw [if_pos hnil, if_pos (.inl hnil), List.append_nil]
    exact ⟨rfl, hnil⟩
  rw [if_neg hnil]
  by_cases hbad : isUnreadable (lastPiece contents) = true
  · rw [if_pos hbad, if_pos (.inr hbad), List.append_nil]
    exact wholeLines_flatten contents
  · rw [if_neg hbad, if_neg (not_or.2 ⟨hnil, hbad⟩)]
    exact wholeLines_append_newline contents

/-- A mended file has what was found in the file, and needs no mending. -/
theorem found_mended (h : ¬ Broken contents) :
    ¬ Broken (mended contents) ∧ found (mended contents) = found contents ∧
      mended (mended contents) = mended contents := by
  obtain ⟨hlines, hlast⟩ := wholeLines_mended contents
  have hnil : spelled [([] : Bytes)] = [] := rfl
  refine ⟨?_, ?_, if_pos hlast⟩
  · rintro ⟨l, hl, hbad⟩
    rw [hlines, List.mem_append] at hl
    rcases hl with hl | hl
    · exact h ⟨l, hl, hbad⟩
    · split at hl
      · cases hl
      · rename_i hgood
        rw [List.mem_singleton.1 hl,
          (spelled_append_newline (Bool.eq_false_iff.2 (not_or.1 hgood).2)).1] at hbad
        cases hbad
  · rw [found, found, hlines, hlast, spelled_append, spelled_append, spelled_append, hnil,
      List.append_nil]
    congr 1
    split
    · rename_i hgone
      rcases hgone with hgone | hgone
      · rw [hgone]
        rfl
      · rw [spelled_of_unreadable hgone]
        rfl
    · rename_i hgood
      exact (spelled_append_newline (Bool.eq_false_iff.2 (not_or.1 hgood).2)).2

/-- The lines of entries are lines of their own, and spell them. -/
theorem wholeLines_entries {es : List Entry} (h : ∀ e ∈ es, e.Fits) :
    wholeLines (es.flatMap Entry.line) = es.map Entry.line ∧
      lastPiece (es.flatMap Entry.line) = [] ∧ (∀ l ∈ es.map Entry.line, isUnreadable l = false) ∧
      spelled (es.map Entry.line) = es := by
  induction es with
  | nil => exact ⟨rfl, rfl, fun _ hl => (nomatch hl), rfl⟩
  | cons e es ih =>
    obtain ⟨hlines, hlast, hreadable, hspelled⟩ := ih fun f hf => h f (List.mem_cons_of_mem e hf)
    have he := h e List.mem_cons_self
    have hfile : (e :: es).flatMap Entry.line = e.text ++ newline :: es.flatMap Entry.line := by
      simp [Entry.line]
    obtain ⟨bs, hbs⟩ := e.text_eq_cons
    have hblank : isBlankLine e.line = false := by
      rw [Entry.line, hbs, isBlankLine, List.cons_append, List.all_cons]
      exact Bool.false_and _
    have hline := e.ofBytes?_line he
    rw [hfile, wholeLines_line_append _ (e.newline_not_mem_text he),
      lastPiece_line_append _ (e.newline_not_mem_text he), hlines]
    refine ⟨rfl, hlast, ?_, ?_⟩
    · intro l hl
      rcases List.mem_cons.1 hl with rfl | hl
      · exact isUnreadable_of_entry hline
      · exact hreadable l hl
    · have hcons : spelled ((e :: es).map Entry.line) = spelled [e.line] ++
          spelled (es.map Entry.line) := spelled_append [e.line] _
      rw [hcons, spelled_of_entry hblank hline, hspelled]
      rfl

/-- Lines that are written behind a mended file are found behind what was found in it. -/
theorem openBytes?_mended_append (h : ¬ Broken contents) {more : List Entry}
    (hmore : ∀ e ∈ more, e.Fits) :
    openBytes? (mended contents ++ more.flatMap Entry.line) = some
      { contents := mended contents ++ more.flatMap Entry.line
        ledger := ({} : Ledger).applyAll (found contents ++ more)
        entries := (found contents ++ more).length } := by
  obtain ⟨hwhole, hsame, -⟩ := found_mended h
  have hnil : spelled [([] : Bytes)] = [] := rfl
  obtain ⟨hmlines, hmlast, hmreadable, hmspelled⟩ := wholeLines_entries hmore
  have hlast := (wholeLines_mended contents).2
  obtain ⟨hlines, hlast'⟩ := wholeLines_append (mended contents) (more.flatMap Entry.line) hlast
  rw [hmlines] at hlines
  rw [hmlast] at hlast'
  have hunbroken : ¬ Broken (mended contents ++ more.flatMap Entry.line) := by
    rintro ⟨l, hl, hbad⟩
    rw [hlines, List.mem_append] at hl
    rcases hl with hl | hl
    · exact hwhole ⟨l, hl, hbad⟩
    · rw [hmreadable l hl] at hbad
      cases hbad
  have hfound : found (mended contents ++ more.flatMap Entry.line) = found contents ++ more := by
    rw [← hsame, found, found, hlines, hlast, hlast', spelled_append, spelled_append,
      spelled_append, hmspelled, hnil, List.append_nil, List.append_nil]
  rw [openBytes?_of_not_broken hunbroken, hfound, mended, if_pos hlast']

/-- What is kept of a file is the file, or the file with a newline, or all but a last piece that is
neither blank nor an entry. -/
theorem mended_cases (contents : Bytes) :
    mended contents = contents ∨ mended contents = contents ++ [newline] ∨
      ∃ piece, contents = mended contents ++ piece ∧ newline ∉ piece ∧
        isUnreadable piece = true := by
  rw [mended]
  split
  · exact .inl rfl
  split
  · rename_i hbad
    exact .inr (.inr ⟨lastPiece contents, (flatten_wholeLines contents).symm,
      newline_not_mem_lastPiece contents, hbad⟩)
  · exact .inr (.inl rfl)

/-- The file with some more entries. -/
def writeAll (f : JournalFile) (es : List Entry) : JournalFile := es.foldl write f

theorem writeAll_eq (f : JournalFile) (es : List Entry) :
    f.writeAll es = JournalFile.mk (f.contents ++ es.flatMap Entry.line) (f.ledger.applyAll es)
      (f.entries + es.length) := by
  induction es generalizing f with
  | nil => rw [List.flatMap_nil, List.append_nil]; rfl
  | cons e es ih =>
    have hcount : f.entries + 1 + es.length = f.entries + (e :: es).length := by
      rw [List.length_cons]
      omega
    have hwritten : f.writeAll (e :: es) = (f.write e).writeAll es := rfl
    rw [hwritten, ih, List.flatMap_cons, ← List.append_assoc]
    simp only [write, hcount]
    rfl

theorem mended_ends (contents : Bytes) :
    mended contents = [] ∨ (mended contents).getLast? = some newline := by
  have hends := endsLine_eq (mended contents)
  rw [(wholeLines_mended contents).2, endsLine] at hends
  cases hlast : (mended contents).getLast? with
  | none => exact .inl (List.getLast?_eq_none_iff.1 hlast)
  | some b =>
    rw [hlast] at hends
    exact .inr (congrArg some (of_decide_eq_true hends))

end JournalFile

/-! ## A journal in use -/

namespace Storage

open JournalFile (Broken found mended)

variable {s : Storage} {contents : Bytes} {more : List Entry}

/-- The journal is on a file of these bytes and holds what the entries `es` come to. -/
structure Replayed (s : Storage) (kept : Bytes) (es : List Entry) : Prop where
  onDisk : s.onDisk = .file kept
  ledger : s.ledger = ({} : Ledger).applyAll es
  entryCount : s.entryCount = some es.length

/-- A file of `contents` is at the path of `s`, and `more` is written to it once it is open. It is
refused exactly if a line of it is neither blank nor an entry, and then no byte is changed.
Otherwise the entries found in it are replayed, and what is kept of it is empty or ends with a
newline; opened again it is the same, and opened after the writes it has their entries behind. -/
def Opens (s : Storage) (contents : Bytes) (more : List Entry) : Prop :=
  (s.openFile.2 = .error .codec ↔ Broken contents) ∧
  (Broken contents → s.openFile.1.onDisk = .file contents) ∧
  (¬ Broken contents → ∃ (kept : Bytes) (opened reopened extended : Storage),
    s.openFile = (opened, .ok (found contents).length) ∧
    opened.Replayed kept (found contents) ∧
    (kept = contents ∨ kept = contents ++ [newline] ∨
      ∃ piece, contents = kept ++ piece ∧ newline ∉ piece ∧ isUnreadable piece = true) ∧
    (kept = [] ∨ kept.getLast? = some newline) ∧
    opened.openFile = (reopened, .ok (found contents).length) ∧
    reopened.Replayed kept (found contents) ∧
    (opened.performAll (more.map .write)).openFile =
      (extended, .ok (found contents ++ more).length) ∧
    extended.Replayed (kept ++ more.flatMap Entry.line) (found contents ++ more))

/-- What is written to an open file stands behind what was there. -/
theorem performAll_writes {f : JournalFile} (hfile : s.file = some f)
    (hpermitted : s.failing = [] ∧ s.lapses = []) (more : List Entry) :
    s.performAll (more.map .write) = { s with file := some (f.writeAll more) } := by
  induction more generalizing s f with
  | nil =>
    rw [JournalFile.writeAll, List.foldl_nil, ← hfile]
    rfl
  | cons e more ih =>
    have hwrite : s.perform (.write e) = { s with file := some (f.write e) } := by
      simp [perform, Storage.write, permitWrite, permit, hpermitted.1, hpermitted.2, hfile]
    have hall : s.performAll ((e :: more).map .write) =
        (s.perform (.write e)).performAll (more.map .write) := rfl
    rw [hall, hwrite]
    exact ih rfl hpermitted

theorem onDisk_of_file {f : JournalFile} (hfile : s.file = some f)
    (hattached : s.detached = false) :
    s.onDisk = .file f.contents := by
  simp [onDisk, hfile, hattached]

theorem replayed_of_file {kept : Bytes} {es : List Entry}
    (hfile : s.file = some ⟨kept, ({} : Ledger).applyAll es, es.length⟩)
    (hattached : s.detached = false) : s.Replayed kept es where
  onDisk := onDisk_of_file hfile hattached
  ledger := by rw [ledger, hfile]
  entryCount := by rw [entryCount, hfile]; rfl

/-- What is opened of a file is in use afterwards. -/
theorem openFile_file {f : JournalFile} (hdisk : s.onDisk = .file contents)
    (hpermitted : s.failing = [] ∧ s.lapses = [])
    (hopen : JournalFile.openBytes? contents = some f) :
    ∃ opened : Storage, s.openFile = (opened, .ok f.entries) ∧ opened.file = some f ∧
      opened.detached = false ∧ opened.failing = [] ∧ opened.lapses = [] :=
  ⟨_, openFile_eq hdisk hopen, rfl, rfl, hpermitted⟩

theorem openFile_of_broken (hdisk : s.onDisk = .file contents) (h : Broken contents) :
    s.openFile = ({ s with file := none, beside := .file contents, detached := false },
      .error .codec) := by
  simp [Storage.openFile, hdisk, JournalFile.openBytes?_of_broken h]

/-- A file of any bytes is refused or mended. -/
theorem opens_any (hdisk : s.onDisk = .file contents)
    (hpermitted : s.failing = [] ∧ s.lapses = []) (hmore : ∀ e ∈ more, e.Fits) :
    s.Opens contents more := by
  by_cases hbroken : Broken contents
  · have hrefused := openFile_of_broken hdisk hbroken
    refine ⟨?_, fun _ => ?_, fun h => absurd hbroken h⟩
    · rw [hrefused]
      exact ⟨fun _ => hbroken, fun _ => rfl⟩
    · rw [hrefused]
      rfl
  obtain ⟨hwhole, hfound, hmended⟩ := JournalFile.found_mended hbroken
  obtain ⟨opened, hopen, hfile, hattached, hpermitted'⟩ := openFile_file hdisk hpermitted
    (JournalFile.openBytes?_of_not_broken hbroken)
  have hkept : opened.onDisk = .file (mended contents) := onDisk_of_file hfile hattached
  have hagain := JournalFile.openBytes?_of_not_broken hwhole
  rw [hfound, hmended] at hagain
  obtain ⟨reopened, hreopen, hrefile, hreattached, -⟩ := openFile_file hkept hpermitted' hagain
  have hwritten : (opened.performAll (more.map .write)).onDisk =
      .file (mended contents ++ more.flatMap Entry.line) := by
    rw [performAll_writes hfile hpermitted', JournalFile.writeAll_eq]
    simp [onDisk, hattached]
  have hpermitted'' : (opened.performAll (more.map .write)).failing = [] ∧
      (opened.performAll (more.map .write)).lapses = [] := by
    rw [performAll_writes hfile hpermitted']
    exact hpermitted'
  obtain ⟨extended, hextend, hexfile, hexattached, -⟩ := openFile_file hwritten hpermitted''
    (JournalFile.openBytes?_mended_append hbroken hmore)
  refine ⟨?_, fun h => absurd h hbroken, fun _ => ⟨mended contents, opened, reopened, extended,
    hopen, replayed_of_file hfile hattached, JournalFile.mended_cases contents,
    JournalFile.mended_ends contents, hreopen, replayed_of_file hrefile hreattached, hextend,
    replayed_of_file hexfile hexattached⟩⟩
  rw [hopen]
  exact ⟨fun h => (by cases h), fun h => absurd h hbroken⟩

/-- A blank line and half a character behind it: the half is dropped. -/
theorem opens_any_halfCharacter :
    let s : Storage := { beside := .file [32, 10, 0xC3] }
    let more : List Entry := [.resolve ⟨7, [1], [2]⟩]
    s.onDisk = .file [32, 10, 0xC3] ∧ (s.failing = [] ∧ s.lapses = []) ∧ (∀ e ∈ more, e.Fits) ∧
      ¬ Broken [32, 10, 0xC3] ∧ s.Opens [32, 10, 0xC3] more := by
  intro s more
  have hfits : ∀ e ∈ more, e.Fits := by decide
  have hwhole : ¬ Broken [32, 10, 0xC3] := by
    rintro ⟨l, hl, hbad⟩
    have hline : l = [32, 10] := List.mem_singleton.1 hl
    rw [hline] at hbad
    cases hbad
  exact ⟨rfl, ⟨rfl, rfl⟩, hfits, hwhole, opens_any rfl ⟨rfl, rfl⟩ hfits⟩

end Storage

end MessageRouting
