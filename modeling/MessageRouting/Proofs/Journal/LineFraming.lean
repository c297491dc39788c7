import MessageRouting.Proofs.Journal.TornFiles

/-!
# Framing of journal lines

A journal file is read line by line, so each entry must stand on a line of its
own, whatever its address and its identifiers are made of: a newline in an
address is escaped, and nothing else could end the line early. Put one after the
other, the lines come apart again into the entries that were written.

Results:

* `framed_of_fits`: the line of an entry can be told from any other piece.
* `segments_lines`: lines are cut where one ends and the next begins.
* `lines_framed`: each line gives back its entry, and a file its entries.
-/

namespace MessageRouting

namespace Entry

/-- The line of an entry ends with the only newline in it and is not blank. It is read as the entry,
and so is its text without the newline, but nothing shorter is read as any entry. -/
structure Framed (e : Entry) : Prop where
  newline_last : e.line = e.text ++ [newline] ∧ newline ∉ e.text
  not_blank : (Segment.mk e.line true).isBlank = false
  read : ofBytes? e.line = some e
  text_read : ofBytes? e.text = some e
  beginning_unread : ∀ bytes, bytes <+: e.text → bytes ≠ e.text → ofBytes? bytes = none

theorem ofBytes?_nil : ofBytes? [] = none := rfl

/-- The line of an entry begins with a brace. -/
theorem line_eq_cons (e : Entry) : ∃ bs, e.line = 0x7B :: bs := by
  obtain ⟨bs, hbs⟩ := e.text_eq_cons
  exact ⟨bs ++ [newline], by rw [line, hbs, List.cons_append]⟩

/-- No proper beginning of an entry's text spells an entry, and neither do no bytes at all. -/
theorem ofBytes?_of_prefix {e : Entry} (h : e.Fits) {bytes : Bytes} (hbegins : bytes <+: e.text)
    (hne : bytes ≠ e.text) : ofBytes? bytes = none := by
  have htake : bytes = e.text.take bytes.length := List.prefix_iff_eq_take.1 hbegins
  have hlt : bytes.length < e.text.length := by
    refine Nat.lt_of_le_of_ne hbegins.length_le fun hlength => hne ?_
    rw [htake, hlength, List.take_length]
  rcases Nat.eq_zero_or_pos bytes.length with hzero | hpos
  · rw [List.length_eq_zero_iff.1 hzero]
    exact ofBytes?_nil
  · rw [htake]
    exact e.ofBytes?_take h hpos hlt

/-- The line of an entry whose numbers fit can be told from any other piece of a file. -/
theorem framed_of_fits {e : Entry} (h : e.Fits) : e.Framed where
  newline_last := ⟨rfl, e.newline_not_mem_text h⟩
  not_blank := by
    obtain ⟨bs, hbs⟩ := e.line_eq_cons
    rw [hbs]
    exact JournalFile.isBlank_of_cons
  read := e.ofBytes?_line h
  text_read := e.ofBytes?_text h
  beginning_unread _ hbegins hne := ofBytes?_of_prefix h hbegins hne

end Entry

/-- Lines are cut where one ends and the next begins. -/
theorem segments_lines {es : List Entry} (h : ∀ e ∈ es, e.Fits) :
    segments (es.flatMap Entry.line) = es.map fun e => ⟨e.line, true⟩ := by
  induction es with
  | nil => rfl
  | cons e es ih =>
    have hnewline : newline ∉ e.text := e.newline_not_mem_text (h e List.mem_cons_self)
    have hfile : (e :: es).flatMap Entry.line = e.text ++ newline :: es.flatMap Entry.line := by
      rw [List.flatMap_cons, Entry.line, List.append_assoc, List.singleton_append]
    rw [hfile, segments_line_append hnewline, ih fun f hf => h f (List.mem_cons_of_mem e hf)]
    rfl

/-- Every entry has a line of its own: it ends with its only newline, it is not blank, it is read as
the entry, and no proper beginning of its text is read as anything. So the lines of entries, put one
after the other and cut at the newlines, are read as just these entries, in order. -/
theorem lines_framed {es : List Entry} (h : ∀ e ∈ es, e.Fits) :
    (∀ e ∈ es, e.Framed) ∧
      segments (es.flatMap Entry.line) = es.map (fun e => ⟨e.line, true⟩) ∧
      (segments (es.flatMap Entry.line)).mapM (fun s => Entry.ofBytes? s.bytes) = some es := by
  refine ⟨fun e he => Entry.framed_of_fits (h e he), segments_lines h, ?_⟩
  have hread : ∀ e ∈ es, Entry.ofBytes? e.line = some e := fun e he => e.ofBytes?_line (h e he)
  rw [segments_lines h, List.mapM_map]
  calc es.mapM (fun e => Entry.ofBytes? e.line) = some (es.map id) := Json.mapM_eq_some hread
    _ = some es := by rw [List.map_id]

/-- Entries at the ends of their ranges, one at an address with a newline, a quote, a control
character and characters of two and four bytes. -/
def awkwardEntries : List Entry :=
  [.add ⟨⟨"a\n\"\\\x01é🦀"⟩, 18446744073709551615, [0, 10, 255]⟩, .prune ⟨""⟩ 0,
    .prepare ⟨-2147483648, [10], []⟩ ⟨⟨"\n"⟩, 1, []⟩, .resolve ⟨2147483647, [], [13, 10]⟩]

theorem lines_framed_awkward :
    (∀ e ∈ awkwardEntries, e.Fits) ∧ (∀ e ∈ awkwardEntries, e.Framed) ∧
      segments (awkwardEntries.flatMap Entry.line) =
        awkwardEntries.map (fun e => ⟨e.line, true⟩) ∧
      (segments (awkwardEntries.flatMap Entry.line)).mapM (fun s => Entry.ofBytes? s.bytes) =
        some awkwardEntries := by
  have hfits : ∀ e ∈ awkwardEntries, e.Fits := by decide
  exact ⟨hfits, lines_framed hfits⟩

end MessageRouting
