import MessageRouting.Proofs.Journal.ArbitraryFiles
import MessageRouting.Proofs.Json.OpenBrackets

/-!
# Writes that break off

A write to the journal file can fail with a part of its line already in the
file. The journal in memory does not take the entry in, and goes on writing
behind the part, so the next line is glued to it. If that is not empty, what
the two make up is no entry, and it is ended by a newline: once another write
has succeeded, the file cannot be opened any more, with all that is in it. Only
while nothing has been written since does the next start recover, since the
part then stands at the end, where it is dropped.

Results:

* `ofBytes?_glued`: a part of an entry's text and a line behind it are no entry.
* `broken_write_poisons`: what becomes of a file in which a write broke off.
-/

namespace MessageRouting

/-! ## Cut characters -/

namespace Utf8

theorem continuation?_of_ascii {b : UInt8} (hb : b.toNat < 0x80) : continuation? b = none :=
  if_neg fun h => absurd h.1 (by omega)

theorem two?_of_ascii {b b₁ : UInt8} (h : b₁.toNat < 0x80) : two? b b₁ = none := by
  rw [two?, continuation?_of_ascii h]
  rfl

theorem three?_of_ascii {b b₁ b₂ : UInt8} (h : b₁.toNat < 0x80 ∨ b₂.toNat < 0x80) :
    three? b b₁ b₂ = none := by
  unfold three?
  rcases h with h | h
  · rw [continuation?_of_ascii h]
    rfl
  · rw [continuation?_of_ascii h]
    cases continuation? b₁ <;> rfl

theorem four?_of_ascii {b b₁ b₂ b₃ : UInt8}
    (h : b₁.toNat < 0x80 ∨ b₂.toNat < 0x80 ∨ b₃.toNat < 0x80) : four? b b₁ b₂ b₃ = none := by
  unfold four?
  rcases h with h | h | h
  · rw [continuation?_of_ascii h]
    rfl
  · rw [continuation?_of_ascii h]
    cases continuation? b₁ <;> rfl
  · rw [continuation?_of_ascii h]
    cases continuation? b₁ <;> cases continuation? b₂ <;> rfl

/-- A byte that is a character by itself begins one, so what stands before it spells a text. -/
theorem exists_decode_of_ascii {bs more : Bytes} {b : UInt8} {cs : List Char} (hb : b.toNat < 0x80)
    (h : decode (bs ++ b :: more) = some cs) : ∃ front, decode bs = some front := by
  fun_induction decode bs generalizing cs with
  | case1 => exact ⟨[], rfl⟩
  | case2 x rest hx ih =>
    rw [List.cons_append, decode_one hx, Option.map_eq_some_iff] at h
    obtain ⟨ds, hds, -⟩ := h
    obtain ⟨front, hfront⟩ := ih hds
    exact ⟨_, by rw [hfront]; rfl⟩
  | case3 x hx =>
    -- The character that `x` leads lacks a byte, and `b` is none of its bytes.
    rw [List.cons_append, List.nil_append, decode.eq_def] at h
    simp only [if_neg hx, two?_of_ascii hb] at h
    split at h
    · cases h
    · simp only [three?_of_ascii (.inl hb)] at h
      split at h
      · cases h
      · simp only [four?_of_ascii (.inl hb)] at h
        cases h
  | case4 x hx x₁ rest c hc ih =>
    rw [List.cons_append, List.cons_append, decode_two hx hc, Option.map_eq_some_iff] at h
    obtain ⟨ds, hds, -⟩ := h
    obtain ⟨front, hfront⟩ := ih hds
    exact ⟨_, by rw [hfront]; rfl⟩
  | case5 x hx x₁ h₁ =>
    rw [List.cons_append, List.cons_append, List.nil_append, decode.eq_def] at h
    simp only [if_neg hx, h₁, three?_of_ascii (.inr hb)] at h
    split at h
    · cases h
    · simp only [four?_of_ascii (.inr (.inl hb))] at h
      cases h
  | case6 x hx x₁ h₁ x₂ rest c hc ih =>
    rw [List.cons_append, List.cons_append, List.cons_append, decode_three hx h₁ hc,
      Option.map_eq_some_iff] at h
    obtain ⟨ds, hds, -⟩ := h
    obtain ⟨front, hfront⟩ := ih hds
    exact ⟨_, by rw [hfront]; rfl⟩
  | case7 x hx x₁ h₁ x₂ h₂ =>
    rw [List.cons_append, List.cons_append, List.cons_append, List.nil_append, decode.eq_def] at h
    simp only [if_neg hx, h₁, h₂, four?_of_ascii (.inr (.inr hb))] at h
    cases h
  | case8 x hx x₁ h₁ x₂ h₂ x₃ rest c hc ih =>
    rw [List.cons_append, List.cons_append, List.cons_append, List.cons_append,
      decode_four hx h₁ h₂ hc, Option.map_eq_some_iff] at h
    obtain ⟨ds, hds, -⟩ := h
    obtain ⟨front, hfront⟩ := ih hds
    exact ⟨_, by rw [hfront]; rfl⟩
  | case9 x hx x₁ h₁ x₂ h₂ x₃ rest hnone =>
    rw [List.cons_append, List.cons_append, List.cons_append, List.cons_append,
      decode.eq_def] at h
    simp only [if_neg hx, h₁, h₂, hnone] at h
    cases h

end Utf8

/-! ## Glued lines -/

namespace Entry

open Json (scan? Mode)

theorem print_eq_op (e : Entry) : ∃ cs, e.toJson.print = '\x7b' :: '"' :: 'o' :: cs := by
  have hop : Json.printChars "op".toList = ['o', 'p'] := rfl
  rw [toJson_eq, Json.Value.ofFields, List.map_cons, Json.Value.print, Json.printFields,
    Json.printText, Json.printString, hop]
  exact ⟨_, rfl⟩

variable {e next : Entry}

/-- A text with a bracket open, or inside a string, is not closed by the line of an entry. -/
theorem scan?_line (hnext : next.Fits) (m : Mode) (d : Nat) :
    scan? (m, d + 1) (next.toJson.print ++ ['\n']) ≠ some (.plain, 0) := by
  obtain ⟨tail, htail⟩ := print_eq_op next
  cases m with
  | plain =>
    have hread := next.readValue_print hnext (Nat.le_refl _) Json.endsNumber_nil
    obtain ⟨used, hsplit, hused⟩ := Json.level_of_readValue hread
    obtain rfl := List.append_cancel_right hsplit
    rw [Json.scan?_append, hused (d + 1), Option.bind_some]
    intro h
    cases h
  -- The quote after the brace ends the string, and an `o` stands outside it.
  | quoted =>
    rw [htail]
    intro h
    cases h
  | escaped =>
    rw [htail]
    intro h
    cases h

/-- What is left of an entry's text and a whole line behind it are no entry. -/
theorem ofBytes?_glued (he : e.Fits) (hnext : next.Fits) {n : Nat} (hn : 0 < n)
    (hle : n ≤ e.text.length) : ofBytes? (e.text.take n ++ next.line) = none := by
  refine Option.eq_none_iff_forall_ne_some.2 fun e' he' => ?_
  obtain ⟨cs, hcs, hparsed⟩ := Option.bind_eq_some_iff.1 he'
  obtain ⟨v, hv, -⟩ := Option.bind_eq_some_iff.1 hparsed
  -- The part spells a beginning of the entry's text, and the line what it spells by itself.
  have hline : next.line = Utf8.encode (next.toJson.print ++ ['\n']) := by
    rw [Utf8.encode_append]
    rfl
  obtain ⟨bs, hbs⟩ := next.text_eq_cons
  have hfront : ∃ front, Utf8.decode (e.text.take n) = some front := by
    rw [line, hbs, List.cons_append] at hcs
    exact Utf8.exists_decode_of_ascii (by decide) hcs
  obtain ⟨front, hfront⟩ := hfront
  have hglued : cs = front ++ (next.toJson.print ++ ['\n']) := by
    rw [Utf8.decode_append hfront, hline, Utf8.decode_encode] at hcs
    exact (Option.some.inj hcs).symm
  have hsplit : (Utf8.decode (e.text.drop n)).map (front ++ ·) = some e.toJson.print := by
    rw [← Utf8.decode_append hfront, List.take_append_drop, text, Utf8.decode_encode]
  obtain ⟨back, hback, hprint⟩ := Option.map_eq_some_iff.1 hsplit
  obtain ⟨tail, htail⟩ := print_eq e
  have hread := e.readValue_print he (Nat.le_refl _) Json.endsNumber_nil
  rw [List.append_nil, ← hprint] at hread
  cases front with
  | nil =>
    have htake := congrArg List.length (Utf8.decode_eq_some_nil hfront)
    rw [List.length_take, List.length_nil] at htake
    omega
  | cons c front =>
    have hhead : c = '\x7b' := by
      rw [htail] at hprint
      exact (List.cons.inj hprint).1
    subst hhead
    cases back with
    | nil =>
      -- The whole text is there: it is read, and the line behind it is left.
      rw [List.append_nil] at hprint
      obtain ⟨next', hnext'⟩ := print_eq_op next
      rw [hglued, hprint] at hv
      obtain ⟨rest, hread', hrest⟩ := Json.parse_strict_eq_some_iff.1 hv
      have hfuel : e.toJson.print.length ≤
          2 * (e.toJson.print ++ (next.toJson.print ++ ['\n'])).length + 2 := by
        rw [List.length_append]
        omega
      have hends : Json.EndsNumber (next.toJson.print ++ ['\n']) := by
        rw [hnext']
        exact Json.endsNumber_cons (by decide) _
      rw [htail, List.cons_append, Json.skipBlank_of_not_blank (by decide), ← List.cons_append,
        ← htail, e.readValue_print he hfuel hends] at hread'
      rw [← (Prod.mk.inj (Option.some.inj hread')).2, hnext'] at hrest
      cases hrest
    | cons b back =>
      obtain ⟨m, d, hopen⟩ := Json.scan?_of_cut hread
      have hscan := Json.scan?_of_parse hv
      rw [hglued, Json.scan?_append, hopen, Option.bind_some] at hscan
      exact scan?_line hnext m d hscan

end Entry

/-! ## Broken files -/

namespace JournalFile

/-- The file with only the first `n` bytes of a line more, of an entry that is not taken in. -/
def breakOff (f : JournalFile) (e : Entry) (n : Nat) : JournalFile :=
  { f with contents := f.contents ++ e.line.take n }

variable {e next : Entry} {es more : List Entry} {n : Nat}

/-- The bytes of a line before its newline. -/
theorem take_line (hn : n < e.line.length) : n ≤ e.text.length ∧ e.line.take n = e.text.take n := by
  have hlength : e.line.length = e.text.length + 1 := List.length_append ..
  have hle : n ≤ e.text.length := by omega
  exact ⟨hle, List.take_append_of_le_length hle⟩

/-- A file in which a line stands behind a part of another cannot be opened. -/
theorem broken_of_glued (hes : ∀ f ∈ es, f.Fits) (he : e.Fits) (hnext : next.Fits) (hpos : 0 < n)
    (hn : n < e.line.length) :
    Broken (es.flatMap Entry.line ++ e.line.take n ++ (next :: more).flatMap Entry.line) := by
  obtain ⟨hle, htake⟩ := take_line hn
  have hfile : es.flatMap Entry.line ++ e.line.take n ++ (next :: more).flatMap Entry.line =
      es.flatMap Entry.line ++
        (e.text.take n ++ next.text ++ newline :: more.flatMap Entry.line) := by
    rw [htake]
    simp [Entry.line]
  have hpart : newline ∉ e.text.take n ++ next.text := by
    rw [List.mem_append, not_or]
    exact ⟨fun h => e.newline_not_mem_text he (List.mem_of_mem_take h),
      next.newline_not_mem_text hnext⟩
  have hglued := Entry.ofBytes?_glued he hnext hpos hle
  rw [Entry.line, ← List.append_assoc] at hglued
  refine ⟨e.text.take n ++ next.text ++ [newline], ?_, ?_⟩
  · obtain ⟨-, hlast, -, -⟩ := wholeLines_entries hes
    rw [hfile, (wholeLines_append _ _ hlast).1, wholeLines_line_append _ hpart]
    exact List.mem_append_right _ List.mem_cons_self
  · obtain ⟨bs, hbs⟩ := e.text_eq_cons
    obtain ⟨k, rfl⟩ := Nat.exists_eq_add_one_of_ne_zero (Nat.ne_of_gt hpos)
    rw [isUnreadable, hglued, isBlankLine, hbs]
    rfl

/-- While nothing has been written behind it, the part of a line is dropped, or counts as the line
if only its newline is missing. -/
theorem openBytes?_breakOff (hes : ∀ f ∈ es, f.Fits) (he : e.Fits) (hpos : 0 < n)
    (hn : n < e.line.length) :
    openBytes? (es.flatMap Entry.line ++ e.line.take n) =
      some (ofEntries (if n < e.text.length then es else es ++ [e])) := by
  obtain ⟨hle, htake⟩ := take_line hn
  rw [htake]
  split
  · rename_i hlt
    exact openBytes?_torn hes he hpos hlt
  · rename_i hge
    rw [List.take_of_length_le (Nat.not_lt.1 hge)]
    exact openBytes?_text hes he

end JournalFile

namespace Storage

variable {s : Storage} {f : JournalFile} {es : List Entry}

/-- A write that fails with only `n` bytes of the line in the file. It is assumed that this call
itself returns the error. Where the system writes behind the caller's back, the next call may be
the one that is told; the entry is then in the journal in use already, and the part of its line in
the file all the same. -/
def writeBroken (s : Storage) (e : Entry) (n : Nat) : Storage × Except JournalError Unit :=
  ({ s with file := s.file.map (·.breakOff e n) }, .error .io)

/-- All entries of a list are written to the journal without a failure. -/
def Accepts (s : Storage) (more : List Entry) : Prop :=
  ∀ before e behind, more = before ++ e :: behind →
    ((s.performAll (before.map .write)).write e).2 = .ok ()

/-- What is left of the journal by the writes of `more` after a write of `e` that broke off. -/
def afterBroken (s : Storage) (e : Entry) (n : Nat) (more : List Entry) : Storage :=
  (s.writeBroken e n).1.performAll (more.map .write)

theorem accepts_of_file (hfile : s.file = some f) (hpermitted : s.failing = [] ∧ s.lapses = [])
    (more : List Entry) : s.Accepts more := by
  intro before e behind _
  rw [performAll_writes hfile hpermitted]
  simp [Storage.write, permitWrite, permit, hpermitted.1, hpermitted.2]

namespace Holds

/-- The file behind a write that broke off and the writes after it. -/
theorem file_afterBroken (h : s.Holds f es) (e : Entry) (n : Nat) (more : List Entry) :
    s.afterBroken e n more = { s with file := some ((f.breakOff e n).writeAll more) } := by
  have hfile : (s.writeBroken e n).1.file = some (f.breakOff e n) := by
    rw [writeBroken, h.file]
    rfl
  exact performAll_writes hfile h.permitted more

theorem onDisk_afterBroken (h : s.Holds f es) (e : Entry) (n : Nat) (more : List Entry) :
    (s.afterBroken e n more).onDisk =
      .file (es.flatMap Entry.line ++ e.line.take n ++ more.flatMap Entry.line) := by
  rw [h.file_afterBroken, JournalFile.writeAll_eq]
  simp [onDisk, h.attached, JournalFile.breakOff, h.contents]

/-- Behind a part of a line that is not empty, one more line keeps the file from being opened. -/
theorem codec_afterBroken (h : s.Holds f es) {e : Entry} (he : e.Fits) {n : Nat} (hpos : 0 < n)
    (hn : n < e.line.length) {more : List Entry} (hmore : ∀ c ∈ more, c.Fits) (hne : more ≠ []) :
    (s.afterBroken e n more).openFile.2 = .error .codec := by
  obtain ⟨next, more, rfl⟩ := List.exists_cons_of_ne_nil hne
  have hbroken : JournalFile.Broken (es.flatMap Entry.line ++ e.line.take n ++
      (next :: more).flatMap Entry.line) :=
    JournalFile.broken_of_glued h.fits he (hmore next List.mem_cons_self) hpos hn
  rw [openFile_of_broken (h.onDisk_afterBroken e n (next :: more)) hbroken]

end Holds

/-- A write of `e` breaks off with `n` bytes of its line in the file, and then `more` is written
without a failure. The journal in use is the one without `e`. If no byte was written, the next
start replays all that was written. Otherwise it fails as soon as `more` is not empty, and while it
is, the start drops the part, or takes `e` in if only the newline is missing. -/
theorem broken_write_poisons (h : FileHistory s) {e : Entry} (he : e.Fits) {n : Nat}
    (hn : n < e.line.length) {more : List Entry} (hmore : ∀ c ∈ more, c.Fits) :
    (s.writeBroken e n).2 = .error .io ∧
    (s.writeBroken e n).1.ledger = s.ledger ∧
    (s.writeBroken e n).1.entryCount = s.entryCount ∧
    (s.writeBroken e n).1.Accepts more ∧
    (s.afterBroken e n more).ledger = s.ledger.applyAll more ∧
    ∃ es : List Entry, s.onDisk = .file (es.flatMap Entry.line) ∧
      (n = 0 → ∃ opened : Storage,
        (s.afterBroken e n more).openFile = (opened, .ok (es ++ more).length) ∧
        opened.ledger = ({} : Ledger).applyAll (es ++ more)) ∧
      (0 < n → more ≠ [] → (s.afterBroken e n more).openFile.2 = .error .codec) ∧
      (0 < n → more = [] → ∃ opened : Storage,
        (s.afterBroken e n more).openFile =
          (opened, .ok (if n < e.text.length then es else es ++ [e]).length) ∧
        opened.ledger = ({} : Ledger).applyAll (if n < e.text.length then es else es ++ [e])) := by
  obtain ⟨f, es, hs⟩ := holds_fileHistory h
  have hfile : (s.writeBroken e n).1.file = some (f.breakOff e n) := by
    rw [writeBroken, hs.file]
    rfl
  refine ⟨rfl, ?_, ?_, accepts_of_file hfile hs.permitted more, ?_, es, hs.onDisk_eq, ?_, ?_, ?_⟩
  · rw [ledger, ledger, hfile, hs.file]
    rfl
  · rw [entryCount, entryCount, hfile, hs.file]
    rfl
  · rw [hs.file_afterBroken, ledger, ledger, hs.file, JournalFile.writeAll_eq]
    rfl
  · rintro rfl
    have hdisk := hs.onDisk_afterBroken e 0 more
    rw [List.take_zero, List.append_nil, ← List.flatMap_append] at hdisk
    have hfits : ∀ c ∈ es ++ more, c.Fits := fun c hc =>
      (List.mem_append.1 hc).elim (hs.fits c) (hmore c)
    exact ⟨_, openFile_eq hdisk (JournalFile.openBytes?_lines hfits), rfl⟩
  · exact fun hpos => hs.codec_afterBroken he hpos hn hmore
  · rintro hpos rfl
    have hdisk := hs.onDisk_afterBroken e n []
    rw [List.flatMap_nil, List.append_nil] at hdisk
    exact ⟨_, openFile_eq hdisk (JournalFile.openBytes?_breakOff hs.fits he hpos hn), rfl⟩

/-- Half of the second line is in the file when its write fails, and the third is written behind. -/
theorem broken_write_poisons_half :
    let first : Entry := .add ⟨⟨"orders"⟩, 1, [97]⟩
    let second : Entry := .add ⟨⟨"orders"⟩, 2, [98]⟩
    let third : Entry := .add ⟨⟨"orders"⟩, 3, [99]⟩
    let s := fresh.perform (.write first)
    FileHistory s ∧ second.Fits ∧ 40 < second.line.length ∧ (∀ c ∈ [third], c.Fits) ∧
      s.ledger.records ⟨"orders"⟩ = [⟨⟨"orders"⟩, 1, [97]⟩] ∧
      (s.afterBroken second 40 [third]).ledger = s.ledger.applyAll [third] ∧
      (s.afterBroken second 40 [third]).openFile.2 = .error .codec := by
  intro first second third s
  have hhistory : FileHistory s := .call .fresh (show first.Fits by decide)
  have hsecond : second.Fits := by decide
  have hlength : 40 < second.line.length := by decide +kernel
  have hthird : ∀ c ∈ [third], c.Fits := by decide
  obtain ⟨-, -, -, -, hledger, es, -, -, hcodec, -⟩ :=
    broken_write_poisons hhistory hsecond hlength hthird
  exact ⟨hhistory, hsecond, hlength, hthird, by decide +kernel, hledger,
    hcodec (by decide) (List.cons_ne_nil _ _)⟩

/-- The first and the third write succeed and the second breaks off in its line: the next start
fails, and finds neither of the two entries that were written. -/
theorem written_unreadable :
    let first : Entry := .add ⟨⟨"orders"⟩, 1, [97]⟩
    let second : Entry := .add ⟨⟨"orders"⟩, 2, [98]⟩
    let third : Entry := .add ⟨⟨"orders"⟩, 3, [99]⟩
    let s := (fresh.write first).1
    (fresh.write first).2 = .ok () ∧
    40 < second.line.length ∧ (s.writeBroken second 40).2 = .error .io ∧
    ((s.writeBroken second 40).1.write third).2 = .ok () ∧
    ((s.writeBroken second 40).1.write third).1.openFile.2 = .error .codec := by
  intro first second third s
  have hfirst : first.Fits := by decide
  have hsecond : second.Fits := by decide
  have hlength : 40 < second.line.length := by decide +kernel
  have hthird : ∀ c ∈ [third], c.Fits := by decide
  have hcodec := (holds_fresh.write hfirst).codec_afterBroken hsecond (by decide) hlength hthird
    (List.cons_ne_nil _ _)
  exact ⟨rfl, hlength, rfl, rfl, hcodec⟩

end Storage

end MessageRouting
