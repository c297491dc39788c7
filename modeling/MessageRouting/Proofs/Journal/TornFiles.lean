import MessageRouting.Journal.Storage
import MessageRouting.Proofs.Journal.EntryLines

/-!
# Torn journal files

A journal file that is cut off between two bytes is opened without complaint.
The lines before the cut are replayed; the last of them counts when all but its
newline is there, and is given one, and what is left of a line that lost more is
dropped. So the file holds whole lines again and can be written to.

Results:

* `openBytes?_take`: what is opened of a file that has been cut off.
* `holds_fileHistory`: a journal file holds lines, whatever becomes of it.
* `torn_recovers`: all of it, for a journal in use.
-/

namespace MessageRouting

/-! ## Lines of a file -/

/-- The entries among `es` whose texts are whole in the first `n` bytes of their lines. -/
def surviving : Nat → List Entry → List Entry
  | _, [] => []
  | n, e :: es => if e.text.length ≤ n then e :: surviving (n - e.line.length) es else []

theorem mem_of_mem_surviving {n : Nat} {e : Entry} {es : List Entry} (h : e ∈ surviving n es) :
    e ∈ es := by
  induction es generalizing n with
  | nil => exact h
  | cons f es ih =>
    rw [surviving] at h
    split at h
    · rcases List.mem_cons.1 h with rfl | h
      · exact List.mem_cons_self
      · exact List.mem_cons_of_mem f (ih h)
    · cases h

/-- The bytes without a newline are one incomplete segment. -/
theorem segments_of_no_newline {bs : Bytes} (h : newline ∉ bs) (hne : bs ≠ []) :
    segments bs = [⟨bs, false⟩] := by
  induction bs with
  | nil => exact absurd rfl hne
  | cons b bs ih =>
    rw [List.mem_cons, not_or] at h
    rw [segments, if_neg (Ne.symm h.1)]
    cases bs with
    | nil => rfl
    | cons b' bs => rw [ih h.2 (List.cons_ne_nil b' bs)]; rfl

namespace JournalFile

/-- The file that holds the lines of `es`. -/
def ofEntries (es : List Entry) : JournalFile where
  contents := es.flatMap Entry.line
  ledger := ({} : Ledger).applyAll es
  entries := es.length

variable {e : Entry} {es : List Entry}

theorem ofEntries_write (es : List Entry) (e : Entry) :
    (ofEntries es).write e = ofEntries (es ++ [e]) := by
  simp [ofEntries, write, Ledger.applyAll]

theorem isBlank_of_cons {bs : Bytes} {complete : Bool} :
    (Segment.mk (0x7B :: bs) complete).isBlank = false := by
  rw [Segment.isBlank, List.all_cons]
  exact Bool.false_and _

theorem segment?_entry {bs : Bytes} (hbs : ∃ more, bs = 0x7B :: more)
    (he : Entry.ofBytes? bs = some e) (r : Replay) (offset : Nat) (complete : Bool) :
    r.segment? offset ⟨bs, complete⟩ =
      some { r with ledger := r.ledger.apply e, entries := r.entries + 1 } := by
  obtain ⟨more, rfl⟩ := hbs
  rw [Replay.segment?, if_neg (by rw [isBlank_of_cons]; decide), he]

theorem segment?_torn {bs : Bytes} (hbs : ∃ more, bs = 0x7B :: more)
    (he : Entry.ofBytes? bs = none) (r : Replay) (offset : Nat) :
    r.segment? offset ⟨bs, false⟩ = some { r with tornAt := some offset } := by
  obtain ⟨more, rfl⟩ := hbs
  rw [Replay.segment?, if_neg (by rw [isBlank_of_cons]; decide), he]
  rfl

/-- Whole lines are replayed one after the other. -/
theorem replay?_lines (h : ∀ e ∈ es, e.Fits) (tail : Bytes) (offset : Nat) (r : Replay) :
    replay? (segments (es.flatMap Entry.line ++ tail)) offset r =
      replay? (segments tail) (offset + (es.flatMap Entry.line).length)
        { r with ledger := r.ledger.applyAll es, entries := r.entries + es.length } := by
  induction es generalizing offset r with
  | nil => rfl
  | cons e es ih =>
    have he := h e List.mem_cons_self
    obtain ⟨bs, hbs⟩ := e.text_eq_cons
    have hfile : (e :: es).flatMap Entry.line ++ tail =
        e.text ++ newline :: (es.flatMap Entry.line ++ tail) := by
      simp [Entry.line]
    have hline : Entry.ofBytes? (e.text ++ [newline]) = some e := e.ofBytes?_line he
    rw [hfile, segments_line_append (e.newline_not_mem_text he), replay?,
      segment?_entry ⟨bs ++ [newline], by rw [hbs]; rfl⟩ hline, Option.bind_eq_bind,
      Option.bind_some, ih fun f hf => h f (List.mem_cons_of_mem e hf)]
    have hoffset : offset + (e.text ++ [newline]).length + (es.flatMap Entry.line).length =
        offset + ((e :: es).flatMap Entry.line).length := by
      simp [Entry.line]
      omega
    have hcount : r.entries + 1 + es.length = r.entries + (e :: es).length := by
      rw [List.length_cons]
      omega
    rw [hoffset, hcount]
    rfl

theorem endsLine_lines (es : List Entry) : endsLine (es.flatMap Entry.line) = true := by
  rcases List.eq_nil_or_concat es with rfl | ⟨es, e, rfl⟩
  · rfl
  · simp [endsLine, Entry.line]

/-- A file of whole lines is opened as it is. -/
theorem openBytes?_lines (h : ∀ e ∈ es, e.Fits) :
    openBytes? (es.flatMap Entry.line) = some (ofEntries es) := by
  have hreplay := replay?_lines h [] 0 {}
  rw [List.append_nil, segments, replay?] at hreplay
  rw [openBytes?, hreplay]
  simp only [Option.bind_eq_bind, Option.bind_some, endsLine_lines, if_true]
  simp [ofEntries]

/-- A last line without its newline is given one. -/
theorem openBytes?_text (h : ∀ f ∈ es, f.Fits) (he : e.Fits) :
    openBytes? (es.flatMap Entry.line ++ e.text) = some (ofEntries (es ++ [e])) := by
  obtain ⟨bs, hbs⟩ := e.text_eq_cons
  have hreplay := replay?_lines h e.text 0 {}
  rw [segments_of_no_newline (e.newline_not_mem_text he) (by simp [hbs]), replay?,
    segment?_entry ⟨bs, hbs⟩ (e.ofBytes?_text he)] at hreplay
  rw [openBytes?, hreplay]
  have hends : endsLine (es.flatMap Entry.line ++ e.text) = false := by
    obtain ⟨b, hb⟩ := Option.isSome_iff_exists.1
      (List.getLast?_isSome.2 (show e.text ≠ [] by simp [hbs]))
    have hne : b ≠ newline := fun heq =>
      e.newline_not_mem_text he (heq ▸ List.mem_of_getLast? hb)
    rw [endsLine, List.getLast?_append, hb]
    exact decide_eq_false hne
  simp only [Option.bind_eq_bind, Option.bind_some, replay?, hends]
  simp [ofEntries, Entry.line, Ledger.applyAll]

/-- What is left of a line that has been cut off is dropped. -/
theorem openBytes?_torn (h : ∀ f ∈ es, f.Fits) (he : e.Fits) {m : Nat} (hm : 0 < m)
    (hlt : m < e.text.length) :
    openBytes? (es.flatMap Entry.line ++ e.text.take m) = some (ofEntries es) := by
  obtain ⟨bs, hbs⟩ := e.text_eq_cons
  have htake : ∃ more, e.text.take m = 0x7B :: more := by
    obtain ⟨m, rfl⟩ := Nat.exists_eq_add_one_of_ne_zero (Nat.ne_of_gt hm)
    exact ⟨bs.take m, by rw [hbs, List.take_succ_cons]⟩
  have hnewline : newline ∉ e.text.take m := fun hmem =>
    e.newline_not_mem_text he (List.mem_of_mem_take hmem)
  have hreplay := replay?_lines h (e.text.take m) 0 {}
  rw [segments_of_no_newline hnewline (by obtain ⟨more, hmore⟩ := htake; simp [hmore]), replay?,
    segment?_torn htake (e.ofBytes?_take he hm hlt)] at hreplay
  rw [openBytes?, hreplay]
  simp [replay?, ofEntries]

/-- The first bytes of some lines: whole lines, and after them nothing, a line without its newline,
or a piece of a line that lost more. -/
theorem take_lines (n : Nat) (es : List Entry) : ∃ ws : List Entry,
    surviving n es = ws ∧ (es.flatMap Entry.line).take n = ws.flatMap Entry.line ∨
    (∃ e ∈ es, surviving n es = ws ++ [e] ∧
      (es.flatMap Entry.line).take n = ws.flatMap Entry.line ++ e.text) ∨
    ∃ e ∈ es, ∃ m, 0 < m ∧ m < e.text.length ∧ surviving n es = ws ∧
      (es.flatMap Entry.line).take n = ws.flatMap Entry.line ++ e.text.take m := by
  induction es generalizing n with
  | nil => exact ⟨[], .inl ⟨rfl, List.take_nil⟩⟩
  | cons e es ih =>
    have hline : e.line.length = e.text.length + 1 := List.length_append ..
    have hfile : (e :: es).flatMap Entry.line = e.line ++ es.flatMap Entry.line := rfl
    rcases Nat.lt_or_ge n e.text.length with hlt | hge
    · have hnone : surviving n (e :: es) = [] := if_neg (Nat.not_le.2 hlt)
      have htake : ((e :: es).flatMap Entry.line).take n = e.text.take n := by
        rw [hfile, Entry.line, List.append_assoc, List.take_append_of_le_length (Nat.le_of_lt hlt)]
      rcases Nat.eq_zero_or_pos n with rfl | hpos
      · exact ⟨[], .inl ⟨hnone, rfl⟩⟩
      · exact ⟨[], .inr (.inr ⟨e, List.mem_cons_self, n, hpos, hlt, hnone, htake⟩)⟩
    have hsome : surviving n (e :: es) = e :: surviving (n - e.line.length) es := if_pos hge
    have htake : ((e :: es).flatMap Entry.line).take n =
        e.line.take n ++ (es.flatMap Entry.line).take (n - e.line.length) := by
      rw [hfile, List.take_append]
    rcases Nat.lt_or_ge n e.line.length with hlt | hge'
    · -- The cut lies just before the newline.
      have hn : n = e.text.length := by omega
      have hrest : n - e.line.length = 0 := by omega
      have hnone : surviving 0 es = [] := by
        cases es with
        | nil => rfl
        | cons f es =>
          obtain ⟨bs, hbs⟩ := f.text_eq_cons
          exact if_neg (by simp [hbs])
      refine ⟨[], .inr (.inl ⟨e, List.mem_cons_self, by rw [hsome, hrest, hnone]; rfl, ?_⟩)⟩
      rw [htake, hrest, List.take_zero, List.append_nil, hn, Entry.line, List.take_left']
      · rfl
      · rfl
    · rw [List.take_of_length_le hge'] at htake
      obtain ⟨ws, ⟨hws, hbytes⟩ | ⟨f, hf, hws, hbytes⟩ | ⟨f, hf, m, hm, hlt, hws, hbytes⟩⟩ :=
        ih (n - e.line.length)
      · exact ⟨e :: ws, .inl ⟨by rw [hsome, hws], by rw [htake, hbytes]; rfl⟩⟩
      · refine ⟨e :: ws, .inr (.inl ⟨f, List.mem_cons_of_mem e hf, by rw [hsome, hws]; rfl, ?_⟩)⟩
        rw [htake, hbytes, List.flatMap_cons, List.append_assoc]
      · refine ⟨e :: ws, .inr (.inr ⟨f, List.mem_cons_of_mem e hf, m, hm, hlt, by rw [hsome, hws],
          ?_⟩)⟩
        rw [htake, hbytes, List.flatMap_cons, List.append_assoc]

/-- What is opened of a file that has been cut off: the entries whose texts are whole. -/
theorem openBytes?_take (h : ∀ e ∈ es, e.Fits) (n : Nat) :
    openBytes? ((es.flatMap Entry.line).take n) = some (ofEntries (surviving n es)) := by
  have hfits : ∀ e ∈ surviving n es, e.Fits := fun e he => h e (mem_of_mem_surviving he)
  obtain ⟨ws, ⟨hws, hbytes⟩ | ⟨e, he, hws, hbytes⟩ | ⟨e, he, m, hm, hlt, hws, hbytes⟩⟩ :=
    take_lines n es
  · rw [hws] at hfits ⊢
    rw [hbytes, openBytes?_lines hfits]
  · rw [hws] at hfits ⊢
    rw [hbytes, openBytes?_text (fun f hf => hfits f (List.mem_append_left _ hf)) (h e he)]
  · rw [hws] at hfits ⊢
    rw [hbytes, openBytes?_torn hfits (h e he) hm hlt]

end JournalFile

/-! ## Widths in a ledger -/

namespace Ledger

/-- The numbers of all records fit the widths in which they are kept. -/
structure Fits (l : Ledger) : Prop where
  committed : ∀ r ∈ l.committed, r.Fits
  prepared : ∀ p ∈ l.prepared, p.xid.Fits ∧ p.record.Fits

theorem fits_empty : ({} : Ledger).Fits := ⟨fun _ hr => (nomatch hr), fun _ hp => nomatch hp⟩

theorem fits_apply {l : Ledger} (h : l.Fits) {e : Entry} (he : e.Fits) : (l.apply e).Fits := by
  cases e with
  | add r =>
    refine ⟨fun s hs => ?_, h.prepared⟩
    rcases mem_placeRecord hs with rfl | hs
    · exact he
    · exact h.committed s hs
  | prune a n => exact ⟨fun r hr => h.committed r (List.mem_filter.1 hr).1, h.prepared⟩
  | prepare x r =>
    refine ⟨h.committed, fun p hp => ?_⟩
    rcases List.mem_append.1 hp with hp | hp
    · exact h.prepared p hp
    · rw [List.mem_singleton.1 hp]
      exact he
  | resolve x => exact ⟨h.committed, fun p hp => h.prepared p (List.mem_filter.1 hp).1⟩

theorem fits_applyAll {l : Ledger} (h : l.Fits) {es : List Entry} (hes : ∀ e ∈ es, e.Fits) :
    (l.applyAll es).Fits := by
  induction es generalizing l with
  | nil => exact h
  | cons e es ih =>
    exact ih (fits_apply h (hes e List.mem_cons_self)) fun e' he' =>
      hes e' (List.mem_cons_of_mem e he')

theorem fits_liveEntries {l : Ledger} (h : l.Fits) : ∀ e ∈ l.liveEntries, e.Fits := by
  intro e he
  rcases List.mem_append.1 he with he | he
  · obtain ⟨r, hr, rfl⟩ := List.mem_map.1 he
    exact h.committed r hr
  · obtain ⟨p, hp, rfl⟩ := List.mem_map.1 he
    exact h.prepared p ((sortBy_perm _ _).mem_iff.1 hp)

end Ledger

/-! ## A journal in use -/

/-- What is done with a journal file. -/
inductive FileCall where
  | write (e : Entry)
  /-- Compacts the file, or tries to with the way blocked. -/
  | compact (blocked : Bool)
  /-- Closes the file and opens it again. -/
  | reopen

/-- The numbers of an entry that is written fit the widths in which they are kept. -/
def FileCall.Fits : FileCall → Prop
  | .write e => e.Fits
  | _ => True

namespace Storage

/-- The journal after a call. -/
def perform (s : Storage) : FileCall → Storage
  | .write e => (s.write e).1
  | .compact blocked => { s with compactionBlocked := blocked }.compact.1
  | .reopen => s.openFile.1

def performAll (s : Storage) (calls : List FileCall) : Storage := calls.foldl perform s

/-- The journal on a file that is made for it. -/
def fresh : Storage := ({} : Storage).openFile.1

/-- What becomes of a journal file: it is made, calls go to it, and now and then it is cut off and
opened again. -/
inductive FileHistory : Storage → Prop
  | fresh : FileHistory fresh
  | call {s : Storage} {c : FileCall} (h : FileHistory s) (hc : c.Fits) : FileHistory (s.perform c)
  | tear {s : Storage} (h : FileHistory s) (n : Nat) : FileHistory (s.cut n).openFile.1

/-- The journal is on its file, which holds the lines of `es`, and none of its calls fails. -/
structure Holds (s : Storage) (f : JournalFile) (es : List Entry) : Prop where
  file : s.file = some f
  attached : s.detached = false
  permitted : s.failing = [] ∧ s.lapses = []
  contents : f.contents = es.flatMap Entry.line
  entries : f.entries = es.length
  fits : ∀ e ∈ es, e.Fits
  ledger : f.ledger.Fits

variable {s : Storage} {f : JournalFile} {es : List Entry}

theorem holds_fresh : Holds fresh (.ofEntries []) [] where
  file := rfl
  attached := rfl
  permitted := ⟨rfl, rfl⟩
  contents := rfl
  entries := rfl
  fits := fun _ he => nomatch he
  ledger := Ledger.fits_empty

namespace Holds

theorem write_eq (h : s.Holds f es) (e : Entry) :
    s.write e = ({ s with file := some (f.write e) }, .ok ()) := by
  obtain ⟨hfailing, hlapses⟩ := h.permitted
  simp [Storage.write, permitWrite, permit, hfailing, hlapses, h.file]

theorem write (h : s.Holds f es) {e : Entry} (he : e.Fits) :
    (s.write e).1.Holds (f.write e) (es ++ [e]) := by
  rw [h.write_eq]
  refine ⟨rfl, h.attached, h.permitted, ?_, ?_, ?_, Ledger.fits_apply h.ledger he⟩
  · rw [JournalFile.write, h.contents]
    simp
  · rw [JournalFile.write, h.entries, List.length_append]
    rfl
  · intro e' he'
    rcases List.mem_append.1 he' with he' | he'
    · exact h.fits e' he'
    · rw [List.mem_singleton.1 he']
      exact he

theorem compact_blocked (h : s.Holds f es) :
    (s.perform (.compact true)).Holds f es :=
  have hsame : s.perform (.compact true) = { s with compactionBlocked := true } := by
    simp [perform, Storage.compact, h.file]
  hsame ▸ ⟨h.file, h.attached, h.permitted, h.contents, h.entries, h.fits, h.ledger⟩

theorem compact (h : s.Holds f es) :
    (s.perform (.compact false)).Holds f.compact f.ledger.liveEntries := by
  have hdone : s.perform (.compact false) =
      { s with compactionBlocked := false, file := some f.compact, detached := false } := by
    simp [perform, Storage.compact, h.file]
  rw [hdone]
  exact ⟨rfl, rfl, h.permitted, rfl, rfl, Ledger.fits_liveEntries h.ledger, h.ledger⟩

theorem onDisk_eq (h : s.Holds f es) : s.onDisk = .file (es.flatMap Entry.line) := by
  simp [onDisk, h.file, h.attached, h.contents]

end Holds

/-- What is opened is the file at the path. -/
theorem openFile_eq {contents : Bytes} (hdisk : s.onDisk = .file contents)
    (hopen : JournalFile.openBytes? contents = some f) :
    s.openFile =
      ({ s with file := some f, beside := .file contents, detached := false }, .ok f.entries) := by
  simp [Storage.openFile, hdisk, hopen]

theorem holds_openFile (hpermitted : s.failing = [] ∧ s.lapses = []) {n : Nat}
    (hfits : ∀ e ∈ es, e.Fits)
    (hdisk : s.onDisk = .file ((es.flatMap Entry.line).take n)) :
    ∃ s', s.openFile = (s', .ok (surviving n es).length) ∧
      s'.Holds (.ofEntries (surviving n es)) (surviving n es) := by
  have hsurviving : ∀ e ∈ surviving n es, e.Fits := fun e he => hfits e (mem_of_mem_surviving he)
  exact ⟨_, openFile_eq hdisk (JournalFile.openBytes?_take hfits n), rfl, rfl, hpermitted, rfl, rfl,
    hsurviving, Ledger.fits_applyAll Ledger.fits_empty hsurviving⟩

theorem Holds.openFile (h : s.Holds f es) :
    ∃ s', s.openFile = (s', .ok es.length) ∧ s'.Holds (.ofEntries es) es :=
  ⟨_, openFile_eq h.onDisk_eq (JournalFile.openBytes?_lines h.fits), rfl, rfl, h.permitted, rfl,
    rfl, h.fits, Ledger.fits_applyAll Ledger.fits_empty h.fits⟩

/-- Whatever is done with a journal file, it holds lines afterwards. -/
theorem holds_perform (h : s.Holds f es) {call : FileCall} (hcall : call.Fits) :
    ∃ f' es', (s.perform call).Holds f' es' := by
  cases call with
  | write e => exact ⟨_, _, h.write hcall⟩
  | compact blocked =>
    cases blocked with
    | true => exact ⟨_, _, h.compact_blocked⟩
    | false => exact ⟨_, _, h.compact⟩
  | reopen =>
    obtain ⟨s', hopen, hs'⟩ := h.openFile
    have hsame : s.perform .reopen = s' := congrArg Prod.fst hopen
    exact ⟨_, _, hsame ▸ hs'⟩

/-- Entries that are written stand after those that were there, in the file and in memory. -/
theorem Holds.writeAll (h : s.Holds (.ofEntries es) es) {more : List Entry}
    (hmore : ∀ e ∈ more, e.Fits) :
    (s.performAll (more.map .write)).Holds (.ofEntries (es ++ more)) (es ++ more) := by
  induction more generalizing s es with
  | nil => rwa [List.append_nil]
  | cons e more ih =>
    have hwritten := h.write (hmore e List.mem_cons_self)
    rw [JournalFile.ofEntries_write] at hwritten
    have hall := ih hwritten fun e' he' => hmore e' (List.mem_cons_of_mem e he')
    rwa [List.append_assoc] at hall

theorem Holds.onDisk_cut (h : s.Holds f es) (n : Nat) :
    (s.cut n).onDisk = .file ((es.flatMap Entry.line).take n) ∧
      (s.cut n).failing = [] ∧ (s.cut n).lapses = [] := by
  have hcut : s.cut n = { s with file := some { f with contents := f.contents.take n } } := by
    simp [cut, h.onDisk_eq, h.file, h.attached, h.contents]
  rw [hcut]
  refine ⟨?_, h.permitted⟩
  simp [onDisk, h.attached, h.contents]

/-- Whatever becomes of a journal file, it holds lines. -/
theorem holds_fileHistory (h : FileHistory s) : ∃ f es, s.Holds f es := by
  induction h with
  | fresh => exact ⟨_, _, holds_fresh⟩
  | call _ hc ih =>
    obtain ⟨f, es, hs⟩ := ih
    exact holds_perform hs hc
  | @tear s _ n ih =>
    obtain ⟨f, es, hs⟩ := ih
    obtain ⟨hdisk, hpermitted⟩ := hs.onDisk_cut n
    obtain ⟨s', hopen, hs'⟩ := holds_openFile hpermitted hs.fits hdisk
    have hsame : (s.cut n).openFile.1 = s' := congrArg Prod.fst hopen
    exact ⟨_, _, hsame ▸ hs'⟩

/-- The file of `s` holds the lines of `es`, and is cut after `n` bytes. Then it can be opened, and
the journal holds what the entries come to whose texts are whole, in the order of their lines, and
counts these; and the entries `more` that are written then are found by the next start behind
them. -/
def Recovers (s : Storage) (es more : List Entry) (n : Nat) : Prop :=
  (s.cut n).onDisk = .file ((es.flatMap Entry.line).take n) ∧ ∃ opened reopened : Storage,
    (s.cut n).openFile = (opened, .ok (surviving n es).length) ∧
    opened.ledger = ({} : Ledger).applyAll (surviving n es) ∧
    opened.entryCount = some (surviving n es).length ∧
    (opened.performAll (more.map .write)).openFile =
      (reopened, .ok (surviving n es ++ more).length) ∧
    reopened.ledger = ({} : Ledger).applyAll (surviving n es ++ more) ∧
    reopened.entryCount = some (surviving n es ++ more).length

/-- A journal file that has been cut off anywhere recovers. -/
theorem torn_recovers (h : FileHistory s) {more : List Entry} (hmore : ∀ e ∈ more, e.Fits) :
    ∃ es : List Entry, s.onDisk = .file (es.flatMap Entry.line) ∧ ∀ n, s.Recovers es more n := by
  obtain ⟨f, es, hs⟩ := holds_fileHistory h
  refine ⟨es, hs.onDisk_eq, fun n => ?_⟩
  obtain ⟨hdisk, hpermitted⟩ := hs.onDisk_cut n
  obtain ⟨opened, hopen, hopened⟩ := holds_openFile hpermitted hs.fits hdisk
  obtain ⟨reopened, hreopen, hreopened⟩ := (hopened.writeAll hmore).openFile
  refine ⟨hdisk, opened, reopened, hopen, ?_, ?_, hreopen, ?_, ?_⟩
  · rw [ledger, hopened.file]
    rfl
  · rw [entryCount, hopened.file]
    rfl
  · rw [ledger, hreopened.file]
    rfl
  · rw [entryCount, hreopened.file]
    rfl

/-- A file cut inside a character: the entry before it survives, and one that is written afterwards
stands behind it. -/
theorem torn_recovers_character :
    let first : Entry := .add ⟨⟨"orders"⟩, 1, [97]⟩
    let second : Entry := .add ⟨⟨"zürich"⟩, 1, [122]⟩
    let third : Entry := .resolve ⟨7, [1], [2]⟩
    let s := (fresh.perform (.write first)).perform (.write second)
    FileHistory s ∧ (∀ e ∈ [third], e.Fits) ∧
      ∃ es : List Entry, s.onDisk = .file (es.flatMap Entry.line) ∧
        ∀ n, s.Recovers es [third] n := by
  intro first second third s
  have hhistory : FileHistory s :=
    .call (.call .fresh (show first.Fits by decide)) (show second.Fits by decide)
  have hthird : ∀ e ∈ [third], e.Fits := by decide
  exact ⟨hhistory, hthird, torn_recovers hhistory hthird⟩

end Storage

end MessageRouting
