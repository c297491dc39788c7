import MessageRouting.Proofs.Persistence.PreparedRecords
import MessageRouting.Proofs.Persistence.StrayRecords
import MessageRouting.Proofs.Restart.StartOutcomes
import MessageRouting.Proofs.Stage.Keepers

/-!
# Rolled-back transactions and the journal

A transaction that is rolled back has its prepared records deleted, and in
async mode it has written nothing else. In mandatory mode a commit that fails
half-way has written records by then, and the rollback does not take them back:
the identifiers that came to nothing stay in the journal, as committed ones.

Results:

* `logs_rolledBack`: what is written and handed over when a transaction is
  rolled back.
* `rolledBack_recorded`: what stays of it in the journal.
-/

namespace MessageRouting

open Relation (ReflGen)

namespace Broker

variable {P : Call → Prop} {mode : PersistenceMode} {b b' : Broker} {r : Record}

/-! ## A post office in use -/

/-- A post office with its journal in order: records have their places to themselves. -/
structure Filed (mode : PersistenceMode) (b : Broker) : Prop where
  keeping : Keeping mode b
  addressed : Addressed b
  numbered : Numbered b
  ordered : Ledger.Ordered b.storage.ledger.committed

theorem filed_step (h : Step b b') (hb : Filed mode b) : Filed mode b' := by
  refine ⟨keeping_step h hb.keeping, addressed_step h hb.addressed,
    numbered_step h hb.keeping hb.addressed hb.numbered, ?_⟩
  obtain ⟨es, -, hledger⟩ := ledger_step h hb.keeping hb.addressed
  rw [hledger]
  exact Ledger.ordered_applyAll hb.ordered es

theorem writes_books (b : Broker) : b.books.writes = b.writes := by
  show (b.trace.filter Event.isBooked).filterMap Event.written? = _
  rw [List.filterMap_filter]
  refine List.filterMap_congr fun e _ => ?_
  cases e <;> rfl

theorem Begun.filed (hb : Begun mode b) : Filed mode b.books := by
  have hentries : b.books.entries = b.writes := by
    rw [entries, writes_books, queue_books, hb.queue, List.append_nil]
  have hnone : ∀ r, .add r ∉ b.books.entries := fun r => hentries ▸ hb.unadded r
  refine ⟨keeping_books hb.keeping, hb.addressed, ⟨hb.keyed, ?_, ?_, ?_, ?_⟩, hb.ordered⟩
  · exact fun r hr => absurd hr (hnone r)
  · intro a n hn
    rw [queue_books, hb.queue] at hn
    cases hn
  · exact fun r _ hr => absurd hr (hnone r)
  · exact fun r hr => absurd hr (hnone r)

/-! ## What a rollback writes -/

theorem Logs.inline_eq {i i' h h' : List Entry} (hlogs : Logs b b' i h) (hlogs' : Logs b b' i' h') :
    i = i' :=
  List.append_cancel_left (hlogs.writes.symm.trans hlogs'.writes)

/-- What a rolled-back transaction has written is the prepared records of its stages, which its
rollback has deleted, and in mandatory mode committed records, which are left stray. -/
theorem logs_undo (hb : Filed mode b) (hunkeyed : Unkeyed b) {hs : List (HeldStage × Bool)}
    (hhs : ∀ h ∈ hs, h.1.AtOffice) (x : Option Xid) (m : Nat) :
    ∃ inline, Logs b ((b.persistAll (hs.take m)).1.dropAll x hs) inline (hs.flatMap (released x)) ∧
      ∀ e ∈ inline, mode = .mandatory ∧ ∃ h ∈ hs, ∃ key, e = .add (h.1.staged.recordAt key) ∧
        Stray (h.1.staged.recordAt key) ((b.persistAll (hs.take m)).1.dropAll x hs) := by
  obtain ⟨inline, hlogs, hstray⟩ :=
    stray_dropped hb.keeping hb.numbered hb.ordered hunkeyed hhs x m
  obtain ⟨adds, hpersisted, hadds, hasync⟩ := logs_persistAll hb.keeping
    (show ∀ g ∈ hs.take m, g.1.AtOffice from fun g hg => hhs g (List.mem_of_mem_take hg))
  have hdropped := logs_dropAll (hb.keeping.of_stations hpersisted.stations) hhs x
  obtain rfl : inline = adds := hlogs.inline_eq (by simpa using hpersisted.trans hdropped)
  refine ⟨inline, hlogs, fun e he => ⟨?_, ?_⟩⟩
  · cases mode with
    | mandatory => rfl
    | async =>
      rw [hasync rfl] at he
      cases he
  · obtain ⟨h, hh, key, rfl⟩ := hadds e he
    obtain ⟨r, heq, hr⟩ := hstray _ he
    obtain rfl : h.1.staged.recordAt key = r := by injection heq
    exact ⟨h, List.mem_of_mem_take hh, key, rfl, hr⟩

/-- What a transaction writes when it is rolled back: nothing but prepared records, or, in
mandatory mode, records of its stages that are left stray. What it hands over is the deletion of
its prepared records. -/
theorem logs_rolledBack {v v' : View} (h : Move P v v') (hb : Filed mode v.books)
    (hunkeyed : Unkeyed v.books) (hv : v.Local) {i : Nat} {o o' : Outline}
    (hold : v.outlines[i]? = some o) (hnew : v'.outlines[i]? = some o')
    (hlive : o.isLive = true) (hdone : o'.state = .rolledBack) :
    ∃ inline handed, Logs v.books v'.books inline handed ∧
      (∀ e ∈ handed, ∃ x, o.xid = some x ∧ e = .resolve x) ∧
      ∀ e ∈ inline, (∃ x, o.xid = some x ∧ ∃ h ∈ o.stages, e = .prepare x h.staged.record) ∨
        mode = .mandatory ∧ ∃ h ∈ o.stages, ∃ key, e = .add (h.staged.recordAt key) ∧
          Stray (h.staged.recordAt key) v'.books := by
  have hne : o' ≠ o := by
    rintro rfl
    rw [Outline.isLive, hdone] at hlive
    cases hlive
  have hsame : ∀ {os : List Outline}, os[i]? = some o → os[i]? ≠ some o' := by
    intro os ho ho'
    rw [ho, Option.some.injEq] at ho'
    exact hne ho'.symm
  have hat : ∀ {l₁ l₂ : List Outline} {p : Outline}, v.outlines = l₁ ++ p :: l₂ →
      ∀ g ∈ p.held, g.1.AtOffice := by
    intro l₁ l₂ p h₁ g hg
    apply hv.atOffice
    rw [h₁]
    simp only [List.flatMap_append, List.flatMap_cons, List.mem_append]
    exact Or.inr (Or.inr (Or.inl (List.mem_map_of_mem hg)))
  cases h with
  | @unprepared b b' l₁ l₂ x held marks result m hstore =>
    obtain ⟨rfl, rfl⟩ := replaced_of_ne hold hnew hne
    have hlocal : View.Local ⟨b'.dropAll (some x) (marks ++ held.drop m), [],
        l₁ ++ ⟨some x, .rolledBack, marks ++ held.drop m⟩ :: l₂⟩ :=
      (steps_move (.unprepared (P := P) hstore) hv).2
    obtain ⟨k, -, hlogs, -⟩ := logs_storeAll hb.keeping
      (fun g hg => hat rfl g (List.mem_of_mem_take hg)) hstore
    have hmarks : ∀ g ∈ marks ++ held.drop m, g.1.AtOffice := by
      intro g hg
      apply hlocal.atOffice
      simp only [List.flatMap_append, List.flatMap_cons, List.mem_append]
      exact Or.inr (Or.inr (Or.inl (List.mem_map_of_mem hg)))
    have hdropped := logs_dropAll (hb.keeping.of_stations hlogs.stations) hmarks (some x)
    refine ⟨_, _, hlogs.trans hdropped, fun e he => mem_released he,
      fun e he => Or.inl ⟨x, rfl, ?_⟩⟩
    rw [List.append_nil] at he
    obtain ⟨g, hg, rfl⟩ := List.mem_map.1 he
    exact ⟨g.1, List.mem_map_of_mem (List.mem_of_mem_take (List.mem_of_mem_take hg)), rfl⟩
  | @undone b l₁ l₂ x st held hlive m =>
    obtain ⟨rfl, rfl⟩ := replaced_of_ne hold hnew hne
    obtain ⟨inline, hlogs, hinline⟩ := logs_undo hb hunkeyed (hat rfl) x m
    refine ⟨inline, _, hlogs, fun e he => mem_released he, fun e he => Or.inr ?_⟩
    obtain ⟨hmode, g, hg, key, he, hstray⟩ := hinline e he
    exact ⟨hmode, g.1, List.mem_map_of_mem hg, key, he, hstray⟩
  | begun x =>
    obtain ⟨hi, -⟩ := List.getElem?_eq_some_iff.1 hold
    exact absurd hnew (hsame ((List.getElem?_append_left hi).trans hold))
  | registered howner =>
    obtain ⟨rfl, rfl⟩ := replaced_of_ne hold hnew hne
    cases hdone
  | prepared hstore =>
    obtain ⟨rfl, rfl⟩ := replaced_of_ne hold hnew hne
    cases hdone
  | committed hlive hpersist =>
    obtain ⟨rfl, rfl⟩ := replaced_of_ne hold hnew hne
    cases hdone
  | _ => exact absurd hnew (hsame hold)

/-! ## What stays -/

/-- A live transaction is found among the outlines. -/
theorem outline_of_live {n : Nat} (h : (b.transaction n).outline.isLive = true) :
    ∃ i, n = i + 1 ∧ b.outlines[i]? = some (b.transaction n).outline := by
  have hn : b.Has n := has_of_state fun hstate => by
    rw [Outline.isLive, show (b.transaction n).outline.state = .rolledBack from hstate] at h
    cases h
  obtain ⟨i, rfl⟩ := Nat.exists_eq_add_one.2 hn.1
  exact ⟨i, rfl, by rw [outline_transaction, if_pos (Nat.lt_of_succ_le hn.2)]⟩

/-- A stray record stays in the journal in every run. -/
theorem stray_moves {v v' : View} (h : Moves P v v') (hv : v.Local) (hb : Filed mode v.books)
    (hr : Stray r v.books) : Stray r v'.books :=
  (books_moves (I := fun b => Filed mode b ∧ Stray r b)
    (fun _ _ h hb => ⟨filed_step h hb.1, stray_step h hb.1.keeping hb.1.addressed hb.2⟩)
    h hv ⟨hb, hr⟩).1.2

/-- Once the writer has caught up, a transaction that has been completed has no prepared record. -/
theorem prepared_ne_of_pledged {v : View} (hv : Pledged mode v) (hnodup : v.xids.Nodup)
    (hqueue : v.books.queue = []) {o : Outline} (ho : o ∈ v.outlines) (hdone : o.isLive = false)
    {x : Xid} (hx : o.xid = some x) : ∀ p ∈ v.books.storage.ledger.prepared, p.xid ≠ x := by
  intro p hp hpx
  have hrecords := hv.records
  rw [settled, hqueue] at hrecords
  obtain ⟨g, hg, hpledge⟩ := List.mem_flatMap.1 (hrecords.mem_iff.1 hp)
  have hgx := g.xid_of_mem_pledges hpledge
  rw [hpx] at hgx
  obtain rfl := eq_of_xid hnodup ho hg hx hgx
  rw [Outline.pledges_of_not_live hdone] at hpledge
  cases hpledge

/-- The request that rolls a transaction back writes and hands over what rolling back does. -/
theorem logs_completion (hmove : ReflGen (Move P) b.view b'.view) (hb : Filed mode b.books)
    (hunkeyed : Unkeyed b.books) (hlocal : b.view.Local) {i : Nat} {o : Outline}
    (hold : b.outlines[i]? = some o) (hlive : o.isLive = true)
    (hdone : (b'.transaction (i + 1)).state = .rolledBack) :
    ∃ o', b'.outlines[i]? = some o' ∧ o'.state = .rolledBack ∧ o'.xid = o.xid ∧
      ∃ inline handed, Logs b.books b'.books inline handed ∧
        (∀ e ∈ handed, ∃ x, o.xid = some x ∧ e = .resolve x) ∧
        ∀ e ∈ inline, (∃ x, o.xid = some x ∧ ∃ h ∈ o.stages, e = .prepare x h.staged.record) ∨
          mode = .mandatory ∧ ∃ h ∈ o.stages, ∃ key, e = .add (h.staged.recordAt key) ∧
            Stray (h.staged.recordAt key) b'.books := by
  obtain ⟨o', hnew, hgrows⟩ := outline_moves hmove.to_reflTransGen hold
  have hrolledBack : o'.state = .rolledBack := by
    rw [eq_of_outline hnew]
    exact hdone
  refine ⟨o', hnew, hrolledBack, hgrows.xid, ?_⟩
  rcases (Relation.reflGen_iff _ _ _).1 hmove with heq | hmove
  · have hsame : b'.outlines = b.outlines := congrArg View.outlines heq
    rw [show b'.view.outlines = b'.outlines from rfl, hsame, hold, Option.some.injEq] at hnew
    rw [Outline.isLive, hnew, hrolledBack] at hlive
    cases hlive
  · exact logs_rolledBack hmove hb hunkeyed hlocal hold hnew hlive hrolledBack

/-- A transaction that is rolled back, in whatever run and however that comes, has written prepared
records and, in mandatory mode alone, committed records of its stages; its rollback hands over the
deletion of prepared records. Once the writer has caught up with whatever follows, the prepared
records are gone, and the committed ones are there. -/
theorem rolledBack_recorded {mailboxes : Table String Mailbox} {storage : Storage} {s : Settings}
    {k : Nat} {b₀ : Broker} (hpersist : s.persistIdCache = true ∧ s.duplicateDetection = true)
    (entries : List Entry) (hwritten : storage.ledger = ({} : Ledger).applyAll entries)
    (hdelete : storage.Takes .delete)
    (hstart : ({ mailboxes, storage } : Broker).start s = (b₀, .ok k))
    {cs ds : List Command} (hcs : ∀ c ∈ cs, c.isTraffic = true) {c : Command}
    (hc : c.isCompletion = true) (hds : ∀ c ∈ ds, c.isTraffic = true) {n : Nat}
    (hlive : ((b₀.run cs).transaction n).outline.isLive = true)
    (hdone : (((b₀.run cs).perform c).1.transaction n).state = .rolledBack)
    (hxids : ((((b₀.run cs).perform c).1.run ds).transactions.filterMap (·.xid)).Nodup) :
    let b := b₀.run cs
    let b' := (b.perform c).1
    let ledger := ((b'.run ds).flush 0).storage.ledger
    (∃ inline handed, b'.writes = b.writes ++ inline ∧ b'.queue = b.queue ++ handed ∧
        (∀ e ∈ handed, ∃ x, e = .resolve x) ∧
        ∀ e ∈ inline, (∃ x r, e = .prepare x r) ∨ s.idCachePersistence = .mandatory ∧
          ∃ h ∈ (b.transaction n).outline.stages, ∃ key, e = .add (h.staged.recordAt key) ∧
            h.staged.recordAt key ∈ ledger.committed) ∧
      ∀ x, (b.transaction n).xid = some x → ∀ p ∈ ledger.prepared, p.xid ≠ x := by
  intro b b' ledger
  obtain ⟨hbegun, hkept, -, hrecords⟩ :=
    begun_start hpersist (Ledger.ordered_of_entries hwritten) hstart
  have hpledged := hbegun.pledged (hkept _ hdelete) hrecords
  -- The run up to the request, the request, and what follows until the writer has caught up.
  obtain ⟨hmoves, hproper⟩ := moves_run hcs (hbegun.proper _)
  have hmove := move_completion Call.Routes b hc
  obtain ⟨hlater, -⟩ := moves_run hds (proper_of_moves hproper hmove.to_reflTransGen)
  have hflush : Moves Call.Routes b'.view ((b'.run ds).flush 0).view :=
    hlater.trans (moves_writeSome Call.Routes _ _)
  obtain ⟨hlocal, hunkeyed, -⟩ := custody_moves hmoves hbegun.atOffice hbegun.unkeyed hbegun.custody
  have hfiled := (books_moves (fun _ _ => filed_step) hmoves hbegun.atOffice hbegun.filed).1
  obtain ⟨i, rfl, hold⟩ := outline_of_live hlive
  obtain ⟨o, hnew, hrolledBack, hxid, inline, handed, hlogs, hhanded, hinline⟩ :=
    logs_completion hmove hfiled hunkeyed hlocal hold hlive hdone
  obtain ⟨hfiled', hlocal'⟩ :=
    books_moves (fun _ _ => filed_step) hmove.to_reflTransGen hlocal hfiled
  refine ⟨⟨inline, handed, ?_, ?_, fun e he => ?_, fun e he => ?_⟩, fun x hx => ?_⟩
  · rw [← writes_books b', ← writes_books b, hlogs.writes]
  · rw [← queue_books b', ← queue_books b, hlogs.queue]
  · obtain ⟨x, -, rfl⟩ := hhanded e he
    exact ⟨x, rfl⟩
  · rcases hinline e he with ⟨x, -, h, -, rfl⟩ | ⟨hmode, h, hh, key, rfl, hstray⟩
    · exact Or.inl ⟨x, _, rfl⟩
    · exact Or.inr ⟨hmode, h, hh, key, rfl, (stray_moves hflush hlocal' hfiled' hstray).here⟩
  · have hcompleted : o.isLive = false := by simp [Outline.isLive, hrolledBack]
    obtain ⟨o', hlast, hgrows⟩ := outline_moves hflush hnew
    obtain rfl := hgrows.completed hcompleted
    have hnodup : ((b'.run ds).flush 0).view.xids.Nodup := by
      rw [xids_view, transactions_flush]
      exact hxids
    have hsettled :=
      pledged_moves ((hmoves.trans hmove.to_reflTransGen).trans hflush) hnodup hpledged
    have hqueue : ((b'.run ds).flush 0).books.queue = [] := (queue_books _).trans (flush_queue _)
    exact prepared_ne_of_pledged hsettled hnodup hqueue (List.mem_of_getElem? hlast) hcompleted
      (hxid.trans hx)

/-- A post office that writes a record before its commit, with room for `n` identifiers. -/
def earlierSettings (n : Nat) : Settings := { idCacheSize := n, idCachePersistence := .mandatory }

/-- A transaction sends to a queue that takes messages and to one that is full. -/
def sendHalfway : List Command :=
  [.setMailbox "full" .full, .bind (some 0) (.ofQueue ⟨"orders"⟩ "free"),
    .bind (some 0) (.ofQueue ⟨"invoices"⟩ "full"), .begin none,
    .route 0 0 (messageTo "orders" 1) (some 1) true,
    .route 0 1 (messageTo "invoices" 2) (some 1) true]

/-- The record of the first send, under the key that the failed commit has drawn. -/
def halfwayRecord : Record := ⟨⟨"orders"⟩, 2, [1]⟩

theorem rolledBack_recorded_halfway :
    let b := (({} : Broker).start (earlierSettings 10)).1.run sendHalfway
    let b' := (b.perform (.commit 1)).1
    (b'.transaction 1).state = .rolledBack ∧ b'.writes = [.add halfwayRecord] ∧
      halfwayRecord ∈
        ((b'.run [.route 0 2 (messageTo "orders" 3) none true]).flush 0).storage.ledger.committed := by
  intro b b'
  have hstart : ({} : Broker).start (earlierSettings 10) =
      ((({} : Broker).start (earlierSettings 10)).1, .ok 0) := by decide +kernel
  have hwrites : b.writes = [] ∧ b'.writes = [.add halfwayRecord] := by decide +kernel
  have hdone : (b'.transaction 1).state = .rolledBack := by decide +kernel
  obtain ⟨⟨inline, -, hlogged, -, -, hinline⟩, -⟩ :=
    rolledBack_recorded (s := earlierSettings 10) (by decide) [] rfl
      ⟨List.not_mem_nil, List.not_mem_nil⟩ hstart
      (show ∀ c ∈ sendHalfway, c.isTraffic = true by decide) (c := .commit 1) rfl
      (show ∀ c ∈ [Command.route 0 2 (messageTo "orders" 3) none true], c.isTraffic = true by
        decide)
      (n := 1) (by decide +kernel) hdone (by decide +kernel)
  have hone : inline = [.add halfwayRecord] := by
    rw [hwrites.1, List.nil_append] at hlogged
    exact hlogged.symm.trans hwrites.2
  refine ⟨hdone, hwrites.2, ?_⟩
  rcases hinline (.add halfwayRecord) (by simp [hone]) with
    ⟨x, r, heq⟩ | ⟨-, h, -, key, heq, hmem⟩
  · cases heq
  · rw [show halfwayRecord = h.staged.recordAt key from Entry.add.inj heq]
    exact hmem

/-- A transaction that comes to nothing at its second queue leaves its first identifier in the
journal, and the next start takes it for a duplicate. -/
theorem rolledBack_remembered :
    let b := (({} : Broker).start (earlierSettings 10)).1.run
      (sendHalfway ++ [.commit 1, .flush 0])
    let c := (({ storage := b.storage } : Broker).start (earlierSettings 10)).1
    (b.transaction 1).state = .rolledBack ∧ b.queue = [] ∧
      b.storage.ledger.committed = [halfwayRecord] ∧
      (b.cache (.office 0 ⟨"orders"⟩)).isDuplicate [1] = false ∧
      (c.cache (.office 0 ⟨"orders"⟩)).isDuplicate [1] = true := by
  decide +kernel

end Broker

end MessageRouting
