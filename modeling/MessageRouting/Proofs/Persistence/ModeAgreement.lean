import MessageRouting.Proofs.Persistence.BranchTurns
import MessageRouting.Proofs.Persistence.MemoryShadow
import MessageRouting.Proofs.Persistence.RecordsBeforehand
import MessageRouting.Proofs.Routing.UnitsOfWork

/-!
# Modes of persistence

Whether a post office writes to the journal, and when, shows in the journal
alone. Started on nothing and asked the same, it answers alike and asks queues
alike, and its caches are the same, whatever its mode and whenever its writer
writes. Both modes that write come to the same journal, unless a commit ends
halfway: in mandatory mode it leaves records of what has not become visible.

Results:

* `modes_agree`: three post offices, one for each mode, throughout any run.
* `unhurried_fresh`: with different xids no branch is prepared too early.
* `ledgers_agree_of_xids`: so the journals of both modes are then the same,
  whenever writers write.
-/

namespace MessageRouting

open Relation (ReflTransGen)

/-- The settings, so that nothing is kept in the journal, or identifiers are kept in some mode. -/
def Settings.inMode (s : Settings) : Option PersistenceMode → Settings
  | none => { s with persistIdCache := false }
  | some mode => { s with persistIdCache := true, idCachePersistence := mode }

/-- A post office with such settings that has just been started, on an empty journal that takes
every write. -/
inductive FreshOffice (mailboxes : Table String Mailbox) (s : Settings) : Broker → Prop where
  | started {storage : Storage} {b : Broker} {n : Nat} (hempty : storage.ledger = {})
    (htakes : ∀ e : Entry, storage.Takes e.method)
    (hstart : ({ mailboxes, storage } : Broker).start s = (b, .ok n)) : FreshOffice mailboxes s b

namespace Broker

variable {mode : PersistenceMode} {mailboxes : Table String Mailbox} {s : Settings}
  {a b b' m w : Broker}

/-- Whether something holds of every request of a run and of the broker that it is made to. -/
def Throughout (Q : Broker → Command → Prop) (b : Broker) : List Command → Prop
  | [] => True
  | c :: rest => Q b c ∧ (b.perform c).1.Throughout Q rest

instance decidableThroughout {Q : Broker → Command → Prop} [∀ b c, Decidable (Q b c)] :
    ∀ (cs : List Command) (b : Broker), Decidable (b.Throughout Q cs)
  | [], _ => isTrue trivial
  | c :: rest, b =>
    have := decidableThroughout (Q := Q) rest (b.perform c).1
    inferInstanceAs (Decidable (Q b c ∧ (b.perform c).1.Throughout Q rest))

theorem throughout_of_run {Q : Broker → Command → Prop} {cs : List Command}
    (h : ∀ done c rest, cs = done ++ c :: rest → Q (b.run done) c) : b.Throughout Q cs := by
  induction cs generalizing b with
  | nil => exact trivial
  | cons c rest ih =>
    exact ⟨h [] c rest rfl, ih fun done d later heq => h (c :: done) d later (by rw [heq]; rfl)⟩

/-! ## Starts -/

/-- All three post offices have one shadow: one that has been opened on nothing. -/
theorem shadow_fresh {k : Option PersistenceMode} (h : FreshOffice mailboxes (s.inMode k) b) :
    Shadow b (({ mailboxes } : Broker).openPlain (s.inMode (some .async))).1 := by
  obtain ⟨hempty, htakes, hstart⟩ := h
  unfold start at hstart
  split at hstart
  · rw [openPersistent_of_empty hempty hstart]
    refine ⟨?_, htakes⟩
    cases k <;> rfl
  · cases hstart
    refine ⟨?_, htakes⟩
    cases k <;> rfl

/-- A post office that keeps nothing in the journal. -/
structure Idle (b : Broker) : Prop where
  persistence : (b.office 0).persistence = none
  running : (b.office 0).writer.running = false
  queue : b.queue = []

theorem Idle.of_offices (hb : Idle b) (h : b'.offices = b.offices) : Idle b' := by
  have hoffice : b'.office 0 = b.office 0 := by rw [office, h, office]
  refine ⟨hoffice ▸ hb.persistence, hoffice ▸ hb.running, ?_⟩
  show (b'.office 0).writer.queue = []
  rw [hoffice]
  exact hb.queue

theorem submitFor_idle (hb : Idle b) (a : Address) (e : Entry) :
    b.submitFor (.office 0 a) e = b := by
  have hoffices : (b.offices.modify 0 fun o => { o with writer := o.writer.submit e }) =
      b.offices := by
    refine List.ext_getElem? fun i => ?_
    rw [List.getElem?_modify]
    split
    · subst_vars
      cases hget : b.offices[0]? with
      | none => rfl
      | some o =>
        have ho : b.office 0 = o := by
          rw [office, List.getD_eq_getElem?_getD, hget]
          rfl
        have hrunning := hb.running
        rw [ho] at hrunning
        simp [JournalWriter.submit, hrunning]
    · simp
  simp only [submitFor, submit, modifyOffice, hoffices]

theorem idle_step (h : Step b b') (hb : Idle b) :
    b'.storage = b.storage ∧ b'.offices = b.offices := by
  have hkeeps : ∀ {h : HeldStage}, h.AtOffice → b.persistenceOf h.cache = none := by
    intro h hh
    rw [hh]
    exact hb.persistence
  cases h with
  | opened a =>
    rcases openOfficeCache_cases b 0 a with ⟨-, heq⟩ | ⟨-, heq⟩
    · rw [heq]
      exact ⟨rfl, rfl⟩
    · rw [heq]
      exact ⟨rfl, rfl⟩
  | written =>
    unfold writeNext
    rw [show (b.office 0).writer.queue = [] from hb.queue]
    exact ⟨rfl, rfl⟩
  | called waiting ready => exact ⟨rfl, rfl⟩
  | granted hgrant =>
    obtain ⟨c, -, rfl⟩ := attemptStage_granted hgrant
    exact ⟨rfl, rfl⟩
  | persisted hh hp =>
    rcases persistStage_cases hp with ⟨-, rfl, -⟩ | ⟨key, c, -, ⟨hmode, -⟩ | ⟨-, rfl, -⟩⟩
    · exact ⟨rfl, rfl⟩
    · rw [hkeeps hh] at hmode
      cases hmode
    · exact ⟨rfl, rfl⟩
  | @promoted h hh =>
    rcases commitStage_cases b h with ⟨-, heq⟩ | ⟨p, c, b₁, -, hb₁, heq⟩
    · rw [heq]
      exact ⟨rfl, rfl⟩
    · have hidle : Idle b₁ := by
        rw [hb₁]
        exact ⟨hb.persistence, hb.running, hb.queue⟩
      have hpruned : ∀ evicted : List (Nat × Bytes),
          evicted.foldl (fun b e => b.submitFor h.cache (.prune c.address e.1)) b₁ = b₁ := by
        intro evicted
        induction evicted with
        | nil => rfl
        | cons e rest ih =>
          rw [List.foldl_cons, hh, submitFor_idle hidle, ← hh]
          exact ih
      rw [heq, hkeeps hh, if_neg (by simp), hpruned, hb₁]
      exact ⟨rfl, rfl⟩
  | @dropped h hh =>
    rcases rollbackStage_cases b h with ⟨-, heq⟩ | ⟨q, c, -, -, heq⟩
    · rw [heq]
      exact ⟨rfl, rfl⟩
    · rw [heq]
      exact ⟨rfl, rfl⟩
  | @released h hh x =>
    have hsame : b.release x h = b := by
      unfold release
      split
      · split
        · rw [hh]
          exact submitFor_idle hb _ _
        · rfl
      · rfl
    rw [hsame]
    exact ⟨rfl, rfl⟩
  | stored hh hs =>
    unfold storePrepared at hs
    rw [hkeeps hh] at hs
    cases hs
    exact ⟨rfl, rfl⟩

/-- A post office that keeps nothing in the journal leaves it empty and hands its writer nothing. -/
theorem idle_run (hpersist : ¬ (s.persistIdCache && s.duplicateDetection) = true)
    (hb : FreshOffice mailboxes s b) {cs : List Command} (hcs : ∀ c ∈ cs, c.isTraffic = true) :
    (b.run cs).queue = [] ∧ (b.run cs).storage.ledger = {} := by
  obtain ⟨hempty, -, hstart⟩ := hb
  rename_i storage n
  unfold start at hstart
  rw [if_neg hpersist] at hstart
  obtain rfl : (({ mailboxes, storage } : Broker).openPlain s).1 = b := congrArg Prod.fst hstart
  have hmoves := (moves_run hcs (b := (({ mailboxes, storage } : Broker).openPlain s).1)
    ⟨rfl, fun c hc => absurd hc List.not_mem_nil⟩).1
  have hlocal : (({ mailboxes, storage } : Broker).openPlain s).1.view.Local :=
    ⟨fun a c hc => (by cases hc), fun h hh => absurd hh List.not_mem_nil⟩
  obtain ⟨hidle, hledger⟩ := (books_moves
    (I := fun b => Idle b ∧ b.storage.ledger = ({} : Ledger)) (fun b b' h hb => by
      obtain ⟨hstorage, hoffices⟩ := idle_step h hb.1
      exact ⟨hb.1.of_offices hoffices, hstorage ▸ hb.2⟩)
    hmoves hlocal ⟨⟨rfl, rfl, rfl⟩, hempty⟩).1
  exact ⟨(queue_books _).symm.trans hidle.queue, hledger⟩

theorem ledger_idle (hpersist : ¬ (s.persistIdCache && s.duplicateDetection) = true)
    (hb : FreshOffice mailboxes s b) {cs : List Command} (hcs : ∀ c ∈ cs, c.isTraffic = true) :
    ((b.run cs).flush 0).storage.ledger = {} := by
  obtain ⟨hqueue, hledger⟩ := idle_run hpersist hb hcs
  rw [flush, show ((b.run cs).office 0).writer.queue = [] from hqueue]
  exact hledger

/-! ## Prepared records -/

/-- A post office in use, beside its shadow. -/
structure Attended (mode : PersistenceMode) (b w : Broker) : Prop where
  shadow : Shadow b w
  proper : Proper Call.Routes b
  marked : Marked mode b.view

theorem Attended.of_shadow (h : Attended mode b w) {c : Command} (hc : c.isTraffic = true)
    {w' : Broker} (hshadow : Shadow (b.perform c).1 w') : Attended mode (b.perform c).1 w' := by
  have hmoves := moves_perform (P := Call.Routes) (fun _ h => h) hc h.proper
    fun _ h => routes_of_submits h
  exact ⟨hshadow, proper_of_moves h.proper hmoves, marked_moves hmoves h.marked⟩

theorem Attended.step (h : Attended mode b w) {c : Command} (hc : c.isTraffic = true) :
    Attended mode (b.perform c).1 (w.perform c).1 :=
  h.of_shadow hc (echo_perform h.shadow hc).shadow

theorem Attended.writing (h : Attended mode b w) {c : Command} (hc : c.isTraffic = true)
    (hwriting : c.isWriting = true) : Attended mode (b.perform c).1 w :=
  h.of_shadow hc (h.shadow.writing hwriting)

/-- Transactions turn in the shadow as they do in the broker. -/
theorem Attended.outstandingAfter (h : Attended mode b w) {c : Command} (hc : c.isTraffic = true)
    (s : Outstanding) : w.outstandingAfter s c = b.outstandingAfter s c := by
  have hafter := (echo_perform h.shadow hc).shadow
  rw [Broker.outstandingAfter, Broker.outstandingAfter,
    outlines_of_transactions h.shadow.transactions, outlines_of_transactions hafter.transactions]

theorem flush_of_writing {c : Command} (hc : c.isTraffic = true) (hwriting : c.isWriting = true)
    (hnext : ∀ n, c ≠ .writeNext n) (hb : b.offices.length = 1) : (b.perform c).1 = b.flush 0 := by
  cases c with
  | writeNext office => exact absurd rfl (hnext office)
  | flush office =>
    obtain rfl : office = 0 := by simpa [Command.isTraffic] using hc
    rfl
  | flushAll => simp [perform, flushAll, hb]
  | _ => cases hwriting

/-- When writers catch up at the same times, the prepared records and what is to become of them are
the same all along. -/
theorem outstanding_agree {mode mode' : PersistenceMode} {cs : List Command}
    (hcs : ∀ c ∈ cs, c.isTraffic = true) (hnext : ∀ n, .writeNext n ∉ cs)
    (ha : Attended mode a w) (hm : Attended mode' m w) (heq : a.outstanding = m.outstanding) :
    (a.run cs).outstanding = (m.run cs).outstanding := by
  induction cs generalizing a m w with
  | nil => exact heq
  | cons c rest ih =>
    have hc : c.isTraffic = true := hcs c (by simp)
    have hrest : ∀ d ∈ rest, d.isTraffic = true := fun d hd => hcs d (by simp [hd])
    have hnext' : ∀ n, .writeNext n ∉ rest := fun n hn => hnext n (by simp [hn])
    cases hwriting : c.isWriting with
    | true =>
      refine ih hrest hnext' (ha.writing hc hwriting) (hm.writing hc hwriting) ?_
      have hflush : ∀ n, c ≠ .writeNext n := fun n hn => hnext n (by simp [hn])
      show (a.perform c).1.outstanding = (m.perform c).1.outstanding
      rw [flush_of_writing hc hwriting hflush ha.proper.single,
        flush_of_writing hc hwriting hflush hm.proper.single, outstanding_flush ha.marked,
        outstanding_flush hm.marked, heq]
    | false =>
      refine ih hrest hnext' (ha.step hc) (hm.step hc) ?_
      show (a.perform c).1.outstanding = (m.perform c).1.outstanding
      rw [outstanding_perform hc hwriting ha.proper ha.marked,
        outstanding_perform hc hwriting hm.proper hm.marked, ← ha.outstandingAfter hc,
        ← hm.outstandingAfter hc, heq]

/-- The prepared records that remain after a run, of those that remained before. -/
def remainingAlong (b : Broker) (ps : List PreparedRecord) : List Command → List PreparedRecord
  | [] => ps
  | c :: rest =>
    (b.perform c).1.remainingAlong (b.outstandingAfter ⟨ps, []⟩ c).remaining rest

/-- What remains of prepared records in the end follows from what becomes of the transactions,
whenever the writer writes. -/
theorem remaining_run {cs : List Command} (hcs : ∀ c ∈ cs, c.isTraffic = true)
    (hb : Attended mode b w) (hunhurried : b.Throughout Unhurried cs) :
    (b.run cs).outstanding.remaining =
      w.remainingAlong b.outstanding.remaining (Command.steps cs) := by
  induction cs generalizing b w with
  | nil => rfl
  | cons c rest ih =>
    have hc : c.isTraffic = true := hcs c (by simp)
    have hrest : ∀ d ∈ rest, d.isTraffic = true := fun d hd => hcs d (by simp [hd])
    obtain ⟨hfirst, hlater⟩ := hunhurried
    unfold Command.steps
    cases hwriting : c.isWriting with
    | true =>
      rw [List.filter_cons_of_neg (by simp [hwriting])]
      have hsame : (b.perform c).1.outstanding.remaining = b.outstanding.remaining := by
        obtain ⟨k, hk⟩ := writeSome_of_writing hc hwriting hb.proper.single
        rw [hk]
        exact remaining_writeSome hb.marked k
      rw [← hsame]
      exact ih hrest (hb.writing hc hwriting) hlater
    | false =>
      rw [List.filter_cons_of_pos (by simp [hwriting])]
      refine (ih hrest (hb.step hc) hlater).trans ?_
      rw [remaining_perform hc hwriting hb.proper hb.marked hfirst, ← hb.outstandingAfter hc]
      rfl

/-! ## Committed records -/

/-- What every request of a run keeps, the run keeps. -/
theorem keeps_run {Q : Broker → Command → Prop} {I : Broker → Prop}
    (hstep : ∀ b c, c.isTraffic = true → Proper Call.Routes b → Q b c → I b → I (b.perform c).1)
    {cs : List Command} (hcs : ∀ c ∈ cs, c.isTraffic = true) (hproper : Proper Call.Routes b)
    (hQ : b.Throughout Q cs) (hb : I b) : I (b.run cs) := by
  induction cs generalizing b with
  | nil => exact hb
  | cons c rest ih =>
    have hc : c.isTraffic = true := hcs c (by simp)
    have hmoves := moves_perform (P := Call.Routes) (fun _ h => h) hc hproper
      fun _ h => routes_of_submits h
    exact ih (fun d hd => hcs d (by simp [hd])) (proper_of_moves hproper hmoves) hQ.2
      (hstep b c hc hproper hQ.1 hb)

theorem recorded_run {cs : List Command} (hcs : ∀ c ∈ cs, c.isTraffic = true)
    (hproper : Proper Call.Routes b) (hb : Recorded b.view)
    (hwhole : b.Throughout (fun b c => c.endsHalfway (b.perform c).2 = false) cs) :
    Recorded (b.run cs).view :=
  keeps_run (I := fun b => Recorded b.view)
    (fun _ _ hc hproper hwhole hb => recorded_perform hc hproper hwhole hb) hcs hproper hwhole hb

/-- Two journals that both mirror the same caches hold the same committed records. -/
theorem committed_agree (ha : Mirrored a.books) (hm : Recorded m.view)
    (hcaches : ∀ ref, a.cache ref = m.cache ref) :
    a.settled.committed = m.settled.committed := by
  have hordered : Ledger.Ordered a.settled.committed := Ledger.ordered_applyAll ha.ordered _
  refine Ledger.ordered_ext hordered
    (Ledger.ordered_applyAll hm.matched.filed.ordered _) fun r => ?_
  have hmirror := ha.mirror r.address r.sequence r.duplicateId
  rw [settled, queue_books] at hmirror
  refine hmirror.trans ?_
  rw [cache_books, hcaches]
  exact (hm.committed ..).symm

/-- Once the writer has caught up, the journal is settled. -/
theorem ledger_caughtUp (h : Shadow b w) : (b.flush 0).storage.ledger = b.settled := by
  have hsome : ∀ k, (b.writeSome 0 k).settled = b.settled := by
    intro k
    induction k generalizing b with
    | zero => rfl
    | succ k ih => exact (ih (h.writeNext 0).1).trans (settled_writeNext fun e _ => h.takes e)
  have hqueue := flush_queue b
  rw [← hsome (b.office 0).writer.queue.length, settled]
  show _ = (b.flush 0).storage.ledger.applyAll (b.flush 0).queue
  rw [hqueue]
  rfl

/-! ## Three modes -/

theorem ledger_fresh (h : FreshOffice mailboxes s b) : b.storage.ledger = {} := by
  obtain ⟨hempty, -, hstart⟩ := h
  unfold start at hstart
  split at hstart
  · rw [openPersistent_of_empty hempty hstart]
    exact hempty
  · cases hstart
    exact hempty

theorem not_kept (hdetection : ¬ s.duplicateDetection = true) (mode : PersistenceMode) :
    ¬ ((s.inMode (some mode)).persistIdCache && (s.inMode (some mode)).duplicateDetection) =
      true := by
  intro hpersist
  rw [Bool.and_eq_true] at hpersist
  exact hdetection hpersist.2

/-- A post office that has just been started on an empty journal. -/
theorem begun_fresh (hdetection : s.duplicateDetection = true)
    (h : FreshOffice mailboxes (s.inMode (some mode)) b) :
    Begun mode b ∧ Pledged mode b.view ∧ b.outstanding = ⟨[], []⟩ ∧
      Attended mode b (({ mailboxes } : Broker).openPlain (s.inMode (some .async))).1 := by
  have hledger := ledger_fresh h
  have hshadow := shadow_fresh h
  obtain ⟨hempty, htakes, hstart⟩ := h
  obtain ⟨hbegun, -, -, hrecords⟩ := begun_start (s := s.inMode (some mode)) ⟨rfl, hdetection⟩
    (by rw [hempty]; exact .nil) hstart
  have hpledged := hbegun.pledged (hshadow.takes (.resolve default)) hrecords
  refine ⟨hbegun, hpledged, ?_, hshadow, hbegun.proper _, marked_of_pledged hpledged⟩
  rw [outstanding, hledger, hbegun.queue]
  rfl

/-- With different xids no branch is prepared while records of its xid are to be deleted, whenever
the writer writes. -/
theorem unhurried_fresh (h : FreshOffice mailboxes (s.inMode (some mode)) b) {cs : List Command}
    (hcs : ∀ c ∈ cs, c.isTraffic = true)
    (hxids : ((b.run cs).transactions.filterMap (·.xid)).Nodup) :
    b.Throughout Unhurried cs := by
  refine throughout_of_run fun done c rest heq => ?_
  have hdone : ∀ d ∈ done, d.isTraffic = true := fun d hd => hcs d (by simp [heq, hd])
  have hc : c.isTraffic = true := hcs c (by simp [heq])
  by_cases hdetection : s.duplicateDetection = true
  · obtain ⟨-, hpledged, -, hattended⟩ := begun_fresh hdetection h
    obtain ⟨hmoves, hproper⟩ := moves_run hdone hattended.proper
    have hstep := moves_perform (P := Call.Routes) (fun _ h => h) hc hproper
      fun _ h => routes_of_submits h
    have hlater : Moves Call.Routes _ (((b.run done).perform c).1.run rest).view :=
      (moves_run (fun d hd => hcs d (by simp [heq, hd])) (proper_of_moves hproper hstep)).1
    have hrun : b.run cs = ((b.run done).perform c).1.run rest := by
      rw [heq]
      exact run_append b done (c :: rest)
    rw [hrun, ← xids_view] at hxids
    have hnodup := nodup_of_moves hlater hxids
    exact unhurried_of_pledged hstep
      (pledged_moves hmoves (nodup_of_moves hstep hnodup) hpledged) hnodup
  · have hqueue := (idle_run (not_kept hdetection mode) h hdone).1
    intro t _ _ _ x _ hmem
    rw [hqueue] at hmem
    cases hmem

/-- Two post offices that are asked the same leave the same journals, once their writers have caught
up, if no commit ends halfway: if the writers catch up at the same times, or else no branch is
prepared while records of its xid are to be deleted. -/
theorem ledgers_agree (ha : FreshOffice mailboxes (s.inMode (some .async)) a)
    (hm : FreshOffice mailboxes (s.inMode (some .mandatory)) m) {as ms : List Command}
    (has : ∀ c ∈ as, c.isTraffic = true) (hms : ∀ c ∈ ms, c.isTraffic = true)
    (hsame : Command.steps as = Command.steps ms)
    (hwhole : m.Throughout (fun b c => c.endsHalfway (b.perform c).2 = false) ms)
    (htiming : as = ms ∧ (∀ n, .writeNext n ∉ ms) ∨
      a.Throughout Unhurried as ∧ m.Throughout Unhurried ms) :
    ((a.run as).flush 0).storage.ledger = ((m.run ms).flush 0).storage.ledger := by
  have hashadow := ((shadow_fresh ha).run has).1
  have hmshadow := ((shadow_fresh hm).run hms).1
  rw [hsame] at hashadow
  by_cases hdetection : s.duplicateDetection = true
  · obtain ⟨habegun, -, haout, haattended⟩ := begun_fresh hdetection ha
    obtain ⟨hmbegun, -, hmout, hmattended⟩ := begun_fresh hdetection hm
    have hmirrored := (books_moves (fun _ _ => mirrored_step) (moves_run has haattended.proper).1
      habegun.atOffice (habegun.mirrored haattended.shadow.takes)).1
    have hrecorded := recorded_run hms hmattended.proper
      (hmbegun.recorded hmattended.shadow.takes) hwhole
    have hcommitted := committed_agree hmirrored hrecorded fun ref => by
      rw [← hashadow.cache, ← hmshadow.cache]
    have hprepared : (a.run as).settled.prepared = (m.run ms).settled.prepared := by
      rw [settled_outstanding, settled_outstanding]
      rcases htiming with ⟨rfl, hnext⟩ | ⟨haunhurried, hmunhurried⟩
      · rw [outstanding_agree hms hnext haattended hmattended (haout.trans hmout.symm)]
      · rw [remaining_run has haattended haunhurried, remaining_run hms hmattended hmunhurried,
          haout, hmout, hsame]
    rw [ledger_caughtUp hashadow, ledger_caughtUp hmshadow]
    exact Ledger.ext hcommitted hprepared
  · rw [ledger_idle (not_kept hdetection _) ha has, ledger_idle (not_kept hdetection _) hm hms]

/-- With different xids it does not matter when writers write. -/
theorem ledgers_agree_of_xids (ha : FreshOffice mailboxes (s.inMode (some .async)) a)
    (hm : FreshOffice mailboxes (s.inMode (some .mandatory)) m) {as ms : List Command}
    (has : ∀ c ∈ as, c.isTraffic = true) (hms : ∀ c ∈ ms, c.isTraffic = true)
    (hsame : Command.steps as = Command.steps ms)
    (hwhole : m.Throughout (fun b c => c.endsHalfway (b.perform c).2 = false) ms)
    (hxids : ((m.run ms).transactions.filterMap (·.xid)).Nodup) :
    ((a.run as).flush 0).storage.ledger = ((m.run ms).flush 0).storage.ledger := by
  have hashadow := ((shadow_fresh ha).run has).1
  have hmshadow := ((shadow_fresh hm).run hms).1
  rw [hsame] at hashadow
  have htransactions : (a.run as).transactions = (m.run ms).transactions := by
    rw [← hashadow.transactions, ← hmshadow.transactions]
  exact ledgers_agree ha hm has hms hsame hwhole
    (Or.inr ⟨unhurried_fresh ha has (htransactions ▸ hxids), unhurried_fresh hm hms hxids⟩)

end Broker

end MessageRouting
