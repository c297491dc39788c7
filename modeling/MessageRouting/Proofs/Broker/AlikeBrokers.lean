import MessageRouting.Proofs.Persistence.OfficeWrites

/-!
# Brokers alike

Two brokers may differ in nothing that a message can tell: their queues have
been asked the same, their caches hold the same identifiers, and their journals
the same records, those of one branch apart. Who owns a pending identifier,
which transactions there are and who has been called is left open. What is done
to both alike leaves them alike, with the same answers, and much can be done to
one of them alone.

Results:

* `alike_attemptStage`, `alike_persistStage`, `alike_commitStage`,
  `alike_rollbackStage`: stages that differ in their owner fare alike.
* `alike_enqueueFrom`, `alike_withdrawAll`: so do messages.
* `ledger_flush`: once the writers have caught up, the journals are the same.
-/

namespace MessageRouting

/-! ## Caches -/

/-- What a cache knows of a pending identifier, whoever owns it. -/
def Pending.unowned (p : Pending) : Nat × Option Nat := (p.sequence, p.commitKey)

namespace Cache

/-- Caches that differ at most in who owns their pending identifiers. -/
structure Alike (c c' : Cache) : Prop where
  address : c'.address = c.address
  capacity : c'.capacity = c.capacity
  visible : c'.visible = c.visible
  index : c'.index = c.index
  nextSequence : c'.nextSequence = c.nextSequence
  pending : ∀ id, (c'.pending.get? id).map Pending.unowned = (c.pending.get? id).map Pending.unowned

variable {c c' d : Cache}

theorem Alike.refl (c : Cache) : c.Alike c := ⟨rfl, rfl, rfl, rfl, rfl, fun _ => rfl⟩

theorem Alike.enabled (h : c.Alike c') : c'.enabled = c.enabled := by
  rw [Cache.enabled, Cache.enabled, h.capacity]

theorem Alike.isDuplicate (h : c.Alike c') (id : Bytes) : c'.isDuplicate id = c.isDuplicate id := by
  rw [Cache.isDuplicate, Cache.isDuplicate, h.enabled, h.index]

theorem Alike.pendingOf? (h : c.Alike c') (s : Staged) :
    (c'.pendingOf? s).map Pending.unowned = (c.pendingOf? s).map Pending.unowned := by
  have hpending := h.pending s.duplicateId
  unfold Cache.pendingOf?
  cases hp : c.pending.get? s.duplicateId with
  | none =>
    rw [hp, Option.map_none, Option.map_eq_none_iff] at hpending
    rw [hpending]
  | some p =>
    rw [hp, Option.map_some, Option.map_eq_some_iff] at hpending
    obtain ⟨p', hp', hsame⟩ := hpending
    have hsequence : p'.sequence = p.sequence := congrArg Prod.fst hsame
    simp only [hp', hsequence]
    split
    · exact congrArg some hsame
    · rfl

/-- The pending entry of a stage is there in both caches, with the same key, or in none. -/
theorem Alike.pendingOf?_cases (h : c.Alike c') (s : Staged) :
    (c.pendingOf? s = none ∧ c'.pendingOf? s = none) ∨
      ∃ p p', c.pendingOf? s = some p ∧ c'.pendingOf? s = some p' ∧ p'.unowned = p.unowned := by
  have hsame := h.pendingOf? s
  cases hp : c.pendingOf? s with
  | none =>
    rw [hp, Option.map_none, Option.map_eq_none_iff] at hsame
    exact Or.inl ⟨rfl, hsame⟩
  | some p =>
    rw [hp, Option.map_some, Option.map_eq_some_iff] at hsame
    obtain ⟨p', hp', hunowned⟩ := hsame
    exact Or.inr ⟨p, p', rfl, hp', hunowned⟩

/-- An identifier becomes pending with the same key, under whatever owners. -/
theorem Alike.pending_insert (h : c.Alike c') {id : Bytes} {p p' : Pending}
    (hp : p'.unowned = p.unowned) (id' : Bytes) :
    ((c'.pending.insert id p').get? id').map Pending.unowned =
      ((c.pending.insert id p).get? id').map Pending.unowned := by
  simp only [Table.get?_insert]
  split
  · exact congrArg some hp
  · exact h.pending id'

theorem Alike.pending_erase (h : c.Alike c') (id id' : Bytes) :
    ((c'.pending.erase id).get? id').map Pending.unowned =
      ((c.pending.erase id).get? id').map Pending.unowned := by
  simp only [Table.get?_erase]
  split
  · rfl
  · exact h.pending id'

/-- An identifier that is not pending is staged for either owner, or for neither. -/
theorem Alike.attempt (h : c.Alike c') {id : Bytes} (hfree : c.pending.get? id = none)
    (owner owner' : Owner) :
    (∃ s d d', c.attempt id owner = (some (.staged s), d) ∧
        c'.attempt id owner' = (some (.staged { s with owner := owner' }), d') ∧ d.Alike d') ∨
      ∃ o, (o = .duplicate ∨ o = .disabled) ∧ c.attempt id owner = (some o, c) ∧
        c'.attempt id owner' = (some o, c') := by
  have hfree' : c'.pending.get? id = none := by
    have hpending := h.pending id
    rwa [hfree, Option.map_none, Option.map_eq_none_iff] at hpending
  unfold Cache.attempt
  rw [h.enabled, h.index, hfree, hfree', h.nextSequence, h.address]
  split
  · exact Or.inr ⟨_, Or.inr rfl, rfl, rfl⟩
  · split
    · exact Or.inr ⟨_, Or.inl rfl, rfl, rfl⟩
    · exact Or.inl ⟨_, _, _, rfl, rfl, rfl, h.capacity, h.visible, rfl, rfl, h.pending_insert rfl⟩

theorem Alike.drawKey (h : c.Alike c') (s : Staged) :
    (c'.drawKey s).1 = (c.drawKey s).1 ∧ (c.drawKey s).2.Alike (c'.drawKey s).2 := by
  unfold Cache.drawKey
  rcases h.pendingOf?_cases s with ⟨hnone, hnone'⟩ | ⟨p, p', hp, hp', hsame⟩
  · rw [hnone, hnone']
    exact ⟨rfl, h⟩
  · have hkey : p'.commitKey = p.commitKey := congrArg Prod.snd hsame
    have hsequence : p'.sequence = p.sequence := congrArg Prod.fst hsame
    simp only [hp, hp', hkey, h.nextSequence]
    cases p.commitKey with
    | some key => exact ⟨rfl, h⟩
    | none =>
      have hsame : ({ p' with commitKey := some c.nextSequence } : Pending).unowned =
          ({ p with commitKey := some c.nextSequence } : Pending).unowned :=
        congrArg (·, some c.nextSequence) hsequence
      exact ⟨rfl, h.address, h.capacity, h.visible, h.index, rfl, h.pending_insert hsame⟩

theorem Alike.split {α : Type} {r r' : α × Cache} (h : r'.1 = r.1 ∧ r.2.Alike r'.2) :
    ∃ a d d', r = (a, d) ∧ r' = (a, d') ∧ d.Alike d' :=
  ⟨r.1, r.2, r'.2, rfl, Prod.ext h.1 rfl, h.2⟩

theorem Alike.commit (h : c.Alike c') (s : Staged) :
    (c'.commit s).1 = (c.commit s).1 ∧ (c.commit s).2.Alike (c'.commit s).2 := by
  obtain ⟨key, d, d', hd, hd', hdrawn⟩ := Alike.split (h.drawKey s)
  unfold Cache.commit
  rw [hd, hd']
  cases key with
  | none => exact ⟨rfl, hdrawn⟩
  | some key =>
    simp only [evict_eq_dropOldest, hdrawn.visible, hdrawn.capacity, hdrawn.index]
    exact ⟨trivial, hdrawn.address, rfl, rfl, rfl, hdrawn.nextSequence,
      hdrawn.pending_erase s.duplicateId⟩

/-- A stage is dropped in both caches or in none. -/
theorem Alike.rollback (h : c.Alike c') (s : Staged) :
    (c.rollback s = none ∧ c'.rollback s = none) ∨
      ∃ d d', c.rollback s = some d ∧ c'.rollback s = some d' ∧ d.Alike d' := by
  unfold Cache.rollback
  rcases h.pendingOf?_cases s with ⟨hnone, hnone'⟩ | ⟨p, p', hp, hp', -⟩
  · rw [hnone, hnone']
    exact Or.inl ⟨rfl, rfl⟩
  · rw [hp, hp']
    exact Or.inr ⟨_, _, rfl, rfl, h.address, h.capacity, h.visible, h.index, h.nextSequence,
      h.pending_erase s.duplicateId⟩

end Cache

/-! ## Journals -/

namespace Storage

/-- Journals that take and refuse the same calls, and hold the same records, but for those of the
branch `x`, if there is one. -/
structure Alike (x : Option Xid) (s s' : Storage) : Prop where
  failing : s'.failing = s.failing
  lapses : s.lapses = [] ∧ s'.lapses = []
  committed : s'.ledger.committed = s.ledger.committed
  prepared : (s'.ledger.prepared.filter fun p => p.xid ∉ x) =
    s.ledger.prepared.filter fun p => p.xid ∉ x

variable {x : Option Xid} {s s' : Storage}

/-- A write changes the records, and nothing else where none is set to go wrong. -/
theorem frame_write (s : Storage) (e : Entry) :
    (s.write e).1.failing = s.failing ∧ (s.write e).1.lapses = s.lapses.tail := by
  unfold write
  cases s.permitWrite e.method with
  | error err => exact ⟨rfl, rfl⟩
  | ok _ => cases s.file <;> exact ⟨rfl, rfl⟩

theorem result_of_write (hs : s.lapses = []) (e : Entry) :
    (s.write e).2 = s.permit e.method := by
  have hpermit : s.permitWrite e.method = s.permit e.method := by
    rw [permitWrite, hs, if_neg (by simp)]
  unfold write
  rw [hpermit]
  cases s.permit e.method with
  | error err => rfl
  | ok _ => cases s.file <;> rfl

/-- The ledger after a write of which it is known whether it fails. -/
theorem ledger_of_write (hs : s.lapses = []) (e : Entry) :
    (s.write e).1.ledger = if e.method ∈ s.failing then s.ledger else s.ledger.apply e := by
  have hresult := result_of_write hs e
  rw [permit] at hresult
  rcases ledger_write s e with ⟨hok, hledger⟩ | ⟨⟨err, herr⟩, hledger⟩
  · rw [hok] at hresult
    rw [hledger, if_neg]
    intro hfails
    rw [if_pos hfails] at hresult
    cases hresult
  · rw [herr] at hresult
    rw [hledger, if_pos]
    apply Decidable.byContradiction
    intro htakes
    rw [if_neg htakes] at hresult
    cases hresult

theorem filter_preparedAfter (x : Option Xid) (ps : List PreparedRecord) (e : Entry) :
    (Ledger.preparedAfter ps e).filter (fun p => p.xid ∉ x) =
      (Ledger.preparedAfter (ps.filter fun p => p.xid ∉ x) e).filter fun p => p.xid ∉ x := by
  cases e with
  | add r => simp [Ledger.preparedAfter]
  | prune a n => simp [Ledger.preparedAfter]
  | prepare y r => simp [Ledger.preparedAfter]
  | resolve y =>
    simp only [Ledger.preparedAfter, List.filter_filter]
    refine List.filter_congr fun p _ => ?_
    cases decide (p.xid ∉ x) <;> simp

/-- The same write fares the same in both journals. -/
theorem Alike.write (h : s.Alike x s') (e : Entry) :
    (s'.write e).2 = (s.write e).2 ∧ (s.write e).1.Alike x (s'.write e).1 := by
  obtain ⟨hfailing, hlapses⟩ := s.frame_write e
  obtain ⟨hfailing', hlapses'⟩ := s'.frame_write e
  refine ⟨?_, ?_, ⟨?_, ?_⟩, ?_, ?_⟩
  · rw [result_of_write h.lapses.1, result_of_write h.lapses.2, permit, permit, h.failing]
  · rw [hfailing, hfailing', h.failing]
  · rw [hlapses, h.lapses.1]
    rfl
  · rw [hlapses', h.lapses.2]
    rfl
  · rw [ledger_of_write h.lapses.1, ledger_of_write h.lapses.2, h.failing]
    split
    · exact h.committed
    · rw [Ledger.committed_apply, Ledger.committed_apply, h.committed]
  · rw [ledger_of_write h.lapses.1, ledger_of_write h.lapses.2, h.failing]
    split
    · exact h.prepared
    · rw [Ledger.prepared_apply, Ledger.prepared_apply, filter_preparedAfter, h.prepared,
        ← filter_preparedAfter]

/-- Journals stay alike when a record of the branch is stored in one of them. -/
theorem Alike.prepare {y : Xid} (h : s.Alike (some y) s') (r : Record) :
    s.Alike (some y) (s'.write (.prepare y r)).1 := by
  obtain ⟨hfailing, hlapses⟩ := s'.frame_write (.prepare y r)
  refine ⟨hfailing.trans h.failing, ⟨h.lapses.1, ?_⟩, ?_, ?_⟩
  · rw [hlapses, h.lapses.2]
    rfl
  · rw [ledger_of_write h.lapses.2]
    split
    · exact h.committed
    · exact h.committed
  · rw [ledger_of_write h.lapses.2]
    split
    · exact h.prepared
    · rw [← h.prepared]
      simp [Ledger.apply]

end Storage

/-! ## Brokers -/

/-- Whether a queue is asked something. -/
def Event.isQueueCall : Event → Bool
  | .enqueued _ _ _ => true
  | .withdrawn _ _ _ => true
  | _ => false

/-- A post office as far as a message can tell, without the deletions of the records of the branch
`x` that its writer has still to make. -/
def Office.bare (x : Option Xid) (o : Office) : Office where
  settings := o.settings
  persistence := o.persistence
  desk := { registry := o.desk.registry }
  writer := { o.writer with queue := o.writer.queue.filter (· ∉ x.map .resolve) }

/-- The stage, held by another owner. -/
def HeldStage.ownedBy (h : HeldStage) (owner : Owner) : HeldStage :=
  { h with staged := { h.staged with owner } }

@[simp] theorem HeldStage.cache_ownedBy (h : HeldStage) (owner : Owner) :
    (h.ownedBy owner).cache = h.cache := rfl

@[simp] theorem HeldStage.recordAt_ownedBy (h : HeldStage) (owner : Owner) (key : Nat) :
    (h.ownedBy owner).staged.recordAt key = h.staged.recordAt key := rfl

@[simp] theorem HeldStage.commit_ownedBy (h : HeldStage) (owner : Owner) (c : Cache) :
    c.commit (h.ownedBy owner).staged = c.commit h.staged := rfl

@[simp] theorem HeldStage.rollback_ownedBy (h : HeldStage) (owner : Owner) (c : Cache) :
    c.rollback (h.ownedBy owner).staged = c.rollback h.staged := rfl

namespace Broker

/-- What queues have been asked, and what they answered, in order. -/
def queueCalls (b : Broker) : List Event := b.trace.filter Event.isQueueCall

/-- No record of the branch stands in the journal, and none is about to. -/
structure Unused (y : Xid) (b : Broker) : Prop where
  prepared : ∀ p ∈ b.storage.ledger.prepared, p.xid ≠ y
  queue : ∀ n r, .prepare y r ∉ (b.office n).writer.queue

/-- A broker that has changed in nothing a message can tell. -/
structure Same (x : Option Xid) (b c : Broker) : Prop where
  mailboxes : c.mailboxes = b.mailboxes
  queueCalls : c.queueCalls = b.queueCalls
  caches : c.caches = b.caches
  offices : c.offices.map (Office.bare x) = b.offices.map (Office.bare x)
  storage : c.storage = b.storage

/-- Brokers that a message cannot tell apart: all they have differently is transactions, owners,
calls that wait, and records of the branch `x`, which the first one has none of. Their post offices
stand, and journal calls fail, as they do at `o`. -/
structure Alike (x : Option Xid) (o b b' : Broker) : Prop where
  stations : b.stations = o.stations
  failing : b.storage.failing = o.storage.failing
  unused : ∀ y ∈ x, Unused y b
  mailboxes : b'.mailboxes = b.mailboxes
  queueCalls : b'.queueCalls = b.queueCalls
  opened : ∀ ref, b'.caches.contains ref = b.caches.contains ref
  caches : ∀ ref, (b.cache ref).Alike (b'.cache ref)
  offices : b'.offices.map (Office.bare x) = b.offices.map (Office.bare x)
  storage : b.storage.Alike x b'.storage

variable {x : Option Xid} {o b b' c : Broker}

theorem Alike.refl (hb : b.storage.lapses = []) (hunused : ∀ y ∈ x, Unused y b) :
    Alike x b b b :=
  ⟨rfl, rfl, hunused, rfl, rfl, fun _ => rfl, fun _ => .refl _, rfl, rfl, ⟨hb, hb⟩, rfl, rfl⟩

/-- The same answer, from brokers that are left alike. -/
theorem Alike.split {α : Type} {r r' : Broker × α} (h : r'.2 = r.2 ∧ Alike x o r.1 r'.1) :
    ∃ c c' a, r = (c, a) ∧ r' = (c', a) ∧ Alike x o c c' :=
  ⟨r.1, r'.1, r.2, rfl, Prod.ext rfl h.1, h.2⟩

theorem Same.trans {d : Broker} (h : Same x b c) (h' : Same x c d) : Same x b d :=
  ⟨h'.mailboxes.trans h.mailboxes, h'.queueCalls.trans h.queueCalls, h'.caches.trans h.caches,
    h'.offices.trans h.offices, h'.storage.trans h.storage⟩

/-! ### What they show -/

theorem bare_office (x : Option Xid) (b : Broker) (n : Nat) :
    (b.office n).bare x = (b.offices.map (Office.bare x)).getD n ((default : Office).bare x) := by
  simp only [office, List.getD_eq_getElem?_getD, List.getElem?_map]
  cases b.offices[n]? <;> rfl

theorem office_of_bare (h : b'.offices.map (Office.bare x) = b.offices.map (Office.bare x))
    (n : Nat) : (b'.office n).bare x = (b.office n).bare x := by
  rw [bare_office, bare_office, h]

theorem stations_of_bare (h : b'.offices.map (Office.bare x) = b.offices.map (Office.bare x)) :
    b'.stations = b.stations := by
  have hstation := congrArg (List.map Office.station) h
  rwa [List.map_map, List.map_map] at hstation

theorem queue_of_bare (h : b'.offices.map (Office.bare x) = b.offices.map (Office.bare x))
    (n : Nat) : (b'.office n).writer.queue.filter (· ∉ x.map .resolve) =
      (b.office n).writer.queue.filter (· ∉ x.map .resolve) := by
  have hsame := congrArg (fun p : Office => p.writer.queue) (office_of_bare h n)
  exact hsame

theorem Alike.settings (h : Alike x o b b') (n : Nat) :
    (b'.office n).settings = (b.office n).settings := by
  have hsame := congrArg Office.settings (office_of_bare h.offices n)
  exact hsame

theorem Alike.registry (h : Alike x o b b') (n : Nat) :
    (b'.office n).desk.registry = (b.office n).desk.registry := by
  have hsame := congrArg (fun p : Office => p.desk.registry) (office_of_bare h.offices n)
  exact hsame

theorem Alike.persistenceOf (h : Alike x o b b') (ref : CacheRef) :
    b'.persistenceOf ref = b.persistenceOf ref := by
  cases ref with
  | office n a =>
    have hsame := congrArg Office.persistence (office_of_bare h.offices n)
    exact hsame
  | standalone n => rfl

theorem Alike.station (h : Alike x o b b') (n : Nat) :
    (b'.office n).station = (o.office n).station :=
  station_office ((stations_of_bare h.offices).trans h.stations) n

/-- An entry that stores a record waits at both writers or at none. -/
theorem mem_queue_of_bare (h : b'.offices.map (Office.bare x) = b.offices.map (Office.bare x))
    {n : Nat} {y : Xid} {r : Record} (hr : .prepare y r ∈ (b'.office n).writer.queue) :
    .prepare y r ∈ (b.office n).writer.queue := by
  have hmem : .prepare y r ∈ (b'.office n).writer.queue.filter (· ∉ x.map .resolve) :=
    List.mem_filter.2 ⟨hr, by cases x <;> simp⟩
  rw [queue_of_bare h] at hmem
  exact (List.mem_filter.1 hmem).1

/-! ### Changes at one broker -/

theorem Alike.right (h : Alike x o b b') (hc : Same x b' c) : Alike x o b c :=
  ⟨h.stations, h.failing, h.unused, hc.mailboxes.trans h.mailboxes,
    hc.queueCalls.trans h.queueCalls,
    fun ref => hc.caches ▸ h.opened ref,
    fun ref => by rw [cache_of_caches hc.caches]; exact h.caches ref,
    hc.offices.trans h.offices, hc.storage ▸ h.storage⟩

theorem Alike.left (h : Alike x o b b') (hc : Same x b c) : Alike x o c b' := by
  refine ⟨(stations_of_bare hc.offices).trans h.stations, hc.storage ▸ h.failing,
    fun y hy => ⟨?_, fun n r hr => ?_⟩,
    h.mailboxes.trans hc.mailboxes.symm, h.queueCalls.trans hc.queueCalls.symm,
    fun ref => hc.caches ▸ h.opened ref, fun ref => ?_, h.offices.trans hc.offices.symm,
    hc.storage ▸ h.storage⟩
  · rw [hc.storage]
    exact (h.unused y hy).prepared
  · exact (h.unused y hy).queue n r (mem_queue_of_bare hc.offices hr)
  · rw [cache_of_caches hc.caches]
    exact h.caches ref

theorem same_modifyTransaction (b : Broker) (n : Nat) (f : Transaction → Transaction) :
    Same x b (b.modifyTransaction n f) := by
  cases n <;> exact ⟨rfl, rfl, rfl, rfl, rfl⟩

theorem same_log (b : Broker) {e : Event} (he : e.isQueueCall = false) : Same x b (b.log e) :=
  ⟨rfl, by simp [queueCalls, log, he], rfl, rfl, rfl⟩

theorem same_wake (b : Broker) (ref : CacheRef) : Same x b (b.wake ref) := ⟨rfl, rfl, rfl, rfl, rfl⟩

/-- A post office may change in what messages cannot tell. -/
theorem same_modifyOffice (b : Broker) (n : Nat) {f : Office → Office}
    (hf : ∀ p, (f p).bare x = p.bare x) : Same x b (b.modifyOffice n f) := by
  refine ⟨rfl, rfl, rfl, List.ext_getElem? fun i => ?_, rfl⟩
  simp only [modifyOffice, List.getElem?_map, List.getElem?_modify]
  cases b.offices[i]? with
  | none => rfl
  | some p =>
    split
    · exact congrArg some (hf p)
    · rfl

theorem same_notify (b : Broker) (n : Nat) (what : Notification) : Same x b (b.notify n what) :=
  same_modifyOffice b n fun _ => rfl

theorem same_drawOwner (b : Broker) (n : Nat) (transaction : Option Nat) :
    Same x b (b.drawOwner n transaction).1 := by
  cases transaction with
  | some t => exact ⟨rfl, rfl, rfl, rfl, rfl⟩
  | none => exact same_modifyOffice b n fun _ => rfl

/-- The deletion of the records of the branch may be handed over. -/
theorem same_resolved (b : Broker) {y : Xid} (ref : CacheRef) :
    Same (some y) b (b.submitFor ref (.resolve y)) := by
  cases ref with
  | standalone n => exact ⟨rfl, rfl, rfl, rfl, rfl⟩
  | office n a =>
    refine same_modifyOffice b n fun p => ?_
    simp only [Office.bare, JournalWriter.submit]
    split <;> simp

/-- A writer that does not run drops what it is handed. -/
theorem same_stopped (b : Broker) {ref : CacheRef} (e : Entry)
    (hstopped : ∀ n a, ref = .office n a → (b.office n).writer.running = false) :
    Same x b (b.submitFor ref e) := by
  cases ref with
  | standalone n => exact ⟨rfl, rfl, rfl, rfl, rfl⟩
  | office n a =>
    refine ⟨rfl, rfl, rfl, List.ext_getElem? fun i => ?_, rfl⟩
    have hn := hstopped n a rfl
    simp only [submitFor, submit, modifyOffice, List.getElem?_map, List.getElem?_modify]
    by_cases hi : n = i
    · subst hi
      simp only [office, List.getD_eq_getElem?_getD] at hn
      cases hp : b.offices[n]? with
      | none => rfl
      | some p =>
        rw [hp, Option.getD_some] at hn
        simp [JournalWriter.submit, hn]
    · cases b.offices[i]? <;> simp [hi]

/-! ### Changes at both -/

theorem Alike.setCache (h : Alike x o b b') (ref : CacheRef) {d d' : Cache} (hd : d.Alike d') :
    Alike x o (b.setCache ref d) (b'.setCache ref d') := by
  refine ⟨h.stations, h.failing, fun y hy => ⟨(h.unused y hy).prepared, (h.unused y hy).queue⟩,
    h.mailboxes, h.queueCalls, fun ref' => ?_, fun ref' => ?_, h.offices, h.storage⟩
  · have hopened := h.opened ref'
    simp only [Table.contains, Broker.setCache, Table.get?_insert] at hopened ⊢
    split
    · rfl
    · exact hopened
  · rw [cache_setCache, cache_setCache]
    split
    · exact hd
    · exact h.caches ref'

/-- Post offices change in the same way at both. -/
theorem offices_modifyOffice (h : Alike x o b b') (n : Nat) {f f' : Office → Office}
    (hf : ∀ p p', p'.bare x = p.bare x → (f' p').bare x = (f p).bare x) :
    (b'.modifyOffice n f').offices.map (Office.bare x) =
      (b.modifyOffice n f).offices.map (Office.bare x) := by
  refine List.ext_getElem? fun i => ?_
  have hoffice := congrArg (fun os : List Office => os[i]?) h.offices
  simp only [List.getElem?_map] at hoffice
  simp only [modifyOffice, List.getElem?_map, List.getElem?_modify]
  cases hb : b.offices[i]? with
  | none =>
    rw [hb, Option.map_none, Option.map_eq_none_iff] at hoffice
    rw [hoffice]
    rfl
  | some p =>
    rw [hb, Option.map_some, Option.map_eq_some_iff] at hoffice
    obtain ⟨p', hp', hsame⟩ := hoffice
    rw [hp']
    split
    · exact congrArg some (hf p p' hsame)
    · exact congrArg some hsame

theorem mem_queue_submitFor {ref : CacheRef} {e f : Entry} {n : Nat}
    (h : f ∈ ((b.submitFor ref e).office n).writer.queue) :
    f = e ∨ f ∈ (b.office n).writer.queue := by
  cases ref with
  | standalone k => exact Or.inr h
  | office k a =>
    simp only [submitFor, submit, modifyOffice, office, List.getD_eq_getElem?_getD,
      List.getElem?_modify] at h ⊢
    cases hp : b.offices[n]? with
    | none =>
      rw [hp] at h
      exact Or.inr h
    | some p =>
      rw [hp] at h
      by_cases hk : k = n
      · simp only [hk, if_true, Option.map_eq_map, Option.map_some, Option.getD_some,
          JournalWriter.submit] at h ⊢
        split at h
        · rcases List.mem_append.1 h with hf | hf
          · exact Or.inr hf
          · exact Or.inl (List.mem_singleton.1 hf)
        · exact Or.inr h
      · simp only [hk, if_false, Option.map_eq_map, Option.map_some] at h
        exact Or.inr h

/-- An entry that does not store a record of the branch may be handed over at both. -/
theorem Alike.submitFor (h : Alike x o b b') (ref : CacheRef) {e : Entry}
    (he : ∀ y ∈ x, ∀ r, e ≠ .prepare y r) :
    Alike x o (b.submitFor ref e) (b'.submitFor ref e) := by
  have hunused : ∀ y ∈ x, Unused y (b.submitFor ref e) := by
    intro y hy
    refine ⟨?_, fun n r hr => ?_⟩
    · have hprepared := (h.unused y hy).prepared
      cases ref <;> exact hprepared
    · rcases mem_queue_submitFor hr with heq | hold
      · exact he y hy r heq.symm
      · exact (h.unused y hy).queue n r hold
  cases ref with
  | standalone n => exact h
  | office n a =>
    refine ⟨?_, h.failing, hunused, h.mailboxes, h.queueCalls, h.opened, h.caches, ?_, h.storage⟩
    · exact (steady_submitFor b (.office n a) e).stations.trans h.stations
    · refine offices_modifyOffice h n fun p p' hsame => ?_
      have hqueue := congrArg (fun p : Office => p.writer.queue) hsame
      have hrunning := congrArg (fun p : Office => p.writer.running) hsame
      simp only [Office.bare, Office.mk.injEq] at hsame hqueue hrunning ⊢
      refine ⟨hsame.1, hsame.2.1, hsame.2.2.1, ?_, trivial, trivial⟩
      simp only [JournalWriter.submit, hrunning]
      split
      · rw [List.filter_append, List.filter_append, hqueue]
      · rw [hqueue, hrunning]

theorem Alike.setRegistry (h : Alike x o b b') (n : Nat) (r : Registry) :
    Alike x o (b.setRegistry (some n) r) (b'.setRegistry (some n) r) := by
  have hoffices : (b'.setRegistry (some n) r).offices.map (Office.bare x) =
      (b.setRegistry (some n) r).offices.map (Office.bare x) := by
    refine offices_modifyOffice h n fun p p' hsame => ?_
    simp only [Office.bare, Office.mk.injEq] at hsame ⊢
    exact ⟨hsame.1, hsame.2.1, trivial, hsame.2.2.2⟩
  have hstations : (b.setRegistry (some n) r).stations = b.stations :=
    stations_modifyOffice b n fun _ => rfl
  refine ⟨hstations.trans h.stations, h.failing,
    fun y hy => ⟨(h.unused y hy).prepared, fun k s hs => ?_⟩, h.mailboxes, h.queueCalls, h.opened,
    h.caches, hoffices, h.storage⟩
  have hwriter : ((b.setRegistry (some n) r).office k).writer = (b.office k).writer := by
    rw [← writer_books, books_setRegistry, writer_books]
  rw [hwriter] at hs
  exact (h.unused y hy).queue k s hs

/-- An entry that does not store a record of the branch fares the same at both. -/
theorem Alike.write (h : Alike x o b b') (caller : JournalCaller) {e : Entry}
    (he : ∀ y ∈ x, ∀ r, e ≠ .prepare y r) :
    (b'.write caller e).2 = (b.write caller e).2 ∧
      Alike x o (b.write caller e).1 (b'.write caller e).1 := by
  obtain ⟨hresult, hstorage⟩ := h.storage.write e
  refine ⟨hresult, h.stations, (b.storage.frame_write e).1.trans h.failing,
    fun y hy => ⟨fun p hp => ?_, (h.unused y hy).queue⟩, h.mailboxes, ?_, h.opened, h.caches,
    h.offices, hstorage⟩
  · have hledger := Storage.ledger_of_write h.storage.lapses.1 e
    rw [show (b.write caller e).1.storage.ledger = (b.storage.write e).1.ledger from rfl,
      hledger] at hp
    split at hp
    · exact (h.unused y hy).prepared p hp
    · cases e with
      | add r => exact (h.unused y hy).prepared p hp
      | prune a n => exact (h.unused y hy).prepared p hp
      | resolve z => exact (h.unused y hy).prepared p (List.mem_filter.1 hp).1
      | prepare z r =>
        rcases List.mem_append.1 hp with hp | hp
        · exact (h.unused y hy).prepared p hp
        · rintro rfl
          obtain rfl := List.mem_singleton.1 hp
          exact he _ hy r rfl
  · have hcalls := h.queueCalls
    simp only [Broker.queueCalls] at hcalls ⊢
    simp [Broker.write, log, Event.isQueueCall, hcalls]

/-- Something that a queue is asked at both. -/
theorem Alike.ask (h : Alike x o b b') (queue : String) (m : Mailbox) (e : Event) :
    Alike x o ((b.setMailbox queue m).log e) ((b'.setMailbox queue m).log e) := by
  refine ⟨h.stations, h.failing, fun y hy => ⟨(h.unused y hy).prepared, (h.unused y hy).queue⟩,
    ?_, ?_, h.opened, h.caches, h.offices, h.storage⟩
  · show b'.mailboxes.insert queue m = b.mailboxes.insert queue m
    rw [h.mailboxes]
  · show (b'.trace ++ [e]).filter _ = (b.trace ++ [e]).filter _
    rw [List.filter_append, List.filter_append]
    exact congrArg (· ++ _) h.queueCalls

theorem Alike.mailbox (h : Alike x o b b') (queue : String) :
    b'.mailbox queue = b.mailbox queue := by
  rw [Broker.mailbox, Broker.mailbox, h.mailboxes]

theorem alike_enqueue (h : Alike x o b b') (queue : String) (message : Nat) :
    (b'.enqueue queue message).2 = (b.enqueue queue message).2 ∧
      Alike x o (b.enqueue queue message).1 (b'.enqueue queue message).1 := by
  simp only [enqueue, h.mailbox]
  exact ⟨trivial, h.ask ..⟩

theorem alike_enqueueFrom (h : Alike x o b b') (message : Nat) (accepted queues : List String) :
    (b'.enqueueFrom message accepted queues).2 = (b.enqueueFrom message accepted queues).2 ∧
      Alike x o (b.enqueueFrom message accepted queues).1
        (b'.enqueueFrom message accepted queues).1 := by
  induction queues generalizing b b' accepted with
  | nil => exact ⟨rfl, h⟩
  | cons q rest ih =>
    obtain ⟨c, c', refusal, hb, hb', hfirst⟩ := Alike.split (alike_enqueue h q message)
    simp only [enqueueFrom, hb, hb']
    cases refusal with
    | some refusal => exact ⟨rfl, hfirst⟩
    | none => exact ih hfirst (accepted ++ [q])

theorem alike_withdrawAll (h : Alike x o b b') (message : Nat) (accepted : List String) :
    Alike x o (b.withdrawAll message accepted) (b'.withdrawAll message accepted) := by
  unfold withdrawAll
  induction accepted.reverse generalizing b b' with
  | nil => exact h
  | cons q rest ih =>
    refine ih ?_
    simp only [withdraw, h.mailbox]
    exact h.ask ..

theorem alike_openOfficeCache (h : Alike x o b b') (n : Nat) (a : Address) :
    Alike x o (b.openOfficeCache n a) (b'.openOfficeCache n a) := by
  unfold openOfficeCache openCache
  rw [h.opened, h.settings]
  split
  · exact h
  · exact h.setCache _ (.refl _)

theorem alike_collect (h : Alike x o b b') (n : Nat) (m : Message) :
    (b'.collect n m).2 = (b.collect n m).2 ∧
      Alike x o (b.collect n m).1 (b'.collect n m).1 := by
  simp only [collect, resolve, deskAt, h.registry]
  exact ⟨trivial, h.setRegistry ..⟩

/-! ### Stages -/

/-- An identifier that is not pending is staged at both, or at neither. -/
theorem alike_attemptStage (h : Alike x o b b') {ref : CacheRef} {id : Bytes}
    (hfree : (b.cache ref).pending.get? id = none) (owner owner' : Owner) :
    (∃ s c c', b.attemptStage ref id owner = (c, some (.staged s)) ∧
        b'.attemptStage ref id owner' = (c', some (.staged { s with owner := owner' })) ∧
        Alike x o c c') ∨
      ∃ o, (o = .duplicate ∨ o = .disabled) ∧ b.attemptStage ref id owner = (b, some o) ∧
        b'.attemptStage ref id owner' = (b', some o) := by
  unfold attemptStage
  rcases (h.caches ref).attempt hfree owner owner' with ⟨s, d, d', hd, hd', hsame⟩ |
    ⟨o, ho, hb, hb'⟩
  · rw [hd, hd']
    refine Or.inl ⟨s, _, _, rfl, rfl, ?_⟩
    exact ((h.setCache ref hsame).left (same_log _ rfl)).right (same_log _ rfl)
  · rw [hb, hb']
    refine Or.inr ⟨o, ho, ?_⟩
    rcases ho with rfl | rfl <;> exact ⟨rfl, rfl⟩

theorem alike_persistStage (h : Alike x o b b') (g : HeldStage) (owner : Owner) :
    (b'.persistStage (g.ownedBy owner)).2 = (b.persistStage g).2 ∧
      Alike x o (b.persistStage g).1 (b'.persistStage (g.ownedBy owner)).1 := by
  show (b'.persistStage g).2 = _ ∧ Alike x o _ (b'.persistStage g).1
  obtain ⟨key, d, d', hd, hd', hsame⟩ := Cache.Alike.split ((h.caches g.cache).drawKey g.staged)
  unfold persistStage
  rw [hd, hd']
  cases key with
  | none => exact ⟨rfl, h⟩
  | some key =>
    have hset := h.setCache g.cache hsame
    dsimp only
    rw [hset.persistenceOf]
    split
    · exact hset.write _ fun _ _ _ => Entry.noConfusion
    · exact ⟨rfl, hset⟩

theorem alike_pruneEvicted (h : Alike x o b b') (ref : CacheRef) (a : Address)
    (evicted : List (Nat × Bytes)) :
    Alike x o (evicted.foldl (fun b e => b.submitFor ref (.prune a e.1)) b)
      (evicted.foldl (fun b e => b.submitFor ref (.prune a e.1)) b') := by
  induction evicted generalizing b b' with
  | nil => exact h
  | cons e rest ih => exact ih (h.submitFor ref fun _ _ _ => Entry.noConfusion)

theorem alike_commitStage (h : Alike x o b b') (g : HeldStage) (owner : Owner) :
    Alike x o (b.commitStage g) (b'.commitStage (g.ownedBy owner)) := by
  obtain ⟨p, d, d', hd, hd', hsame⟩ := Cache.Alike.split ((h.caches g.cache).commit g.staged)
  unfold commitStage
  rw [HeldStage.cache_ownedBy, HeldStage.commit_ownedBy, hd, hd']
  cases p with
  | none => exact h
  | some p =>
    have hset := h.setCache g.cache hsame
    have hlogged := (hset.left ((same_log _ (e := .promoted g p) rfl).trans
      (same_wake _ g.cache))).right ((same_log _ (e := .promoted (g.ownedBy owner) p) rfl).trans
      (same_wake _ g.cache))
    simp only [HeldStage.recordAt_ownedBy, hlogged.persistenceOf, hsame.address]
    split
    · exact alike_pruneEvicted (hlogged.submitFor g.cache fun _ _ _ => Entry.noConfusion) ..
    · exact alike_pruneEvicted hlogged ..

theorem alike_rollbackStage (h : Alike x o b b') (g : HeldStage) (owner : Owner) :
    Alike x o (b.rollbackStage g) (b'.rollbackStage (g.ownedBy owner)) := by
  unfold rollbackStage
  rw [HeldStage.cache_ownedBy, HeldStage.rollback_ownedBy]
  rcases (h.caches g.cache).rollback g.staged with ⟨hnone, hnone'⟩ | ⟨d, d', hd, hd', hsame⟩
  · rw [hnone, hnone']
    exact h
  · rw [hd, hd']
    have hset := h.setCache g.cache hsame
    exact (hset.left ((same_log _ (e := .dropped g) rfl).trans (same_wake _ g.cache))).right
      ((same_log _ (e := .dropped (g.ownedBy owner)) rfl).trans (same_wake _ g.cache))

/-! ### Writers that catch up -/

/-- What the next write of a writer leaves, where no write is set to go wrong. -/
theorem writeNext_cases (hb : b.storage.lapses = []) (n : Nat) :
    ((b.office n).writer.queue = [] ∧ b.writeNext n = b) ∨
      ∃ e rest, (b.office n).writer.queue = e :: rest ∧
        ((b.writeNext n).office n).writer.queue = rest ∧
        (b.writeNext n).storage.failing = b.storage.failing ∧
        (b.writeNext n).storage.lapses = [] ∧
        (b.writeNext n).storage.ledger =
          if e.method ∈ b.storage.failing then b.storage.ledger else b.storage.ledger.apply e := by
  unfold writeNext
  cases hqueue : (b.office n).writer.queue with
  | nil => exact Or.inl ⟨rfl, rfl⟩
  | cons e rest =>
    have hn : n < b.offices.length := by
      rcases Nat.lt_or_ge n b.offices.length with hlt | hge
      · exact hlt
      · simp only [office, List.getD_eq_getElem?_getD, List.getElem?_eq_none hge] at hqueue
        cases hqueue
    obtain ⟨hfailing, hlapses⟩ := b.storage.frame_write e
    refine Or.inr ⟨e, rest, rfl, ?_, hfailing, ?_, Storage.ledger_of_write hb e⟩
    · have hoffice := b.office_modifyOffice n
        (fun o => { o with writer := { o.writer with queue := rest } }) hn
      rw [if_pos rfl] at hoffice
      exact congrArg (fun o : Office => o.writer.queue) hoffice
    · rw [hb] at hlapses
      exact hlapses

theorem ledger_writeSome (hb : b.storage.lapses = []) (n k : Nat) :
    (b.writeSome n k).storage.ledger = b.storage.ledger.applyAll
      (((b.office n).writer.queue.take k).filter fun e => e.method ∉ b.storage.failing) := by
  induction k generalizing b with
  | zero => rfl
  | succ k ih =>
    show ((b.writeNext n).writeSome n k).storage.ledger = _
    rcases writeNext_cases hb n with ⟨hqueue, heq⟩ |
      ⟨e, rest, hqueue, hrest, hfailing, hlapses, hledger⟩
    · rw [heq, ih hb, hqueue, List.take_nil, List.take_nil]
    · rw [ih hlapses, hrest, hfailing, hledger, hqueue, List.take_succ_cons, List.filter_cons]
      by_cases hfails : e.method ∈ b.storage.failing
      · rw [if_pos hfails, if_neg (by simpa using hfails)]
      · rw [if_neg hfails, if_pos (by simpa using hfails)]
        rfl

theorem ledger_flushed (hb : b.storage.lapses = []) (n : Nat) :
    (b.flush n).storage.ledger = b.storage.ledger.applyAll
      ((b.office n).writer.queue.filter fun e => e.method ∉ b.storage.failing) := by
  rw [flush, ledger_writeSome hb, List.take_length]

/-- Deletions of prepared records leave the committed ones alone. -/
theorem committedAll_filter (x : Option Xid) (rs : List Record) (es : List Entry) :
    (es.filter (· ∉ x.map .resolve)).foldl Ledger.committedAfter rs =
      es.foldl Ledger.committedAfter rs := by
  induction es generalizing rs with
  | nil => rfl
  | cons e rest ih =>
    rw [List.filter_cons]
    split
    · exact ih _
    · rename_i hresolve
      obtain ⟨y, -, rfl⟩ : ∃ y, x = some y ∧ .resolve y = e := by simpa using hresolve
      exact ih rs

/-- What an entry makes of the prepared records of branches other than `x`. -/
def othersAfter (x : Option Xid) (ps : List PreparedRecord) (e : Entry) : List PreparedRecord :=
  (Ledger.preparedAfter ps e).filter fun p => p.xid ∉ x

theorem preparedAll_others (x : Option Xid) (ps : List PreparedRecord) (es : List Entry) :
    ((es.foldl Ledger.preparedAfter ps).filter fun p => p.xid ∉ x) =
      es.foldl (othersAfter x) (ps.filter fun p => p.xid ∉ x) := by
  induction es generalizing ps with
  | nil => rfl
  | cons e rest ih =>
    rw [List.foldl_cons, ih, Storage.filter_preparedAfter]
    rfl

/-- The other branches take no notice of the deletions of `x`. -/
theorem othersAll_filter {x : Option Xid} {ps : List PreparedRecord} (hps : ∀ p ∈ ps, p.xid ∉ x)
    (es : List Entry) :
    (es.filter (· ∉ x.map .resolve)).foldl (othersAfter x) ps = es.foldl (othersAfter x) ps := by
  induction es generalizing ps with
  | nil => rfl
  | cons e rest ih =>
    rw [List.filter_cons]
    split
    · exact ih fun p hp => by simpa using (List.mem_filter.1 hp).2
    · rename_i hresolve
      obtain ⟨y, rfl, rfl⟩ : ∃ y, x = some y ∧ .resolve y = e := by simpa using hresolve
      have hsame : othersAfter (some y) ps (.resolve y) = ps := by
        have hne : ∀ p ∈ ps, p.xid ≠ y := fun p hp heq => hps p hp (by simp [heq])
        simp only [othersAfter, Ledger.preparedAfter, List.filter_filter]
        exact List.filter_eq_self.2 fun p hp => by simp [hne p hp, Ne.symm (hne p hp)]
      rw [List.foldl_cons, hsame]
      exact ih hps

/-- A branch has no record left if it had none, or if its records are deleted on the way. -/
theorem preparedAll_none {y : Xid} {ps : List PreparedRecord} {es : List Entry}
    (hes : ∀ r, .prepare y r ∉ es) (h : (∀ p ∈ ps, p.xid ≠ y) ∨ .resolve y ∈ es) :
    ∀ p ∈ es.foldl Ledger.preparedAfter ps, p.xid ≠ y := by
  induction es generalizing ps with
  | nil => simpa using h
  | cons e rest ih =>
    have hrest : ∀ r, .prepare y r ∉ rest := fun r hr => hes r (List.mem_cons_of_mem _ hr)
    refine ih hrest ?_
    rcases h with hnone | hmem
    · refine Or.inl fun p hp => ?_
      cases e with
      | add r => exact hnone p hp
      | prune a k => exact hnone p hp
      | resolve z => exact hnone p (List.mem_filter.1 hp).1
      | prepare z r =>
        rcases List.mem_append.1 hp with hp | hp
        · exact hnone p hp
        · rintro hx
          rw [List.mem_singleton.1 hp] at hx
          obtain rfl : z = y := hx
          exact hes r (List.mem_cons_self ..)
    · rcases List.mem_cons.1 hmem with rfl | hmem
      · exact Or.inl fun p hp => by simpa using (List.mem_filter.1 hp).2
      · exact Or.inr hmem

/-- Once the writers have caught up, alike brokers have the same journal, if the records of the
branch are deleted by then. -/
theorem ledger_flush (h : Alike x o b b') (n : Nat) (hdelete : .delete ∉ b.storage.failing)
    (hresolved : ∀ y ∈ x, .resolve y ∈ (b'.office n).writer.queue) :
    (b'.flush n).storage.ledger = (b.flush n).storage.ledger := by
  have hqueues : ((b'.office n).writer.queue.filter fun e => e.method ∉ b.storage.failing).filter
        (· ∉ x.map .resolve) =
      ((b.office n).writer.queue.filter fun e => e.method ∉ b.storage.failing).filter
        (· ∉ x.map .resolve) := by
    rw [List.filter_comm, queue_of_bare h.offices, List.filter_comm]
  rw [ledger_flushed h.storage.lapses.1, ledger_flushed h.storage.lapses.2, h.storage.failing]
  generalize hes : (b.office n).writer.queue.filter (fun e => e.method ∉ b.storage.failing) = es
    at hqueues
  generalize hes' : (b'.office n).writer.queue.filter (fun e => e.method ∉ b.storage.failing) = es'
    at hqueues
  have hnone : ∀ p ∈ es.foldl Ledger.preparedAfter b.storage.ledger.prepared, p.xid ∉ x := by
    intro p hp hx
    refine preparedAll_none (fun r hr => ?_) (Or.inl (h.unused _ hx).prepared) p hp rfl
    rw [← hes] at hr
    exact (h.unused _ hx).queue n r (List.mem_filter.1 hr).1
  have hnone' : ∀ p ∈ es'.foldl Ledger.preparedAfter b'.storage.ledger.prepared, p.xid ∉ x := by
    intro p hp hx
    refine preparedAll_none (fun r hr => ?_) (Or.inr ?_) p hp rfl
    · rw [← hes'] at hr
      exact (h.unused _ hx).queue n r (mem_queue_of_bare h.offices (List.mem_filter.1 hr).1)
    · rw [← hes']
      exact List.mem_filter.2 ⟨hresolved _ hx, decide_eq_true hdelete⟩
  have hcommitted : (b'.storage.ledger.applyAll es').committed =
      (b.storage.ledger.applyAll es).committed := by
    rw [Ledger.committed_applyAll, Ledger.committed_applyAll, ← committedAll_filter x _ es',
      ← committedAll_filter x _ es, hqueues, h.storage.committed]
  have hprepared : (b'.storage.ledger.applyAll es').prepared =
      (b.storage.ledger.applyAll es).prepared := by
    have hothers : ∀ p ∈ b'.storage.ledger.prepared.filter (fun p => p.xid ∉ x), p.xid ∉ x :=
      fun p hp => by simpa using (List.mem_filter.1 hp).2
    have hfilter : ∀ {ps : List PreparedRecord}, (∀ p ∈ ps, p.xid ∉ x) →
        ps.filter (fun p => p.xid ∉ x) = ps := fun hps =>
      List.filter_eq_self.2 fun p hp => by simpa using hps p hp
    rw [Ledger.prepared_applyAll, Ledger.prepared_applyAll, ← hfilter hnone, ← hfilter hnone',
      preparedAll_others, preparedAll_others, ← othersAll_filter hothers, hqueues,
      othersAll_filter hothers, h.storage.prepared]
  exact Ledger.ext hcommitted hprepared

end Broker

end MessageRouting
