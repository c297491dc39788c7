import MessageRouting.Proofs.District.ExcerptParts

/-!
# Excerpts

A broker and its excerpt at one post office. What is done in a district is done
in the excerpt as well, with the same results; what is done beyond it, in the
broker alone. Either way the one stays an excerpt of the other.

Results:

* `within_attemptStage`, `within_persistStage`, `within_commitStage`,
  `within_rollbackStage`: stages of the district.
* `beyond_attemptStage`, `beyond_persistStage`, `beyond_commitStage`,
  `beyond_rollbackStage`: stages of other districts.
-/

namespace MessageRouting

/-! ## Post offices -/

/-- A post office and what it is in the excerpt. Nobody there has drawn a paired number yet to
come. -/
structure OfficeMatch (D : District) (M : List (Nat × Nat)) (o o' : Office) : Prop where
  station : o'.station = o.station
  listed : ∃ bs, o.desk.registry.Shows bs ∧ o'.desk.registry.Shows bs
  queue : o'.writer.queue = o.writer.queue.filter (·.concerns D.address)
  below : ∀ p ∈ M, p.1 < o.nextOwner ∧ p.2 < o'.nextOwner

namespace OfficeMatch

variable {D : District} {M : List (Nat × Nat)} {o o' : Office} {e : Entry}

theorem running (h : OfficeMatch D M o o') : o'.writer.running = o.writer.running :=
  congrArg (·.2.2) h.station

theorem submit (h : OfficeMatch D M o o') (he : e.concerns D.address = true) :
    OfficeMatch D M { o with writer := o.writer.submit e }
      { o' with writer := o'.writer.submit e } := by
  have hrunning := h.running
  have hqueue := h.queue
  refine ⟨?_, h.listed, ?_, h.below⟩
  · have hstation : ∀ p : Office,
        ({ p with writer := p.writer.submit e } : Office).station = p.station := by
      intro p
      simp only [Office.station, JournalWriter.submit]
      split <;> rfl
    rw [hstation, hstation]
    exact h.station
  · simp only [JournalWriter.submit, hrunning]
    split
    · rw [List.filter_append, List.filter_cons_of_pos he, hqueue]
      rfl
    · exact hqueue

theorem submit_beyond (h : OfficeMatch D M o o') (he : e.concerns D.address = false) :
    OfficeMatch D M { o with writer := o.writer.submit e } o' := by
  refine ⟨?_, h.listed, ?_, h.below⟩
  · rw [h.station]
    simp only [Office.station, JournalWriter.submit]
    split <;> rfl
  · simp only [JournalWriter.submit]
    split
    · rw [List.filter_append, List.filter_cons_of_neg (by simp [he]), List.filter_nil,
        List.append_nil]
      exact h.queue
    · exact h.queue

end OfficeMatch

namespace Broker

variable {D : District} {M : List (Nat × Nat)} {b b' : Broker} {a : Address}

/-! ## Brokers -/

/-- The caches of a broker, and the one that its excerpt has. -/
structure CachesMatch (D : District) (M : List (Nat × Nat)) (b b' : Broker) : Prop where
  addressed : Addressed b
  opened : b'.caches.contains D.cache = b.caches.contains D.cache
  same : (b.cache D.cache).Matches D M (b'.cache D.cache)

theorem CachesMatch.of_caches {c c' : Broker} (h : CachesMatch D M b b')
    (hc : c.caches = b.caches) (hc' : c'.caches = b'.caches) : CachesMatch D M c c' := by
  refine ⟨fun a d hd => h.addressed a d (hc ▸ hd), by rw [hc, hc', h.opened], ?_⟩
  rw [cache_of_caches hc, cache_of_caches hc']
  exact h.same

/-- The second broker is what the first one would be if it had seen the steps of the district
only. -/
structure Excerpt (D : District) (M : List (Nat × Nat)) (b b' : Broker) : Prop where
  offices : ∃ o o', b.offices = [o] ∧ b'.offices = [o'] ∧ OfficeMatch D M o o'
  mailboxes : ∀ q, (b.mailbox q).Matches (b'.mailbox q)
  storage : b.storage.Matches D.address b'.storage
  caches : CachesMatch D M b b'
  transactions : TransactionsMatch D b b'
  waiting : CallsMatch D M b.waiting b'.waiting
  ready : CallsMatch D M b.ready b'.ready
  paired : OneToOne M

/-- The excerpt is left an excerpt, with an answer that tells the same. -/
structure Follows {α : Type} (D : District) (M : List (Nat × Nat)) (f : α → α)
    (r r' : Broker × α) : Prop where
  excerpt : Excerpt D M r.1 r'.1
  answer : r'.2 = f r.2

/-- A change of neither caches nor transactions. -/
theorem Excerpt.change {c c' : Broker} (h : Excerpt D M b b')
    (hcaches : c.caches = b.caches ∧ c'.caches = b'.caches)
    (htransactions : c.transactions = b.transactions ∧ c'.transactions = b'.transactions)
    (hoffices : ∃ o o', c.offices = [o] ∧ c'.offices = [o'] ∧ OfficeMatch D M o o')
    (hmailboxes : ∀ q, (c.mailbox q).Matches (c'.mailbox q))
    (hstorage : c.storage.Matches D.address c'.storage)
    (hwaiting : CallsMatch D M c.waiting c'.waiting) (hready : CallsMatch D M c.ready c'.ready) :
    Excerpt D M c c' :=
  ⟨hoffices, hmailboxes, hstorage, h.caches.of_caches hcaches.1 hcaches.2,
    h.transactions.of_transactions htransactions.1 htransactions.2, hwaiting, hready, h.paired⟩

theorem Follows.split {α : Type} {f : α → α} {r r' : Broker × α} (h : Follows D M f r r') :
    ∃ c c' x, r = (c, x) ∧ r' = (c', f x) ∧ Excerpt D M c c' :=
  ⟨r.1, r'.1, r.2, rfl, Prod.ext rfl h.answer, h.excerpt⟩

theorem office_of_single {o : Office} (h : b.offices = [o]) : b.office 0 = o := by
  rw [Broker.office, h]
  rfl

theorem Excerpt.office (h : Excerpt D M b b') : OfficeMatch D M (b.office 0) (b'.office 0) := by
  obtain ⟨o, o', hb, hb', hmatch⟩ := h.offices
  rw [office_of_single hb, office_of_single hb']
  exact hmatch

theorem Excerpt.settings (h : Excerpt D M b b') :
    (b'.office 0).settings = (b.office 0).settings := congrArg (·.1) h.office.station

theorem Excerpt.persistenceOf (h : Excerpt D M b b') :
    b'.persistenceOf D.cache = b.persistenceOf D.cache := congrArg (·.2.1) h.office.station

/-! ## Single changes -/

theorem Excerpt.modifyOffice (h : Excerpt D M b b') {f f' : Office → Office}
    (hf : ∀ o o', OfficeMatch D M o o' → OfficeMatch D M (f o) (f' o')) :
    Excerpt D M (b.modifyOffice 0 f) (b'.modifyOffice 0 f') := by
  obtain ⟨o, o', hb, hb', hmatch⟩ := h.offices
  exact h.change ⟨rfl, rfl⟩ ⟨rfl, rfl⟩ ⟨f o, f' o', by simp [Broker.modifyOffice, hb],
    by simp [Broker.modifyOffice, hb'], hf o o' hmatch⟩ h.mailboxes h.storage h.waiting h.ready

theorem beyond_modifyOffice (h : Excerpt D M b b') {f : Office → Office}
    (hf : ∀ o o', OfficeMatch D M o o' → OfficeMatch D M (f o) o') :
    Excerpt D M (b.modifyOffice 0 f) b' := by
  obtain ⟨o, o', hb, hb', hmatch⟩ := h.offices
  exact h.change ⟨rfl, rfl⟩ ⟨rfl, rfl⟩ ⟨f o, o', by simp [Broker.modifyOffice, hb], hb',
    hf o o' hmatch⟩ h.mailboxes h.storage h.waiting h.ready

/-- The trace is nobody's business. -/
theorem Excerpt.log (h : Excerpt D M b b') (e e' : Event) :
    Excerpt D M (b.log e) (b'.log e') :=
  h.change ⟨rfl, rfl⟩ ⟨rfl, rfl⟩ h.offices h.mailboxes h.storage h.waiting h.ready

theorem beyond_log (h : Excerpt D M b b') (e : Event) : Excerpt D M (b.log e) b' :=
  h.change ⟨rfl, rfl⟩ ⟨rfl, rfl⟩ h.offices h.mailboxes h.storage h.waiting h.ready

theorem addressed_setCache (hb : Addressed b) {c : Cache} (hc : c.address = a) :
    Addressed (b.setCache (.office 0 a) c) := by
  intro a' d hd
  rw [Broker.setCache, Table.get?_insert] at hd
  split at hd
  · rename_i heq
    cases hd
    exact hc.trans (CacheRef.office.inj heq).2
  · exact hb a' d hd

theorem Excerpt.setCache (h : Excerpt D M b b') {c c' : Cache} (hc : c.Matches D M c')
    (haddress : c.address = D.address) :
    Excerpt D M (b.setCache D.cache c) (b'.setCache D.cache c') := by
  refine ⟨h.offices, h.mailboxes, h.storage,
    ⟨addressed_setCache h.caches.addressed haddress, ?_, ?_⟩,
    h.transactions.of_transactions rfl rfl, h.waiting, h.ready, h.paired⟩
  · simp [Broker.setCache, Table.contains]
  · rw [cache_setCache, cache_setCache, if_pos rfl, if_pos rfl]
    exact hc

theorem cache_ne (ha : a ≠ D.address) : CacheRef.office 0 a ≠ D.cache :=
  fun heq => ha (CacheRef.office.inj heq).2

theorem beyond_setCache (h : Excerpt D M b b') (ha : a ≠ D.address) {c : Cache}
    (haddress : c.address = a) : Excerpt D M (b.setCache (.office 0 a) c) b' := by
  have hne := cache_ne ha
  refine ⟨h.offices, h.mailboxes, h.storage,
    ⟨addressed_setCache h.caches.addressed haddress, ?_, ?_⟩,
    h.transactions.of_transactions rfl rfl, h.waiting, h.ready, h.paired⟩
  · rw [h.caches.opened]
    simp only [Broker.setCache, Table.contains, Table.get?_insert, if_neg hne]
  · rw [cache_setCache, if_neg hne]
    exact h.caches.same

/-- Calls that wait for any cache may try again. -/
theorem Excerpt.wake (h : Excerpt D M b b') (ref : CacheRef) :
    Excerpt D M (b.wake ref) (b'.wake ref) :=
  h.change ⟨rfl, rfl⟩ ⟨rfl, rfl⟩ h.offices h.mailboxes h.storage
    (h.waiting.filter _ fun c c' hc => by rw [hc.cache])
    (h.ready.append (h.waiting.filter _ fun c c' hc => by rw [hc.cache]))

theorem beyond_wake (h : Excerpt D M b b') (ha : a ≠ D.address) :
    Excerpt D M (b.wake (.office 0 a)) b' := by
  -- In the excerpt nobody waits for the cache.
  have hwake : b'.wake (.office 0 a) = b' := by
    have hcache : ∀ c ∈ b'.waiting, c.cache ≠ .office 0 a := fun c hc heq =>
      cache_ne ha (heq.symm.trans (h.waiting.cache_eq hc))
    have hwaiting : b'.waiting.filter (fun c => c.cache ≠ .office 0 a) = b'.waiting :=
      List.filter_eq_self.2 fun c hc => by simpa using hcache c hc
    have hready : b'.waiting.filter (fun c => c.cache = .office 0 a) = [] :=
      List.filter_eq_nil_iff.2 fun c hc => by simpa using hcache c hc
    rw [Broker.wake, hwaiting, hready, List.append_nil]
  rw [← hwake]
  exact h.wake _

theorem Excerpt.submitFor (h : Excerpt D M b b') {e : Entry} (he : e.concerns D.address = true) :
    Excerpt D M (b.submitFor D.cache e) (b'.submitFor D.cache e) :=
  h.modifyOffice fun _ _ ho => ho.submit he

theorem beyond_submitFor (h : Excerpt D M b b') {e : Entry}
    (he : e.concerns D.address = false) : Excerpt D M (b.submitFor (.office 0 a) e) b' :=
  beyond_modifyOffice h fun _ _ ho => ho.submit_beyond he

/-- A write succeeds in both. -/
theorem Excerpt.write (h : Excerpt D M b b') (caller : JournalCaller) (e : Entry) :
    Follows D M id (b.write caller e) (b'.write caller e) ∧ (b.write caller e).2 = .ok () := by
  obtain ⟨hstorage, hok, hok'⟩ := h.storage.write e
  exact ⟨⟨h.change ⟨rfl, rfl⟩ ⟨rfl, rfl⟩ h.offices h.mailboxes hstorage h.waiting h.ready,
    hok'.trans hok.symm⟩, hok⟩

theorem beyond_write (h : Excerpt D M b b') (caller : JournalCaller) {e : Entry}
    (he : e.concerns D.address = false) : Excerpt D M (b.write caller e).1 b' :=
  h.change ⟨rfl, rfl⟩ ⟨rfl, rfl⟩ h.offices h.mailboxes (h.storage.write_beyond he) h.waiting
    h.ready

/-! ## Stages -/

/-- A stage is granted at the address that was asked for. -/
theorem at_of_granted (hb : Addressed b) {id : Bytes} {owner : Owner} {s : Staged} {d : Cache}
    (h : (b.cache (.office 0 a)).attempt id owner = (some (.staged s), d)) :
    s.address = a ∧ d.address = a := by
  obtain ⟨henabled, -, -, rfl, rfl⟩ := Cache.attempt_staged h
  cases hget : b.caches.get? (.office 0 a) with
  | none =>
    rw [cache_of_get?_none hget] at henabled
    cases henabled
  | some c =>
    rw [cache_of_get?_some hget]
    exact ⟨hb a c hget, hb a c hget⟩

theorem beyond_attemptStage (h : Excerpt D M b b') (ha : a ≠ D.address) (id : Bytes)
    (owner : Owner) : Excerpt D M (b.attemptStage (.office 0 a) id owner).1 b' := by
  unfold attemptStage
  rcases hattempt : (b.cache (.office 0 a)).attempt id owner with ⟨outcome, d⟩
  split
  · rename_i s c heq
    cases heq
    exact beyond_log (beyond_setCache h ha (at_of_granted h.caches.addressed hattempt).2) _
  · exact h

/-- An attempt in the district ends in the same way in the excerpt, or does not end there,
either. -/
theorem within_attemptStage (h : Excerpt D M b b') {owner owner' : Owner}
    (howner : OwnerMatch D M owner owner') (id : Bytes) :
    (b.attemptStage D.cache id owner = (b, none) ∧
        b'.attemptStage D.cache id owner' = (b', none)) ∨
      (∃ s c c', b.attemptStage D.cache id owner = (c, some (.staged s)) ∧
        b'.attemptStage D.cache id owner' = (c', some (.staged { s with owner := owner' })) ∧
        s.address = D.address ∧ Excerpt D M c c') ∨
      ∃ x, (∀ s, x ≠ .staged s) ∧ b.attemptStage D.cache id owner = (b, some x) ∧
        b'.attemptStage D.cache id owner' = (b', some x) := by
  unfold attemptStage
  rcases h.caches.same.attempt h.paired howner id with ⟨hd, hd'⟩ |
    ⟨s, d, d', hd, hd', -, -, hmatch⟩ | ⟨x, hx, hd, hd'⟩
  · rw [hd, hd']
    exact .inl ⟨rfl, rfl⟩
  · obtain ⟨hs, haddress⟩ := at_of_granted h.caches.addressed hd
    rw [hd, hd']
    exact .inr (.inl ⟨s, _, _, rfl, rfl, hs, (h.setCache hmatch haddress).log _ _⟩)
  · rw [hd, hd']
    refine .inr (.inr ⟨x, hx, ?_⟩)
    cases x with
    | staged s => exact absurd rfl (hx s)
    | _ => exact ⟨rfl, rfl⟩

theorem beyond_persistStage (h : Excerpt D M b b') (ha : a ≠ D.address) {g : HeldStage}
    (hg : g.At a) : Excerpt D M (b.persistStage g).1 b' := by
  obtain ⟨href, hstaged⟩ := hg
  unfold persistStage
  rw [href]
  rcases hdraw : (b.cache (.office 0 a)).drawKey g.staged with ⟨key, d⟩
  cases key with
  | none => exact h
  | some key =>
    have hdrawn := Cache.drawKey_some hdraw
    obtain ⟨q, hq, -⟩ := hdrawn.pending
    have hset := beyond_setCache h ha
      (hdrawn.address.trans (address_of_pendingOf h.caches.addressed hq))
    dsimp only
    split
    · exact beyond_write hset _ (by simp [Entry.concerns, Staged.recordAt, hstaged, ha])
    · exact hset

theorem within_persistStage (h : Excerpt D M b b') {g : HeldStage} (hg : g.At D.address)
    (owner : Owner) :
    Follows D M id (b.persistStage g) (b'.persistStage (g.ownedBy owner)) ∧
      (b.persistStage g).2 = .ok () := by
  obtain ⟨href, hstaged⟩ := hg
  show Follows D M id (b.persistStage g) (b'.persistStage g) ∧ _
  obtain ⟨key, d, d', hd, hd', hmatch⟩ := h.caches.same.drawKey g.staged
  unfold persistStage
  rw [href, show CacheRef.office 0 D.address = D.cache from rfl, hd, hd']
  cases key with
  | none => exact ⟨⟨h, rfl⟩, rfl⟩
  | some key =>
    have hdrawn := Cache.drawKey_some hd
    obtain ⟨q, hq, -⟩ := hdrawn.pending
    have hset := h.setCache hmatch
      (hdrawn.address.trans (address_of_pendingOf h.caches.addressed hq))
    dsimp only
    rw [hset.persistenceOf]
    split
    · exact hset.write ..
    · exact ⟨⟨hset, rfl⟩, rfl⟩

theorem beyond_pruneEvicted (h : Excerpt D M b b') (ha : a ≠ D.address)
    (evicted : List (Nat × Bytes)) : Excerpt D M
      (evicted.foldl (fun b e => b.submitFor (.office 0 a) (.prune a e.1)) b) b' := by
  induction evicted generalizing b with
  | nil => exact h
  | cons e rest ih => exact ih (beyond_submitFor h (by simp [Entry.concerns, ha]))

theorem within_pruneEvicted (h : Excerpt D M b b') (evicted : List (Nat × Bytes)) :
    Excerpt D M
      (evicted.foldl (fun b e => b.submitFor D.cache (.prune D.address e.1)) b)
      (evicted.foldl (fun b e => b.submitFor D.cache (.prune D.address e.1)) b') := by
  induction evicted generalizing b b' with
  | nil => exact h
  | cons e rest ih => exact ih (h.submitFor (by simp [Entry.concerns]))

theorem beyond_commitStage (h : Excerpt D M b b') (ha : a ≠ D.address) {g : HeldStage}
    (hg : g.At a) : Excerpt D M (b.commitStage g) b' := by
  obtain ⟨href, hstaged⟩ := hg
  unfold commitStage
  rw [href]
  rcases hcommit : (b.cache (.office 0 a)).commit g.staged with ⟨p, d⟩
  cases p with
  | none => exact h
  | some p =>
    have hcommitted := Cache.commit_some hcommit
    obtain ⟨q, hq⟩ := hcommitted.pendingOf
    have haddress := hcommitted.address.trans (address_of_pendingOf h.caches.addressed hq)
    have hset := beyond_wake (beyond_log (beyond_setCache h ha haddress) (.promoted g p)) ha
    dsimp only
    rw [haddress]
    split
    · exact beyond_pruneEvicted (beyond_submitFor hset
        (by simp [Entry.concerns, Staged.recordAt, hstaged, ha])) ha _
    · exact beyond_pruneEvicted hset ha _

theorem within_commitStage (h : Excerpt D M b b') {g : HeldStage} (hg : g.At D.address)
    (owner : Owner) : Excerpt D M (b.commitStage g) (b'.commitStage (g.ownedBy owner)) := by
  obtain ⟨href, hstaged⟩ := hg
  unfold commitStage
  rw [HeldStage.cache_ownedBy, HeldStage.commit_ownedBy, href,
    show CacheRef.office 0 D.address = D.cache from rfl]
  rcases h.caches.same.commit g.staged with ⟨hnone, hnone'⟩ | ⟨p, d, d', hd, hd', hmatch⟩
  · rcases hc : (b.cache D.cache).commit g.staged with ⟨p, d⟩
    rcases hc' : (b'.cache D.cache).commit g.staged with ⟨p', d'⟩
    rw [hc] at hnone
    rw [hc'] at hnone'
    obtain rfl : p = none := hnone
    obtain rfl : p' = none := hnone'
    exact h
  · have hcommitted := Cache.commit_some hd
    obtain ⟨q, hq⟩ := hcommitted.pendingOf
    have haddress := hcommitted.address.trans (address_of_pendingOf h.caches.addressed hq)
    have hset := ((h.setCache hmatch haddress).log (.promoted g p)
      (.promoted (g.ownedBy owner) p)).wake D.cache
    rw [hd, hd']
    simp only [HeldStage.recordAt_ownedBy, hmatch.alike.address, haddress]
    rw [hset.persistenceOf]
    split
    · exact within_pruneEvicted (hset.submitFor
        (by simp [Entry.concerns, Staged.recordAt, hstaged])) _
    · exact within_pruneEvicted hset _

theorem beyond_rollbackStage (h : Excerpt D M b b') (ha : a ≠ D.address) {g : HeldStage}
    (hg : g.At a) : Excerpt D M (b.rollbackStage g) b' := by
  obtain ⟨href, hstaged⟩ := hg
  unfold rollbackStage
  rw [href]
  cases hrollback : (b.cache (.office 0 a)).rollback g.staged with
  | none => exact h
  | some d =>
    obtain ⟨⟨q, hq⟩, rfl⟩ := Cache.rollback_some hrollback
    have haddress := address_of_pendingOf h.caches.addressed hq
    refine beyond_wake (beyond_log (beyond_setCache h ha ?_) _) ha
    exact haddress

theorem within_rollbackStage (h : Excerpt D M b b') {g : HeldStage} (hg : g.At D.address)
    (owner : Owner) : Excerpt D M (b.rollbackStage g) (b'.rollbackStage (g.ownedBy owner)) := by
  obtain ⟨href, hstaged⟩ := hg
  unfold rollbackStage
  rw [HeldStage.cache_ownedBy, HeldStage.rollback_ownedBy, href,
    show CacheRef.office 0 D.address = D.cache from rfl]
  rcases h.caches.same.rollback g.staged with ⟨hnone, hnone'⟩ | ⟨d, d', hd, hd', hmatch⟩
  · rw [hnone, hnone']
    exact h
  · obtain ⟨⟨q, hq⟩, hd₀⟩ := Cache.rollback_some hd
    have haddress : d.address = D.address := by
      rw [hd₀]
      exact address_of_pendingOf h.caches.addressed hq
    rw [hd, hd']
    exact ((h.setCache hmatch haddress).log _ _).wake _

end Broker

end MessageRouting
