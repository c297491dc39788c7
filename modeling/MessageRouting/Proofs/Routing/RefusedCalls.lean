import MessageRouting.Proofs.Routing.FailedDeliveries

/-!
# Calls that are refused

A routing call may be refused at once or after it has waited, before it has any
queue, while its message is placed, or because its transaction takes nothing any
more. Whatever the reason is, nothing lasts of it: the numbers it has drawn and
the resolutions it has cached differ, and a cache may have been made that is
empty. A rejected duplicate is told to the subscribers besides, and whoever waits
at the cache of a stage that was dropped may look again.

Results:

* `fruitless_submitCall`: what is left of a call that comes to nothing when it
  tries to get its stage.
* `refused_fruitless`: a refused routing call has no lasting effect, whatever has
  been asked of the broker before.
-/

namespace MessageRouting

/-- The bindings, without what is remembered of resolved addresses. -/
def Registry.lasting (r : Registry) : Registry := { r with resolved := {} }

/-- A post office without the number of its next send and what it remembers of resolved
addresses. -/
def Office.lasting (o : Office) : Office :=
  { o with nextOwner := 0, desk := { o.desk with registry := o.desk.registry.lasting } }

namespace Broker

/-! ## What lasts -/

/-- Only counters, cached resolutions and empty caches of post offices tell the brokers apart, their
queues, calls and traces aside. -/
structure Unmarked (b b' : Broker) : Prop where
  transactions : b'.transactions = b.transactions
  desk : b'.desk = b.desk
  offices : b'.offices.map Office.lasting = b.offices.map Office.lasting
  storage : { b'.storage with lapses := [] } = { b.storage with lapses := [] }
  known : ∀ ref c, b.caches.get? ref = some c →
    ∃ k, c.nextSequence ≤ k ∧ b'.caches.get? ref = some { c with nextSequence := k }
  opened : ∀ ref c, b.caches.get? ref = none → b'.caches.get? ref = some c →
    ∃ n a k, ref = .office n a ∧ c = {
      address := a, capacity := (b.office n).settings.idCacheCapacity, nextSequence := k }

/-- Nothing has been told, and no queue or call has noticed anything. -/
structure Silent (b b' : Broker) : Prop extends Unmarked b b' where
  trace : b'.trace = b.trace
  mailboxes : b'.mailboxes = b.mailboxes
  waiting : b'.waiting = b.waiting
  ready : b'.ready = b.ready

/-- The subscribers of a post office are told of a duplicate that is rejected there. -/
def noticed (b : Broker) (n : Nat) (m : Message) : RoutingError → Broker
  | .duplicateMessage a id => b.notify n (.duplicateRejected a id m.id)
  | _ => b

/-- Whoever waits at the cache of a stage may look again. -/
def alerted (b : Broker) : Option HeldStage → Broker
  | some h => b.wake h.cache
  | none => b

/-- All that a call of message `m` at a post office has told and taken back when `e` refuses it. -/
structure Retracts (b : Broker) (n : Nat) (m : Message) (e : RoutingError) (u : Retraction)
    (b' : Broker) : Prop where
  trace : b'.trace = b.trace ++ u.events m.id
  tells : u.Tells m.id e
  asked : u.asked.map Prod.fst = u.accepted.reverse
  mail : b.GivenBack m.id u.accepted b'
  stage : ∀ h ∈ u.staged, h.cache = .office n m.address
  waiting : b'.waiting = (b.alerted u.staged).waiting
  ready : b'.ready = (b.alerted u.staged).ready

/-- Nothing lasts of a call of message `m` at a post office that `e` refuses. -/
structure Fruitless (b : Broker) (n : Nat) (m : Message) (e : RoutingError) (b' : Broker) :
    Prop where
  unmarked : Unmarked (b.noticed n m e) b'
  retracted : ∃ u, Retracts b n m e u b'

variable {b b' b₁ c : Broker} {n : Nat} {m : Message} {e : RoutingError}

theorem settings_of_lasting (h : b'.offices.map Office.lasting = b.offices.map Office.lasting)
    (n : Nat) : (b'.office n).settings = (b.office n).settings := by
  have hoffice := congrArg (·[n]?) h
  simp only [List.getElem?_map] at hoffice
  simp only [office, List.getD_eq_getElem?_getD]
  cases hb' : b'.offices[n]? <;> cases hb : b.offices[n]? <;> simp_all [Office.lasting]

theorem Unmarked.refl (b : Broker) : Unmarked b b :=
  ⟨rfl, rfl, rfl, rfl, fun _ _ hc => ⟨_, Nat.le_refl _, hc⟩, fun _ _ hnone hsome => by
    rw [hnone] at hsome
    cases hsome⟩

theorem Unmarked.trans {b₁ b₂ b₃ : Broker} (h : Unmarked b₁ b₂) (h' : Unmarked b₂ b₃) :
    Unmarked b₁ b₃ := by
  refine ⟨h'.transactions.trans h.transactions, h'.desk.trans h.desk, h'.offices.trans h.offices,
    h'.storage.trans h.storage, fun ref c hc => ?_, fun ref c hnone hc => ?_⟩
  · obtain ⟨k, hk, hc₂⟩ := h.known ref c hc
    obtain ⟨k', hk', hc₃⟩ := h'.known ref _ hc₂
    exact ⟨k', Nat.le_trans hk hk', hc₃⟩
  · cases hb₂ : b₂.caches.get? ref with
    | none =>
      obtain ⟨n, a, k, href, hc⟩ := h'.opened ref c hb₂ hc
      exact ⟨n, a, k, href, by rw [hc, settings_of_lasting h.offices]⟩
    | some c₂ =>
      obtain ⟨n, a, k, href, rfl⟩ := h.opened ref c₂ hnone hb₂
      obtain ⟨k', -, hc₃⟩ := h'.known ref _ hb₂
      rw [hc] at hc₃
      exact ⟨n, a, k', href, Option.some.inj hc₃⟩

theorem unmarked_of_caches (htransactions : b'.transactions = b.transactions)
    (hdesk : b'.desk = b.desk)
    (hoffices : b'.offices.map Office.lasting = b.offices.map Office.lasting)
    (hstorage : { b'.storage with lapses := [] } = { b.storage with lapses := [] })
    (hcaches : b'.caches = b.caches) : Unmarked b b' := by
  refine ⟨htransactions, hdesk, hoffices, hstorage, fun ref c hc => ?_, fun ref c hnone hc => ?_⟩
  · exact ⟨_, Nat.le_refl _, by rwa [hcaches]⟩
  · rw [hcaches, hnone] at hc
    cases hc

theorem Silent.refl (b : Broker) : Silent b b := ⟨.refl b, rfl, rfl, rfl, rfl⟩

theorem Silent.trans {b₁ b₂ b₃ : Broker} (h : Silent b₁ b₂) (h' : Silent b₂ b₃) : Silent b₁ b₃ :=
  ⟨h.toUnmarked.trans h'.toUnmarked, h'.trace.trans h.trace, h'.mailboxes.trans h.mailboxes,
    h'.waiting.trans h.waiting, h'.ready.trans h.ready⟩

/-! ## Before anything is tried -/

theorem lasting_modifyOffice (b : Broker) (n : Nat) {f : Office → Office}
    (h : ∀ o, (f o).lasting = o.lasting) :
    (b.modifyOffice n f).offices.map Office.lasting = b.offices.map Office.lasting := by
  refine List.ext_getElem? fun i => ?_
  simp only [modifyOffice, List.getElem?_map, List.getElem?_modify]
  cases b.offices[i]? with
  | none => rfl
  | some o =>
    split
    · exact congrArg some (h o)
    · rfl

theorem silent_modifyOffice (b : Broker) (n : Nat) {f : Office → Office}
    (h : ∀ o, (f o).lasting = o.lasting) : Silent b (b.modifyOffice n f) :=
  ⟨unmarked_of_caches rfl rfl (lasting_modifyOffice b n h) rfl rfl, rfl, rfl, rfl, rfl⟩

theorem silent_openOfficeCache (b : Broker) (n : Nat) (a : Address) :
    Silent b (b.openOfficeCache n a) := by
  rcases openOfficeCache_cases b n a with ⟨-, heq⟩ | ⟨hnone, heq⟩
  · rw [heq]
    exact .refl b
  · rw [heq]
    refine ⟨⟨rfl, rfl, rfl, rfl, fun ref c hc => ⟨_, Nat.le_refl _, ?_⟩, fun ref c hb hc => ?_⟩,
      rfl, rfl, rfl, rfl⟩
    · have hne : CacheRef.office n a ≠ ref := by
        rintro rfl
        rw [hnone] at hc
        cases hc
      rw [setCache, Table.get?_insert, if_neg hne]
      exact hc
    · rw [setCache, Table.get?_insert] at hc
      split at hc
      · rename_i href
        exact ⟨n, a, 1, href.symm, (Option.some.inj hc).symm⟩
      · rw [hb] at hc
        cases hc

/-- Finding the bindings of an address changes what is remembered of it, and nothing else. -/
theorem lasting_bindingsFor (r : Registry) (a : Address) (create : Bool) :
    (r.bindingsFor a create).1.lasting = r.lasting := by
  unfold Registry.bindingsFor
  split
  · rfl
  · split
    · rfl
    · unfold Registry.remember
      split <;> rfl

theorem silent_collect (b : Broker) (n : Nat) (m : Message) : Silent b (b.collect n m).1 := by
  refine ⟨unmarked_of_caches rfl rfl ?_ rfl rfl, rfl, rfl, rfl, rfl⟩
  refine List.ext_getElem? fun i => ?_
  simp only [collect, resolve, setRegistry, setDesk, modifyOffice, List.getElem?_map,
    List.getElem?_modify]
  cases ho : b.offices[i]? with
  | none => rfl
  | some o =>
    split
    · -- The office that is changed is the one whose desk has been read.
      subst_vars
      have hdesk : b.deskAt (some i) = o.desk := by
        simp [deskAt, office, List.getD_eq_getElem?_getD, ho]
      have hkept := lasting_bindingsFor o.desk.registry m.address true
      rw [hdesk]
      exact congrArg some (by simp only [Office.lasting, hkept])
    · rfl

theorem silent_drawOwner (b : Broker) (n : Nat) (transaction : Option Nat) :
    Silent b (b.drawOwner n transaction).1 := by
  cases transaction with
  | some t => exact .refl b
  | none => exact silent_modifyOffice b n fun _ => rfl

/-- What is told to subscribers makes no difference to what lasts. -/
theorem unmarked_notify (h : Unmarked b b') (n : Nat) (what : Notification) :
    Unmarked (b.notify n what) (b'.notify n what) := by
  have hmap : ∀ os : List Office, (os.modify n fun o =>
      { o with channel := o.channel.send what }).map Office.lasting =
        (os.map Office.lasting).modify n fun o => { o with channel := o.channel.send what } := by
    intro os
    refine List.ext_getElem? fun i => ?_
    simp only [List.getElem?_map, List.getElem?_modify]
    cases os[i]? with
    | none => rfl
    | some o => split <;> rfl
  have hsettings : ∀ i, ((b.notify n what).office i).settings = (b.office i).settings := by
    intro i
    simp only [notify, modifyOffice, office, List.getD_eq_getElem?_getD, List.getElem?_modify]
    cases b.offices[i]? with
    | none => rfl
    | some o => split <;> rfl
  refine ⟨h.transactions, h.desk, ?_, h.storage, h.known, fun ref c hnone hc => ?_⟩
  · exact (hmap _).trans ((congrArg _ h.offices).trans (hmap _).symm)
  · obtain ⟨i, a, k, href, hc⟩ := h.opened ref c hnone hc
    exact ⟨i, a, k, href, by rw [hc, hsettings]⟩

theorem unmarked_noticed (h : Unmarked b b') (n : Nat) (m : Message) (e : RoutingError) :
    Unmarked (b.noticed n m e) (b'.noticed n m e) := by
  unfold noticed
  split
  · exact unmarked_notify h ..
  · exact h

/-- Nothing lasts of a call either if nothing had been noticed of it before it failed. -/
theorem Fruitless.after (h : Silent b b₁) (h' : Fruitless b₁ n m e b') : Fruitless b n m e b' := by
  obtain ⟨u, hu⟩ := h'.retracted
  have hmailbox : ∀ q, b₁.mailbox q = b.mailbox q := fun q => by rw [mailbox, h.mailboxes, mailbox]
  have halerted : (b₁.alerted u.staged).waiting = (b.alerted u.staged).waiting ∧
      (b₁.alerted u.staged).ready = (b.alerted u.staged).ready := by
    cases u.staged with
    | none => exact ⟨h.waiting, h.ready⟩
    | some g => simp [alerted, wake, h.waiting, h.ready]
  refine ⟨(unmarked_noticed h.toUnmarked n m e).trans h'.unmarked, u, ?_, hu.tells, hu.asked, ?_,
    hu.stage, hu.waiting.trans halerted.1, hu.ready.trans halerted.2⟩
  · rw [hu.trace, h.trace]
  · refine ⟨fun q => ?_, fun q hq => ?_, fun q hq hmode => ?_⟩
    · rw [hu.mail.modes, hmailbox]
    · rw [hu.mail.untouched q hq, hmailbox]
    · rw [hu.mail.returned q hq (by rwa [hmailbox]), hmailbox]

/-- A call that is refused before it has tried anything. -/
theorem fruitless_noticed (b : Broker) (n : Nat) (m : Message) {e : RoutingError}
    (he : ∀ u : Retraction, u.accepted = [] → u.failure = [] → u.Tells m.id e) :
    Fruitless b n m e (b.noticed n m e) := by
  refine ⟨.refl _, ⟨none, [], [], []⟩, ?_⟩
  have hnotice : (b.noticed n m e).trace = b.trace ∧ (b.noticed n m e).mailboxes = b.mailboxes ∧
      (b.noticed n m e).waiting = b.waiting ∧ (b.noticed n m e).ready = b.ready := by
    unfold noticed
    split <;> exact ⟨rfl, rfl, rfl, rfl⟩
  obtain ⟨htrace, hmailboxes, hwaiting, hready⟩ := hnotice
  have hmailbox : ∀ q, (b.noticed n m e).mailbox q = b.mailbox q := fun q => by
    rw [mailbox, hmailboxes, mailbox]
  refine ⟨by simp [htrace, Retraction.events, Retraction.calls], he _ rfl rfl, rfl,
    ⟨fun q => by rw [hmailbox], fun q _ => by rw [hmailbox], fun q hq => ?_⟩, fun h hh => ?_,
    hwaiting, hready⟩
  · cases hq
  · cases hh

/-! ## Failing deliveries -/

variable {d : Delivery} {transaction : Option Nat}

/-- A failing delivery is refused for a reason of its own, which is no duplicate's. -/
theorem noticed_of_dispatch (h : b.dispatch d transaction = (b', .error e)) (b₀ : Broker) (n : Nat)
    (m : Message) : b₀.noticed n m e = b₀ := by
  unfold noticed
  split
  · rename_i a id
    -- No part of a delivery fails in this way.
    cases transaction with
    | some k =>
      simp only [dispatch] at h
      split at h <;> cases h
    | none =>
      simp only [dispatch, deliver, tryDelivery, enqueueTargets] at h
      rcases henqueue : b.enqueueFrom d.message.id [] d.routedQueues with ⟨c, accepted, result⟩
      obtain ⟨_, failure, -, -, -, hresult⟩ := enqueueFrom_cases henqueue
      rw [henqueue] at h
      rcases hresult with ⟨rfl, -⟩ | ⟨q, refusal, rfl, -⟩
      · dsimp only at h
        rcases hpersist : c.persist d with ⟨c₁, result⟩
        rw [hpersist] at h
        cases result with
        | ok _ => cases h
        | error err =>
          obtain ⟨-, -, -, cause, -, rfl, -⟩ := persist_error hpersist
          cases h
      · cases h
  · rfl

/-- Nothing lasts of a failing delivery that has no stage. -/
theorem fruitless_dispatch (hd : d.stage = none) (n : Nat)
    (h : b.dispatch d transaction = (b', .error e)) : Fruitless b n d.message e b' := by
  have hnotice := noticed_of_dispatch h b n d.message
  obtain ⟨u, c, hbalked, rfl⟩ := balked_dispatch h
  have hstaged := hbalked.staged.trans hd
  have hframe := hbalked.frame
  have hcaches : c.caches = b.caches := by
    rcases hbalked.caches with hsame | ⟨g, key, k, hg, -⟩
    · exact hsame
    · rw [hd] at hg
      cases hg
  rw [rollbackDelivery, hd]
  refine ⟨?_, u, ?_, hbalked.tells, hbalked.asked, hbalked.mail, fun g hg => ?_, ?_, ?_⟩
  · rw [hnotice]
    exact unmarked_of_caches (by rw [hframe]) (by rw [hframe]) (by rw [hframe]) hbalked.storage
      hcaches
  · rw [hframe]
    simp [Retraction.events, hstaged]
  · rw [hstaged] at hg
    cases hg
  · rw [hframe, hstaged]
    rfl
  · rw [hframe, hstaged]
    rfl

/-- Only a cache that has been made grants stages. -/
theorem get?_of_granted {ref : CacheRef} {id : Bytes} {owner : Owner} {s : Staged} {k : Cache}
    (h : (b.cache ref).attempt id owner = (some (.staged s), k)) :
    b.caches.get? ref = some (b.cache ref) := by
  cases hget : b.caches.get? ref with
  | none =>
    rw [cache_of_get?_none hget] at h
    obtain ⟨henabled, -⟩ := Cache.attempt_staged h
    cases henabled
  | some k => rw [cache_of_get?_some hget]

/-- A failing delivery that has been granted its stage leaves a cache that drops it and is then as
it was, but for the numbers it has given out. -/
theorem rollback_balked {ref : CacheRef} {id : Bytes} {owner : Owner} {s : Staged} {k : Cache}
    {u : Retraction} (hattempt : (b.cache ref).attempt id owner = (some (.staged s), k))
    (hd : d.stage = some ⟨ref, s⟩)
    (h : Balked ((b.setCache ref k).log (.granted ⟨ref, s⟩)) d e u c) :
    ∃ next, (b.cache ref).nextSequence ≤ next ∧
      (c.cache ref).rollback s = some { b.cache ref with nextSequence := next } ∧
      ∀ ref', ref ≠ ref' → c.caches.get? ref' = b.caches.get? ref' := by
  -- The cache has granted the stage, and may have drawn its key since.
  obtain ⟨k', hcaches, hle, hrollback⟩ : ∃ k',
      (∀ ref', c.caches.get? ref' = if ref = ref' then some k' else b.caches.get? ref') ∧
        (b.cache ref).nextSequence ≤ k'.nextSequence ∧
        k'.rollback s = some { b.cache ref with nextSequence := k'.nextSequence } := by
    rcases h.caches with hsame | ⟨g, key, k', hg, hdraw, hsame⟩
    · refine ⟨k, fun ref' => ?_, Cache.rollback_granted hattempt⟩
      rw [hsame]
      exact Table.get?_insert ..
    · rw [hd] at hg
      cases hg
      have hgranted : ((b.setCache ref k).log (.granted ⟨ref, s⟩)).cache ref = k := by
        simp [cache_setCache]
      refine ⟨k', fun ref' => ?_, Cache.rollback_drawn hattempt (hgranted ▸ hdraw)⟩
      rw [hsame, Table.get?_insert]
      split
      · rfl
      · rename_i hne
        exact (Table.get?_insert ..).trans (if_neg hne)
  have hcache : c.cache ref = k' :=
    cache_of_get?_some ((hcaches ref).trans (if_pos rfl))
  exact ⟨_, hle, hcache ▸ hrollback, fun ref' hne => (hcaches ref').trans (if_neg hne)⟩

/-- Nothing lasts of a failing delivery that has just been granted its stage. -/
theorem fruitless_granted {ref : CacheRef} {id : Bytes} {owner : Owner} {s : Staged}
    (hgrant : b.attemptStage ref id owner = (b₁, some (.staged s))) (hd : d.stage = some ⟨ref, s⟩)
    (href : ref = .office n d.message.address)
    (h : b₁.dispatch d transaction = (b', .error e)) : Fruitless b n d.message e b' := by
  have hnotice := noticed_of_dispatch h b n d.message
  obtain ⟨k, hattempt, rfl⟩ := attemptStage_granted hgrant
  obtain ⟨u, c, hbalked, rfl⟩ := balked_dispatch h
  obtain ⟨next, hle, hrollback, hothers⟩ := rollback_balked hattempt hd hbalked
  have hframe := hbalked.frame
  have hmade := get?_of_granted hattempt
  have hfinal : c.rollbackDelivery d =
      ((c.setCache ref { b.cache ref with nextSequence := next }).log (.dropped ⟨ref, s⟩)).wake
        ref := by
    simp only [rollbackDelivery, hd, rollbackStage, hrollback]
  have hself : (c.rollbackDelivery d).caches.get? ref =
      some { b.cache ref with nextSequence := next } := by
    rw [hfinal]
    exact Table.get?_insert_self ..
  have hother : ∀ ref', ref ≠ ref' →
      (c.rollbackDelivery d).caches.get? ref' = b.caches.get? ref' := fun ref' hne => by
    rw [hfinal, ← hothers ref' hne]
    exact (Table.get?_insert ..).trans (if_neg hne)
  have hstaged : u.staged = some ⟨ref, s⟩ := hbalked.staged.trans hd
  have hwaiting : c.waiting = b.waiting := by rw [hframe]; rfl
  have hready : c.ready = b.ready := by rw [hframe]; rfl
  refine ⟨?_, u, ?_, hbalked.tells, hbalked.asked, ?_, fun g hg => ?_, ?_, ?_⟩
  · rw [hnotice]
    refine ⟨?_, ?_, ?_, ?_, fun ref' k hk => ?_, fun ref' k hnone hk => ?_⟩
    · rw [hfinal, hframe]
      rfl
    · rw [hfinal, hframe]
      rfl
    · rw [hfinal, hframe]
      rfl
    · rw [hfinal]
      exact hbalked.storage
    · by_cases hne : ref = ref'
      · subst hne
        rw [hmade] at hk
        cases hk
        exact ⟨next, hle, hself⟩
      · exact ⟨_, Nat.le_refl _, (hother ref' hne).trans hk⟩
    · by_cases hne : ref = ref'
      · subst hne
        rw [hmade] at hnone
        cases hnone
      · rw [hother ref' hne, hnone] at hk
        cases hk
  · rw [hfinal]
    show c.trace ++ [_] = _
    rw [hframe]
    simp [Retraction.events, hstaged, log, setCache]
  · rw [hfinal]
    exact ⟨hbalked.mail.modes, hbalked.mail.untouched, hbalked.mail.returned⟩
  · rw [hstaged] at hg
    cases hg
    exact href
  · rw [hfinal, hstaged]
    show c.waiting.filter _ = b.waiting.filter _
    rw [hwaiting]
  · rw [hfinal, hstaged]
    show c.ready ++ c.waiting.filter _ = b.ready ++ b.waiting.filter _
    rw [hready, hwaiting]

/-! ## Attempts -/

theorem dispatch_of_refused {r : Routing} {staged acceptedDuplicate : Bool}
    (h : b.finish r staged acceptedDuplicate = (b', .refused e)) :
    b.dispatch r.delivery r.transaction = (b', .error e) := by
  unfold finish at h
  rcases hdispatch : b.dispatch r.delivery r.transaction with ⟨c, _ | _⟩
  · rw [hdispatch] at h
    cases h
    rfl
  · rw [hdispatch] at h
    cases h

theorem fruitless_finish {r : Routing} {staged acceptedDuplicate : Bool}
    (hstage : r.delivery.stage = none) (n : Nat)
    (h : b.finish r staged acceptedDuplicate = (b', .refused e)) :
    Fruitless b n r.delivery.message e b' :=
  fruitless_dispatch hstage n (dispatch_of_refused h)

theorem fruitless_rejectDuplicate {id : Bytes} (h : b.rejectDuplicate n m id = (b', .refused e)) :
    Fruitless b n m e b' := by
  cases h
  exact fruitless_noticed b n m (e := .duplicateMessage m.address id) fun u ha hf => ⟨ha, hf⟩

/-- A call that is refused when it has asked for its stage, at once or after it has waited. -/
theorem fruitless_submitCall {call : Call} {r : Routing} (hr : call.purpose = .route r)
    (hcall : call.Applies) (h : b.submitCall call = (b', some (.refused e))) :
    Fruitless b r.office r.delivery.message e b' := by
  obtain ⟨hstage, href⟩ := hcall r hr
  have hattempt : b.attempt call = (b', some (.refused e)) := by
    unfold submitCall at h
    split at h
    · rename_i heq
      rw [heq, ← h]
    · cases h
  rcases hgrant : b.attemptStage call.cache call.duplicateId call.owner with ⟨b₁, o⟩
  by_cases ho : ∃ s, o = some (.staged s)
  · obtain ⟨s, rfl⟩ := ho
    rw [attempt_of_granted hr hgrant] at hattempt
    simp only [Prod.mk.injEq, Option.some.injEq] at hattempt
    have hdispatch := dispatch_of_refused (Prod.ext hattempt.1 hattempt.2)
    exact fruitless_granted (d := { r.delivery with stage := some ⟨call.cache, s⟩ }) hgrant rfl href
      hdispatch
  · obtain ⟨rfl, -⟩ := view_attempt_of_not_granted hr hstage hgrant fun s hs => ho ⟨s, hs⟩
    simp only [attempt, hgrant, hr] at hattempt
    cases o with
    | none => cases hattempt
    | some o =>
      simp only [Prod.mk.injEq, Option.some.injEq] at hattempt
      have hends : b₁.continueRouting r call.cache call.duplicateId o = (b', .refused e) :=
        Prod.ext hattempt.1 hattempt.2
      cases o with
      | staged s => exact absurd ⟨s, rfl⟩ ho
      | duplicate =>
        simp only [continueRouting] at hends
        split at hends
        · exact fruitless_rejectDuplicate hends
        · exact fruitless_finish hstage _ hends
      | alreadyStaged => exact fruitless_finish hstage _ hends
      | disabled => exact fruitless_finish hstage _ hends

/-- A call that has to wait does so, and does nothing else. -/
theorem submitCall_none {call : Call} (h : b.submitCall call = (b', none)) :
    b' = { b with waiting := b.waiting ++ [call] } := by
  unfold submitCall at h
  rcases hattempt : b.attempt call with ⟨c, _ | answer⟩
  · rw [hattempt] at h
    cases h
    unfold attempt attemptStage at hattempt
    split at hattempt
    · rename_i c' heq
      split at heq
      · cases heq
      · cases heq
        cases hattempt
        rfl
    · split at hattempt <;> cases hattempt
  · rw [hattempt] at h
    cases h

/-! ## Requests -/

theorem addTarget_error {d : Delivery} {queue : String} {decision : RouteDecision}
    (h : d.addTarget queue decision = .error e) : e = .duplicateTarget queue := by
  unfold Delivery.addTarget at h
  split at h <;> cases h
  rfl

theorem toQueues_error {queues : List String} (h : Delivery.toQueues m queues = .error e) :
    ∃ q, e = .duplicateTarget q := by
  unfold Delivery.toQueues at h
  generalize ({ message := m } : Delivery) = d at h
  induction queues generalizing d with
  | nil => cases h
  | cons q rest ih =>
    rw [List.foldlM_cons] at h
    rcases hadd : d.addTarget q .route with e' | d'
    · rw [hadd] at h
      cases h
      exact ⟨q, addTarget_error hadd⟩
    · rw [hadd] at h
      exact ih d' h

theorem fruitless_duplicateTarget (b : Broker) (n : Nat) (m : Message) (q : String) :
    Fruitless b n m (.duplicateTarget q) b :=
  fruitless_noticed b n m (e := .duplicateTarget q) fun _ ha hf => ⟨ha, hf⟩

theorem fruitless_bindingNotFound (b : Broker) (n : Nat) (m : Message) (name : String) :
    Fruitless b n m (.bindingNotFound name) b :=
  fruitless_noticed b n m (e := .bindingNotFound name) fun _ ha hf => ⟨ha, hf⟩

theorem fruitless_routeUnstaged {acceptedDuplicate : Bool}
    (h : b.routeUnstaged n m transaction acceptedDuplicate = (b', .refused e)) :
    Fruitless b n m e b' := by
  have hsilent := silent_collect b n m
  unfold routeUnstaged at h
  rcases hcollect : b.collect n m with ⟨c, result⟩
  rw [hcollect] at h hsilent
  cases result with
  | error err =>
    cases h
    obtain ⟨q, rfl⟩ := toQueues_error (congrArg Prod.snd hcollect)
    exact .after hsilent (fruitless_duplicateTarget ..)
  | ok delivery =>
    obtain ⟨rfl, hstage⟩ := collect_ok hcollect
    exact .after hsilent (fruitless_finish hstage n h)

theorem fruitless_routeDuplicate {id : Bytes} {rejectDuplicates : Bool}
    (h : b.routeDuplicate n m id transaction rejectDuplicates = (b', .refused e)) :
    Fruitless b n m e b' := by
  unfold routeDuplicate at h
  split at h
  · exact fruitless_rejectDuplicate h
  · exact fruitless_routeUnstaged h

/-- The call that a send has come to when it waits. -/
structure Awaiting (n : Nat) (m : Message) (call : Call) : Prop where
  applies : call.Applies
  routes : ∃ r, call.purpose = .route r ∧ r.office = n ∧ r.delivery.message = m

/-- A send is refused, and nothing lasts of it, or it waits, and nothing but its call has come of
it. -/
theorem route_ends {ticket : Nat} {rejectDuplicates : Bool} {answer : Option Answer}
    (h : b.route n ticket m transaction rejectDuplicates = (b', answer)) :
    (∀ e, answer = some (.refused e) → Fruitless b n m e b') ∧
      (answer = none → ∃ b₁ call, Silent b b₁ ∧ Awaiting n m call ∧
        b' = { b₁ with waiting := b₁.waiting ++ [call] }) := by
  unfold route at h
  split at h
  · cases h
    refine ⟨fun e he => fruitless_routeUnstaged (Prod.ext rfl (Option.some.inj he)),
      fun hnone => ?_⟩
    cases hnone
  · rename_i id _
    have hopened := silent_openOfficeCache b n m.address
    generalize b.openOfficeCache n m.address = b₁ at h hopened
    dsimp only at h
    split at h
    · cases h
      refine ⟨fun e he => .after hopened ?_, fun hnone => ?_⟩
      · exact fruitless_routeDuplicate (Prod.ext rfl (Option.some.inj he))
      · cases hnone
    · have hcollected := hopened.trans (silent_collect b₁ n m)
      unfold routeStaged at h
      rcases hcollect : b₁.collect n m with ⟨c, result⟩
      rw [hcollect] at h hcollected
      cases result with
      | error err =>
        cases h
        refine ⟨fun e he => ?_, fun hnone => nomatch hnone⟩
        cases he
        obtain ⟨q, rfl⟩ := toQueues_error (congrArg Prod.snd hcollect)
        exact .after hcollected (fruitless_duplicateTarget ..)
      | ok delivery =>
        obtain ⟨rfl, hstage⟩ := collect_ok hcollect
        have hdrawn := hcollected.trans (silent_drawOwner c n transaction)
        dsimp only at h
        refine ⟨fun e he => ?_, fun hnone => ?_⟩
        · rw [he] at h
          refine .after hdrawn (fruitless_submitCall rfl (fun r hr => ?_) h)
          cases hr
          exact ⟨hstage, rfl⟩
        · rw [hnone] at h
          refine ⟨_, _, hdrawn, ⟨fun r hr => ?_, _, rfl, rfl, rfl⟩, submitCall_none h⟩
          cases hr
          exact ⟨hstage, rfl⟩

theorem fruitless_reroute {binding : String}
    (h : b.reroute n m binding transaction = (b', .refused e)) : Fruitless b n m e b' := by
  unfold reroute at h
  split at h
  · cases h
    exact fruitless_bindingNotFound ..
  · split at h
    · rename_i hdelivery
      cases h
      obtain ⟨q, rfl⟩ := toQueues_error hdelivery
      exact fruitless_duplicateTarget ..
    · rename_i delivery hdelivery
      obtain ⟨rfl, hstage⟩ := toQueues_message hdelivery
      exact fruitless_finish hstage n h

theorem message_addTarget {d d' : Delivery} {queue : String} {decision : RouteDecision}
    (h : d.addTarget queue decision = .ok d') : d'.message = d.message := by
  unfold Delivery.addTarget at h
  split at h <;> cases h
  rfl

/-- The delivery of a redistributed message: one queue is only decided for, the other gets it. -/
def decided (m : Message) (origin target : String) : Except RoutingError Delivery := do
  let d ← Delivery.addTarget { message := m } origin .ignore
  d.addTarget target .route

theorem decided_error {origin target : String} (h : decided m origin target = .error e) :
    ∃ q, e = .duplicateTarget q := by
  unfold decided at h
  cases hfirst : Delivery.addTarget { message := m } origin .ignore with
  | error e₁ =>
    rw [hfirst] at h
    cases h
    exact ⟨_, addTarget_error hfirst⟩
  | ok d₁ =>
    rw [hfirst] at h
    exact ⟨_, addTarget_error h⟩

theorem decided_ok {origin target : String} (h : decided m origin target = .ok d) :
    d.message = m ∧ d.stage = none := by
  unfold decided at h
  cases hfirst : Delivery.addTarget { message := m } origin .ignore with
  | error e₁ =>
    rw [hfirst] at h
    cases h
  | ok d₁ =>
    rw [hfirst] at h
    exact ⟨(message_addTarget h).trans (message_addTarget hfirst),
      (stage_addTarget h).trans (stage_addTarget hfirst)⟩

theorem fruitless_redistribute {binding : String}
    (h : b.redistribute n m binding transaction = (b', .error e)) : Fruitless b n m e b' := by
  unfold redistribute at h
  split at h
  · cases h
    exact fruitless_bindingNotFound ..
  · rename_i origin _
    dsimp only at h
    split at h
    · cases h
    · split at h
      · rename_i hdelivery
        cases h
        obtain ⟨q, rfl⟩ := decided_error hdelivery
        exact fruitless_duplicateTarget ..
      · rename_i hdelivery
        obtain ⟨rfl, hstage⟩ := decided_ok hdelivery
        split at h
        · rename_i hdispatch
          cases h
          exact fruitless_dispatch hstage n hdispatch
        · cases h

end Broker

/-- The post office that a routing call is made at, and its message. -/
def Command.routed? : Command → Option (Nat × Message)
  | .route office _ message _ _ => some (office, message)
  | .reroute office message _ _ => some (office, message)
  | .redistribute office message _ _ => some (office, message)
  | _ => none

/-- Why a routing call is refused. -/
def Reply.refusal? : Reply → Option RoutingError
  | .answered (.refused e) => some e
  | .routingFailed e => some e
  | _ => none

namespace Broker

variable {b b' : Broker} {n : Nat} {m : Message} {e : RoutingError}

theorem fruitless_perform {c : Command} (hc : c.routed? = some (n, m))
    (h : (b.perform c).2.refusal? = some e) : Fruitless b n m e (b.perform c).1 := by
  cases c with
  | route office ticket message transaction rejectDuplicates =>
    cases hc
    rcases hroute : b.route n ticket m transaction rejectDuplicates with ⟨b', answer⟩
    simp only [perform, hroute, Prod.map] at h ⊢
    rcases answer with _ | _ | _ | e'
    · cases h
    · cases h
    · cases h
    · cases h
      exact (route_ends hroute).1 e rfl
  | reroute office message binding transaction =>
    cases hc
    rcases hreroute : b.reroute n m binding transaction with ⟨b', answer⟩
    simp only [perform, hreroute, Prod.map] at h ⊢
    rcases answer with _ | _ | e'
    · cases h
    · cases h
    · cases h
      exact fruitless_reroute hreroute
  | redistribute office message binding transaction =>
    cases hc
    rcases hredistribute : b.redistribute n m binding transaction with ⟨b', e' | _⟩
    · simp only [perform, hredistribute] at h ⊢
      cases h
      exact fruitless_redistribute hredistribute
    · simp only [perform, hredistribute] at h
      cases h
  | _ => cases hc

/-- A routing call that has to wait has come to nothing but its call. -/
theorem awaiting_perform {c : Command} (hc : c.routed? = some (n, m))
    (h : (b.perform c).2 = .waiting) :
    ∃ b₁ call, Silent b b₁ ∧ Awaiting n m call ∧
      (b.perform c).1 = { b₁ with waiting := b₁.waiting ++ [call] } := by
  cases c with
  | route office ticket message transaction rejectDuplicates =>
    cases hc
    rcases hroute : b.route n ticket m transaction rejectDuplicates with ⟨b', answer⟩
    simp only [perform, hroute, Prod.map] at h ⊢
    cases answer with
    | some answer => cases h
    | none => exact (route_ends hroute).2 rfl
  | reroute office message binding transaction => cases h
  | redistribute office message binding transaction =>
    simp only [perform] at h
    split at h <;> cases h
  | _ => cases hc

/-- A routing call that tries again waits on, or it ends, and nothing lasts of it if it is
refused. -/
theorem resume_ends {call : Call} {rest : List Call} {r : Routing} (hready : b.ready = call :: rest)
    (hr : call.purpose = .route r) (hcall : call.Applies) :
    b.resume = { b with ready := rest, waiting := b.waiting ++ [call] } ∨
      ∃ b' answer, b.resume = b'.log (.answered call.ticket answer) ∧
        ∀ e, answer = .refused e →
          Fruitless { b with ready := rest } r.office r.delivery.message e b' := by
  rcases hsubmit : ({ b with ready := rest } : Broker).submitCall call with ⟨b', _ | answer⟩
  · refine Or.inl ?_
    simp only [resume, hready, hsubmit]
    exact submitCall_none hsubmit
  · refine Or.inr ⟨b', answer, ?_, fun e he => ?_⟩
    · simp only [resume, hready, hsubmit]
    · subst he
      exact fruitless_submitCall hr hcall hsubmit

/-- A routing call that is refused has no lasting effect, at once or after it has waited: queues have
been asked to give its message back, the last one first, and what the post offices, their caches,
the transactions and the journal hold is as it was, but for numbers, cached resolutions and new
caches that are empty. Nor has anything come of a call as long as it waits. -/
theorem refused_fruitless (mailboxes : Table String Mailbox) (storage : Storage)
    (cs : List Command) :
    let b := ({ mailboxes, storage } : Broker).run cs
    (∀ c n m, Command.routed? c = some (n, m) →
      (∀ e, (b.perform c).2.refusal? = some e → Fruitless b n m e (b.perform c).1) ∧
        ((b.perform c).2 = .waiting → ∃ b₁ call, Silent b b₁ ∧ Awaiting n m call ∧
          (b.perform c).1 = { b₁ with waiting := b₁.waiting ++ [call] })) ∧
      ∀ call rest r, b.ready = call :: rest → call.purpose = .route r →
        b.resume = { b with ready := rest, waiting := b.waiting ++ [call] } ∨
          ∃ b' answer, b.resume = b'.log (.answered call.ticket answer) ∧
            ∀ e, answer = .refused e →
              Fruitless { b with ready := rest } r.office r.delivery.message e b' := by
  intro b
  refine ⟨fun c n m hc => ⟨fun e he => fruitless_perform hc he, awaiting_perform hc⟩,
    fun call rest r hready hr => ?_⟩
  have happlying := applying_run mailboxes storage cs
  have hmem : call ∈ b.waiting ++ b.ready :=
    List.mem_append_right _ (hready ▸ List.mem_cons_self)
  exact resume_ends hready hr (happlying.calls call hmem)

/-- A send that waits for a transaction with its identifier, and may try again when one of its two
queues is full. -/
def belatedSend : List Command :=
  [.start { idCachePersistence := .mandatory }, .bind (some 0) (.ofQueue ⟨"orders"⟩ "first"),
    .bind (some 0) (.ofQueue ⟨"orders"⟩ "second"), .begin none,
    .route 0 0 (messageTo "orders" 1) (some 1) true,
    .route 0 1 { messageTo "orders" 1 with id := 2 } none true, .rollback 1,
    .setMailbox "second" .full]

/-- The call that it has come to. -/
def belatedCall : Call where
  ticket := 1
  cache := .office 0 ⟨"orders"⟩
  duplicateId := [1]
  owner := .direct 1
  purpose := .route {
    office := 0
    transaction := none
    rejectDuplicates := true
    delivery := {
      message := { messageTo "orders" 1 with id := 2 }
      targets := [⟨"first", .route⟩, ⟨"second", .route⟩] } }

theorem refused_fruitless_belated :
    let b := ({} : Broker).run belatedSend
    let unwritten := ({} : Broker).run (belatedSend ++
      [.setMailbox "second" .accept, .failing [.append]])
    let send := Command.route 0 2 (messageTo "orders" 3) none true
    (∃ b', b.resume = b'.log (.answered 1 (.refused (.queueRefused "second" .full))) ∧
      Fruitless { b with ready := [] } 0 { messageTo "orders" 1 with id := 2 }
        (.queueRefused "second" .full) b') ∧
      Fruitless unwritten 0 (messageTo "orders" 3) (.persistence JournalMethod.append.failure)
        (unwritten.perform send).1 ∧
      (unwritten.perform send).1.trace.drop unwritten.trace.length =
        [.granted ⟨.office 0 ⟨"orders"⟩, ⟨⟨"orders"⟩, [3], 2, .direct 2⟩⟩,
          .enqueued "first" 3 none, .enqueued "second" 3 none,
          .journal .inline (.write (.add ⟨⟨"orders"⟩, 3, [3]⟩)) false,
          .withdrawn "second" 3 none, .withdrawn "first" 3 none,
          .dropped ⟨.office 0 ⟨"orders"⟩, ⟨⟨"orders"⟩, [3], 2, .direct 2⟩⟩] := by
  intro b unwritten send
  have hready : b.ready = [belatedCall] := by decide +kernel
  have hlast : b.resume.waiting = [] ∧
      b.resume.trace.getLast? =
        some (.answered 1 (.refused (.queueRefused "second" .full))) := by decide +kernel
  refine ⟨?_, ?_, by decide +kernel⟩
  · rcases (refused_fruitless {} {} belatedSend).2 belatedCall [] _ hready rfl with
      hwaits | ⟨b', answer, hresume, hfruitless⟩
    · have hwaiting : b.resume.waiting = b.waiting ++ [belatedCall] := congrArg (·.waiting) hwaits
      rw [hlast.1] at hwaiting
      cases hempty : b.waiting <;> rw [hempty] at hwaiting <;> cases hwaiting
    · have htrace : b.resume.trace.getLast? = some (.answered belatedCall.ticket answer) := by
        rw [show b.resume = _ from hresume]
        simp [log]
      rw [hlast.2] at htrace
      cases htrace
      exact ⟨b', hresume, hfruitless _ rfl⟩
  · have hrefusal : (unwritten.perform send).2.refusal? =
        some (.persistence JournalMethod.append.failure) := by decide +kernel
    obtain ⟨hends, -⟩ := refused_fruitless {} {} (belatedSend ++
      [.setMailbox "second" .accept, .failing [.append]])
    exact (hends send 0 (messageTo "orders" 3) rfl).1 (.persistence JournalMethod.append.failure)
      hrefusal

/-- A duplicate that is rejected is told to the subscribers, so more of the post office differs than
after other refusals. -/
theorem rejection_noticed :
    let b := ({} : Broker).run [.openPlain {}, .route 0 0 (messageTo "orders" 1) none true]
    let again := Command.route 0 1 (messageTo "orders" 1) none true
    (b.perform again).2.refusal? = some (.duplicateMessage ⟨"orders"⟩ [1]) ∧
      (b.office 0).channel.readFrom 0 = ⟨0, []⟩ ∧
      ((b.perform again).1.office 0).channel.readFrom 0 =
        ⟨0, [.duplicateRejected ⟨"orders"⟩ [1] 1]⟩ ∧
      ¬ Unmarked b (b.perform again).1 := by
  intro b again
  refine ⟨by decide +kernel, by decide +kernel, by decide +kernel, fun h => ?_⟩
  have hoffices := h.offices
  revert hoffices
  decide +kernel

end Broker

end MessageRouting
