import MessageRouting.Proofs.Broker.RelatedBrokers
import MessageRouting.Proofs.Broker.TrafficMoves
import MessageRouting.Proofs.Journal.LedgerWrites
import MessageRouting.Proofs.Transaction.Deliveries

/-!
# Post offices that keep nothing

A broker has a shadow in which no post office keeps anything in the journal. As
long as the journal takes every write, a broker and its shadow answer every
request alike and ask queues alike, and their caches, bindings and transactions
stay the same: the journal is written to, and never asked, once a post office is
open.

Results:

* `stagesAbreast_shadow`: stages and placed messages fare the same in the shadow.
* `stayAbreast_shadow`: so does all that requests are made of.
* `echo_perform`: so does every request.
* `Shadow.run`: so does a whole run, and what writers write does not show.
-/

namespace MessageRouting

/-- Whether the event is a journal call. -/
def Event.isJournal : Event → Bool
  | .journal _ _ _ => true
  | _ => false

/-- The post office, were it to keep nothing in the journal. -/
def Office.unkept (o : Office) : Office :=
  { o with
    settings := { o.settings with persistIdCache := true, idCachePersistence := .async }
    persistence := none
    writer := {} }

namespace Broker

/-- The broker, were its post offices to keep nothing in the journal. -/
def unkept (b : Broker) : Broker :=
  { b with
    storage := {}
    offices := b.offices.map Office.unkept
    trace := b.trace.filter fun e => !e.isJournal }

/-- The second broker is the first without its journal, which takes every write. -/
structure Shadow (b b' : Broker) : Prop where
  same : b' = b.unkept
  takes : ∀ e : Entry, b.storage.Takes e.method

/-- The same answer from a broker and its shadow. -/
structure Echo {α : Type} (r r' : Broker × α) : Prop where
  shadow : Shadow r.1 r'.1
  answer : r'.2 = r.2

variable {b b' c c' : Broker} {α : Type}

theorem Shadow.echo (h : Shadow b b') (a : α) : Echo (b, a) (b', a) := ⟨h, rfl⟩

theorem Echo.split {r r' : Broker × α} (h : Echo r r') :
    ∃ c c' a, r = (c, a) ∧ r' = (c', a) ∧ Shadow c c' :=
  ⟨r.1, r'.1, r.2, rfl, Prod.ext rfl h.answer, h.shadow⟩

/-! ## What the shadow shows -/

theorem office_unkept (b : Broker) (n : Nat) : b.unkept.office n = (b.office n).unkept := by
  simp only [office, unkept, List.getD_eq_getElem?_getD, List.getElem?_map]
  cases b.offices[n]? <;> rfl

theorem Shadow.office (h : Shadow b b') (n : Nat) : b'.office n = (b.office n).unkept :=
  h.same ▸ office_unkept b n

theorem Shadow.mailbox (h : Shadow b b') (q : String) : b'.mailbox q = b.mailbox q := h.same ▸ rfl

theorem Shadow.cache (h : Shadow b b') (ref : CacheRef) : b'.cache ref = b.cache ref :=
  h.same ▸ rfl

theorem Shadow.transactions (h : Shadow b b') : b'.transactions = b.transactions := h.same ▸ rfl

theorem Shadow.transaction (h : Shadow b b') (n : Nat) : b'.transaction n = b.transaction n :=
  transaction_of_transactions h.transactions n

theorem Shadow.operationIndexes (h : Shadow b b') (n : Nat) :
    b'.operationIndexes n = b.operationIndexes n := by
  rw [Broker.operationIndexes, Broker.operationIndexes, h.transaction]

theorem Shadow.deskAt (h : Shadow b b') (n : Option Nat) : b'.deskAt n = b.deskAt n := by
  cases n with
  | none => exact h.same ▸ rfl
  | some n =>
    show (b'.office n).desk = (b.office n).desk
    rw [h.office]
    rfl

theorem Shadow.persistenceOf (h : Shadow b b') (ref : CacheRef) : b'.persistenceOf ref = none := by
  cases ref with
  | office n a =>
    show (b'.office n).persistence = none
    rw [h.office]
    rfl
  | standalone n => rfl

theorem Shadow.queue (h : Shadow b b') (n : Nat) : (b'.office n).writer.queue = [] := by
  rw [h.office]
  rfl

/-! ## Single changes -/

theorem Shadow.log (h : Shadow b b') {e : Event} (he : e.isJournal = false) :
    Shadow (b.log e) (b'.log e) := by
  obtain ⟨rfl, htakes⟩ := h
  exact ⟨by simp [Broker.log, unkept, he], htakes⟩

theorem Shadow.setMailbox (h : Shadow b b') (q : String) (m : Mailbox) :
    Shadow (b.setMailbox q m) (b'.setMailbox q m) := by
  obtain ⟨rfl, htakes⟩ := h
  exact ⟨rfl, htakes⟩

theorem Shadow.setCache (h : Shadow b b') (ref : CacheRef) (c : Cache) :
    Shadow (b.setCache ref c) (b'.setCache ref c) := by
  obtain ⟨rfl, htakes⟩ := h
  exact ⟨rfl, htakes⟩

theorem Shadow.wake (h : Shadow b b') (ref : CacheRef) : Shadow (b.wake ref) (b'.wake ref) := by
  obtain ⟨rfl, htakes⟩ := h
  exact ⟨rfl, htakes⟩

theorem Shadow.wait (h : Shadow b b') (call : Call) :
    Shadow { b with waiting := b.waiting ++ [call] }
      { b' with waiting := b'.waiting ++ [call] } := by
  obtain ⟨rfl, htakes⟩ := h
  exact ⟨rfl, htakes⟩

theorem Shadow.retry (h : Shadow b b') (rest : List Call) :
    Shadow { b with ready := rest } { b' with ready := rest } := by
  obtain ⟨rfl, htakes⟩ := h
  exact ⟨rfl, htakes⟩

theorem Shadow.addTransaction (h : Shadow b b') (t : Transaction) :
    Shadow (b.addTransaction t) (b'.addTransaction t) := by
  obtain ⟨rfl, htakes⟩ := h
  exact ⟨rfl, htakes⟩

theorem Shadow.modifyTransaction (h : Shadow b b') (n : Nat) (f : Transaction → Transaction) :
    Shadow (b.modifyTransaction n f) (b'.modifyTransaction n f) := by
  obtain ⟨rfl, htakes⟩ := h
  cases n <;> exact ⟨rfl, htakes⟩

theorem Shadow.modifyOperation (h : Shadow b b') (n i : Nat)
    (f : PendingDelivery → PendingDelivery) :
    Shadow (b.modifyOperation n i f) (b'.modifyOperation n i f) := h.modifyTransaction n _

theorem Shadow.setState (h : Shadow b b') (n : Nat) (s : TransactionState) :
    Shadow (b.setState n s) (b'.setState n s) := h.modifyTransaction n _

/-- A change of a post office outside its journal. -/
theorem Shadow.modifyOffice (h : Shadow b b') (n : Nat) {f g : Office → Office}
    (hf : ∀ o, g o.unkept = (f o).unkept) :
    Shadow (b.modifyOffice n f) (b'.modifyOffice n g) := by
  obtain ⟨rfl, htakes⟩ := h
  refine ⟨?_, htakes⟩
  have hoffices : (b.offices.map Office.unkept).modify n g =
      (b.offices.modify n f).map Office.unkept := by
    refine List.ext_getElem? fun i => ?_
    simp only [List.getElem?_map, List.getElem?_modify]
    cases b.offices[i]? with
    | none => rfl
    | some o =>
      split
      · exact congrArg some (hf o)
      · rfl
  simp only [Broker.modifyOffice, unkept, hoffices]

theorem Shadow.setDesk (h : Shadow b b') (n : Option Nat) (d : Desk) :
    Shadow (b.setDesk n d) (b'.setDesk n d) := by
  cases n with
  | some n => exact h.modifyOffice n fun _ => rfl
  | none =>
    obtain ⟨rfl, htakes⟩ := h
    exact ⟨rfl, htakes⟩

theorem Shadow.notify (h : Shadow b b') (n : Nat) (what : Notification) :
    Shadow (b.notify n what) (b'.notify n what) := h.modifyOffice n fun _ => rfl

theorem Shadow.openOfficeCache (h : Shadow b b') (n : Nat) (a : Address) :
    Shadow (b.openOfficeCache n a) (b'.openOfficeCache n a) := by
  have hcapacity : (b'.office n).settings.idCacheCapacity =
      (b.office n).settings.idCacheCapacity := by
    rw [h.office]
    rfl
  have hcontains : b'.caches.contains (.office n a) = b.caches.contains (.office n a) :=
    h.same ▸ rfl
  unfold Broker.openOfficeCache openCache
  rw [hcapacity, hcontains]
  split
  · exact h
  · exact h.setCache ..

/-! ## The journal -/

/-- The shadow takes no notice of what becomes of a writer. -/
theorem Shadow.modifyWriter (h : Shadow b b') (n : Nat) (f : JournalWriter → JournalWriter) :
    Shadow (b.modifyOffice n fun o => { o with writer := f o.writer }) b' := by
  obtain ⟨hsame, htakes⟩ := h.modifyOffice n (f := fun o => { o with writer := f o.writer })
    (g := id) fun _ => rfl
  refine ⟨?_, htakes⟩
  rw [← hsame, Broker.modifyOffice, List.modify_id]

theorem Shadow.handed (h : Shadow b b') (ref : CacheRef) (e : Entry) :
    Shadow (b.submitFor ref e) b' := by
  cases ref with
  | standalone n => exact h
  | office n a => exact h.modifyWriter n (·.submit e)

/-- The shadow's writers take nothing. -/
theorem Shadow.submitFor (h : Shadow b b') (ref : CacheRef) (e : Entry) :
    Shadow (b.submitFor ref e) (b'.submitFor ref e) := by
  cases ref with
  | standalone n => exact h
  | office n a => exact h.modifyOffice n fun _ => rfl

/-- The shadow takes no notice of what is written, and nothing goes wrong. -/
theorem Shadow.written (h : Shadow b b') (caller : JournalCaller) (e : Entry) :
    (b.write caller e).2 = .ok () ∧ Shadow (b.write caller e).1 b' := by
  obtain ⟨rfl, htakes⟩ := h
  refine ⟨(Storage.write_of_takes (htakes e)).1, ?_, fun f => Storage.takes_write (htakes f) e⟩
  simp [Broker.write, Broker.log, unkept, Event.isJournal]

/-! ## Stages and queues -/

theorem stagesAbreast_shadow : StagesAbreast Shadow where
  cache h := h.cache
  xid h n := by rw [h.transaction]
  setCache h := h.setCache
  grant h _ := h.log rfl
  promote h _ _ := h.log rfl
  drop h _ := h.log rfl
  wake h := h.wake
  submitFor h := h.submitFor
  inlined h ref e := by
    unfold inlined
    rw [h.persistenceOf]
    split
    · obtain ⟨hok, hwritten⟩ := h.written .inline e
      exact ⟨hwritten, hok.symm⟩
    · exact abreast h _
  handed h ref e := by
    unfold Broker.handed
    rw [h.persistenceOf]
    split
    · exact h.handed ref e
    · exact h
  enqueue h q m := by
    unfold enqueue
    rw [h.mailbox]
    exact abreast ((h.setMailbox ..).log rfl) _
  withdraw h m q := by
    unfold withdraw
    rw [h.mailbox]
    exact (h.setMailbox ..).log rfl

theorem echo_iff {r r' : Broker × α} : Echo r r' ↔ Abreast Shadow r r' :=
  ⟨fun h => ⟨h.shadow, h.answer⟩, fun h => ⟨h.related, h.answer⟩⟩

theorem echo_storePrepared (h : Shadow b b') (x : Xid) (g : HeldStage) :
    Echo (b.storePrepared x g) (b'.storePrepared x g) := by
  unfold storePrepared
  rw [h.persistenceOf]
  split
  · obtain ⟨hok, hwritten⟩ := h.written .inline (.prepare x g.staged.record)
    exact ⟨hwritten, hok.symm⟩
  · exact h.echo _

/-! ## Operations of a transaction -/

theorem echo_addOperation (h : Shadow b b') (n : Nat) (op : Operation) :
    Echo (b.addOperation n op) (b'.addOperation n op) := by
  unfold addOperation
  rw [h.transaction]
  split
  · exact (h.modifyTransaction ..).echo _
  · exact h.echo _

theorem echo_act (h : Shadow b b') (n : Nat) (a : HookAction) : Echo (b.act n a) (b'.act n a) := by
  cases a with
  | mark reason =>
    have hmarked := h.modifyTransaction n (·.mark reason)
    exact ⟨hmarked, congrArg (fun t : Transaction => HookResult.rollbackOnly t.rollbackOnly.isSome)
      (hmarked.transaction n)⟩
  | add name =>
    obtain ⟨c, c', result, hb, hb', hc⟩ := (echo_addOperation h n (.hook { name })).split
    simp only [act, hb, hb']
    cases result with
    | error e => exact hc.echo _
    | ok _ => exact ⟨hc, congrArg (fun t : Transaction => HookResult.operations t.operations.length)
        (hc.transaction n)⟩
  | inspect =>
    exact ⟨h, congrArg (fun t : Transaction => HookResult.state t.state) (h.transaction n)⟩

theorem Shadow.actAll (h : Shadow b b') (n : Nat) (name : String) (phase : Phase)
    (actions : List HookAction) :
    Shadow (b.actAll n name phase actions) (b'.actAll n name phase actions) := by
  induction actions generalizing b b' with
  | nil => exact h
  | cons a rest ih =>
    obtain ⟨c, c', result, hb, hb', hc⟩ := (echo_act h n a).split
    simp only [Broker.actAll, hb, hb']
    exact ih (hc.log rfl)

theorem echo_callHook (h : Shadow b b') (n : Nat) (hook : Hook) (phase : Phase) :
    Echo (b.callHook n hook phase) (b'.callHook n hook phase) := by
  unfold callHook
  split
  · exact h.echo _
  · exact ((h.log rfl).actAll ..).echo _

theorem echo_prepareDelivery (h : Shadow b b') (n i : Nat) (d : PendingDelivery) :
    Echo (b.prepareDelivery n i d) (b'.prepareDelivery n i d) := by
  unfold prepareDelivery
  rw [h.transaction]
  split
  · rename_i x g _ _
    obtain ⟨c, c', result, hb, hb', hc⟩ := (echo_storePrepared h x g).split
    rw [hb, hb']
    cases result with
    | error e => exact hc.echo _
    | ok _ => exact (hc.modifyOperation ..).echo _
  · exact h.echo _

theorem echo_placeDelivery (h : Shadow b b') (n i : Nat) (d : PendingDelivery) :
    Echo (b.placeDelivery n i d) (b'.placeDelivery n i d) := by
  obtain ⟨c, c', ⟨accepted, result⟩, hb, hb', hc⟩ :=
    (stagesAbreast_shadow.enqueueFrom h d.delivery.message.id [] d.delivery.routedQueues).split
  have hnoted := hc.modifyOperation n i fun d => { d with accepted }
  simp only [placeDelivery, enqueueTargets, hb, hb']
  cases result with
  | error e => exact hnoted.echo _
  | ok _ => exact echo_iff.2 (stagesAbreast_shadow.persist hnoted d.delivery)

theorem Shadow.undoDelivery (h : Shadow b b') (n i : Nat) (d : PendingDelivery) :
    Shadow (b.undoDelivery n i d) (b'.undoDelivery n i d) :=
  have hR := stagesAbreast_shadow
  hR.forgetPrepared (hR.rollbackDelivery (hR.withdrawAll (h.modifyOperation ..) ..) _) n d

theorem echo_callOperation (h : Shadow b b') (n : Nat) (phase : Phase) (i : Nat) :
    Echo (b.callOperation n phase i) (b'.callOperation n phase i) := by
  have hcalled := h.log (e := .called n i phase) rfl
  unfold callOperation
  rw [h.transaction]
  split
  · exact h.echo _
  · rename_i op _
    cases op with
    | hook hook => exact echo_callHook hcalled n hook phase
    | delivery d =>
      cases phase with
      | beforePrepare => exact echo_prepareDelivery hcalled n i d
      | beforeCommit => exact echo_placeDelivery hcalled n i d
      | afterCommit =>
        have hcommitted := stagesAbreast_shadow.commitDelivery hcalled d.delivery
        exact (stagesAbreast_shadow.forgetPrepared hcommitted n d).echo _
      | afterRollback => exact (hcalled.undoDelivery n i d).echo _

theorem echo_callUntilFailure (h : Shadow b b') (n : Nat) (phase : Phase) (is : List Nat) :
    Echo (b.callUntilFailure n phase is) (b'.callUntilFailure n phase is) := by
  induction is generalizing b b' with
  | nil => exact h.echo _
  | cons i rest ih =>
    obtain ⟨c, c', result, hb, hb', hc⟩ := (echo_callOperation h n phase i).split
    simp only [callUntilFailure, hb, hb']
    cases result with
    | error e => exact hc.echo _
    | ok _ => exact ih hc

theorem Shadow.callAll (h : Shadow b b') (n : Nat) (phase : Phase) (is : List Nat) :
    Shadow (b.callAll n phase is) (b'.callAll n phase is) := by
  induction is generalizing b b' with
  | nil => exact h
  | cons i rest ih => exact ih (echo_callOperation h n phase i).shadow

/-! ## Transactions -/

theorem Shadow.undo (h : Shadow b b') (n : Nat) : Shadow (b.undo n) (b'.undo n) := by
  have hstate := h.setState n .rolledBack
  show Shadow ((b.setState n .rolledBack).callAll n .afterRollback _)
    ((b'.setState n .rolledBack).callAll n .afterRollback _)
  rw [hstate.operationIndexes]
  exact hstate.callAll ..

/-! ## Requests that leave writers alone -/

theorem stayAbreast_shadow : StayAbreast Shadow :=
  { stagesAbreast_shadow with
    deskAt := fun h => h.deskAt
    detectedId := fun h n m => by
      rw [detectedId, detectedId, h.office]
      rfl
    nextOwner := fun h n => by
      rw [h.office]
      rfl
    waiting := fun h => h.same ▸ rfl
    ready := fun h => h.same ▸ rfl
    openMailbox := fun h queue => by
      unfold openMailbox
      rw [h.mailbox]
      exact h.setMailbox ..
    setDesk := fun h => h.setDesk
    notify := fun h => h.notify
    draw := fun h n => h.modifyOffice n fun _ => rfl
    openOfficeCache := fun h => h.openOfficeCache
    wait := fun h => h.wait
    retry := fun h => h.retry
    reply := fun h _ _ => h.log rfl
    addOperation := fun h n op => echo_iff.1 (echo_addOperation h n op)
    rollbackOnly := fun h n => by rw [h.transaction]
    state := fun h n => by rw [h.transaction]
    setState := fun h => h.setState
    undo := fun h => h.undo
    callUntilFailure := fun {b b'} h n phase => by
      rw [h.operationIndexes]
      exact echo_iff.1 (echo_callUntilFailure h n phase (b.operationIndexes n))
    conclude := fun {b b'} h n => by
      have hcalled := echo_callUntilFailure h n .beforeCommit (b.operationIndexes n)
      rw [h.operationIndexes]
      exact (hcalled.shadow.setState n .committed).callAll .. }

/-! ## Writers -/

/-- The shadow takes no notice of what a writer writes, and its own writers have nothing to
write. -/
theorem Shadow.writeNext (h : Shadow b b') (n : Nat) :
    Shadow (b.writeNext n) b' ∧ b'.writeNext n = b' := by
  constructor
  · unfold Broker.writeNext
    split
    · exact h
    · rename_i e rest _
      have hshortened := h.modifyWriter n fun w => { w with queue := rest }
      exact (hshortened.written .writer e).2
  · unfold Broker.writeNext
    rw [h.queue]

theorem Shadow.writeSome (h : Shadow b b') (n k : Nat) : Shadow (b.writeSome n k) b' := by
  induction k generalizing b with
  | zero => exact h
  | succ k ih => exact ih (h.writeNext n).1

theorem Shadow.flush (h : Shadow b b') (n : Nat) : Shadow (b.flush n) b' := h.writeSome ..

theorem Shadow.flush_self (h : Shadow b b') (n : Nat) : b'.flush n = b' := by
  rw [Broker.flush, h.queue]
  rfl

theorem Shadow.flushAll (h : Shadow b b') : Shadow b.flushAll b' ∧ b'.flushAll = b' := by
  constructor
  · unfold Broker.flushAll
    induction List.range b.offices.length generalizing b with
    | nil => exact h
    | cons n rest ih => exact ih (h.flush n)
  · unfold Broker.flushAll
    induction List.range b'.offices.length with
    | nil => rfl
    | cons n rest ih =>
      rw [List.foldl_cons, h.flush_self]
      exact ih

/-! ## Requests -/

/-- A broker and its shadow answer alike whatever a post office is asked. -/
theorem echo_perform (h : Shadow b b') {c : Command} (hc : c.isTraffic = true) :
    Echo (b.perform c) (b'.perform c) := by
  have hR := stayAbreast_shadow
  rw [echo_iff]
  cases c with
  | setMailbox queue mode =>
    simp only [perform]
    rw [h.mailbox]
    exact abreast (h.setMailbox ..) _
  | bind desk binding => exact (hR.bind h ..).map _
  | unbind desk name => exact (hR.unbind h ..).map _
  | resolve desk address create => exact (hR.resolve h ..).map _
  | resolveAll desk addresses =>
    simp only [perform]
    rw [h.deskAt]
    exact abreast (hR.setRegistry h ..) _
  | openCache office address => exact abreast (h.openOfficeCache ..) _
  | writeNext office =>
    obtain ⟨hwritten, heq⟩ := h.writeNext office
    simp only [perform, heq]
    exact abreast hwritten _
  | flush office =>
    simp only [perform, h.flush_self]
    exact abreast (h.flush office) _
  | flushAll =>
    obtain ⟨hflushed, heq⟩ := h.flushAll
    simp only [perform, heq]
    exact abreast hflushed _
  | route office ticket message transaction rejectDuplicates => exact (hR.route h ..).map _
  | reroute office message binding transaction => exact (hR.reroute h ..).map _
  | redistribute office message binding transaction =>
    obtain ⟨c, c', result, hb, hb', hc⟩ :=
      (hR.redistribute h office message binding transaction).split
    simp only [perform, hb, hb']
    cases result <;> exact abreast hc _
  | resume => exact abreast (hR.resume h) _
  | defer => exact abreast (hR.defer h) _
  | settle => exact abreast (hR.settle h) _
  | begin xid =>
    have hadded := h.addTransaction { xid }
    exact ⟨hadded, congrArg (fun ts : List Transaction => Reply.number ts.length)
      hadded.transactions⟩
  | addHook transaction hook => exact (hR.addOperation h ..).map _
  | mark transaction reason => exact abreast (h.modifyTransaction ..) _
  | prepare transaction => exact (hR.prepare h _).map _
  | commit transaction => exact (hR.commit h _).map _
  | rollback transaction => exact (hR.rollback h _).map _
  | prepareBranch desk transaction => exact (hR.prepareBranch h ..).map _
  | commitBranch desk xid => exact (hR.commitBranch h ..).map _
  | rollbackBranch desk xid => exact (hR.rollbackBranch h ..).map _
  | _ => cases hc

/-! ## Runs -/

/-- Whatever writers write, the shadow is that of the broker. -/
theorem Shadow.writing (h : Shadow b b') {c : Command} (hc : c.isWriting = true) :
    Shadow (b.perform c).1 b' := by
  cases c with
  | writeNext office => exact (h.writeNext office).1
  | flush office => exact h.flush office
  | flushAll => exact h.flushAll.1
  | _ => cases hc

/-- What a broker replies to the requests that have no writer write. -/
def stepReplies (b : Broker) : List Command → List Reply
  | [] => []
  | c :: rest =>
    let (b, reply) := b.perform c
    if c.isWriting then b.stepReplies rest else reply :: b.stepReplies rest

end Broker

/-- The requests that have no writer write. -/
def Command.steps (cs : List Command) : List Command := cs.filter fun c => !c.isWriting

namespace Broker

variable {b b' : Broker}

/-- The shadow does what the broker does in a run, without its writes. -/
theorem Shadow.run (h : Shadow b b') {cs : List Command} (hcs : ∀ c ∈ cs, c.isTraffic = true) :
    Shadow (b.run cs) (b'.run (Command.steps cs)) ∧
      b.stepReplies cs = b'.replies (Command.steps cs) := by
  induction cs generalizing b b' with
  | nil => exact ⟨h, rfl⟩
  | cons c rest ih =>
    have hrest : ∀ d ∈ rest, d.isTraffic = true := fun d hd => hcs d (by simp [hd])
    unfold Command.steps stepReplies
    cases hwriting : c.isWriting with
    | true =>
      rw [List.filter_cons_of_neg (by simp [hwriting])]
      exact ih (h.writing hwriting) hrest
    | false =>
      have hecho := echo_perform h (hcs c (by simp))
      obtain ⟨hshadow, hreplies⟩ := ih hecho.shadow hrest
      rw [List.filter_cons_of_pos (by simp [hwriting])]
      refine ⟨hshadow, ?_⟩
      show (b.perform c).2 :: (b.perform c).1.stepReplies rest =
        (b'.perform c).2 :: (b'.perform c).1.replies (Command.steps rest)
      rw [hecho.answer, hreplies]

end Broker

end MessageRouting
