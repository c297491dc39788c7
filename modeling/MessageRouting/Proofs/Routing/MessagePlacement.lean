import MessageRouting.Proofs.Broker.BookSteps
import MessageRouting.Proofs.Transaction.Deliveries

/-!
# Placing messages and taking them back

What a completion asks of queues, read off the trace. Before a commit each
delivery offers its message to its queues in order and notes those that take it,
and the first one that refuses ends the phase; a rollback asks the noted queues,
and no others, to give the message back.

Results:

* `placing_callUntilFailure`: what is offered before a commit, and what deliveries
  note of it.
* `mail_callAll_afterRollback`: a rollback takes back what has been noted.
* `mail_commit`: a commit offers everything and takes nothing back, or takes back
  exactly what queues have taken.
-/

namespace MessageRouting

/-! ## What the trace tells of queues -/

/-- A message offered to a queue, and the refusal, if it was refused. -/
structure Offer where
  queue : String
  message : Nat
  refusal : Option QueueRefusal
  deriving DecidableEq, Repr

namespace Event

def offer? : Event → Option Offer
  | .enqueued queue message refusal => some ⟨queue, message, refusal⟩
  | _ => none

/-- The queue that was asked to give a message back, and the message. -/
def withdrawal? : Event → Option (String × Nat)
  | .withdrawn queue message _ => some (queue, message)
  | _ => none

/-- The record that a routing call or a commit could not write. -/
def lost? : Event → Option Record
  | .journal .inline (.write (.add r)) false => some r
  | _ => none

end Event

/-- The queues that have taken a message, with the message. -/
def taken (offers : List Offer) : List (String × Nat) :=
  (offers.filter fun o => o.refusal = none).map fun o => (o.queue, o.message)

theorem taken_append (os ps : List Offer) : taken (os ++ ps) = taken os ++ taken ps := by
  simp [taken]

/-- The offers of a delivery, if every queue takes the message. -/
def Delivery.offers (d : Delivery) : List Offer :=
  d.routedQueues.map fun q => ⟨q, d.message.id, none⟩

/-- What a delivery has noted of queues, with its message. -/
def PendingDelivery.placed (d : PendingDelivery) : List (String × Nat) :=
  d.accepted.map fun q => (q, d.delivery.message.id)

namespace Broker

/-- What queues have been offered, in order. -/
def offers (b : Broker) : List Offer := b.trace.filterMap Event.offer?

/-- What queues have been asked to give back, in order. -/
def withdrawals (b : Broker) : List (String × Nat) := b.trace.filterMap Event.withdrawal?

/-- The records that routing calls and commits could not write, in order. -/
def lost (b : Broker) : List Record := b.trace.filterMap Event.lost?

/-- What queues have been asked. -/
def mail (b : Broker) : List Offer × List (String × Nat) := (b.offers, b.withdrawals)

variable {b b' : Broker} {n : Nat}

theorem mail_log {e : Event} (ho : e.offer? = none) (hw : e.withdrawal? = none) :
    (b.log e).mail = b.mail := by
  simp [mail, offers, withdrawals, log, ho, hw]

@[simp] theorem mail_modifyTransaction (b : Broker) (n : Nat) (f : Transaction → Transaction) :
    (b.modifyTransaction n f).mail = b.mail := by
  cases n <;> rfl

@[simp] theorem mail_modifyOperation (b : Broker) (n i : Nat)
    (f : PendingDelivery → PendingDelivery) : (b.modifyOperation n i f).mail = b.mail :=
  mail_modifyTransaction ..

@[simp] theorem mail_submitFor (b : Broker) (ref : CacheRef) (e : Entry) :
    (b.submitFor ref e).mail = b.mail := by
  cases ref <;> rfl

/-- What becomes of stages is no business of queues. -/
theorem stagingKeeps_mail : StagingKeeps fun b b' => b'.mail = b.mail where
  refl _ := rfl
  trans h h' := h'.trans h
  caches _ _ _ := rfl
  grants _ _ := mail_log rfl rfl
  promotes _ _ _ := mail_log rfl rfl
  drops _ _ := mail_log rfl rfl
  wakes _ _ := rfl
  submits := mail_submitFor
  writes _ _ _ := mail_log rfl rfl

@[simp] theorem mail_persist (b : Broker) (d : Delivery) : (b.persist d).1.mail = b.mail :=
  stagingKeeps_mail.persist ..

@[simp] theorem mail_commitDelivery (b : Broker) (d : Delivery) :
    (b.commitDelivery d).mail = b.mail := stagingKeeps_mail.commitDelivery ..

@[simp] theorem mail_rollbackDelivery (b : Broker) (d : Delivery) :
    (b.rollbackDelivery d).mail = b.mail := stagingKeeps_mail.rollbackDelivery ..

@[simp] theorem mail_forgetPrepared (b : Broker) (n : Nat) (d : PendingDelivery) :
    (b.forgetPrepared n d).mail = b.mail := stagingKeeps_mail.forgetPrepared ..

/-! ## Queues -/

theorem mail_enqueue (b : Broker) (queue : String) (message : Nat) :
    (b.enqueue queue message).1.mail =
      (b.offers ++ [⟨queue, message, (b.enqueue queue message).2⟩], b.withdrawals) := by
  simp [mail, offers, withdrawals, enqueue, log, setMailbox, Event.offer?, Event.withdrawal?]

theorem mail_withdraw (b : Broker) (message : Nat) (queue : String) :
    (b.withdraw message queue).mail = (b.offers, b.withdrawals ++ [(queue, message)]) := by
  simp [mail, offers, withdrawals, withdraw, log, setMailbox, Event.offer?, Event.withdrawal?]

/-- A message is offered to the queues in order; those that have taken it are noted, and the first
one that refuses it is the last. -/
theorem mail_enqueueFrom {b' : Broker} {message : Nat} {before accepted queues : List String}
    {result : Except RoutingError Unit}
    (h : b.enqueueFrom message before queues = (b', accepted, result)) :
    ∃ os, b'.mail = (b.offers ++ os, b.withdrawals) ∧
      accepted.map (·, message) = before.map (·, message) ++ taken os ∧
      (result = .ok () → os = queues.map fun q => ⟨q, message, none⟩) ∧
      ∀ e, result = .error e → ∃ q refusal, e = .queueRefused q refusal ∧
        ⟨q, message, some refusal⟩ ∈ os := by
  induction queues generalizing b before with
  | nil =>
    cases h
    exact ⟨[], by simp [mail], by simp [taken], fun _ => rfl, fun e he => by cases he⟩
  | cons q rest ih =>
    have hmail := mail_enqueue b q message
    unfold enqueueFrom at h
    split at h
    · rename_i c refusal heq
      rw [heq] at hmail
      cases h
      refine ⟨[⟨q, message, some refusal⟩], hmail, by simp [taken], (fun h => by cases h),
        fun e he => ?_⟩
      cases he
      exact ⟨q, refusal, rfl, by simp⟩
    · rename_i c heq
      rw [heq] at hmail
      obtain ⟨hoffers, hwithdrawals⟩ := Prod.mk.inj hmail
      obtain ⟨os, hos, haccepted, hok, herror⟩ := ih h
      refine ⟨⟨q, message, none⟩ :: os, ?_, ?_, fun h => ?_, fun e he => ?_⟩
      · rw [hos, hoffers, hwithdrawals]
        simp
      · rw [haccepted]
        simp [taken]
      · rw [hok h]
        rfl
      · obtain ⟨q', refusal, he', hmem⟩ := herror e he
        exact ⟨q', refusal, he', List.mem_cons_of_mem _ hmem⟩

theorem mail_withdrawAll (b : Broker) (message : Nat) (accepted : List String) :
    (b.withdrawAll message accepted).mail =
      (b.offers, b.withdrawals ++ accepted.reverse.map (·, message)) := by
  unfold withdrawAll
  induction accepted.reverse generalizing b with
  | nil => simp [mail]
  | cons q rest ih =>
    obtain ⟨hoffers, hwithdrawals⟩ := Prod.mk.inj (mail_withdraw b message q)
    rw [List.foldl_cons, ih, hoffers, hwithdrawals]
    simp

/-! ## Records that are not written -/

theorem lost_books (b : Broker) : b.books.lost = b.lost := by
  unfold lost books
  rw [List.filterMap_filter]
  refine congrArg (fun f => List.filterMap f b.trace) (funext fun e => ?_)
  cases e <;> rfl

theorem lost_log (b : Broker) (e : Event) : (b.log e).lost = b.lost ++ e.lost?.toList := by
  simp only [lost, log, List.filterMap_append, List.filterMap_cons, List.filterMap_nil]
  cases e.lost? <;> rfl

theorem lost_write {r : Record} {result : Except JournalError Unit}
    (h : b.write .inline (.add r) = (b', result)) :
    (result = .ok () → b'.lost = b.lost) ∧
      ∀ err, result = .error err → b'.lost = b.lost ++ [r] := by
  have hlost : b'.lost = b.lost ++
      (Event.journal .inline (.write (.add r)) result.isOk).lost?.toList := by
    rw [write] at h
    cases h
    exact lost_log ..
  refine ⟨fun hok => ?_, fun err herr => ?_⟩
  · rw [hlost, hok]
    exact List.append_nil _
  · rw [hlost, herr]
    rfl

/-- Drawing a key writes the record, or loses it. -/
theorem lost_persist {d : Delivery} {result : Except RoutingError Unit}
    (h : b.persist d = (b', result)) :
    (result = .ok () → b'.lost = b.lost) ∧
      ∀ e, result = .error e → ∃ r err, e = .persistence err ∧ b'.lost = b.lost ++ [r] := by
  unfold persist at h
  cases hd : d.stage with
  | none =>
    rw [hd] at h
    cases h
    exact ⟨fun _ => rfl, fun e he => by cases he⟩
  | some g =>
    rw [hd] at h
    rcases hp : b.persistStage g with ⟨c, r⟩
    simp only [hp] at h
    have hlost : (r = .ok () → c.lost = b.lost) ∧
        ∀ err, r = .error err → ∃ rec, c.lost = b.lost ++ [rec] := by
      rcases persistStage_cases hp with ⟨-, rfl, rfl⟩ | ⟨key, d, -, ⟨-, hwrite⟩ | ⟨-, rfl, rfl⟩⟩
      · exact ⟨fun _ => rfl, fun err he => by cases he⟩
      · have hset := lost_write hwrite
        exact ⟨hset.1, fun err herr => ⟨_, hset.2 err herr⟩⟩
      · exact ⟨fun _ => rfl, fun err he => by cases he⟩
    cases r with
    | ok _ =>
      cases h
      exact ⟨fun _ => hlost.1 rfl, fun e he => by cases he⟩
    | error err =>
      cases h
      refine ⟨(fun h => by cases h), fun e he => ?_⟩
      cases he
      obtain ⟨rec, hrec⟩ := hlost.2 err rfl
      exact ⟨rec, err, rfl, hrec⟩

/-! ## Before a commit -/

/-- Why placing messages has failed: a queue has refused one, or a record could not be written. -/
inductive Setback (os : List Offer) (rs : List Record) : RoutingError → Prop where
  | refused {queue : String} {message : Nat} {refusal : QueueRefusal}
    (h : ⟨queue, message, some refusal⟩ ∈ os) : Setback os rs (.queueRefused queue refusal)
  | unwritten {r : Record} {err : JournalError} (h : r ∈ rs) : Setback os rs (.persistence err)

theorem Setback.append_left {os : List Offer} {rs : List Record} {e : RoutingError}
    (h : Setback os rs e) (os' : List Offer) (rs' : List Record) :
    Setback (os' ++ os) (rs' ++ rs) e := by
  cases h with
  | refused h => exact .refused (List.mem_append_right _ h)
  | unwritten h => exact .unwritten (List.mem_append_right _ h)

/-- What comes of placing the messages of the deliveries `ds`: the queues have been offered `os`,
the records `rs` are lost, and `noted` are the deliveries with what they have noted. -/
structure Placing (b b' : Broker) (ds noted : List PendingDelivery) (os : List Offer)
    (rs : List Record) (result : Except RoutingError Unit) : Prop where
  mail : b'.mail = (b.offers ++ os, b.withdrawals)
  lost : b'.lost = b.lost ++ rs
  placed : taken os = noted.flatMap PendingDelivery.placed
  ok : result = .ok () → os = ds.flatMap (·.delivery.offers)
  error : ∀ e, result = .error e → Setback os rs e

theorem Placing.nil (b : Broker) : Placing b b [] [] [] [] (.ok ()) :=
  ⟨by simp [Broker.mail], by simp, rfl, fun _ => rfl, fun e he => by cases he⟩

theorem Placing.cons {b₁ b₂ b₃ : Broker} {d d' : PendingDelivery} {ds noted : List PendingDelivery}
    {os os' : List Offer} {rs rs' : List Record} {result : Except RoutingError Unit}
    (h : Placing b₁ b₂ [d] [d'] os rs (.ok ())) (h' : Placing b₂ b₃ ds noted os' rs' result) :
    Placing b₁ b₃ (d :: ds) (d' :: noted) (os ++ os') (rs ++ rs') result := by
  obtain ⟨hoffers, hwithdrawals⟩ := Prod.mk.inj h.mail
  refine ⟨?_, ?_, ?_, fun hok => ?_, fun e he => (h'.error e he).append_left os rs⟩
  · rw [h'.mail, hoffers, hwithdrawals, List.append_assoc]
  · rw [h'.lost, h.lost, List.append_assoc]
  · rw [taken_append, h.placed, h'.placed]
    simp
  · rw [h.ok rfl, h'.ok hok]
    simp

/-- After a failure the others have placed nothing. -/
theorem Placing.stop {d d' : PendingDelivery} {ds : List PendingDelivery} {os : List Offer}
    {rs : List Record} {e : RoutingError} (h : Placing b b' [d] [d'] os rs (.error e))
    (hds : ∀ d ∈ ds, d.accepted = []) : Placing b b' (d :: ds) (d' :: ds) os rs (.error e) := by
  have hrest : ds.flatMap PendingDelivery.placed = [] :=
    List.flatMap_eq_nil_iff.2 fun d hd => by rw [PendingDelivery.placed, hds d hd]; rfl
  refine ⟨h.mail, h.lost, ?_, (fun hok => by cases hok), h.error⟩
  rw [h.placed, List.flatMap_cons, List.flatMap_cons, hrest]
  rfl

/-- A delivery whose note has been changed. -/
theorem operations_modifyOperation {i : Nat} {d : PendingDelivery} (hn : b.Has n)
    (hop : (b.transaction n).operations[i]? = some (.delivery d))
    (f : PendingDelivery → PendingDelivery) :
    ((b.modifyOperation n i f).transaction n).operations =
      (b.transaction n).operations.set i (.delivery (f d)) := by
  rw [modifyOperation, transaction_modifyTransaction b n _ hn.1 hn.2, if_pos rfl]
  refine List.ext_getElem? fun j => ?_
  rw [List.getElem?_modify, List.getElem?_set]
  by_cases hij : i = j
  · subst hij
    obtain ⟨hi, hget⟩ := List.getElem?_eq_some_iff.1 hop
    simp [hi, hget]
  · simp [hij]

/-- A delivery that is called before a commit offers its message, and notes who takes it. -/
theorem placing_callOperation {i : Nat} {d : PendingDelivery}
    {result : Except RoutingError Unit} (hn : b.Has n)
    (hop : (b.transaction n).operations[i]? = some (.delivery d))
    (hcall : b.callOperation n .beforeCommit i = (b', result)) :
    ∃ accepted os rs,
      (b'.transaction n).operations =
        (b.transaction n).operations.set i (.delivery { d with accepted }) ∧
      Placing b b' [d] [{ d with accepted }] os rs result := by
  simp only [callOperation, hop, callDelivery, placeDelivery] at hcall
  have hbooks := books_enqueueTargets (b.log (.called n i .beforeCommit)) d.delivery
  have htransactions :
      ((b.log (.called n i .beforeCommit)).enqueueTargets d.delivery).1.transactions
        = b.transactions := transactions_enqueueFrom ..
  rcases hplaced : (b.log (.called n i .beforeCommit)).enqueueTargets d.delivery with
    ⟨c, accepted, r⟩
  rw [hplaced] at hbooks htransactions hcall
  obtain ⟨os, hmail, htaken, hok, herror⟩ := mail_enqueueFrom hplaced
  have hlog : (b.log (.called n i .beforeCommit)).mail = b.mail := mail_log rfl rfl
  obtain ⟨hoffers, hwithdrawals⟩ := Prod.mk.inj hlog
  rw [hoffers, hwithdrawals] at hmail
  -- The broker once the delivery has noted the queues that have taken its message.
  have hsame := transaction_of_transactions htransactions
  have hoperations : ((c.modifyOperation n i fun d => { d with accepted }).transaction n).operations
      = (b.transaction n).operations.set i (.delivery { d with accepted }) := by
    have hop' : (c.transaction n).operations[i]? = some (.delivery d) := by rw [hsame, hop]
    rw [operations_modifyOperation (hn.of_outlines (outlines_of_transactions htransactions)) hop',
      hsame]
  have hnoted : (c.modifyOperation n i fun d => { d with accepted }).mail =
      (b.offers ++ os, b.withdrawals) := (mail_modifyOperation ..).trans hmail
  have hlost : (c.modifyOperation n i fun d => { d with accepted }).lost = b.lost := by
    rw [← lost_books, modifyOperation, books_modifyTransaction, hbooks, books_log_of_not rfl,
      lost_books]
  have hplaces : taken os = [{ d with accepted }].flatMap PendingDelivery.placed := by
    simpa [PendingDelivery.placed] using htaken.symm
  cases r with
  | error e =>
    cases hcall
    obtain ⟨q, refusal, rfl, hmem⟩ := herror e rfl
    exact ⟨accepted, os, [], hoperations, hnoted, by rw [hlost, List.append_nil], hplaces,
      (fun h => by cases h), fun e he => by cases he; exact .refused hmem⟩
  | ok _ =>
    have hpersist := lost_persist hcall
    have hmail' := mail_persist (c.modifyOperation n i fun d => { d with accepted }) d.delivery
    have htransactions' := transaction_of_transactions
      (transactions_persist (c.modifyOperation n i fun d => { d with accepted }) d.delivery) n
    dsimp only at hcall
    rw [hcall] at hmail' htransactions'
    cases result with
    | ok _ =>
      refine ⟨accepted, os, [], by rw [htransactions', hoperations], hmail'.trans hnoted, ?_,
        hplaces, fun _ => ?_, fun e he => by cases he⟩
      · rw [hpersist.1 rfl, hlost, List.append_nil]
      · rw [hok rfl]
        simp [Delivery.offers]
    | error e =>
      obtain ⟨r, err, rfl, hr⟩ := hpersist.2 e rfl
      refine ⟨accepted, os, [r], by rw [htransactions', hoperations], hmail'.trans hnoted, ?_,
        hplaces, (fun h => by cases h), fun e he => ?_⟩
      · rw [hr, hlost]
      · cases he
        exact .unwritten (List.mem_singleton_self r)

/-- Before a commit the deliveries offer their messages in order, up to a failure, and note who
takes them. -/
theorem placing_callUntilFailure (done : List PendingDelivery) {ds : List PendingDelivery}
    {result : Except RoutingError Unit} (hn : b.Has n)
    (hops : (b.transaction n).operations = (done ++ ds).map .delivery)
    (hds : ∀ d ∈ ds, d.accepted = [])
    (hcall : b.callUntilFailure n .beforeCommit (List.range' done.length ds.length) =
      (b', result)) :
    ∃ noted os rs, (b'.transaction n).operations = (done ++ noted).map .delivery ∧
      Placing b b' ds noted os rs result := by
  -- Induction on the deliveries still to be called; those called before stand in `done`.
  induction ds generalizing b done with
  | nil =>
    cases hcall
    exact ⟨[], [], [], hops, .nil _⟩
  | cons d rest ih =>
    have hop : (b.transaction n).operations[done.length]? = some (.delivery d) := by
      rw [hops]
      simp
    simp only [List.length_cons, List.range'_succ, callUntilFailure] at hcall
    rcases hfirst : b.callOperation n .beforeCommit done.length with ⟨c, r⟩
    obtain ⟨accepted, os, rs, hoperations, hplacing⟩ := placing_callOperation hn hop hfirst
    have hset : (c.transaction n).operations =
        (done ++ { d with accepted } :: rest).map .delivery := by
      rw [hoperations, hops]
      simp
    have hrest : ∀ d ∈ rest, d.accepted = [] := fun d hd => hds d (by simp [hd])
    rw [hfirst] at hcall
    cases r with
    | error e =>
      cases hcall
      exact ⟨{ d with accepted } :: rest, os, rs, hset, hplacing.stop hrest⟩
    | ok _ =>
      have htouched := (touches_delivery n .beforeCommit).callOperation b done.length
      rw [hfirst] at htouched
      have hset' : (c.transaction n).operations =
          ((done ++ [{ d with accepted }]) ++ rest).map .delivery := by simpa using hset
      obtain ⟨noted, os', rs', hnoted, hplacing'⟩ :=
        ih _ (htouched.has hn) hset' hrest (by simpa using hcall)
      exact ⟨{ d with accepted } :: noted, os ++ os', rs ++ rs', by simpa using hnoted,
        hplacing.cons hplacing'⟩

/-! ## After the decision -/

/-- A delivery that is called after a rollback asks the queues it has noted to give its message
back. -/
theorem mail_callOperation_afterRollback {i : Nat} {d : PendingDelivery} (hn : b.Has n)
    (hop : (b.transaction n).operations[i]? = some (.delivery d)) :
    (b.callOperation n .afterRollback i).1.mail =
        (b.offers, b.withdrawals ++ d.placed.reverse) ∧
      ((b.callOperation n .afterRollback i).1.transaction n).operations =
        (b.transaction n).operations.set i (.delivery { d with accepted := [] }) := by
  simp only [callOperation, hop, callDelivery, undoDelivery]
  have hlog : (b.log (.called n i .afterRollback)).transactions = b.transactions := rfl
  have hoperations := operations_modifyOperation (b := b.log (.called n i .afterRollback))
    (hn.of_outlines (outlines_of_transactions hlog))
    (by rw [transaction_of_transactions hlog, hop]) fun d => { d with accepted := [] }
  rw [transaction_of_transactions hlog] at hoperations
  have hmail : ((b.log (.called n i .afterRollback)).modifyOperation n i
      fun d => { d with accepted := [] }).mail = b.mail :=
    (mail_modifyOperation ..).trans (mail_log rfl rfl)
  obtain ⟨hoffers, hwithdrawals⟩ := Prod.mk.inj hmail
  constructor
  · rw [mail_forgetPrepared, mail_rollbackDelivery, mail_withdrawAll, hoffers, hwithdrawals,
      PendingDelivery.placed, List.map_reverse]
  · rw [← hoperations]
    exact congrArg Transaction.operations (transaction_of_transactions (by
      rw [transactions_forgetPrepared, transactions_rollbackDelivery, transactions_withdrawAll]) n)

/-- A rollback asks for everything back that deliveries have noted. -/
theorem mail_callAll_afterRollback {done ds : List PendingDelivery} (hn : b.Has n)
    (hops : (b.transaction n).operations = (done ++ ds).map .delivery) :
    (b.callAll n .afterRollback (List.range' done.length ds.length)).mail =
      (b.offers, b.withdrawals ++ ds.flatMap fun d => d.placed.reverse) := by
  induction ds generalizing b done with
  | nil => simp [callAll, mail]
  | cons d rest ih =>
    have hop : (b.transaction n).operations[done.length]? = some (.delivery d) := by
      rw [hops]
      simp
    obtain ⟨hmail, hset⟩ := mail_callOperation_afterRollback hn hop
    obtain ⟨hoffers, hwithdrawals⟩ := Prod.mk.inj hmail
    have hops' : ((b.callOperation n .afterRollback done.length).1.transaction n).operations =
        ((done ++ [{ d with accepted := [] }]) ++ rest).map .delivery := by
      rw [hset, hops]
      simp
    have htouched := (touches_delivery n .afterRollback).callOperation b done.length
    have hrest := ih (htouched.has hn) hops'
    rw [hoffers, hwithdrawals, List.length_append, List.length_singleton] at hrest
    rw [List.length_cons, List.range'_succ, callAll, hrest]
    simp

theorem perm_withdrawn (ds : List PendingDelivery) :
    (ds.flatMap fun d => d.placed.reverse).Perm (ds.flatMap PendingDelivery.placed) := by
  induction ds with
  | nil => exact .refl _
  | cons d rest ih => exact (List.reverse_perm d.placed).append ih

theorem mail_undo {ds : List PendingDelivery} (hn : b.Has n)
    (hops : (b.transaction n).operations = ds.map .delivery) :
    (b.undo n).mail = (b.offers, b.withdrawals ++ ds.flatMap fun d => d.placed.reverse) := by
  obtain ⟨-, -, hn', hself⟩ := outlines_setState hn .rolledBack
  have hops' : ((b.setState n .rolledBack).transaction n).operations =
      (([] : List PendingDelivery) ++ ds).map .delivery := by
    rw [hself]
    exact hops
  have hindexes : (b.setState n .rolledBack).operationIndexes n =
      List.range' ([] : List PendingDelivery).length ds.length := by
    rw [operationIndexes, hops', List.range_eq_range']
    simp
  obtain ⟨hoffers, hwithdrawals⟩ :=
    Prod.mk.inj (mail_modifyTransaction b n fun t => { t with state := .rolledBack })
  rw [undo, hindexes, mail_callAll_afterRollback hn' hops']
  exact Prod.ext hoffers (congrArg (· ++ _) hwithdrawals)

/-- A rollback loses no record. -/
theorem lost_undo (hn : b.Has n) : (b.undo n).lost = b.lost := by
  have hdrop : ∀ (c : Broker) x hs, (c.dropAll x hs).lost = c.lost := fun c x hs =>
    List.foldlRecOn (motive := fun c' : Broker => c'.lost = c.lost) hs _ rfl fun c' hc' h _ => by
      have hrelease : ∀ c : Broker, (c.release x h).lost = c.lost := fun c => by
        unfold release
        split
        · split
          · cases h.1.cache <;> rfl
          · rfl
        · rfl
      rw [hrelease]
      rcases rollbackStage_cases c' h.1 with ⟨-, heq⟩ | ⟨q, d, -, -, heq⟩
      · rw [heq, hc']
      · rw [heq]
        exact (lost_log ..).trans ((List.append_nil _).trans hc')
  rw [← lost_books, (view_undo hn).1, hdrop, lost_books]

/-- After a commit nothing is asked of queues. -/
theorem mail_callAll_afterCommit {ds : List PendingDelivery}
    (hops : (b.transaction n).operations = ds.map .delivery) (is : List Nat) :
    (b.callAll n .afterCommit is).mail = b.mail := by
  induction is generalizing b with
  | nil => rfl
  | cons i rest ih =>
    have hcall : (b.callOperation n .afterCommit i).1.mail = b.mail ∧
        (b.callOperation n .afterCommit i).1.transactions = b.transactions := by
      unfold callOperation
      cases hop : (b.transaction n).operations[i]? with
      | none => exact ⟨rfl, rfl⟩
      | some op =>
        rw [hops, List.getElem?_map] at hop
        obtain ⟨d, -, rfl⟩ := Option.map_eq_some_iff.1 hop
        constructor
        · exact (mail_forgetPrepared ..).trans ((mail_commitDelivery ..).trans (mail_log rfl rfl))
        · exact (transactions_forgetPrepared ..).trans (transactions_commitDelivery ..)
    rw [callAll, ih (by rw [transaction_of_transactions hcall.2, hops]), hcall.1]

/-! ## Commits -/

/-- Why a transaction has not been committed: it was doomed, or placing its messages has failed. -/
inductive Hindrance (t : Transaction) (n : Nat) (os : List Offer) (rs : List Record) :
    TransactionError → Prop where
  | doomed {reason : String} (h : t.rollbackOnly = some reason) :
    Hindrance t n os rs (.refused (.rollbackOnly n reason))
  | setback {e : RoutingError} (h : Setback os rs e) : Hindrance t n os rs (.operation e)

/-- A commit offers all messages to all their queues, or it asks for exactly those back that queues
have taken. -/
theorem mail_commit {ds : List PendingDelivery} (hlive : (b.transaction n).isLive = true)
    (hops : (b.transaction n).operations = ds.map .delivery)
    (hds : ∀ d ∈ ds, d.accepted = []) :
    ((b.commit n).2 = .ok () ∧
        (b.commit n).1.mail = (b.offers ++ ds.flatMap (·.delivery.offers), b.withdrawals)) ∨
      ∃ e os ws rs, (b.commit n).2 = .error e ∧
        (b.commit n).1.mail = (b.offers ++ os, b.withdrawals ++ ws) ∧
        (b.commit n).1.lost = b.lost ++ rs ∧ ws.Perm (taken os) ∧
        Hindrance (b.transaction n) n os rs e := by
  have hn := has_of_isLive hlive
  have hrequire : (b.transaction n).require n [.active, .prepared] .commit = .ok () := by
    rw [Transaction.require, if_pos (by simpa [Transaction.isLive] using hlive)]
  unfold commit undoDoomed?
  rw [hrequire]
  dsimp only
  cases hdoomed : (b.transaction n).rollbackOnly with
  | some reason =>
    have hnone : ds.flatMap (fun d => d.placed.reverse) = [] :=
      List.flatMap_eq_nil_iff.2 fun d hd => by simp [PendingDelivery.placed, hds d hd]
    refine Or.inr ⟨_, [], [], [], rfl, ?_, ?_, .refl _, .doomed hdoomed⟩
    · show (b.undo n).mail = _
      rw [mail_undo hn hops, hnone, List.append_nil, List.append_nil]
    · show (b.undo n).lost = _
      rw [lost_undo hn, List.append_nil]
  | none =>
    have hindexes : b.operationIndexes n =
        List.range' ([] : List PendingDelivery).length ds.length := by
      rw [operationIndexes, hops, List.range_eq_range']
      simp
    have htouched :=
      (touches_delivery n .beforeCommit).callUntilFailure b (b.operationIndexes n)
    dsimp only [Option.map_none]
    rcases hcall : b.callUntilFailure n .beforeCommit (b.operationIndexes n) with ⟨c, result⟩
    rw [hcall] at htouched
    obtain ⟨noted, os, rs, hnoted, hplacing⟩ :=
      placing_callUntilFailure [] hn hops hds (hindexes ▸ hcall)
    obtain ⟨hoffers, hwithdrawals⟩ := Prod.mk.inj hplacing.mail
    have hn' := htouched.has hn
    cases result with
    | error e =>
      refine Or.inr ⟨_, os, noted.flatMap fun d => d.placed.reverse, rs, rfl, ?_, ?_, ?_,
        .setback (hplacing.error e rfl)⟩
      · show (c.undo n).mail = _
        rw [mail_undo hn' hnoted, hoffers, hwithdrawals]
        rfl
      · show (c.undo n).lost = _
        rw [lost_undo hn', hplacing.lost]
      · rw [hplacing.placed]
        exact perm_withdrawn _
    | ok _ =>
      obtain ⟨-, -, -, hself⟩ := outlines_setState hn' .committed
      refine Or.inl ⟨rfl, ?_⟩
      have hops' : ((c.setState n .committed).transaction n).operations = noted.map .delivery := by
        rw [hself]
        exact hnoted
      have hset : (c.setState n .committed).mail = c.mail := mail_modifyTransaction ..
      rw [mail_callAll_afterCommit hops', hset, hplacing.mail, hplacing.ok rfl]

end Broker

end MessageRouting
