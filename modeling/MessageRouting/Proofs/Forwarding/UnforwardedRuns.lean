import MessageRouting.Proofs.Broker.RelatedBrokers
import MessageRouting.Proofs.Forwarding.PairedCompletions
import MessageRouting.Proofs.Persistence.ModeAgreement

/-!
# Runs without forwarded messages

Messages that are rerouted or redistributed stage nothing. At once they change
nothing but queues, and in a transaction their deliveries are bystanders, as
long as their queues accept. Take such calls out of a run, and akin brokers
remain: everything else is answered alike, and caches and the journal are the
same.

Results:

* `Akin.forward`: a message that is forwarded at the first of two akin brokers
  only leaves them akin.
* `core_forwarding`, `forwarding_answers`: such a call never waits, and leaves
  everything but queues and transactions as it is.
* `concur_perform`: whatever else is asked, akin brokers answer alike.
* `akin_run`: a run, and the same run without forwarded messages.
-/

namespace MessageRouting

/-! ## Queues -/

namespace Mailbox

variable {m m' : Mailbox}

/-- Such a queue accepts in the modes that do not refuse. -/
theorem Steadfast.accepts_iff (h : m.Steadfast) :
    m.refusal?.isNone = true ↔ m.mode ≠ .full ∧ m.mode ≠ .deleted := by
  have hplain : m.refusal? = ({ m with lapses := [] } : Mailbox).refusal? :=
    Steadfast.refusal?_eq (.inr (.inr (by simp))) h rfl
  rw [hplain]
  unfold refusal?
  cases m.mode <;> simp

/-- A queue that is set to another mode, and accepts or refuses as before. -/
theorem Matches.setMode (h : m.Matches m') {mode : MailboxMode}
    (hsteadfast : ({ m with mode } : Mailbox).Steadfast)
    (hsame : ({ m with mode } : Mailbox).refusal?.isNone = m.refusal?.isNone) :
    ({ m with mode } : Mailbox).Matches { m' with mode } := by
  refine ⟨rfl, hsteadfast, ?_⟩
  by_cases haccepts : mode ≠ .full ∧ mode ≠ .deleted
  · have hbefore : m'.mode ≠ .full ∧ m'.mode ≠ .deleted := by
      rw [h.mode, ← h.steadfast.accepts_iff, ← hsame]
      exact hsteadfast.accepts_iff.2 haccepts
    exact .inr (.inr ((h.steadfast'.resolve_left hbefore.1).resolve_left hbefore.2))
  · by_cases hfull : mode = .full
    · exact .inl hfull
    · exact .inr (.inl (by_contra fun hdeleted => haccepts ⟨hfull, hdeleted⟩))

end Mailbox

namespace Broker

variable {A : String → Bool} {b b' c c' : Broker} {n : Nat} {α : Type}

/-! ## Deliveries -/

theorem tryDelivery_unstaged {d : Delivery} (hd : d.stage = none) (b : Broker) :
    b.tryDelivery d = b.enqueueTargets d := by
  unfold tryDelivery
  rcases b.enqueueTargets d with ⟨c, accepted, result⟩
  cases result with
  | error e => rfl
  | ok _ =>
    dsimp only
    rw [persist_unstaged hd]

/-- Without a stage, a delivery only concerns queues. -/
theorem Akin.deliver_left (h : Akin A b b') {d : Delivery} (hd : d.stage = none) :
    Akin A (b.deliver d).1 b' := by
  have hplaced := h.enqueueFrom_left d.message.id [] d.routedQueues
  rw [deliver, tryDelivery_unstaged hd, enqueueTargets]
  rcases hb : b.enqueueFrom d.message.id [] d.routedQueues with ⟨c, accepted, result⟩
  rw [hb] at hplaced
  cases result with
  | error e =>
    dsimp only
    rw [rollbackDelivery_unstaged hd]
    exact hplaced.withdrawAll_left ..
  | ok _ =>
    dsimp only
    rw [commitDelivery_unstaged hd]
    exact hplaced

/-- A delivery that is a bystander of its transaction, or that belongs to none. -/
theorem Akin.dispatch_left (h : Akin A b b') {d : Delivery} (hd : d.stage = none)
    {transaction : Option Nat}
    (hqueues : transaction.isSome = true → d.routedQueues.all A = true) :
    Akin A (b.dispatch d transaction).1 b' := by
  cases transaction with
  | none => exact h.deliver_left hd
  | some n =>
    have hparty : (Operation.delivery { delivery := d }).isParty A = false := by
      simp [Operation.isParty, Operation.isBystander, hd, hqueues rfl]
    have hadded := h.addBystander n hparty
    rcases hb : b.addOperation n (.delivery { delivery := d }) with ⟨c, result⟩
    rw [hb] at hadded
    simp only [dispatch, hb]
    cases result with
    | error e =>
      dsimp only
      rw [rollbackDelivery_unstaged hd]
      exact hadded
    | ok _ => exact hadded

/-! ## Requests that both are asked -/

theorem Akin.wait (h : Akin A b b') (call : Call) :
    Akin A { b with waiting := b.waiting ++ [call] }
      { b' with waiting := b'.waiting ++ [call] } := by
  have hcore := congrArg (fun b : Broker => { b with waiting := b.waiting ++ [call] }) h.core
  exact h.change hcore ⟨rfl, rfl⟩ ⟨rfl, rfl⟩

theorem Akin.openCache (h : Akin A b b') (ref : CacheRef) (a : Address) (capacity : Nat) :
    Akin A (b.openCache ref a capacity) (b'.openCache ref a capacity) := by
  unfold Broker.openCache
  rw [h.caches]
  split
  · exact h
  · exact h.setCache ..

theorem Akin.openOfficeCache (h : Akin A b b') (n : Nat) (a : Address) :
    Akin A (b.openOfficeCache n a) (b'.openOfficeCache n a) := by
  unfold Broker.openOfficeCache
  rw [h.office]
  exact h.openCache ..

theorem stayAbreast_akin : StayAbreast (Akin A) :=
  { stagesAbreast_akin with
    deskAt := fun h => h.deskAt
    detectedId := fun h n m => by rw [detectedId, detectedId, h.office]
    nextOwner := fun h n => by rw [h.office]
    waiting := fun h => h.waiting
    ready := fun h => h.ready
    openMailbox := fun h queue => h.setMailboxes (h.mailbox queue) (h.accepts queue)
    setDesk := fun h => h.setDesk
    notify := fun h => h.notify
    draw := fun h n => h.modifyOffice n _
    openOfficeCache := fun h => h.openOfficeCache
    wait := fun h => h.wait
    retry := fun h calls => h.change
      (congrArg (fun b : Broker => { b with ready := calls }) h.core) ⟨rfl, rfl⟩ ⟨rfl, rfl⟩
    reply := fun h _ _ => h.log _
    addOperation := fun h n op => concur_iff.1 (concur_addOperation h n op)
    rollbackOnly := fun h n => (h.transaction n).rollbackOnly
    state := fun h n => (h.transaction n).state
    setState := fun h => h.setState
    undo := fun h => h.undo
    callUntilFailure := fun h n phase => concur_iff.1 (concur_callUntilFailure (aligned_range h n)
      h (List.prefix_refl _) (List.prefix_refl _) phase)
    conclude := fun h => h.conclude }

/-! ## Writers -/

theorem Akin.writeNext (h : Akin A b b') (n : Nat) : Akin A (b.writeNext n) (b'.writeNext n) := by
  unfold Broker.writeNext
  rw [h.office]
  split
  · exact h
  · exact (concur_write (h.modifyOffice n _) ..).akin

theorem Akin.writeSome (h : Akin A b b') (n k : Nat) :
    Akin A (b.writeSome n k) (b'.writeSome n k) := by
  induction k generalizing b b' with
  | zero => exact h
  | succ k ih => exact ih (h.writeNext n)

theorem Akin.flush (h : Akin A b b') (n : Nat) : Akin A (b.flush n) (b'.flush n) := by
  unfold Broker.flush
  rw [h.office]
  exact h.writeSome ..

theorem Akin.flushAll (h : Akin A b b') : Akin A b.flushAll b'.flushAll := by
  unfold Broker.flushAll
  rw [h.offices]
  induction List.range b.offices.length generalizing b b' with
  | nil => exact h
  | cons n rest ih => exact ih (h.flush n)

/-! ## Openings -/

theorem concur_read (h : Akin A b b') (call : JournalCall) (m : JournalMethod) (f : Ledger → α) :
    Concur A (b.read call m f) (b'.read call m f) := by
  unfold read
  rw [h.storage]
  exact (h.log _).concur _

theorem concur_pruneAll (h : Akin A b b') (rs : List Record) :
    Concur A (b.pruneAll rs) (b'.pruneAll rs) := by
  induction rs generalizing b b' with
  | nil => exact h.concur _
  | cons r rest ih =>
    obtain ⟨c, c', result, hb, hb', hc⟩ :=
      (concur_write h .inline (.prune r.address r.sequence)).split
    simp only [pruneAll, hb, hb']
    cases result with
    | error e => exact hc.concur _
    | ok _ => exact ih hc

theorem concur_loadAddress (h : Akin A b b') (n capacity : Nat) (a : Address) :
    Concur A (b.loadAddress n capacity a) (b'.loadAddress n capacity a) := by
  obtain ⟨c, c', result, hb, hb', hc⟩ := (concur_read h (.load a) .load (·.records a)).split
  simp only [loadAddress, readRecords, hb, hb']
  cases result with
  | error e => exact hc.concur _
  | ok records =>
    obtain ⟨f, f', result, hf, hf', hakin⟩ := (concur_pruneAll
      (hc.openCache (.office n a) a capacity) (Cache.surplus capacity records)).split
    simp only [hf, hf']
    cases result with
    | error e => exact hakin.concur _
    | ok _ =>
      dsimp only
      rw [hakin.cache]
      exact (hakin.setCache ..).concur _

theorem concur_loadAll (h : Akin A b b') (n capacity : Nat) (as : List Address) :
    Concur A (b.loadAll n capacity as) (b'.loadAll n capacity as) := by
  induction as generalizing b b' with
  | nil => exact h.concur _
  | cons a rest ih =>
    obtain ⟨c, c', result, hb, hb', hc⟩ := (concur_loadAddress h n capacity a).split
    simp only [loadAll, hb, hb']
    cases result with
    | error e => exact hc.concur _
    | ok _ => exact ih hc

theorem concur_load (h : Akin A b b') (n capacity : Nat) :
    Concur A (b.load n capacity) (b'.load n capacity) := by
  obtain ⟨c, c', result, hb, hb', hc⟩ :=
    (concur_read h .addresses .addresses Ledger.addresses).split
  simp only [load, readAddresses, hb, hb']
  cases result with
  | error e => exact hc.concur _
  | ok addresses =>
    obtain ⟨f, f', result, hf, hf', hakin⟩ := (concur_loadAll hc n capacity addresses).split
    simp only [hf, hf']
    cases result with
    | error e => exact hakin.concur _
    | ok _ => exact concur_read hakin ..

theorem Akin.recoverRecord (h : Akin A b b') (n t : Nat) (r : Record) :
    Akin A (recoverRecord n t b r) (recoverRecord n t b' r) := by
  have hopened := h.openOfficeCache n r.address
  unfold Broker.recoverRecord
  dsimp only
  rw [hopened.cache]
  exact (hopened.setCache ..).modifyTransaction t fun _ _ ht => ht.append _

theorem Akin.recoverRecords (h : Akin A b b') (n t : Nat) (rs : List Record) :
    Akin A (rs.foldl (Broker.recoverRecord n t) b) (rs.foldl (Broker.recoverRecord n t) b') := by
  induction rs generalizing b b' with
  | nil => exact h
  | cons r rest ih => exact ih (h.recoverRecord n t r)

theorem Akin.recoverBranch (h : Akin A b b') (n : Nat) (branch : Xid × List Record) :
    Akin A (recoverBranch n b branch) (recoverBranch n b' branch) := by
  have hadded := h.addTransaction { xid := some branch.1, state := .prepared }
  have hrecords := hadded.recoverRecords n (b.transactions.length + 1) branch.2
  have hlast : ∀ c : Broker, ∀ t, (c.addTransaction t).lastTransaction =
      c.transactions.length + 1 := fun c t => by
    simp [lastTransaction, Broker.addTransaction]
  unfold Broker.recoverBranch
  dsimp only
  rw [hlast, hlast, h.length, hrecords.deskAt]
  exact stayAbreast_akin.setBranches hrecords ..

theorem Akin.recoverBranches (h : Akin A b b') (n : Nat) (branches : List (Xid × List Record)) :
    Akin A (branches.foldl (Broker.recoverBranch n) b)
      (branches.foldl (Broker.recoverBranch n) b') := by
  induction branches generalizing b b' with
  | nil => exact h
  | cons branch rest ih => exact ih (h.recoverBranch n branch)

theorem Akin.addOffice (h : Akin A b b') (o : Office) :
    Akin A { b with offices := b.offices ++ [o] } { b' with offices := b'.offices ++ [o] } := by
  have hcore := congrArg (fun b : Broker => { b with offices := b.offices ++ [o] }) h.core
  exact h.change hcore ⟨rfl, rfl⟩ ⟨rfl, rfl⟩

theorem concur_openPlain (h : Akin A b b') (s : Settings) :
    Concur A (b.openPlain s) (b'.openPlain s) :=
  ⟨h.addOffice _, congrArg List.length h.offices⟩

theorem concur_openPersistent (h : Akin A b b') (s : Settings) :
    Concur A (b.openPersistent s) (b'.openPersistent s) := by
  obtain ⟨c, c', result, hb, hb', hc⟩ := (concur_load h b.offices.length s.idCacheCapacity).split
  unfold openPersistent
  dsimp only
  rw [h.offices, hb, hb']
  cases result with
  | error e =>
    have hcore := congrArg (fun f : Broker => { f with caches := b.caches }) hc.core
    have hreset : Akin A { c with caches := b.caches } { c' with caches := b.caches } :=
      hc.change hcore ⟨rfl, rfl⟩ ⟨rfl, rfl⟩
    dsimp only
    rw [h.caches]
    exact hreset.concur _
  | ok prepared => exact ((hc.addOffice _).recoverBranches ..).concur _

theorem concur_start (h : Akin A b b') (s : Settings) : Concur A (b.start s) (b'.start s) := by
  unfold start
  split
  · exact concur_openPersistent h s
  · obtain ⟨c, c', n, hb, hb', hc⟩ := (concur_openPlain h s).split
    rw [hb, hb']
    exact hc.concur _

theorem concur_newCache (h : Akin A b b') (a : Address) (capacity : Nat) :
    Concur A (b.newCache a capacity) (b'.newCache a capacity) := by
  unfold newCache
  rw [h.caches]
  exact (h.setCache ..).concur _

end Broker

/-! ## Forwarding calls -/

namespace Command

/-- Whether the request forwards a message: to the queue of one binding, or to a remote one. -/
def isForwarding : Command → Bool
  | .reroute _ _ _ _ => true
  | .redistribute _ _ _ _ => true
  | _ => false

/-- The transaction of a forwarding call, if it has one. -/
def forwardedIn? : Command → Option Nat
  | .reroute _ _ _ transaction => transaction
  | .redistribute _ _ _ transaction => transaction
  | _ => none

/-- The requests that forward nothing. -/
def others (cs : List Command) : List Command := cs.filter fun c => !c.isForwarding

end Command

namespace Broker

variable {A : String → Bool} {b b' : Broker}

/-- The delivery that a forwarding call sets out to make, if it comes to that. -/
def forwarded? (b : Broker) : Command → Option Delivery
  | .reroute n m binding _ =>
    ((b.office n).desk.registry.get? binding).map fun target =>
      { message := m, targets := [⟨target.queue, .route⟩] }
  | .redistribute n m binding _ =>
    ((b.office n).desk.registry.get? binding).bind fun origin =>
      let found := ((b.office n).desk.registry.lookup m.address).map (·.bindings)
      (redistributionTarget? origin (found.getD [])).bind fun target =>
        if target.queue = origin.queue then none
        else some { message := m, targets := [⟨origin.queue, .ignore⟩, ⟨target.queue, .route⟩] }
  | _ => none

/-- The delivery of a redistribution: to the target, if it is not the queue that the message comes
from. -/
theorem addTargets_redistribution (m : Message) (origin target : String) :
    (do
      let d ← Delivery.addTarget { message := m } origin .ignore
      d.addTarget target .route) =
    if target = origin then .error (.duplicateTarget target)
    else .ok { message := m, targets := [⟨origin, .ignore⟩, ⟨target, .route⟩] } := by
  show Delivery.addTarget { message := m, targets := [⟨origin, .ignore⟩] } target .route = _
  by_cases h : target = origin
  · subst h
    simp [Delivery.addTarget]
  · rw [if_neg h]
    simp [Delivery.addTarget, Ne.symm h]

/-- A redistribution dispatches a delivery to one queue, or does nothing. -/
theorem perform_redistribute (b : Broker) (n : Nat) (m : Message) (binding : String)
    (transaction : Option Nat) :
    (∃ d q, b.forwarded? (.redistribute n m binding transaction) = some d ∧ d.message = m ∧
      d.stage = none ∧ d.routedQueues = [q] ∧
      b.perform (.redistribute n m binding transaction) = (b.dispatch d transaction).map id fun
        | .ok () => .redistributed (some q)
        | .error e => .routingFailed e) ∨
    (b.forwarded? (.redistribute n m binding transaction) = none ∧
      (b.perform (.redistribute n m binding transaction)).1 = b ∧
      ∀ q, (b.perform (.redistribute n m binding transaction)).2 ≠ .redistributed (some q)) := by
  cases hget : (b.office n).desk.registry.get? binding with
  | none =>
    refine .inr ⟨by simp [forwarded?, hget], ?_⟩
    simp only [perform, redistribute, hget]
    exact ⟨trivial, fun q h => by cases h⟩
  | some origin =>
    cases htarget : redistributionTarget? origin
        ((((b.office n).desk.registry.lookup m.address).map (·.bindings)).getD []) with
    | none =>
      refine .inr ⟨by simp [forwarded?, hget, htarget], ?_⟩
      simp only [perform, redistribute, hget, htarget]
      exact ⟨trivial, fun q h => by cases h⟩
    | some target =>
      have hdelivery := addTargets_redistribution m origin.queue target.queue
      by_cases hsame : target.queue = origin.queue
      · rw [if_pos hsame] at hdelivery
        refine .inr ⟨by simp [forwarded?, hget, htarget, hsame], ?_⟩
        simp only [perform, redistribute, hget, htarget, hdelivery]
        exact ⟨trivial, fun q h => by cases h⟩
      · rw [if_neg hsame] at hdelivery
        refine .inl ⟨{ message := m
                       targets := [⟨origin.queue, .ignore⟩, ⟨target.queue, .route⟩] },
          target.queue, by simp [forwarded?, hget, htarget, hsame], rfl, rfl, rfl, ?_⟩
        simp only [perform, redistribute, hget, htarget, hdelivery]
        rcases b.dispatch _ transaction with ⟨c, result⟩
        cases result <;> rfl

/-- A forwarding call makes its delivery, or does nothing. -/
theorem perform_forwarding {c : Command} (hc : c.isForwarding = true) :
    (∃ d, b.forwarded? c = some d ∧ d.stage = none ∧
      (b.perform c).1 = (b.dispatch d c.forwardedIn?).1) ∨
    (b.forwarded? c = none ∧ (b.perform c).1 = b) := by
  cases c with
  | reroute n m binding transaction =>
    cases hget : (b.office n).desk.registry.get? binding with
    | none =>
      refine .inr ⟨by simp [forwarded?, hget], ?_⟩
      simp only [perform, reroute, hget]
      rfl
    | some target =>
      have hto : Delivery.toQueues m [target.queue] =
        .ok { message := m, targets := [⟨target.queue, .route⟩] } := rfl
      refine .inl ⟨_, by simp only [forwarded?, hget]; rfl, rfl, ?_⟩
      simp only [perform, reroute, hget, hto]
      exact view_finish ..
  | redistribute n m binding transaction =>
    rcases b.perform_redistribute n m binding transaction with
      ⟨d, q, hd, -, hstage, -, heq⟩ | ⟨hnone, heq, -⟩
    · exact .inl ⟨d, hd, hstage, congrArg Prod.fst heq⟩
    · exact .inr ⟨hnone, heq⟩
  | _ => cases hc

/-! ## Requests -/

/-- What a run may ask, if every queue is always to accept or always to refuse: no queue is told to
do otherwise, and what is forwarded in a transaction goes to a queue that accepts. -/
def permits (b : Broker) : Command → Bool
  | .setMailbox queue mode =>
    let m : Mailbox := { b.mailbox queue with mode }
    m.Steadfast && m.refusal?.isNone == (b.mailbox queue).refusal?.isNone
  | c => c.forwardedIn?.isNone ||
    (b.forwarded? c).all fun d => d.routedQueues.all fun q => (b.mailbox q).refusal?.isNone

/-- A message forwarded at the first broker leaves the two akin. -/
theorem Akin.forward (h : Akin A b b') {c : Command} (hc : c.isForwarding = true)
    (hpermits : b.permits c = true) : Akin A (b.perform c).1 b' := by
  rcases b.perform_forwarding hc with ⟨d, hd, hstage, heq⟩ | ⟨-, heq⟩
  · rw [heq]
    refine h.dispatch_left hstage fun htransaction => ?_
    have hqueues : d.routedQueues.all (fun q => (b.mailbox q).refusal?.isNone) = true := by
      have hsome : c.forwardedIn?.isNone = false := by
        rw [← Option.not_isSome, htransaction]
        rfl
      cases c with
      | reroute n m binding transaction => simpa [permits, hd, hsome] using hpermits
      | redistribute n m binding transaction => simpa [permits, hd, hsome] using hpermits
      | _ => cases hc
    rw [← hqueues]
    exact List.all_congr rfl fun q => (h.accepts q).symm
  · rw [heq]
    exact h

theorem core_enqueueFrom (b : Broker) (message : Nat) (accepted queues : List String) :
    (b.enqueueFrom message accepted queues).1.core = b.core := by
  induction queues generalizing b accepted with
  | nil => rfl
  | cons q rest ih =>
    have hfirst : (b.enqueue q message).1.core = b.core := core_log_of_not rfl
    simp only [enqueueFrom]
    split
    · rename_i heq
      rwa [heq] at hfirst
    · rename_i heq
      rw [heq] at hfirst
      exact (ih _ _).trans hfirst

theorem core_withdrawAll (b : Broker) (message : Nat) (accepted : List String) :
    (b.withdrawAll message accepted).core = b.core :=
  List.foldlRecOn (motive := fun c : Broker => c.core = b.core) _ _ rfl
    fun _ h _ _ => (core_log_of_not rfl).trans h

theorem core_addOperation (b : Broker) (n : Nat) (op : Operation) :
    (b.addOperation n op).1.core = b.core := by
  unfold addOperation
  split
  · cases n <;> rfl
  · rfl

theorem core_dispatch {d : Delivery} (hd : d.stage = none) (b : Broker)
    (transaction : Option Nat) : (b.dispatch d transaction).1.core = b.core := by
  cases transaction with
  | none =>
    have hplaced := core_enqueueFrom b d.message.id [] d.routedQueues
    rw [dispatch, deliver, tryDelivery_unstaged hd, enqueueTargets]
    rcases hb : b.enqueueFrom d.message.id [] d.routedQueues with ⟨c, accepted, result⟩
    rw [hb] at hplaced
    cases result with
    | error e =>
      dsimp only
      rw [rollbackDelivery_unstaged hd, core_withdrawAll]
      exact hplaced
    | ok _ =>
      dsimp only
      rw [commitDelivery_unstaged hd]
      exact hplaced
  | some n =>
    have hadded := core_addOperation b n (.delivery { delivery := d })
    rcases hb : b.addOperation n (.delivery { delivery := d }) with ⟨c, result⟩
    rw [hb] at hadded
    simp only [dispatch, hb]
    cases result with
    | error e =>
      dsimp only
      rw [rollbackDelivery_unstaged hd]
      exact hadded
    | ok _ => exact hadded

/-- A forwarding call leaves everything but queues and transactions as it is. -/
theorem core_forwarding {c : Command} (hc : c.isForwarding = true) :
    (b.perform c).1.core = b.core := by
  rcases b.perform_forwarding hc with ⟨d, -, hstage, heq⟩ | ⟨-, heq⟩
  · rw [heq]
    exact core_dispatch hstage ..
  · rw [heq]

/-- A forwarding call never waits. -/
theorem forwarding_answers {c : Command} (hc : c.isForwarding = true) :
    (b.perform c).2 ≠ .waiting := by
  cases c with
  | reroute n m binding transaction =>
    intro h
    cases h
  | redistribute n m binding transaction =>
    simp only [perform]
    split <;> exact fun h => by cases h
  | _ => cases hc

/-- The modes of queues are changed at both brokers. -/
theorem Akin.setMode (h : Akin A b b') (queue : String) {mode : MailboxMode}
    (hsteadfast : ({ b.mailbox queue with mode } : Mailbox).Steadfast)
    (hsame : ({ b.mailbox queue with mode } : Mailbox).refusal?.isNone =
      (b.mailbox queue).refusal?.isNone) :
    Akin A (b.setMailbox queue { b.mailbox queue with mode })
      (b'.setMailbox queue { b'.mailbox queue with mode }) := by
  exact h.setMailboxes ((h.mailbox queue).setMode hsteadfast hsame)
    (hsame.trans (h.accepts queue))

/-- Whatever else is asked, akin brokers answer alike. -/
theorem concur_perform (h : Akin A b b') {c : Command} (hc : c.isForwarding = false)
    (hpermits : b.permits c = true) : Concur A (b.perform c) (b'.perform c) := by
  have hR := stayAbreast_akin (A := A)
  rw [concur_iff]
  cases c with
  | setMailbox queue mode =>
    obtain ⟨hsteadfast, hsame⟩ : ({ b.mailbox queue with mode } : Mailbox).Steadfast ∧
        ({ b.mailbox queue with mode } : Mailbox).refusal?.isNone =
          (b.mailbox queue).refusal?.isNone := by
      simpa [permits] using hpermits
    exact abreast (h.setMode queue hsteadfast hsame) _
  | bind desk binding => exact (hR.bind h ..).map _
  | unbind desk name => exact (hR.unbind h ..).map _
  | resolve desk address create => exact (hR.resolve h ..).map _
  | resolveAll desk addresses =>
    simp only [perform]
    rw [h.deskAt]
    exact abreast (hR.setRegistry h ..) _
  | newCache address capacity => exact (concur_iff.1 (concur_newCache h ..)).map _
  | openCache office address => exact abreast (h.openOfficeCache ..) _
  | stage ticket cache duplicateId owner => exact (hR.submitCall h _).map _
  | commitStage held => exact abreast (hR.commitStage h held) _
  | rollbackStage held => exact abreast (hR.rollbackStage h held) _
  | openPlain settings =>
    simp only [perform]
    split
    · exact (concur_iff.1 (concur_openPlain h settings)).map _
    · exact abreast h _
  | start settings =>
    simp only [perform]
    split
    · obtain ⟨c, c', result, hb, hb', hc⟩ := (concur_start h settings).split
      rw [hb, hb']
      cases result <;> exact abreast hc _
    · exact abreast h _
  | writeNext office => exact abreast (h.writeNext office) _
  | flush office => exact abreast (h.flush office) _
  | flushAll => exact abreast h.flushAll _
  | stop office => exact abreast ((h.flush office).modifyOffice office _) _
  | route office ticket message transaction rejectDuplicates => exact (hR.route h ..).map _
  | reroute _ _ _ _ => cases hc
  | redistribute _ _ _ _ => cases hc
  | resume => exact abreast (hR.resume h) _
  | defer => exact abreast (hR.defer h) _
  | settle => exact abreast (hR.settle h) _
  | begin xid =>
    have hadded := h.addTransaction { xid }
    exact ⟨hadded, congrArg Reply.number hadded.length⟩
  | addHook transaction hook => exact (hR.addOperation h ..).map _
  | mark transaction reason => exact abreast (h.mark ..) _
  | prepare transaction => exact (hR.prepare h _).map _
  | commit transaction => exact (hR.commit h _).map _
  | rollback transaction => exact (hR.rollback h _).map _
  | prepareBranch desk transaction => exact (hR.prepareBranch h ..).map _
  | commitBranch desk xid => exact (hR.commitBranch h ..).map _
  | rollbackBranch desk xid => exact (hR.rollbackBranch h ..).map _
  | write entry => exact (concur_iff.1 (concur_write h ..)).map _
  | failing methods =>
    simp only [perform]
    rw [h.storage]
    exact abreast (h.setStorage _) _
  | replaceFile place =>
    simp only [perform]
    rw [h.storage]
    exact abreast (h.setStorage _) _
  | openFile =>
    simp only [perform]
    rw [h.storage]
    split <;> exact abreast (h.setStorage _) _
  | cutFile keep =>
    simp only [perform]
    rw [h.storage]
    exact abreast (h.setStorage _) _
  | blockCompaction =>
    simp only [perform]
    rw [h.storage]
    exact abreast (h.setStorage _) _
  | compact =>
    simp only [perform]
    rw [h.storage]
    split <;> exact abreast (h.setStorage _) _

/-! ## Runs -/

/-- What comes of the requests of a run that forward nothing. -/
def otherOutcomes (b : Broker) (cs : List Command) : List Outcome :=
  ((b.steps cs).filter fun s => !s.2.isForwarding).map fun s => s.1.outcome s.2

theorem Akin.answers (h : Akin A b b') : b'.answers = b.answers := by
  have hcore : ∀ c : Broker, c.answers = (Broker.core c).trace.filter Event.isAnswer := fun c => by
    show _ = (c.trace.filter Event.isCore).filter Event.isAnswer
    rw [Broker.answers, List.filter_filter]
    refine List.filter_congr fun e _ => ?_
    cases e <;> rfl
  rw [hcore, hcore, h.core]

/-- A run, and the same run without forwarded messages. -/
theorem akin_run (h : Akin A b b') {cs : List Command}
    (hcs : b.Throughout (fun b c => b.permits c = true) cs) :
    Akin A (b.run cs) (b'.run (Command.others cs)) ∧
      b'.outcomes (Command.others cs) = b.otherOutcomes cs := by
  induction cs generalizing b b' with
  | nil => exact ⟨h, rfl⟩
  | cons c rest ih =>
    obtain ⟨hpermits, hrest⟩ := hcs
    unfold Command.others otherOutcomes steps
    cases hc : c.isForwarding with
    | true =>
      rw [List.filter_cons_of_neg (by simp [hc]), List.filter_cons_of_neg (by simp [hc])]
      exact ih (h.forward hc hpermits) hrest
    | false =>
      have hconcur := concur_perform h hc hpermits
      obtain ⟨hakin, houtcomes⟩ := ih hconcur.akin hrest
      rw [List.filter_cons_of_pos (by simp [hc]), List.filter_cons_of_pos (by simp [hc])]
      refine ⟨hakin, ?_⟩
      have houtcome : b'.outcome c = b.outcome c := by
        rw [outcome, outcome, hconcur.answer, hconcur.akin.answers, h.answers]
      show b'.outcome c :: (b'.perform c).1.outcomes (Command.others rest) =
        b.outcome c :: (b.perform c).1.otherOutcomes rest
      rw [houtcome, houtcomes]

end Broker

end MessageRouting
