import MessageRouting.Proofs.Broker.RelatedBrokers
import MessageRouting.Proofs.Routing.FailedDeliveries
import MessageRouting.Proofs.Transaction.OperationPlaces

/-!
# Bystanders of a transaction

A delivery that has staged nothing, to queues that all accept, is a bystander of
its transaction: whatever becomes of the transaction, the delivery does not fail
it, and neither caches nor the journal hear of it. Brokers are akin if their
transactions are the same but for bystanders, and if their queues accept the
same, whatever these hold.

Results:

* `filter_modify_of_pos`: an item changed in a list is changed in a part of it.
* `Akin.call_bystander`: a bystander that is called does not matter.
* `concur_callParty`: any other operation fares the same at akin brokers,
  wherever it stands.
-/

namespace MessageRouting

/-! ## Parts of a list -/

section Parts

variable {α : Type} {p : α → Bool}

/-- An item of the part stands there behind the items of the part that come before it. -/
theorem getElem?_filter_countP {l : List α} {i : Nat} {a : α} (hl : l[i]? = some a)
    (ha : p a = true) : (l.filter p)[(l.take i).countP p]? = some a := by
  induction l generalizing i with
  | nil => cases hl
  | cons x rest ih =>
    cases i with
    | zero =>
      obtain rfl : x = a := by simpa using hl
      simp [ha]
    | succ i =>
      have hrest := ih (i := i) (by simpa using hl)
      by_cases hx : p x = true
      · simpa [List.filter_cons, hx, List.countP_cons] using hrest
      · simpa [List.filter_cons, hx, List.countP_cons] using hrest

/-- An item of the part is changed there too. -/
theorem filter_modify_of_pos {g : α → α} (hg : ∀ a, p (g a) = p a) {l : List α} {i : Nat} {a : α}
    (hl : l[i]? = some a) (ha : p a = true) :
    (l.modify i g).filter p = (l.filter p).modify ((l.take i).countP p) g := by
  induction l generalizing i with
  | nil => cases hl
  | cons x rest ih =>
    cases i with
    | zero =>
      obtain rfl : x = a := by simpa using hl
      simp [ha, hg]
    | succ i =>
      have hrest := ih (i := i) (by simpa using hl)
      by_cases hx : p x = true
      · simpa [List.filter_cons, hx, List.countP_cons] using hrest
      · simpa [List.filter_cons, hx, List.countP_cons] using hrest

/-- An item beyond the part may change unnoticed. -/
theorem filter_modify_of_neg {g : α → α} (hg : ∀ a, p (g a) = p a) {l : List α} {i : Nat} {a : α}
    (hl : l[i]? = some a) (ha : p a = false) : (l.modify i g).filter p = l.filter p := by
  induction l generalizing i with
  | nil => cases hl
  | cons x rest ih =>
    cases i with
    | zero =>
      obtain rfl : x = a := by simpa using hl
      simp [ha, hg]
    | succ i =>
      have hrest := ih (i := i) (by simpa using hl)
      simp [List.filter_cons, hrest]

end Parts

/-! ## Bystanders -/

/-- Whether the event tells of a cache, of the journal, or of a call that had to wait. -/
def Event.isCore : Event → Bool
  | .journal _ _ _ => true
  | .granted _ => true
  | .promoted _ _ => true
  | .dropped _ => true
  | .answered _ _ => true
  | _ => false

namespace Operation

/-- Whether the operation is a bystander where the queues `A` accept. -/
def isBystander (A : String → Bool) : Operation → Bool
  | .delivery d => d.delivery.stage.isNone && d.delivery.routedQueues.all A
  | .hook _ => false

/-- Whether the operation has a say in what becomes of its transaction, or leaves something behind
besides its message. -/
def isParty (A : String → Bool) (op : Operation) : Bool := !op.isBystander A

variable {A : String → Bool}

theorem isParty_asGiven (op : Operation) : op.asGiven.isParty A = op.isParty A := by
  cases op <;> rfl

/-- The operation after a change of what a delivery has noted. -/
def noted (f : PendingDelivery → PendingDelivery) : Operation → Operation
  | .delivery d => .delivery (f d)
  | .hook h => .hook h

theorem isParty_noted {f : PendingDelivery → PendingDelivery}
    (hf : ∀ d, (f d).delivery = d.delivery) (op : Operation) :
    (op.noted f).isParty A = op.isParty A := by
  cases op with
  | delivery d => simp only [noted, isParty, isBystander, hf]
  | hook h => rfl

/-- A bystander is a delivery. -/
theorem delivery_of_bystander {op : Operation} (h : op.isParty A = false) :
    ∃ d : PendingDelivery, op = .delivery d ∧ d.delivery.stage = none ∧
      d.delivery.routedQueues.all A = true := by
  cases op with
  | delivery d =>
    obtain ⟨hstage, hqueues⟩ : d.delivery.stage.isNone = true ∧
        d.delivery.routedQueues.all A = true := by simpa [isParty, isBystander] using h
    exact ⟨d, rfl, Option.isNone_iff_eq_none.1 hstage, hqueues⟩
  | hook h' => cases h

end Operation

namespace Transaction

/-- The operations that have a say. -/
def parties (A : String → Bool) (t : Transaction) : List Operation :=
  t.operations.filter (Operation.isParty A)

/-- The same transaction but for bystanders. -/
structure Akin (A : String → Bool) (t t' : Transaction) : Prop where
  xid : t'.xid = t.xid
  state : t'.state = t.state
  rollbackOnly : t'.rollbackOnly = t.rollbackOnly
  parties : t'.parties A = t.parties A

variable {A : String → Bool} {t t' : Transaction}

theorem Akin.refl (t : Transaction) : Akin A t t := ⟨rfl, rfl, rfl, rfl⟩

theorem Akin.symm (h : Akin A t t') : Akin A t' t :=
  ⟨h.xid.symm, h.state.symm, h.rollbackOnly.symm, h.parties.symm⟩

theorem Akin.require (h : Akin A t t') (number : Nat) (allowed : List TransactionState)
    (request : TransactionRequest) :
    t'.require number allowed request = t.require number allowed request := by
  rw [Transaction.require, Transaction.require, h.state]

theorem Akin.append (h : Akin A t t') (op : Operation) :
    Akin A { t with operations := t.operations ++ [op] }
      { t' with operations := t'.operations ++ [op] } := by
  refine ⟨h.xid, h.state, h.rollbackOnly, ?_⟩
  show (t'.operations ++ [op]).filter _ = (t.operations ++ [op]).filter _
  rw [List.filter_append, List.filter_append]
  exact congrArg (· ++ _) h.parties

/-- Bystanders may come. -/
theorem Akin.append_bystander (h : Akin A t t') {op : Operation} (hop : op.isParty A = false) :
    Akin A { t with operations := t.operations ++ [op] } t' := by
  refine ⟨h.xid, h.state, h.rollbackOnly, h.parties.trans ?_⟩
  show _ = (t.operations ++ [op]).filter _
  rw [List.filter_append, List.filter_singleton, hop]
  simp [Transaction.parties]

end Transaction

namespace Broker

/-- The broker without queues and transactions, and without what the trace tells of them. -/
def core (b : Broker) : Broker :=
  { b with mailboxes := {}, transactions := [], trace := b.trace.filter Event.isCore }

/-- The second broker is the first but for bystanders and for what its queues hold. Of its queues
exactly those in `A` accept. -/
structure Akin (A : String → Bool) (b b' : Broker) : Prop where
  core : b'.core = b.core
  mailbox : ∀ q, (b.mailbox q).Matches (b'.mailbox q)
  accepts : ∀ q, (b.mailbox q).refusal?.isNone = A q
  length : b'.transactions.length = b.transactions.length
  transaction : ∀ n, (b.transaction n).Akin A (b'.transaction n)

/-- The same answer from brokers that are akin. -/
structure Concur {α : Type} (A : String → Bool) (r r' : Broker × α) : Prop where
  akin : Akin A r.1 r'.1
  answer : r'.2 = r.2

variable {A : String → Bool} {b b' c c' : Broker} {n : Nat} {α : Type}

theorem Akin.concur (h : Akin A b b') (a : α) : Concur A (b, a) (b', a) := ⟨h, rfl⟩

theorem Concur.split {r r' : Broker × α} (h : Concur A r r') :
    ∃ c c' a, r = (c, a) ∧ r' = (c', a) ∧ Akin A c c' :=
  ⟨r.1, r'.1, r.2, rfl, Prod.ext rfl h.answer, h.akin⟩

theorem akin_self (hb : ∀ q, (b.mailbox q).Steadfast) :
    Akin (fun q => (b.mailbox q).refusal?.isNone) b b :=
  ⟨rfl, fun q => ⟨rfl, hb q, hb q⟩, fun _ => rfl, rfl, fun _ => .refl _⟩

theorem Akin.symm (h : Akin A b b') : Akin A b' b where
  core := h.core.symm
  mailbox q := ⟨(h.mailbox q).mode.symm, (h.mailbox q).steadfast', (h.mailbox q).steadfast⟩
  accepts q := by
    have hq := h.mailbox q
    rw [hq.steadfast.refusal?_eq hq.steadfast' hq.mode, h.accepts]
  length := h.length.symm
  transaction n := (h.transaction n).symm

/-! ## What akin brokers share -/

theorem Akin.storage (h : Akin A b b') : b'.storage = b.storage :=
  (congrArg Broker.storage h.core :)

theorem Akin.offices (h : Akin A b b') : b'.offices = b.offices :=
  (congrArg Broker.offices h.core :)

theorem Akin.office (h : Akin A b b') (n : Nat) : b'.office n = b.office n := by
  rw [Broker.office, Broker.office, h.offices]

theorem Akin.caches (h : Akin A b b') : b'.caches = b.caches := (congrArg Broker.caches h.core :)

theorem Akin.cache (h : Akin A b b') (ref : CacheRef) : b'.cache ref = b.cache ref :=
  (congrArg (fun b : Broker => b.cache ref) h.core :)

theorem Akin.persistenceOf (h : Akin A b b') (ref : CacheRef) :
    b'.persistenceOf ref = b.persistenceOf ref :=
  (congrArg (fun b : Broker => b.persistenceOf ref) h.core :)

theorem Akin.deskAt (h : Akin A b b') (n : Option Nat) : b'.deskAt n = b.deskAt n := by
  cases n with
  | none => exact (congrArg Broker.desk h.core :)
  | some n => exact congrArg Office.desk (h.office n)

theorem Akin.waiting (h : Akin A b b') : b'.waiting = b.waiting :=
  (congrArg Broker.waiting h.core :)

theorem Akin.ready (h : Akin A b b') : b'.ready = b.ready := (congrArg Broker.ready h.core :)

theorem Akin.has (h : Akin A b b') (hn : b.Has n) : b'.Has n := by rwa [Has, h.length]

/-! ## Single changes -/

/-- A change of the core. -/
theorem Akin.change (h : Akin A b b') (hcore : c'.core = c.core)
    (hmailboxes : c.mailboxes = b.mailboxes ∧ c'.mailboxes = b'.mailboxes)
    (htransactions : c.transactions = b.transactions ∧ c'.transactions = b'.transactions) :
    Akin A c c' := by
  have hc : ∀ q, c.mailbox q = b.mailbox q := fun q => by
    rw [Broker.mailbox, Broker.mailbox, hmailboxes.1]
  have hc' : ∀ q, c'.mailbox q = b'.mailbox q := fun q => by
    rw [Broker.mailbox, Broker.mailbox, hmailboxes.2]
  refine ⟨hcore, fun q => ?_, fun q => ?_, ?_, fun n => ?_⟩
  · rw [hc, hc']
    exact h.mailbox q
  · rw [hc]
    exact h.accepts q
  · rw [htransactions.1, htransactions.2, h.length]
  · rw [transaction_of_transactions htransactions.1, transaction_of_transactions htransactions.2]
    exact h.transaction n

theorem core_log (b : Broker) (e : Event) :
    (b.log e).core = { b.core with trace := b.core.trace ++ if e.isCore then [e] else [] } := by
  simp only [Broker.log, core, List.filter_append, List.filter_singleton, Bool.cond_eq_ite]

theorem core_log_of_not {e : Event} (he : e.isCore = false) : (b.log e).core = b.core := by
  rw [core_log, he]
  simp

theorem Akin.log (h : Akin A b b') (e : Event) : Akin A (b.log e) (b'.log e) :=
  h.change (by rw [core_log, core_log, h.core]) ⟨rfl, rfl⟩ ⟨rfl, rfl⟩

/-- What the core does not tell may be told otherwise. -/
theorem Akin.log_other (h : Akin A b b') {e e' : Event} (he : e.isCore = false)
    (he' : e'.isCore = false) : Akin A (b.log e) (b'.log e') :=
  h.change (by rw [core_log_of_not he, core_log_of_not he', h.core]) ⟨rfl, rfl⟩ ⟨rfl, rfl⟩

/-- What the core does not tell may go untold. -/
theorem Akin.log_left (h : Akin A b b') {e : Event} (he : e.isCore = false) :
    Akin A (b.log e) b' :=
  h.change (by rw [core_log_of_not he, h.core]) ⟨rfl, rfl⟩ ⟨rfl, rfl⟩

theorem Akin.setStorage (h : Akin A b b') (storage : Storage) :
    Akin A { b with storage } { b' with storage } :=
  h.change (congrArg (fun b : Broker => { b with storage }) h.core :) ⟨rfl, rfl⟩ ⟨rfl, rfl⟩

theorem Akin.setCache (h : Akin A b b') (ref : CacheRef) (c : Cache) :
    Akin A (b.setCache ref c) (b'.setCache ref c) :=
  h.change (congrArg (fun b : Broker => b.setCache ref c) h.core :) ⟨rfl, rfl⟩ ⟨rfl, rfl⟩

theorem Akin.wake (h : Akin A b b') (ref : CacheRef) : Akin A (b.wake ref) (b'.wake ref) :=
  h.change (congrArg (fun b : Broker => b.wake ref) h.core :) ⟨rfl, rfl⟩ ⟨rfl, rfl⟩

theorem Akin.modifyOffice (h : Akin A b b') (n : Nat) (f : Office → Office) :
    Akin A (b.modifyOffice n f) (b'.modifyOffice n f) :=
  h.change (congrArg (fun b : Broker => b.modifyOffice n f) h.core :) ⟨rfl, rfl⟩ ⟨rfl, rfl⟩

theorem Akin.notify (h : Akin A b b') (n : Nat) (what : Notification) :
    Akin A (b.notify n what) (b'.notify n what) := h.modifyOffice n _

theorem Akin.setDesk (h : Akin A b b') (n : Option Nat) (d : Desk) :
    Akin A (b.setDesk n d) (b'.setDesk n d) := by
  cases n with
  | some n => exact h.modifyOffice n _
  | none =>
    have hcore := congrArg (fun b : Broker => { b with desk := d }) h.core
    exact h.change hcore ⟨rfl, rfl⟩ ⟨rfl, rfl⟩

theorem Akin.submitFor (h : Akin A b b') (ref : CacheRef) (e : Entry) :
    Akin A (b.submitFor ref e) (b'.submitFor ref e) := by
  cases ref with
  | standalone n => exact h
  | office n a => exact h.modifyOffice n _

/-! ## One transaction changed -/

/-- The change of a transaction at both brokers. -/
theorem Akin.modifyTransactions (h : Akin A b b') {f f' : Transaction → Transaction}
    (hf : (f (b.transaction n)).Akin A (f' (b'.transaction n))) :
    Akin A (b.modifyTransaction n f) (b'.modifyTransaction n f') := by
  have hlength : ∀ (c : Broker) (g : Transaction → Transaction),
      (c.modifyTransaction n g).transactions.length = c.transactions.length := fun c g => by
    cases n with
    | zero => rfl
    | succ i => exact List.length_modify ..
  refine ⟨?_, fun q => ?_, fun q => ?_, ?_, fun m => ?_⟩
  · cases n <;> exact h.core
  · cases n <;> exact h.mailbox q
  · cases n <;> exact h.accepts q
  · rw [hlength, hlength, h.length]
  · by_cases hn : b.Has n
    · have hn' := h.has hn
      rw [transaction_modifyTransaction b m f hn.1 hn.2,
        transaction_modifyTransaction b' m f' hn'.1 hn'.2]
      split
      · subst m
        exact hf
      · exact h.transaction m
    · have hn' : ¬ b'.Has n := fun hn' => hn (h.symm.has hn')
      rw [view_modifyTransaction_of_not_has hn, view_modifyTransaction_of_not_has hn']
      exact h.transaction m

theorem Akin.modifyTransaction (h : Akin A b b') (n : Nat) {f : Transaction → Transaction}
    (hf : ∀ t t', t.Akin A t' → (f t).Akin A (f t')) :
    Akin A (b.modifyTransaction n f) (b'.modifyTransaction n f) :=
  h.modifyTransactions (hf _ _ (h.transaction n))

theorem modifyTransaction_id (b : Broker) (n : Nat) : b.modifyTransaction n id = b := by
  cases n with
  | zero => rfl
  | succ i => simp only [Broker.modifyTransaction, List.modify_id]

/-- A change that concerns bystanders only. -/
theorem Akin.modifyTransaction_left (h : Akin A b b') {f : Transaction → Transaction}
    (hf : (f (b.transaction n)).Akin A (b'.transaction n)) :
    Akin A (b.modifyTransaction n f) b' := by
  have hboth : Akin A (b.modifyTransaction n f) (b'.modifyTransaction n id) :=
    h.modifyTransactions hf
  rwa [modifyTransaction_id] at hboth

theorem Akin.setState (h : Akin A b b') (n : Nat) (s : TransactionState) :
    Akin A (b.setState n s) (b'.setState n s) :=
  h.modifyTransaction n fun _ _ ht => ⟨ht.xid, rfl, ht.rollbackOnly, ht.parties⟩

theorem Akin.mark (h : Akin A b b') (n : Nat) (reason : String) :
    Akin A (b.markRollbackOnly n reason) (b'.markRollbackOnly n reason) :=
  h.modifyTransaction n fun _ _ ht =>
    ⟨ht.xid, ht.state, congrArg (fun r => some (Option.getD r reason)) ht.rollbackOnly, ht.parties⟩

theorem Akin.addTransaction (h : Akin A b b') (t : Transaction) :
    Akin A (b.addTransaction t) (b'.addTransaction t) := by
  refine ⟨h.core, h.mailbox, h.accepts, ?_, fun m => ?_⟩
  · simp [Broker.addTransaction, h.length]
  · rw [transaction_addTransaction, transaction_addTransaction, h.length]
    split
    · exact .refl t
    · exact h.transaction m

theorem concur_addOperation (h : Akin A b b') (n : Nat) (op : Operation) :
    Concur A (b.addOperation n op) (b'.addOperation n op) := by
  unfold addOperation Transaction.addOperation
  rw [(h.transaction n).require]
  cases (b.transaction n).require n [.active] .addOperation with
  | error refusal => exact h.concur _
  | ok _ => exact ⟨h.modifyTransactions ((h.transaction n).append op), rfl⟩

/-- A bystander comes. -/
theorem Akin.addBystander (h : Akin A b b') (n : Nat) {op : Operation}
    (hop : op.isParty A = false) : Akin A (b.addOperation n op).1 b' := by
  unfold addOperation Transaction.addOperation
  cases (b.transaction n).require n [.active] .addOperation with
  | error refusal => exact h
  | ok _ => exact h.modifyTransaction_left ((h.transaction n).append_bystander hop)

/-! ## Seats -/

/-- How many parties of the transaction are registered before an operation. -/
def rank (A : String → Bool) (b : Broker) (n i : Nat) : Nat :=
  ((b.transaction n).operations.take i).countP (Operation.isParty A)

/-- The places `i` and `i'` of the transaction at the two brokers are those of the same party. -/
structure Seated (A : String → Bool) (n i i' : Nat) (b b' : Broker) : Prop where
  party : ∃ op, (b.transaction n).operations[i]? = some op ∧ op.isParty A = true
  party' : ∃ op, (b'.transaction n).operations[i']? = some op ∧ op.isParty A = true
  rank : b'.rank A n i' = b.rank A n i

variable {i i' : Nat}

theorem Seated.of_transactions (h : Seated A n i i' b b')
    (htransactions : c.transactions = b.transactions ∧ c'.transactions = b'.transactions) :
    Seated A n i i' c c' := by
  have hc := transaction_of_transactions htransactions.1 n
  have hc' := transaction_of_transactions htransactions.2 n
  refine ⟨hc ▸ h.party, hc' ▸ h.party', ?_⟩
  rw [Broker.rank, Broker.rank, hc, hc']
  exact h.rank

/-- The same operation has both seats. -/
theorem Seated.same (hseat : Seated A n i i' b b') (h : Akin A b b') :
    ∃ op, (b.transaction n).operations[i]? = some op ∧
      (b'.transaction n).operations[i']? = some op := by
  obtain ⟨op, hop, hparty⟩ := hseat.party
  obtain ⟨op', hop', hparty'⟩ := hseat.party'
  have hsome := getElem?_filter_countP hop hparty
  have hsome' := getElem?_filter_countP hop' hparty'
  have hrank : ((b'.transaction n).operations.take i').countP (Operation.isParty A) =
      ((b.transaction n).operations.take i).countP (Operation.isParty A) := hseat.rank
  have hparties : (b'.transaction n).operations.filter (Operation.isParty A) =
      (b.transaction n).operations.filter (Operation.isParty A) := (h.transaction n).parties
  rw [hrank, hparties, hsome] at hsome'
  obtain rfl := Option.some.inj hsome'
  exact ⟨op, hop, hop'⟩

theorem modifyOperation_eq (b : Broker) (n i : Nat) (f : PendingDelivery → PendingDelivery) :
    b.modifyOperation n i f =
      b.modifyTransaction n fun t => { t with operations := t.operations.modify i (.noted f) } :=
  rfl

/-- A party notes something. -/
theorem Akin.modifyOperation (h : Akin A b b') (hseat : Seated A n i i' b b')
    {f : PendingDelivery → PendingDelivery} (hf : ∀ d, (f d).delivery = d.delivery) :
    Akin A (b.modifyOperation n i f) (b'.modifyOperation n i' f) := by
  obtain ⟨op, hop, hparty⟩ := hseat.party
  obtain ⟨op', hop', hparty'⟩ := hseat.party'
  have ht := h.transaction n
  rw [modifyOperation_eq, modifyOperation_eq]
  refine h.modifyTransactions ⟨ht.xid, ht.state, ht.rollbackOnly, ?_⟩
  have hrank : ((b'.transaction n).operations.take i').countP (Operation.isParty A) =
      ((b.transaction n).operations.take i).countP (Operation.isParty A) := hseat.rank
  have hparties : (b'.transaction n).operations.filter (Operation.isParty A) =
      (b.transaction n).operations.filter (Operation.isParty A) := ht.parties
  rw [Transaction.parties, Transaction.parties,
    filter_modify_of_pos (Operation.isParty_noted hf) hop hparty,
    filter_modify_of_pos (Operation.isParty_noted hf) hop' hparty', hrank, hparties]

/-- A bystander notes something. -/
theorem Akin.modifyBystander (h : Akin A b b') {op : Operation}
    (hop : (b.transaction n).operations[i]? = some op) (hparty : op.isParty A = false)
    {f : PendingDelivery → PendingDelivery} (hf : ∀ d, (f d).delivery = d.delivery) :
    Akin A (b.modifyOperation n i f) b' := by
  have ht := h.transaction n
  rw [modifyOperation_eq]
  refine h.modifyTransaction_left ⟨ht.xid, ht.state, ht.rollbackOnly, ht.parties.trans ?_⟩
  rw [Transaction.parties, Transaction.parties,
    filter_modify_of_neg (Operation.isParty_noted hf) hop hparty]

/-! ## Stages and the journal -/

theorem concur_write (h : Akin A b b') (caller : JournalCaller) (e : Entry) :
    Concur A (b.write caller e) (b'.write caller e) := by
  simp only [write]
  rw [h.storage]
  exact ((h.setStorage _).log _).concur _

theorem concur_storePrepared (h : Akin A b b') (x : Xid) (g : HeldStage) :
    Concur A (b.storePrepared x g) (b'.storePrepared x g) := by
  unfold storePrepared
  rw [h.persistenceOf]
  split
  · exact concur_write h ..
  · exact h.concur _

/-! ## Queues -/

theorem refusal?_enqueue {m : Mailbox} (h : m.Steadfast) (message : Nat) :
    (m.enqueue message).1.refusal? = m.refusal? :=
  h.refusal?_eq (h.enqueue message) (Mailbox.mode_enqueue ..)

theorem refusal?_withdraw {m : Mailbox} (h : m.Steadfast) (message : Nat) :
    (m.withdraw message).1.refusal? = m.refusal? :=
  h.refusal?_eq (h.withdraw message) (Mailbox.mode_withdraw ..)

/-- A queue changes at both brokers, or at the first one alone, and goes on accepting or
refusing. -/
theorem Akin.setMailboxes (h : Akin A b b') {q : String} {m m' : Mailbox} (hm : m.Matches m')
    (haccepts : m.refusal?.isNone = A q) : Akin A (b.setMailbox q m) (b'.setMailbox q m') := by
  refine ⟨h.core, fun p => ?_, fun p => ?_, h.length, h.transaction⟩
  · rw [mailbox_setMailbox, mailbox_setMailbox]
    split
    · exact hm
    · exact h.mailbox p
  · rw [mailbox_setMailbox]
    split
    · subst p
      exact haccepts
    · exact h.accepts p

theorem Akin.setMailbox_left (h : Akin A b b') {q : String} {m : Mailbox}
    (hm : m.Matches (b'.mailbox q)) (haccepts : m.refusal?.isNone = A q) :
    Akin A (b.setMailbox q m) b' := by
  refine ⟨h.core, fun p => ?_, fun p => ?_, h.length, h.transaction⟩
  · rw [mailbox_setMailbox]
    split
    · subst p
      exact hm
    · exact h.mailbox p
  · rw [mailbox_setMailbox]
    split
    · subst p
      exact haccepts
    · exact h.accepts p

theorem concur_enqueue (h : Akin A b b') (q : String) (message : Nat) :
    Concur A (b.enqueue q message) (b'.enqueue q message) := by
  have hq := h.mailbox q
  obtain ⟨hmatches, hrefusal⟩ := hq.enqueue message
  refine ⟨?_, hrefusal⟩
  refine (h.setMailboxes hmatches ?_).log_other rfl rfl
  rw [refusal?_enqueue hq.steadfast, h.accepts]

theorem Akin.enqueue_left (h : Akin A b b') (q : String) (message : Nat) :
    Akin A (b.enqueue q message).1 b' := by
  have hq := h.mailbox q
  refine (h.setMailbox_left (hq.enqueue_beyond message) ?_).log_left rfl
  rw [refusal?_enqueue hq.steadfast, h.accepts]

theorem Akin.withdraw (h : Akin A b b') (message : Nat) (q : String) :
    Akin A (b.withdraw message q) (b'.withdraw message q) := by
  have hq := h.mailbox q
  refine (h.setMailboxes (hq.withdraw message) ?_).log_other rfl rfl
  rw [refusal?_withdraw hq.steadfast, h.accepts]

theorem Akin.withdraw_left (h : Akin A b b') (message : Nat) (q : String) :
    Akin A (b.withdraw message q) b' := by
  have hq := h.mailbox q
  refine (h.setMailbox_left (hq.withdraw_beyond message) ?_).log_left rfl
  rw [refusal?_withdraw hq.steadfast, h.accepts]

theorem concur_iff {r r' : Broker × α} : Concur A r r' ↔ Abreast (Akin A) r r' :=
  ⟨fun h => ⟨h.akin, h.answer⟩, fun h => ⟨h.related, h.answer⟩⟩

theorem stagesAbreast_akin : StagesAbreast (Akin A) where
  cache h := h.cache
  xid h n := (h.transaction n).xid
  setCache h := h.setCache
  grant h _ := h.log _
  promote h _ _ := h.log _
  drop h _ := h.log _
  wake h := h.wake
  submitFor h := h.submitFor
  inlined h ref e := by
    unfold inlined
    rw [h.persistenceOf]
    split
    · exact concur_iff.1 (concur_write h ..)
    · exact abreast h _
  handed h ref e := by
    unfold handed
    rw [h.persistenceOf]
    split
    · exact h.submitFor ..
    · exact h
  enqueue h q message := concur_iff.1 (concur_enqueue h q message)
  withdraw h := h.withdraw

theorem Akin.enqueueFrom_left (h : Akin A b b') (message : Nat) (accepted queues : List String) :
    Akin A (b.enqueueFrom message accepted queues).1 b' := by
  induction queues generalizing b accepted with
  | nil => exact h
  | cons q rest ih =>
    have hfirst := h.enqueue_left q message
    rcases hb : b.enqueue q message with ⟨c, refusal⟩
    rw [hb] at hfirst
    simp only [enqueueFrom, hb]
    cases refusal with
    | some refusal => exact hfirst
    | none => exact ih hfirst _

/-- Queues that accept take the message. -/
theorem Akin.enqueueFrom_ok (h : Akin A b b') (message : Nat) (accepted : List String)
    {queues : List String} (hqueues : queues.all A = true) :
    (b.enqueueFrom message accepted queues).2.2 = .ok () := by
  induction queues generalizing b accepted with
  | nil => rfl
  | cons q rest ih =>
    obtain ⟨hq, hrest⟩ : A q = true ∧ rest.all A = true := by simpa using hqueues
    have hnone : (b.mailbox q).refusal? = none :=
      Option.isNone_iff_eq_none.1 ((h.accepts q).trans hq)
    have haccepted : (b.enqueue q message).2 = none := by
      simp only [enqueue, Mailbox.enqueue, hnone]
    have hfirst := h.enqueue_left q message
    rcases hb : b.enqueue q message with ⟨c, refusal⟩
    rw [hb] at hfirst haccepted
    obtain rfl : refusal = none := haccepted
    simp only [enqueueFrom, hb]
    exact ih hfirst _ hrest

theorem Akin.withdrawAll_left (h : Akin A b b') (message : Nat) (accepted : List String) :
    Akin A (b.withdrawAll message accepted) b' := by
  unfold Broker.withdrawAll
  induction accepted.reverse generalizing b with
  | nil => exact h
  | cons q rest ih => exact ih (h.withdraw_left message q)

/-! ## A bystander called -/

section
variable {d : Delivery} (hd : d.stage = none)
include hd

theorem persist_unstaged (b : Broker) : b.persist d = (b, .ok ()) := by
  rw [persist, hd]

theorem commitDelivery_unstaged (b : Broker) : b.commitDelivery d = b := by
  rw [commitDelivery, hd]

theorem rollbackDelivery_unstaged (b : Broker) : b.rollbackDelivery d = b := by
  rw [rollbackDelivery, hd]

end

section
variable {d : PendingDelivery} (hd : d.delivery.stage = none)
include hd

theorem prepareDelivery_unstaged (b : Broker) (n i : Nat) :
    b.prepareDelivery n i d = (b, .ok ()) := by
  rw [prepareDelivery, hd]
  cases (b.transaction n).xid <;> rfl

theorem forgetPrepared_unstaged (b : Broker) (n : Nat) : b.forgetPrepared n d = b := by
  rw [forgetPrepared, hd]
  cases (b.transaction n).xid <;> exact ite_self b

end

/-- Whether a bystander is called does not matter, and nothing goes wrong. -/
theorem Akin.call_bystander (h : Akin A b b') {op : Operation}
    (hop : (b.transaction n).operations[i]? = some op) (hparty : op.isParty A = false)
    (phase : Phase) :
    (b.callOperation n phase i).2 = .ok () ∧ Akin A (b.callOperation n phase i).1 b' := by
  obtain ⟨d, rfl, hstage, hqueues⟩ := Operation.delivery_of_bystander hparty
  have hcalled := h.log_left (e := .called n i phase) rfl
  have hop' : ((b.log (.called n i phase)).transaction n).operations[i]? = some (.delivery d) :=
    hop
  unfold callOperation
  rw [hop]
  dsimp only
  generalize b.log (.called n i phase) = c at hcalled hop'
  cases phase with
  | beforePrepare =>
    rw [callDelivery, prepareDelivery_unstaged hstage]
    exact ⟨rfl, hcalled⟩
  | beforeCommit =>
    have hplaced := hcalled.enqueueFrom_left d.delivery.message.id [] d.delivery.routedQueues
    have hok := hcalled.enqueueFrom_ok d.delivery.message.id [] hqueues
    have htransactions := transactions_enqueueFrom c d.delivery.message.id []
      d.delivery.routedQueues
    rw [callDelivery, placeDelivery, enqueueTargets]
    rcases hres : c.enqueueFrom d.delivery.message.id [] d.delivery.routedQueues with
      ⟨f, accepted, result⟩
    rw [hres] at hplaced hok htransactions
    obtain rfl : result = .ok () := hok
    have hf : (f.transaction n).operations[i]? = some (.delivery d) := by
      rw [transaction_of_transactions htransactions, hop']
    dsimp only
    rw [persist_unstaged hstage]
    exact ⟨rfl, hplaced.modifyBystander hf hparty fun _ => rfl⟩
  | afterCommit =>
    rw [callDelivery, commitDelivery_unstaged hstage, forgetPrepared_unstaged hstage]
    exact ⟨rfl, hcalled⟩
  | afterRollback =>
    have hnoted := hcalled.modifyBystander hop' hparty (f := fun d => { d with accepted := [] })
      fun _ => rfl
    rw [callDelivery, Broker.undoDelivery, rollbackDelivery_unstaged hstage,
      forgetPrepared_unstaged hstage]
    exact ⟨rfl, hnoted.withdrawAll_left ..⟩

/-! ## A party called -/

theorem Akin.act (h : Akin A b b') (n : Nat) (a : HookAction) :
    Akin A (b.act n a).1 (b'.act n a).1 := by
  cases a with
  | mark reason => exact h.mark n reason
  | add name =>
    obtain ⟨c, c', result, hb, hb', hc⟩ := (concur_addOperation h n (.hook { name })).split
    simp only [Broker.act, hb, hb']
    cases result <;> exact hc
  | inspect => exact h

/-- What a hook finds may differ: it sees how many operations there are. -/
theorem Akin.actAll (h : Akin A b b') (n : Nat) (name : String) (phase : Phase)
    (actions : List HookAction) :
    Akin A (b.actAll n name phase actions) (b'.actAll n name phase actions) := by
  induction actions generalizing b b' with
  | nil => exact h
  | cons a rest ih =>
    have hfirst := h.act n a
    rcases hb : b.act n a with ⟨c, result⟩
    rcases hb' : b'.act n a with ⟨c', result'⟩
    rw [hb, hb'] at hfirst
    simp only [Broker.actAll, hb, hb']
    exact ih (hfirst.log_other rfl rfl)

theorem concur_callHook (h : Akin A b b') (n : Nat) (hook : Hook) (phase : Phase) :
    Concur A (b.callHook n hook phase) (b'.callHook n hook phase) := by
  unfold callHook
  split
  · exact h.concur _
  · exact ((h.log _).actAll ..).concur _

theorem concur_prepareDelivery (h : Akin A b b') (hseat : Seated A n i i' b b')
    (d : PendingDelivery) :
    Concur A (b.prepareDelivery n i d) (b'.prepareDelivery n i' d) := by
  unfold prepareDelivery
  rw [(h.transaction n).xid]
  split
  · rename_i x g _ _
    have hkept := transactions_storePrepared b x g
    have hkept' := transactions_storePrepared b' x g
    obtain ⟨c, c', result, hb, hb', hc⟩ := (concur_storePrepared h x g).split
    rw [hb] at hkept
    rw [hb'] at hkept'
    rw [hb, hb']
    cases result with
    | error e => exact hc.concur _
    | ok _ =>
      exact (hc.modifyOperation (hseat.of_transactions ⟨hkept, hkept'⟩)
        (f := fun d => { d with recorded := true }) fun _ => rfl).concur _
  · exact h.concur _

theorem concur_placeDelivery (h : Akin A b b') (hseat : Seated A n i i' b b')
    (d : PendingDelivery) :
    Concur A (b.placeDelivery n i d) (b'.placeDelivery n i' d) := by
  have hkept := transactions_enqueueFrom b d.delivery.message.id [] d.delivery.routedQueues
  have hkept' := transactions_enqueueFrom b' d.delivery.message.id [] d.delivery.routedQueues
  obtain ⟨c, c', ⟨accepted, result⟩, hb, hb', hc⟩ :=
    (stagesAbreast_akin.enqueueFrom h d.delivery.message.id [] d.delivery.routedQueues).split
  rw [hb] at hkept
  rw [hb'] at hkept'
  have hnoted := hc.modifyOperation (hseat.of_transactions ⟨hkept, hkept'⟩)
    (f := fun d => { d with accepted }) fun _ => rfl
  simp only [placeDelivery, enqueueTargets, hb, hb']
  cases result with
  | error e => exact hnoted.concur _
  | ok _ => exact concur_iff.2 (stagesAbreast_akin.persist hnoted d.delivery)

theorem Akin.undoDelivery (h : Akin A b b') (hseat : Seated A n i i' b b') (d : PendingDelivery) :
    Akin A (b.undoDelivery n i d) (b'.undoDelivery n i' d) := by
  have hnoted := h.modifyOperation hseat (f := fun d => { d with accepted := [] }) fun _ => rfl
  have hR := stagesAbreast_akin (A := A)
  exact hR.forgetPrepared (hR.rollbackDelivery (hR.withdrawAll hnoted ..) _) n d

/-- A party fares the same at both brokers. -/
theorem concur_callParty (h : Akin A b b') (hseat : Seated A n i i' b b') (phase : Phase) :
    Concur A (b.callOperation n phase i) (b'.callOperation n phase i') := by
  obtain ⟨op, hop, hop'⟩ := hseat.same h
  have hcalled : Akin A (b.log (.called n i phase)) (b'.log (.called n i' phase)) :=
    h.log_other rfl rfl
  have hsame : Seated A n i i' (b.log (.called n i phase)) (b'.log (.called n i' phase)) :=
    hseat.of_transactions ⟨rfl, rfl⟩
  unfold callOperation
  rw [hop, hop']
  cases op with
  | hook hook => exact concur_callHook hcalled n hook phase
  | delivery d =>
    cases phase with
    | beforePrepare => exact concur_prepareDelivery hcalled hsame d
    | beforeCommit => exact concur_placeDelivery hcalled hsame d
    | afterCommit =>
      have hcommitted := stagesAbreast_akin.commitDelivery hcalled d.delivery
      exact (stagesAbreast_akin.forgetPrepared hcommitted n d).concur _
    | afterRollback => exact (hcalled.undoDelivery hsame d).concur _

end Broker

end MessageRouting
