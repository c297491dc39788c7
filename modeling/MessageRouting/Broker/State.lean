import MessageRouting.Duplicate.Cache
import MessageRouting.Journal.Storage
import MessageRouting.Mailbox
import MessageRouting.Office
import MessageRouting.Transaction

/-!
# The state of a broker

Everything that routing reads and changes: queues, the journal, post offices
and their caches, transactions, and the calls that wait for somebody else's
stage. What the broker does to others, and what becomes of stages, is written
to its trace.

Results:

* `cache_setCache`, `office_modifyOffice`, `transaction_modifyTransaction`: what
  has been changed is found, and everything else of its kind is as it was.
-/

namespace MessageRouting

/-! ## Calls that may wait -/

/-- What a routing call that stages an identifier goes on to do. -/
structure Routing where
  office : Nat
  transaction : Option Nat
  rejectDuplicates : Bool
  delivery : Delivery
  deriving DecidableEq, Repr

/-- What the stage is wanted for. -/
inductive Purpose where
  | stage
  | route (r : Routing)
  deriving DecidableEq, Repr

/-- A call that asks for a stage. The ticket tells whose call it is. -/
structure Call where
  ticket : Nat
  cache : CacheRef
  duplicateId : Bytes
  owner : Owner
  purpose : Purpose
  deriving DecidableEq, Repr

/-- What a routing call has done. -/
structure RoutingOutcome where
  queues : List String := []
  staged : Bool := false
  /-- Whether the message is a duplicate that was let through. -/
  acceptedDuplicate : Bool := false
  deriving DecidableEq, Repr, Inhabited

/-- How a call ends. -/
inductive Answer where
  | stage (o : StageOutcome)
  | routed (o : RoutingOutcome)
  | refused (e : RoutingError)
  deriving DecidableEq, Repr

/-! ## The trace -/

/-- Who makes a journal call: whoever is routing, or the writer of a post office. -/
inductive JournalCaller where
  | inline
  | writer
  deriving DecidableEq, Repr

inductive JournalCall where
  | write (e : Entry)
  | addresses
  | load (address : Address)
  | prepared
  deriving DecidableEq, Repr

/-- What a hook finds when it acts. -/
inductive HookResult where
  | rollbackOnly (b : Bool)
  | operations (n : Nat)
  | refused
  | state (s : TransactionState)
  deriving DecidableEq, Repr

/-- Something the broker does to others or tells them, or that becomes of a stage. -/
inductive Event where
  | enqueued (queue : String) (message : Nat) (refusal : Option QueueRefusal)
  | withdrawn (queue : String) (message : Nat) (refusal : Option QueueRefusal)
  /-- An operation of a transaction is called. -/
  | called (transaction : Nat) (operation : Nat) (phase : Phase)
  /-- A hook notices that it is called. -/
  | hook (name : String) (phase : Phase)
  | acted (name : String) (phase : Phase) (action : HookAction) (result : HookResult)
  | journal (caller : JournalCaller) (call : JournalCall) (done : Bool)
  /-- A stage is granted. -/
  | granted (stage : HeldStage)
  /-- The identifier of a stage becomes visible. -/
  | promoted (stage : HeldStage) (promotion : Promotion)
  /-- A stage is dropped. -/
  | dropped (stage : HeldStage)
  /-- A call that had to wait has ended. -/
  | answered (ticket : Nat) (answer : Answer)
  deriving DecidableEq, Repr

/-! ## The state -/

/-- The state of a broker. Transactions are numbered from one, post offices from zero. -/
structure Broker where
  mailboxes : Table String Mailbox := {}
  storage : Storage := {}
  offices : List Office := []
  caches : Table CacheRef Cache := {}
  transactions : List Transaction := []
  /-- The bindings and branches that belong to no post office. -/
  desk : Desk := {}
  /-- The calls that wait, in the order they began to. -/
  waiting : List Call := []
  /-- The calls that may try again, in order. -/
  ready : List Call := []
  trace : List Event := []
  deriving DecidableEq, Repr, Inhabited

namespace Broker

/-- Writes an event to the trace. -/
def log (b : Broker) (e : Event) : Broker := { b with trace := b.trace ++ [e] }

/-! ## Mailboxes -/

/-- The queue of that name; a queue not heard of before accepts. -/
def mailbox (b : Broker) (queue : String) : Mailbox := (b.mailboxes.get? queue).getD {}

def setMailbox (b : Broker) (queue : String) (m : Mailbox) : Broker :=
  { b with mailboxes := b.mailboxes.insert queue m }

/-- Makes the queue, unless there is one of that name. -/
def openMailbox (b : Broker) (queue : String) : Broker := b.setMailbox queue (b.mailbox queue)

/-! ## Post offices and desks -/

def office (b : Broker) (n : Nat) : Office := b.offices.getD n default

def modifyOffice (b : Broker) (n : Nat) (f : Office → Office) : Broker :=
  { b with offices := b.offices.modify n f }

/-- The desk of a post office, or the one that belongs to none. -/
def deskAt (b : Broker) : Option Nat → Desk
  | some n => (b.office n).desk
  | none => b.desk

def setDesk (b : Broker) (n : Option Nat) (d : Desk) : Broker :=
  match n with
  | some n => b.modifyOffice n fun o => { o with desk := d }
  | none => { b with desk := d }

def setRegistry (b : Broker) (n : Option Nat) (r : Registry) : Broker :=
  b.setDesk n { b.deskAt n with registry := r }

def setBranches (b : Broker) (n : Option Nat) (t : Table Xid Nat) : Broker :=
  b.setDesk n { b.deskAt n with branches := t }

/-- Tells the subscribers of a post office. -/
def notify (b : Broker) (n : Nat) (what : Notification) : Broker :=
  b.modifyOffice n fun o => { o with channel := o.channel.send what }

/-- A changed post office is found, and every other one is as it was. -/
theorem office_modifyOffice (b : Broker) {n : Nat} (m : Nat) (f : Office → Office)
    (h : n < b.offices.length) :
    (b.modifyOffice n f).office m = if n = m then f (b.office m) else b.office m := by
  simp only [modifyOffice, office, List.getD_eq_getElem?_getD, List.getElem?_modify]
  split
  · subst_vars
    simp [h]
  · simp

/-! ## Caches -/

/-- The cache; one that has not been made remembers nothing. -/
def cache (b : Broker) (ref : CacheRef) : Cache :=
  (b.caches.get? ref).getD { address := default, capacity := 0 }

def setCache (b : Broker) (ref : CacheRef) (c : Cache) : Broker :=
  { b with caches := b.caches.insert ref c }

/-- Makes an empty cache, unless it is there. -/
def openCache (b : Broker) (ref : CacheRef) (address : Address) (capacity : Nat) : Broker :=
  if b.caches.contains ref then b
  else b.setCache ref { address, capacity }

/-- The cache of an address at a post office, made on first use. -/
def openOfficeCache (b : Broker) (n : Nat) (address : Address) : Broker :=
  b.openCache (.office n address) address (b.office n).settings.idCacheCapacity

/-- When the commits of a cache are written to the journal; none if they never are. -/
def persistenceOf (b : Broker) : CacheRef → Option PersistenceMode
  | .office n _ => (b.office n).persistence
  | .standalone _ => none

/-- A changed cache is found, and every other one is as it was. -/
theorem cache_setCache (b : Broker) (ref ref' : CacheRef) (c : Cache) :
    (b.setCache ref c).cache ref' = if ref = ref' then c else b.cache ref' := by
  simp only [setCache, cache, Table.get?_insert]
  split <;> rfl

/-! ## Transactions -/

/-- The transaction of that number; one that is not there takes no request. -/
def transaction (b : Broker) : Nat → Transaction
  | 0 => default
  | i + 1 => b.transactions.getD i default

def modifyTransaction (b : Broker) (n : Nat) (f : Transaction → Transaction) : Broker :=
  match n with
  | 0 => b
  | i + 1 => { b with transactions := b.transactions.modify i f }

/-- A changed transaction is found, and every other one is as it was. -/
theorem transaction_modifyTransaction (b : Broker) {n : Nat} (m : Nat)
    (f : Transaction → Transaction) (h₀ : 0 < n) (h : n ≤ b.transactions.length) :
    (b.modifyTransaction n f).transaction m =
      if n = m then f (b.transaction m) else b.transaction m := by
  obtain ⟨i, rfl⟩ := Nat.exists_eq_add_one.2 h₀
  cases m with
  | zero => simp [transaction]
  | succ j =>
    simp only [modifyTransaction, transaction, List.getD_eq_getElem?_getD, List.getElem?_modify]
    by_cases hij : i = j
    · subst hij
      simp [show i < b.transactions.length by omega]
    · simp [hij]

/-- The transaction added last. -/
def lastTransaction (b : Broker) : Nat := b.transactions.length

def addTransaction (b : Broker) (t : Transaction) : Broker :=
  { b with transactions := b.transactions ++ [t] }

/-- Changes the operation at an index of a transaction. -/
def modifyOperation (b : Broker) (n i : Nat) (f : PendingDelivery → PendingDelivery) : Broker :=
  b.modifyTransaction n fun t =>
    { t with operations := t.operations.modify i fun
      | .delivery d => .delivery (f d)
      | .hook h => .hook h }

end Broker

end MessageRouting
