import MessageRouting.Broker.Opening

/-!
# Commands

Everything that can be asked of a broker, with what it replies. A run is a list
of commands. Calls that may try again do so when `resume` or `settle` says so, in
the order in which they have been woken unless `defer` changes it, and writers
write when `writeNext`, `flush` or `stop` says so. Thus a run fixes one
interleaving; and since any of the calls that may try again can be made the next
to do so, every interleaving is a run.

Results:

* `run_defer_resume`: any of the calls that may try again can be the next.
-/

namespace MessageRouting

/-- What can be asked of a broker. -/
inductive Command where
  | setMailbox (queue : String) (mode : MailboxMode)
  | bind (desk : Option Nat) (binding : Binding)
  | unbind (desk : Option Nat) (name : String)
  | resolve (desk : Option Nat) (address : Address) (create : Bool)
  | resolveAll (desk : Option Nat) (addresses : List Address)
  | newCache (address : Address) (capacity : Nat)
  | openCache (office : Nat) (address : Address)
  | stage (ticket : Nat) (cache : CacheRef) (duplicateId : Bytes) (owner : Owner)
  | commitStage (held : HeldStage)
  | rollbackStage (held : HeldStage)
  | openPlain (settings : Settings)
  | start (settings : Settings)
  | writeNext (office : Nat)
  | flush (office : Nat)
  | flushAll
  | stop (office : Nat)
  | route (office ticket : Nat) (message : Message) (transaction : Option Nat)
      (rejectDuplicates : Bool)
  | reroute (office : Nat) (message : Message) (binding : String) (transaction : Option Nat)
  | redistribute (office : Nat) (message : Message) (binding : String) (transaction : Option Nat)
  | resume
  | defer
  | settle
  | begin (xid : Option Xid)
  | addHook (transaction : Nat) (hook : Hook)
  | mark (transaction : Nat) (reason : String)
  | prepare (transaction : Nat)
  | commit (transaction : Nat)
  | rollback (transaction : Nat)
  | prepareBranch (desk : Option Nat) (transaction : Nat)
  | commitBranch (desk : Option Nat) (xid : Xid)
  | rollbackBranch (desk : Option Nat) (xid : Xid)
  | write (entry : Entry)
  | failing (methods : List JournalMethod)
  | replaceFile (place : Place)
  | openFile
  | cutFile (keep : Nat)
  | blockCompaction
  | compact
  deriving DecidableEq, Repr

/-- What a broker replies. -/
inductive Reply where
  | done
  /-- The call waits for somebody else's stage. -/
  | waiting
  | answered (a : Answer)
  | bound (b : Binding)
  | resolved (r : Option Resolution)
  /-- How many bindings were found, and for how many addresses. -/
  | counted (total hit : Nat)
  /-- The number of what has been made, or how many there are. -/
  | number (n : Nat)
  /-- There is nothing of the kind. -/
  | nothing
  /-- There is no room for a post office with such settings. -/
  | noRoom
  | redistributed (queue : Option String)
  | routingFailed (e : RoutingError)
  | transactionFailed (e : TransactionError)
  | journalFailed (e : JournalError)
  deriving DecidableEq, Repr

namespace Reply

def ofAnswer : Option Answer → Reply
  | some a => .answered a
  | none => .waiting

def ofBinding : Except RoutingError Binding → Reply
  | .ok b => .bound b
  | .error e => .routingFailed e

def ofCompletion : Except TransactionError Unit → Reply
  | .ok () => .done
  | .error e => .transactionFailed e

def ofRefusal : Except TransactionRefusal Unit → Reply
  | .ok () => .done
  | .error r => .transactionFailed (.refused r)

def ofJournal : Except JournalError Unit → Reply
  | .ok () => .done
  | .error e => .journalFailed e

def ofNumber : Option Nat → Reply
  | some n => .number n
  | none => .nothing

end Reply

namespace Broker

/-- Makes a cache that stands by itself; its number. -/
def newCache (b : Broker) (address : Address) (capacity : Nat) : Broker × Nat :=
  let n := b.caches.keys.countP CacheRef.isStandalone
  (b.setCache (.standalone n) { address, capacity }, n)

/-- Does what it is asked; what it replies. -/
def perform (b : Broker) : Command → Broker × Reply
  | .setMailbox queue mode => (b.setMailbox queue { b.mailbox queue with mode }, .done)
  | .bind desk binding => (b.bind desk binding).map id .ofBinding
  | .unbind desk name => (b.unbind desk name).map id .ofBinding
  | .resolve desk address create => (b.resolve desk address create).map id .resolved
  | .resolveAll desk addresses =>
    let (r, total, hit) := (b.deskAt desk).registry.resolveAll addresses
    (b.setRegistry desk r, .counted total hit)
  | .newCache address capacity => (b.newCache address capacity).map id .number
  | .openCache office address => (b.openOfficeCache office address, .done)
  | .stage ticket cache duplicateId owner =>
    (b.submitCall { ticket, cache, duplicateId, owner, purpose := .stage }).map id .ofAnswer
  | .commitStage held => (b.commitStage held, .done)
  | .rollbackStage held => (b.rollbackStage held, .done)
  | .openPlain settings =>
    if settings.notificationQueueSize ≤ Channel.sizeLimit then
      (b.openPlain settings).map id .number
    else (b, .noRoom)
  | .start settings =>
    if settings.notificationQueueSize ≤ Channel.sizeLimit then
      match b.start settings with
      | (b, .ok n) => (b, .number n)
      | (b, .error e) => (b, .routingFailed e)
    else (b, .noRoom)
  | .writeNext office => (b.writeNext office, .done)
  | .flush office => (b.flush office, .done)
  | .flushAll => (b.flushAll, .done)
  | .stop office => (b.stop office, .done)
  | .route office ticket message transaction rejectDuplicates =>
    (b.route office ticket message transaction rejectDuplicates).map id .ofAnswer
  | .reroute office message binding transaction =>
    (b.reroute office message binding transaction).map id .answered
  | .redistribute office message binding transaction =>
    match b.redistribute office message binding transaction with
    | (b, .ok queue) => (b, .redistributed queue)
    | (b, .error e) => (b, .routingFailed e)
  | .resume => (b.resume, .done)
  | .defer => (b.defer, .done)
  | .settle => (b.settle, .done)
  | .begin xid => (b.begin xid).map id .number
  | .addHook transaction hook => (b.addOperation transaction (.hook hook)).map id .ofRefusal
  | .mark transaction reason => (b.markRollbackOnly transaction reason, .done)
  | .prepare transaction => (b.prepare transaction).map id .ofCompletion
  | .commit transaction => (b.commit transaction).map id .ofCompletion
  | .rollback transaction => (b.rollback transaction).map id .ofCompletion
  | .prepareBranch desk transaction => (b.prepareBranch desk transaction).map id .ofCompletion
  | .commitBranch desk xid => (b.commitBranch desk xid).map id .ofCompletion
  | .rollbackBranch desk xid => (b.rollbackBranch desk xid).map id .ofCompletion
  | .write entry => (b.write .inline entry).map id .ofJournal
  | .failing methods => ({ b with storage := { b.storage with failing := methods } }, .done)
  | .replaceFile place => ({ b with storage := b.storage.replace place }, .done)
  | .openFile =>
    match b.storage.openFile with
    | (storage, .ok n) => ({ b with storage }, .number n)
    | (storage, .error e) => ({ b with storage }, .journalFailed e)
  | .cutFile keep => ({ b with storage := b.storage.cut keep }, .done)
  | .blockCompaction => ({ b with storage := { b.storage with compactionBlocked := true } }, .done)
  | .compact =>
    match b.storage.compact with
    | (storage, .ok n) => ({ b with storage }, .ofNumber n)
    | (storage, .error e) => ({ b with storage }, .journalFailed e)

/-- The broker after a run. -/
def run (b : Broker) (commands : List Command) : Broker :=
  commands.foldl (fun b c => (b.perform c).1) b

/-- What a broker replies in a run. -/
def replies (b : Broker) : List Command → List Reply
  | [] => []
  | c :: rest =>
    let (b, reply) := b.perform c
    reply :: b.replies rest

/-! ## Whose turn it is -/

variable {b : Broker} {front back : List Call} {call : Call}

/-- Calls that may try again let those behind them go first. -/
theorem run_defer (hready : b.ready = front ++ back) :
    b.run (List.replicate front.length .defer) = { b with ready := back ++ front } := by
  induction front generalizing b back with
  | nil =>
    rw [List.append_nil]
    exact congrArg (fun calls => { b with ready := calls }) hready
  | cons c rest ih =>
    have hstep : b.defer = { b with ready := rest ++ (back ++ [c]) } := by
      rw [defer, hready]
      simp
    have hturn : b.defer.ready = rest ++ (back ++ [c]) := by rw [hstep]
    show b.defer.run (List.replicate rest.length .defer) = _
    rw [ih hturn, hstep]
    simp

/-- Any of the calls that may try again can be the next to do so. -/
theorem run_defer_resume (hready : b.ready = front ++ call :: back) :
    b.run (List.replicate front.length .defer ++ [.resume]) =
      ({ b with ready := call :: (back ++ front) } : Broker).resume := by
  have hturn := run_defer hready
  rw [run, List.foldl_append]
  exact congrArg resume hturn

end Broker

end MessageRouting
