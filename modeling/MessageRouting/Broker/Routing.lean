import MessageRouting.Broker.Completion

/-!
# Routing messages

A message goes to the queues bound to its address, at once or when its
transaction commits. If it carries an identifier, that is staged first; a
visible one marks the message as a duplicate. While another owner holds the
identifier the call waits, with its queues already chosen. Messages that are
rerouted or redistributed are not looked at for duplicates.
-/

namespace MessageRouting.Broker

/-! ## Bindings -/

/-- Registers a binding at a desk, and its queue with the broker. -/
def bind (b : Broker) (desk : Option Nat) (binding : Binding) :
    Broker × Except RoutingError Binding :=
  let b := b.openMailbox binding.queue
  match (b.deskAt desk).registry.add binding with
  | (_, .error e) => (b, .error e)
  | (r, .ok added) =>
    let b := b.setRegistry desk r
    match desk with
    | some n => (b.notify n (.bindingAdded added.name added.address added.queue), .ok added)
    | none => (b, .ok added)

/-- Removes a binding from a desk. -/
def unbind (b : Broker) (desk : Option Nat) (name : String) :
    Broker × Except RoutingError Binding :=
  match (b.deskAt desk).registry.remove name with
  | (_, .error e) => (b, .error e)
  | (r, .ok removed) =>
    let b := b.setRegistry desk r
    match desk with
    | some n => (b.notify n (.bindingRemoved removed.name removed.address), .ok removed)
    | none => (b, .ok removed)

/-- The bindings of an address at a desk, remembered from then on. -/
def resolve (b : Broker) (desk : Option Nat) (a : Address) (create : Bool) :
    Broker × Option Resolution :=
  let (r, found) := (b.deskAt desk).registry.bindingsFor a create
  (b.setRegistry desk r, found)

/-! ## Sending -/

/-- Delivers at once, or registers the delivery with its transaction. A transaction that does not
take it leaves its stage behind, which is dropped. -/
def dispatch (b : Broker) (d : Delivery) (transaction : Option Nat) :
    Broker × Except RoutingError Unit :=
  match transaction with
  | none => b.deliver d
  | some n =>
    match b.addOperation n (.delivery { delivery := d }) with
    | (b, .ok ()) => (b, .ok ())
    | (b, .error refusal) => (b.rollbackDelivery d, .error (.transaction refusal))

/-- Dispatches a delivery; how the routing call ends. -/
def finish (b : Broker) (r : Routing) (staged acceptedDuplicate : Bool) : Broker × Answer :=
  match b.dispatch r.delivery r.transaction with
  | (b, .error e) => (b, .refused e)
  | (b, .ok ()) =>
    (b, .routed { queues := r.delivery.routedQueues, staged, acceptedDuplicate })

/-- Refuses a message as a duplicate. -/
def rejectDuplicate (b : Broker) (n : Nat) (m : Message) (id : Bytes) : Broker × Answer :=
  (b.notify n (.duplicateRejected m.address id m.id), .refused (.duplicateMessage m.address id))

/-- Goes on with a routing call whose attempt to stage has ended. -/
def continueRouting (b : Broker) (r : Routing) (ref : CacheRef) (id : Bytes) :
    StageOutcome → Broker × Answer
  | .staged s =>
    b.finish { r with delivery := { r.delivery with stage := some ⟨ref, s⟩ } } true false
  | .duplicate =>
    if r.rejectDuplicates then b.rejectDuplicate r.office r.delivery.message id
    else b.finish r false true
  | .alreadyStaged => b.finish r false false
  | .disabled => b.finish r false false

/-! ## Waiting -/

/-- One attempt of a call; there is no answer while it has to wait. -/
def attempt (b : Broker) (call : Call) : Broker × Option Answer :=
  match b.attemptStage call.cache call.duplicateId call.owner with
  | (b, none) => (b, none)
  | (b, some o) =>
    match call.purpose with
    | .stage => (b, some (.stage o))
    | .route r =>
      let (b, answer) := b.continueRouting r call.cache call.duplicateId o
      (b, some answer)

/-- Attempts a call, which waits from then on if it has no answer. -/
def submitCall (b : Broker) (call : Call) : Broker × Option Answer :=
  match b.attempt call with
  | (b, some answer) => (b, some answer)
  | (b, none) => ({ b with waiting := b.waiting ++ [call] }, none)

/-- Lets the first call that may try again do so; its answer goes to the trace. -/
def resume (b : Broker) : Broker :=
  match b.ready with
  | [] => b
  | call :: rest =>
    match { b with ready := rest }.submitCall call with
    | (b, some answer) => b.log (.answered call.ticket answer)
    | (b, none) => b

/-- Lets the other calls that may try again do so before the first of them. -/
def defer (b : Broker) : Broker :=
  match b.ready with
  | [] => b
  | call :: rest => { b with ready := rest ++ [call] }

/-- That only changes the order of the calls that may try again. -/
theorem defer_perm (b : Broker) :
    ∃ calls : List Call, calls.Perm b.ready ∧ b.defer = { b with ready := calls } := by
  unfold defer
  split
  · exact ⟨b.ready, .refl _, rfl⟩
  · rename_i call rest hready
    exact ⟨rest ++ [call], hready ▸ List.perm_append_singleton call rest, rfl⟩

/-- Lets calls try again, `k` times at most. -/
def resumeSome (b : Broker) : Nat → Broker
  | 0 => b
  | k + 1 => if b.ready.isEmpty then b else b.resume.resumeSome k

/-- Lets calls try again until none may. Between two calls that end, each of the others tries once
at most. -/
def settle (b : Broker) : Broker :=
  let calls := b.ready.length + b.waiting.length
  b.resumeSome ((calls + 1) * (calls + 1))

/-! ## Routing calls -/

/-- The delivery of a message to the queues bound to its address at a post office. -/
def collect (b : Broker) (n : Nat) (m : Message) : Broker × Except RoutingError Delivery :=
  let (b, found) := b.resolve (some n) m.address true
  let bindings := (found.map (·.bindings)).getD []
  (b, Delivery.toQueues m (bindings.map (·.queue)))

/-- The owner of a routing call's stage: its transaction, or a number of its own. -/
def drawOwner (b : Broker) (n : Nat) (transaction : Option Nat) : Broker × Owner :=
  match transaction with
  | some t => (b, .transaction t)
  | none =>
    (b.modifyOffice n fun o => { o with nextOwner := o.nextOwner + 1 },
      .direct (b.office n).nextOwner)

/-- Routes a message without staging its identifier. -/
def routeUnstaged (b : Broker) (n : Nat) (m : Message) (transaction : Option Nat)
    (acceptedDuplicate : Bool) : Broker × Answer :=
  match b.collect n m with
  | (b, .error e) => (b, .refused e)
  | (b, .ok delivery) =>
    b.finish { office := n, transaction, rejectDuplicates := false, delivery } false
      acceptedDuplicate

/-- Routes a message once its identifier has been staged. -/
def routeStaged (b : Broker) (n ticket : Nat) (m : Message) (id : Bytes) (transaction : Option Nat)
    (rejectDuplicates : Bool) : Broker × Option Answer :=
  match b.collect n m with
  | (b, .error e) => (b, some (.refused e))
  | (b, .ok delivery) =>
    let (b, owner) := b.drawOwner n transaction
    b.submitCall
      { ticket
        cache := .office n m.address
        duplicateId := id
        owner
        purpose := .route { office := n, transaction, rejectDuplicates, delivery } }

/-- The identifier that duplicates of the message are looked for by. -/
def detectedId (b : Broker) (n : Nat) (m : Message) : Option Bytes :=
  if (b.office n).settings.duplicateDetection then m.duplicateId else none

/-- Routes a message whose identifier is visible. -/
def routeDuplicate (b : Broker) (n : Nat) (m : Message) (id : Bytes) (transaction : Option Nat)
    (rejectDuplicates : Bool) : Broker × Answer :=
  if rejectDuplicates then b.rejectDuplicate n m id else b.routeUnstaged n m transaction true

/-- Routes a message at a post office; there is no answer while the call waits. -/
def route (b : Broker) (n ticket : Nat) (m : Message) (transaction : Option Nat)
    (rejectDuplicates : Bool) : Broker × Option Answer :=
  match b.detectedId n m with
  | none =>
    let (b, answer) := b.routeUnstaged n m transaction false
    (b, some answer)
  | some id =>
    let b := b.openOfficeCache n m.address
    if (b.cache (.office n m.address)).isDuplicate id then
      let (b, answer) := b.routeDuplicate n m id transaction rejectDuplicates
      (b, some answer)
    else b.routeStaged n ticket m id transaction rejectDuplicates

/-- Routes a message to the queue of one binding. -/
def reroute (b : Broker) (n : Nat) (m : Message) (binding : String) (transaction : Option Nat) :
    Broker × Answer :=
  match (b.office n).desk.registry.get? binding with
  | none => (b, .refused (.bindingNotFound binding))
  | some target =>
    match Delivery.toQueues m [target.queue] with
    | .error e => (b, .refused e)
    | .ok delivery =>
      b.finish { office := n, transaction, rejectDuplicates := false, delivery } false false

/-- The binding that messages of `origin` can be redistributed to: the first remote one among
`bindings` with its routing name and another name. -/
def redistributionTarget? (origin : Binding) (bindings : List Binding) : Option Binding :=
  bindings.find? fun c =>
    c.kind = .remoteQueue && c.routingName = origin.routingName && c.name ≠ origin.name

/-- Forwards a message of a binding to a remote one; the queue it goes to, if there is one. -/
def redistribute (b : Broker) (n : Nat) (m : Message) (binding : String)
    (transaction : Option Nat) : Broker × Except RoutingError (Option String) :=
  match (b.office n).desk.registry.get? binding with
  | none => (b, .error (.bindingNotFound binding))
  | some origin =>
    let found := ((b.office n).desk.registry.lookup m.address).map (·.bindings)
    match redistributionTarget? origin (found.getD []) with
    | none => (b, .ok none)
    | some target =>
      let delivery : Except RoutingError Delivery := do
        let d ← Delivery.addTarget { message := m } origin.queue .ignore
        d.addTarget target.queue .route
      match delivery with
      | .error e => (b, .error e)
      | .ok delivery =>
        match b.dispatch delivery transaction with
        | (b, .error e) => (b, .error e)
        | (b, .ok ()) => (b, .ok (some target.queue))

end MessageRouting.Broker
