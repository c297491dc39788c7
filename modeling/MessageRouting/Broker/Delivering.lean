import MessageRouting.Broker.Staging

/-!
# Delivering messages

A delivery places its message on its queues in order and stops at the first one
that refuses. What has been placed is taken back in reverse order if the
delivery comes to nothing.
-/

namespace MessageRouting.Broker

/-- Places a message on a queue; the refusal, if it is refused. -/
def enqueue (b : Broker) (queue : String) (message : Nat) : Broker × Option QueueRefusal :=
  let (m, refusal) := (b.mailbox queue).enqueue message
  ((b.setMailbox queue m).log (.enqueued queue message refusal), refusal)

/-- Asks a queue to give a message back. -/
def withdraw (b : Broker) (message : Nat) (queue : String) : Broker :=
  let (m, refusal) := (b.mailbox queue).withdraw message
  (b.setMailbox queue m).log (.withdrawn queue message refusal)

/-- Places a message on the queues in order, up to one that refuses. `accepted` are the queues
that have taken it before. -/
def enqueueFrom (b : Broker) (message : Nat) (accepted : List String) :
    List String → Broker × List String × Except RoutingError Unit
  | [] => (b, accepted, .ok ())
  | q :: rest =>
    match b.enqueue q message with
    | (b, some refusal) => (b, accepted, .error (.queueRefused q refusal))
    | (b, none) => b.enqueueFrom message (accepted ++ [q]) rest

/-- Places the message of a delivery on its queues; those that have taken it, and the refusal of
the first one that did not. -/
def enqueueTargets (b : Broker) (d : Delivery) : Broker × List String × Except RoutingError Unit :=
  b.enqueueFrom d.message.id [] d.routedQueues

/-- Takes a message back from the queues, the last one first. -/
def withdrawAll (b : Broker) (message : Nat) (accepted : List String) : Broker :=
  accepted.reverse.foldl (fun b q => b.withdraw message q) b

/-- Draws the commit key of the delivery's stage, if it has one, and persists it where that comes
before the commit. -/
def persist (b : Broker) (d : Delivery) : Broker × Except RoutingError Unit :=
  match d.stage with
  | none => (b, .ok ())
  | some h =>
    match b.persistStage h with
    | (b, .ok ()) => (b, .ok ())
    | (b, .error e) => (b, .error (.persistence e))

/-- Makes the identifier of a delivery visible, if it was staged. -/
def commitDelivery (b : Broker) (d : Delivery) : Broker :=
  match d.stage with
  | some h => b.commitStage h
  | none => b

/-- Drops the stage of a delivery, if it has one. -/
def rollbackDelivery (b : Broker) (d : Delivery) : Broker :=
  match d.stage with
  | some h => b.rollbackStage h
  | none => b

/-- Places the message and persists the identifier; the queues that have taken the message, and
whether all went well. -/
def tryDelivery (b : Broker) (d : Delivery) : Broker × List String × Except RoutingError Unit :=
  match b.enqueueTargets d with
  | (b, accepted, .error e) => (b, accepted, .error e)
  | (b, accepted, .ok ()) =>
    let (b, result) := b.persist d
    (b, accepted, result)

/-- Delivers outside any transaction: all of it or nothing. -/
def deliver (b : Broker) (d : Delivery) : Broker × Except RoutingError Unit :=
  match b.tryDelivery d with
  | (b, accepted, .error e) => ((b.withdrawAll d.message.id accepted).rollbackDelivery d, .error e)
  | (b, _, .ok ()) => (b.commitDelivery d, .ok ())

end MessageRouting.Broker
