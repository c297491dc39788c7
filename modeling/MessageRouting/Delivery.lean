import MessageRouting.Duplicate.Stage
import MessageRouting.Error

/-!
# Deliveries

A delivery is what one routing call sets out to do: place a message on some
queues, and commit its identifier if that was staged for it.
-/

namespace MessageRouting

/-- Which cache: that of an address at a post office, or one that stands by itself. -/
inductive CacheRef where
  | office (n : Nat) (address : Address)
  | standalone (n : Nat)
  deriving DecidableEq, Repr

/-- Whether the cache stands by itself. -/
def CacheRef.isStandalone : CacheRef → Bool
  | standalone _ => true
  | office .. => false

/-- A stage and the cache that granted it. -/
structure HeldStage where
  cache : CacheRef
  staged : Staged
  deriving DecidableEq, Repr

/-- Whether a queue gets the message, or is only kept from getting it twice. -/
inductive RouteDecision where
  | route
  | ignore
  deriving DecidableEq, Repr

/-- A queue with what was decided for it. -/
structure Target where
  queue : String
  decision : RouteDecision
  deriving DecidableEq, Repr

/-- What one routing call sets out to do. -/
structure Delivery where
  message : Message
  targets : List Target := []
  stage : Option HeldStage := none
  deriving DecidableEq, Repr, Inhabited

namespace Delivery

/-- Decides for a queue, which may not have been decided for before. -/
def addTarget (d : Delivery) (queue : String) (decision : RouteDecision) :
    Except RoutingError Delivery :=
  if d.targets.any fun t => t.queue = queue then .error (.duplicateTarget queue)
  else .ok { d with targets := d.targets ++ [⟨queue, decision⟩] }

/-- The queues that get the message. -/
def routedQueues (d : Delivery) : List String :=
  (d.targets.filter fun t => t.decision = .route).map (·.queue)

theorem routedQueues_addTarget {d e : Delivery} {queue : String} {decision : RouteDecision}
    (h : d.addTarget queue decision = .ok e) :
    e.routedQueues = d.routedQueues ++ if decision = .route then [queue] else [] := by
  simp only [addTarget] at h
  split at h
  · cases h
  · cases h
    cases decision <;> simp [routedQueues]

/-- What was decided for the queue. -/
def decisionFor? (d : Delivery) (queue : String) : Option RouteDecision :=
  (d.targets.find? fun t => t.queue = queue).map (·.decision)

/-- The delivery of a message to all the queues; no queue may stand twice. -/
def toQueues (message : Message) (queues : List String) : Except RoutingError Delivery :=
  queues.foldlM (fun d q => d.addTarget q .route) { message }

end Delivery

/-- A delivery that waits for its transaction. -/
structure PendingDelivery where
  delivery : Delivery
  /-- The queues that have taken the message, in order. -/
  accepted : List String := []
  /-- Whether the stage stands in the journal as prepared. -/
  recorded : Bool := false
  deriving DecidableEq, Repr, Inhabited

end MessageRouting
