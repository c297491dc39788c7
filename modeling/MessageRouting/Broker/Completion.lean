import MessageRouting.Broker.Delivering

/-!
# Completing transactions

Preparing calls `beforePrepare` on the operations in order, committing calls
`beforeCommit` on all of them and then `afterCommit`, and rolling back calls
`afterRollback`. The first failure before a decision rolls everything back. The
operations called are those registered when the phase starts, a rollback calls
all that are registered when it starts.
-/

namespace MessageRouting.Broker

/-! ## Operations -/

/-- Registers an operation with a transaction. -/
def addOperation (b : Broker) (n : Nat) (op : Operation) :
    Broker × Except TransactionRefusal Unit :=
  match (b.transaction n).addOperation n op with
  | .ok t => (b.modifyTransaction n fun _ => t, .ok ())
  | .error refusal => (b, .error refusal)

/-- Dooms a transaction. -/
def markRollbackOnly (b : Broker) (n : Nat) (reason : String) : Broker :=
  b.modifyTransaction n (·.mark reason)

/-- One action of a hook. -/
def act (b : Broker) (n : Nat) : HookAction → Broker × HookResult
  | .mark reason =>
    let b := b.markRollbackOnly n reason
    (b, .rollbackOnly (b.transaction n).rollbackOnly.isSome)
  | .add name =>
    match b.addOperation n (.hook { name }) with
    | (b, .ok ()) => (b, .operations (b.transaction n).operations.length)
    | (b, .error _) => (b, .refused)
  | .inspect => (b, .state (b.transaction n).state)

/-- The actions of a hook in a phase, in order. -/
def actAll (b : Broker) (n : Nat) (name : String) (phase : Phase) : List HookAction → Broker
  | [] => b
  | a :: rest =>
    let (b, result) := b.act n a
    (b.log (.acted name phase a result)).actAll n name phase rest

/-- Calls a hook. A plain one does not notice that the transaction is prepared. -/
def callHook (b : Broker) (n : Nat) (h : Hook) (phase : Phase) :
    Broker × Except RoutingError Unit :=
  if h.plain ∧ phase = .beforePrepare then (b, .ok ())
  else
    let b := (b.log (.hook h.name phase)).actAll n h.name phase (h.actions phase)
    (b, if h.fails phase then .error (.bindingNotFound h.name) else .ok ())

/-- Writes the stage of a delivery to the journal as prepared, if there is one and the transaction
is a branch. -/
def prepareDelivery (b : Broker) (n i : Nat) (d : PendingDelivery) :
    Broker × Except RoutingError Unit :=
  match (b.transaction n).xid, d.delivery.stage with
  | some x, some h =>
    match b.storePrepared x h with
    | (b, .ok ()) => (b.modifyOperation n i fun d => { d with recorded := true }, .ok ())
    | (b, .error e) => (b, .error (.persistence e))
  | _, _ => (b, .ok ())

/-- Places the message of a delivery and persists its identifier, and notes the queues that have
taken the message. -/
def placeDelivery (b : Broker) (n i : Nat) (d : PendingDelivery) :
    Broker × Except RoutingError Unit :=
  match b.enqueueTargets d.delivery with
  | (b, accepted, result) =>
    let b := b.modifyOperation n i fun d => { d with accepted }
    match result with
    | .error e => (b, .error e)
    | .ok () => b.persist d.delivery

/-- Has the prepared records of the branch deleted, if the delivery stands in the journal as
prepared. -/
def forgetPrepared (b : Broker) (n : Nat) (d : PendingDelivery) : Broker :=
  if d.recorded then
    match (b.transaction n).xid, d.delivery.stage with
    | some x, some h => b.submitFor h.cache (.resolve x)
    | _, _ => b
  else b

/-- Takes back what a delivery has placed, and drops its stage. -/
def undoDelivery (b : Broker) (n i : Nat) (d : PendingDelivery) : Broker :=
  let b := b.modifyOperation n i fun d => { d with accepted := [] }
  ((b.withdrawAll d.delivery.message.id d.accepted).rollbackDelivery d.delivery).forgetPrepared n d

/-- Calls a delivery. -/
def callDelivery (b : Broker) (n i : Nat) (d : PendingDelivery) :
    Phase → Broker × Except RoutingError Unit
  | .beforePrepare => b.prepareDelivery n i d
  | .beforeCommit => b.placeDelivery n i d
  | .afterCommit => ((b.commitDelivery d.delivery).forgetPrepared n d, .ok ())
  | .afterRollback => (b.undoDelivery n i d, .ok ())

/-- Calls the operation at an index of a transaction. -/
def callOperation (b : Broker) (n : Nat) (phase : Phase) (i : Nat) :
    Broker × Except RoutingError Unit :=
  match (b.transaction n).operations[i]? with
  | none => (b, .ok ())
  | some op =>
    let b := b.log (.called n i phase)
    match op with
    | .delivery d => b.callDelivery n i d phase
    | .hook h => b.callHook n h phase

/-- Calls operations in order, up to one that fails. -/
def callUntilFailure (b : Broker) (n : Nat) (phase : Phase) :
    List Nat → Broker × Except RoutingError Unit
  | [] => (b, .ok ())
  | i :: rest =>
    match b.callOperation n phase i with
    | (b, .ok ()) => b.callUntilFailure n phase rest
    | (b, .error e) => (b, .error e)

/-- Calls operations in order, whatever they answer. -/
def callAll (b : Broker) (n : Nat) (phase : Phase) : List Nat → Broker
  | [] => b
  | i :: rest => (b.callOperation n phase i).1.callAll n phase rest

/-- The indexes of the operations registered now. -/
def operationIndexes (b : Broker) (n : Nat) : List Nat :=
  List.range (b.transaction n).operations.length

/-! ## Transactions -/

/-- Starts a transaction, a branch if it has an xid. -/
def begin (b : Broker) (xid : Option Xid) : Broker × Nat :=
  let b := b.addTransaction { xid }
  (b, b.lastTransaction)

def setState (b : Broker) (n : Nat) (s : TransactionState) : Broker :=
  b.modifyTransaction n fun t => { t with state := s }

/-- Rolls a transaction back, whatever its state. -/
def undo (b : Broker) (n : Nat) : Broker :=
  let b := b.setState n .rolledBack
  b.callAll n .afterRollback (b.operationIndexes n)

/-- Rolls a doomed transaction back in place of completing it; nothing if it is not doomed. -/
def undoDoomed? (b : Broker) (n : Nat) : Option (Broker × TransactionError) :=
  (b.transaction n).rollbackOnly.map fun reason =>
    (b.undo n, .refused (.rollbackOnly n reason))

/-- Prepares a branch. -/
def prepare (b : Broker) (n : Nat) : Broker × Except TransactionError Unit :=
  if (b.transaction n).xid.isNone then (b, .error (.refused (.notXa n)))
  else match (b.transaction n).require n [.active] .prepare with
    | .error refusal => (b, .error (.refused refusal))
    | .ok () =>
      match b.undoDoomed? n with
      | some (b, e) => (b, .error e)
      | none =>
        match b.callUntilFailure n .beforePrepare (b.operationIndexes n) with
        | (b, .error e) => (b.undo n, .error (.operation e))
        | (b, .ok ()) => (b.setState n .prepared, .ok ())

/-- Commits a transaction, which need not have been prepared. -/
def commit (b : Broker) (n : Nat) : Broker × Except TransactionError Unit :=
  match (b.transaction n).require n [.active, .prepared] .commit with
  | .error refusal => (b, .error (.refused refusal))
  | .ok () =>
    match b.undoDoomed? n with
    | some (b, e) => (b, .error e)
    | none =>
      let operations := b.operationIndexes n
      match b.callUntilFailure n .beforeCommit operations with
      | (b, .error e) => (b.undo n, .error (.operation e))
      | (b, .ok ()) => ((b.setState n .committed).callAll n .afterCommit operations, .ok ())

/-- Rolls a transaction back. -/
def rollback (b : Broker) (n : Nat) : Broker × Except TransactionError Unit :=
  match (b.transaction n).require n [.active, .prepared] .rollback with
  | .error refusal => (b, .error (.refused refusal))
  | .ok () => (b.undo n, .ok ())

/-! ## Branches -/

/-- Prepares a branch and keeps it at a desk for its outcome. -/
def prepareBranch (b : Broker) (desk : Option Nat) (n : Nat) :
    Broker × Except TransactionError Unit :=
  match b.prepare n with
  | (b, .error e) => (b, .error e)
  | (b, .ok ()) =>
    match (b.transaction n).xid with
    | none => (b, .error (.refused (.notXa n)))
    | some x => (b.setBranches desk ((b.deskAt desk).branches.insert x n), .ok ())

/-- Takes a branch from a desk; refused if there is none of that xid. -/
def takeBranch (b : Broker) (desk : Option Nat) (x : Xid) :
    Broker × Except TransactionError Nat :=
  match (b.deskAt desk).branches.get? x with
  | none => (b, .error (.refused (.unknownXid x)))
  | some n => (b.setBranches desk ((b.deskAt desk).branches.erase x), .ok n)

/-- Commits the branch kept at a desk. -/
def commitBranch (b : Broker) (desk : Option Nat) (x : Xid) :
    Broker × Except TransactionError Unit :=
  match b.takeBranch desk x with
  | (b, .error e) => (b, .error e)
  | (b, .ok n) => b.commit n

/-- Rolls the branch kept at a desk back. -/
def rollbackBranch (b : Broker) (desk : Option Nat) (x : Xid) :
    Broker × Except TransactionError Unit :=
  match b.takeBranch desk x with
  | (b, .error e) => (b, .error e)
  | (b, .ok n) => b.rollback n

end MessageRouting.Broker
