import MessageRouting.Delivery

/-!
# Transactions

A transaction collects operations and completes them together. Each operation
is called in phases: before the transaction is prepared, before it commits, and
after it has been committed or rolled back. Deliveries are operations; so are
hooks, which others register to take part.
-/

namespace MessageRouting

/-- When an operation is called. -/
inductive Phase where
  | beforePrepare
  | beforeCommit
  | afterCommit
  | afterRollback
  deriving DecidableEq, Repr

/-- What a hook does when it is called. -/
inductive HookAction where
  /-- Dooms the transaction. -/
  | mark (reason : String)
  /-- Registers a plain hook. -/
  | add (name : String)
  /-- Looks at the state. -/
  | inspect
  deriving DecidableEq, Repr

/-- An operation registered by somebody else. -/
structure Hook where
  name : String
  /-- Takes no part in preparing. -/
  plain : Bool := false
  /-- The phases that it fails, which only those before a decision can. -/
  failing : List Phase := []
  /-- What it does in each phase. -/
  script : List (Phase × List HookAction) := []
  deriving DecidableEq, Repr, Inhabited

namespace Hook

/-- What the hook does in a phase. -/
def actions (h : Hook) (p : Phase) : List HookAction :=
  ((h.script.find? fun e => e.1 = p).map (·.2)).getD []

/-- Whether the hook fails the phase. -/
def fails (h : Hook) (p : Phase) : Bool :=
  match p with
  | .beforePrepare => .beforePrepare ∈ h.failing
  | .beforeCommit => .beforeCommit ∈ h.failing
  | _ => false

end Hook

/-- What takes part in a transaction. -/
inductive Operation where
  | delivery (d : PendingDelivery)
  | hook (h : Hook)
  deriving DecidableEq, Repr

/-- A transaction; with an `xid`, a branch of a distributed one. -/
structure Transaction where
  xid : Option Xid := none
  state : TransactionState := .active
  /-- Why the transaction cannot commit any more. -/
  rollbackOnly : Option String := none
  operations : List Operation := []
  deriving DecidableEq, Repr

/-- A transaction that is not there takes no request. -/
instance : Inhabited Transaction := ⟨{ state := .rolledBack }⟩

namespace Transaction

/-- Refuses a request in the wrong state. `number` is the number of the transaction. -/
def require (t : Transaction) (number : Nat) (allowed : List TransactionState)
    (request : TransactionRequest) : Except TransactionRefusal Unit :=
  if t.state ∈ allowed then .ok () else .error (.invalidState number t.state request)

/-- Dooms the transaction; the first reason stays. -/
def mark (t : Transaction) (reason : String) : Transaction :=
  { t with rollbackOnly := some (t.rollbackOnly.getD reason) }

/-- Registers an operation, as long as the transaction is active. -/
def addOperation (t : Transaction) (number : Nat) (op : Operation) :
    Except TransactionRefusal Transaction :=
  match t.require number [.active] .addOperation with
  | .error refusal => .error refusal
  | .ok () => .ok { t with operations := t.operations ++ [op] }

end Transaction

end MessageRouting
