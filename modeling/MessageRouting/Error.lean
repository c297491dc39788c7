import MessageRouting.Address.Pattern
import MessageRouting.Xid

/-!
# Errors

What can go wrong, by cause, and the text each cause is reported with. Errors
of the file system and of decoding have no text of their own, and neither has
an error that passes one of them on.
-/

namespace MessageRouting

/-- Why a queue refuses a message or its withdrawal. -/
inductive QueueRefusal where
  | full
  | deleted
  deriving DecidableEq, Repr

def QueueRefusal.message : QueueRefusal → String
  | full => "queue is full"
  | deleted => "queue has been deleted"

/-- Why a journal call fails. -/
inductive JournalError where
  /-- The file could not be read or written. -/
  | io
  /-- A line of the file is no journal entry. -/
  | codec
  /-- The journal does not serve this call. -/
  | unavailable (detail : String)
  deriving DecidableEq, Repr

def JournalError.message : JournalError → Option String
  | io => none
  | codec => none
  | unavailable detail => some ("journal unavailable: " ++ detail)

/-- Where a transaction stands between its start and its completion. -/
inductive TransactionState where
  | active
  | prepared
  | committed
  | rolledBack
  deriving DecidableEq, Repr

def TransactionState.name : TransactionState → String
  | active => "Active"
  | prepared => "Prepared"
  | committed => "Committed"
  | rolledBack => "RolledBack"

/-- What was asked of a transaction. -/
inductive TransactionRequest where
  | addOperation
  | prepare
  | commit
  | rollback
  deriving DecidableEq, Repr

def TransactionRequest.name : TransactionRequest → String
  | addOperation => "add operation"
  | prepare => "prepare"
  | commit => "commit"
  | rollback => "roll back"

/-- Why a transaction, known by its number, refuses a request. -/
inductive TransactionRefusal where
  | rollbackOnly (transaction : Nat) (reason : String)
  | invalidState (transaction : Nat) (state : TransactionState) (request : TransactionRequest)
  | notXa (transaction : Nat)
  | unknownXid (xid : Xid)
  deriving DecidableEq, Repr

def TransactionRefusal.message : TransactionRefusal → String
  | rollbackOnly n reason => "transaction " ++ toString n ++ " is rollback-only: " ++ reason
  | invalidState n state request =>
    "transaction " ++ toString n ++ " cannot " ++ request.name ++ " while " ++ state.name
  | notXa n => "transaction " ++ toString n ++ " is not an XA transaction"
  | unknownXid xid => "no prepared transaction for xid " ++ xid.display

/-- Why a routing call, a change of bindings or a completion hook fails. -/
inductive RoutingError where
  /-- The identifier has been seen on this address. -/
  | duplicateMessage (address : Address) (duplicateId : Bytes)
  | duplicateBinding (name : String)
  | bindingNotFound (name : String)
  | invalidAddress (address : Address) (fault : PatternFault)
  /-- One routing call reaches the same queue twice. -/
  | duplicateTarget (queue : String)
  | queueRefused (queue : String) (refusal : QueueRefusal)
  | persistence (cause : JournalError)
  | transaction (cause : TransactionRefusal)
  deriving DecidableEq, Repr

def RoutingError.message : RoutingError → Option String
  | duplicateMessage address id =>
    some ("duplicate message '" ++ displayIdentifier id ++ "' rejected on address "
      ++ address.text)
  | duplicateBinding name => some ("binding '" ++ name ++ "' already exists")
  | bindingNotFound name => some ("binding '" ++ name ++ "' not found")
  | invalidAddress address fault =>
    some ("invalid address '" ++ address.text ++ "': " ++ fault.reason)
  | duplicateTarget queue =>
    some ("queue '" ++ queue ++ "' is already a target of this routing call")
  | queueRefused queue refusal =>
    some ("queue '" ++ queue ++ "' rejected message: " ++ refusal.message)
  | persistence cause => cause.message.map ("duplicate-id persistence failed: " ++ ·)
  | transaction cause => some cause.message

/-- A rejected duplicate is no failure of the sender. -/
def RoutingError.isDuplicate : RoutingError → Bool
  | duplicateMessage .. => true
  | _ => false

/-- Why a transaction does not complete as asked. -/
inductive TransactionError where
  | refused (cause : TransactionRefusal)
  /-- A hook failed, and the transaction has been rolled back. -/
  | operation (cause : RoutingError)
  deriving DecidableEq, Repr

def TransactionError.message : TransactionError → Option String
  | refused cause => some cause.message
  | operation cause => cause.message.map ("transaction operation failed: " ++ ·)

end MessageRouting
