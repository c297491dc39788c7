import MessageRouting.Error

/-!
# Mailboxes

The queues that messages are placed on, as far as routing sees them: they take
a message or refuse it, and give one back that a failed send has placed there.
A queue may refuse any single message, whatever it did before.
-/

namespace MessageRouting

/-- How a queue behaves. -/
inductive MailboxMode where
  | accept
  | full
  | deleted
  /-- Takes messages and does not give them back. -/
  | sticky
  deriving DecidableEq, Repr

/-- A queue: its behaviour and the numbers of the messages it holds. -/
structure Mailbox where
  mode : MailboxMode := .accept
  stored : List Nat := []
  /-- The next messages that are refused by themselves: for each message to come the refusal, if
  there is one. -/
  lapses : List (Option QueueRefusal) := []
  deriving DecidableEq, Repr, Inhabited

namespace Mailbox

/-- Why the queue refuses the next message, if it does. -/
def refusal? (m : Mailbox) : Option QueueRefusal :=
  match m.mode with
  | .full => some .full
  | .deleted => some .deleted
  | _ => m.lapses.head?.join

/-- Places a message; the refusal, if it is refused. -/
def enqueue (m : Mailbox) (message : Nat) : Mailbox × Option QueueRefusal :=
  let left := { m with lapses := m.lapses.tail }
  match m.refusal? with
  | some refusal => (left, some refusal)
  | none => ({ left with stored := m.stored ++ [message] }, none)

/-- A message that is not refused is stored last. -/
theorem stored_enqueue (m : Mailbox) (message : Nat) :
    (m.enqueue message).1.stored =
      m.stored ++ if (m.enqueue message).2.isNone then [message] else [] := by
  unfold enqueue
  split <;> simp

/-- Takes a message back wherever it stands; the refusal, if it is refused. -/
def withdraw (m : Mailbox) (message : Nat) : Mailbox × Option QueueRefusal :=
  match m.mode with
  | .sticky => (m, some .deleted)
  | _ => ({ m with stored := m.stored.filter (· ≠ message) }, none)

end Mailbox

end MessageRouting
