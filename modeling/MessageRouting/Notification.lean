import MessageRouting.Message

/-!
# Notifications

A post office tells its subscribers about changed bindings and rejected
duplicates. Its channel keeps the latest notifications only; a subscriber that
was too slow learns how many it has missed.
-/

namespace MessageRouting

inductive Notification where
  | bindingAdded (name : String) (address : Address) (queue : String)
  | bindingRemoved (name : String) (address : Address)
  | duplicateRejected (address : Address) (duplicateId : Bytes) (message : Nat)
  deriving DecidableEq, Repr

/-- What has been sent. A subscriber's position is the number of notifications sent before the
next one it reads. -/
structure Channel where
  capacity : Nat
  sent : Nat := 0
  /-- The last notifications, at most `capacity` of them, the oldest first. -/
  kept : List Notification := []
  deriving DecidableEq, Repr, Inhabited

/-- What a subscriber finds: how many notifications it has missed, and the others. -/
structure Delivered where
  missed : Nat
  notifications : List Notification
  deriving DecidableEq, Repr

namespace Channel

/-- The least power of two that is not below `n`. -/
def powerOfTwo (n : Nat) : Nat := if n ≤ 1 then 1 else Nat.pow 2 (Nat.log2 (n - 1) + 1)

/-- The most notifications that a channel can be asked to keep: the room for twice as many has no
address. -/
def sizeLimit : Nat := 72057594037927936

/-- A channel that keeps `size` notifications at least. -/
def ofSize (size : Nat) : Channel := ⟨powerOfTwo size, 0, []⟩

def send (c : Channel) (n : Notification) : Channel :=
  let kept := c.kept ++ [n]
  { c with sent := c.sent + 1, kept := kept.drop (kept.length - c.capacity) }

theorem length_kept_send_le (c : Channel) (n : Notification) :
    (c.send n).kept.length ≤ c.capacity := by
  simp only [send, List.length_drop]
  omega

/-- The position of a new subscriber. -/
def position (c : Channel) : Nat := c.sent

/-- Everything from a position on. Who has read it stands at the channel's own position. -/
def readFrom (c : Channel) (position : Nat) : Delivered :=
  let oldest := c.sent - c.kept.length
  ⟨oldest - position, c.kept.drop (position - oldest)⟩

end Channel

end MessageRouting
