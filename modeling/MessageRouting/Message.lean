import MessageRouting.Address

/-!
# Messages

What routing needs to know of a message; the body is carried along unread.
-/

namespace MessageRouting

/-- A message on its way to the queues of its address. -/
structure Message where
  id : Nat
  address : Address
  /-- The identifier that duplicates of this message share. -/
  duplicateId : Option Bytes := none
  body : Bytes := []
  durable : Bool := true
  deriving DecidableEq, Repr, Inhabited

end MessageRouting
