import MessageRouting.Address
import MessageRouting.Text.Quote

/-!
# Bindings

A binding ties a queue to a pattern of addresses under a name of its own. Local
and remote bindings of one subscription share a routing name.
-/

namespace MessageRouting

/-- Where the queue of a binding lives. -/
inductive BindingKind where
  /-- On this broker. -/
  | localQueue
  /-- On another node; messages can be redistributed to it. -/
  | remoteQueue
  /-- Inside the broker, for its own messages. -/
  | system
  deriving DecidableEq, Repr

/-- A queue and the pattern of addresses whose messages it takes. -/
structure Binding where
  name : String
  address : Address
  routingName : String
  kind : BindingKind := .localQueue
  queue : String
  deriving DecidableEq, Repr, Inhabited

/-- The binding of `queue` to `address`, named and routed by the queue's own name. -/
def Binding.ofQueue (address : Address) (queue : String) : Binding where
  name := queue
  address := address
  routingName := queue
  queue := queue

/-- The name of a kind of binding in a description. -/
def BindingKind.describe : BindingKind → String
  | localQueue => "LocalQueue"
  | remoteQueue => "RemoteQueue"
  | system => "System"

/-- Everything about a binding in one line, for people who look for faults. -/
def Binding.describe (b : Binding) : String :=
  "Binding \x7b name: " ++ quote b.name ++ ", address: Address(" ++ quote b.address.text
    ++ "), routing_name: " ++ quote b.routingName ++ ", kind: " ++ b.kind.describe
    ++ ", queue: " ++ quote b.queue ++ " \x7d"

/-- The bindings that take the messages of an address, in order of registration. -/
structure Resolution where
  address : Address
  bindings : List Binding
  deriving DecidableEq, Repr, Inhabited

namespace Resolution

def names (r : Resolution) : List String := r.bindings.map (·.name)

/-- The binding of that name among them. -/
def get? (r : Resolution) (name : String) : Option Binding :=
  r.bindings.find? fun b => b.name = name

end Resolution

end MessageRouting
