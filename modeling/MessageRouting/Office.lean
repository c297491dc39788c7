import MessageRouting.Binding.Registry
import MessageRouting.Journal.Ledger
import MessageRouting.Notification
import MessageRouting.Settings

/-!
# Post offices

A post office keeps the bindings of its addresses, the prepared branches it
answers for, its channel of notifications, and the journal writes that it has
handed to its writer. Its caches stand beside it in the broker.
-/

namespace MessageRouting

/-- Where bindings and prepared branches are kept. -/
structure Desk where
  registry : Registry := {}
  /-- The numbers of the prepared transactions, by branch. -/
  branches : Table Xid Nat := {}
  deriving DecidableEq, Repr, Inhabited

/-- The prepared branches, in order. -/
def Desk.xids (d : Desk) : List Xid := sortBy Xid.before d.branches.keys

/-- Applies journal writes later, in the order they were handed over. -/
structure JournalWriter where
  running : Bool := false
  queue : List Entry := []
  deriving DecidableEq, Repr, Inhabited

/-- Hands a write over; a writer that has stopped drops it. -/
def JournalWriter.submit (w : JournalWriter) (e : Entry) : JournalWriter :=
  if w.running then { w with queue := w.queue ++ [e] } else w

/-- A post office. -/
structure Office where
  settings : Settings := {}
  /-- When commits are written to the journal; none if they never are. -/
  persistence : Option PersistenceMode := none
  desk : Desk := {}
  writer : JournalWriter := {}
  channel : Channel := Channel.ofSize 0
  /-- The owner number of the next send outside any transaction. -/
  nextOwner : Nat := 1
  deriving DecidableEq, Repr, Inhabited

/-- A post office without persistence. -/
def Office.ofSettings (s : Settings) : Office where
  settings := s
  channel := Channel.ofSize s.notificationQueueSize

end MessageRouting
