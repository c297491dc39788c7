import MessageRouting.Broker.State

/-!
# Journal calls

Every call to the journal is written to the trace. Some are made inline by
whoever is routing; the others are handed to the writer of a post office, which
makes them later, in order, and carries on after one that fails.
-/

namespace MessageRouting.Broker

/-- Writes an entry to the journal. -/
def write (b : Broker) (caller : JournalCaller) (e : Entry) : Broker × Except JournalError Unit :=
  let (storage, result) := b.storage.write e
  ({ b with storage }.log (.journal caller (.write e) result.isOk), result)

/-- Reads from the journal. -/
def read {α : Type} (b : Broker) (call : JournalCall) (m : JournalMethod) (f : Ledger → α) :
    Broker × Except JournalError α :=
  let result := (b.storage.permit m).map fun _ => f b.storage.ledger
  (b.log (.journal .inline call result.isOk), result)

/-- The addresses that have committed records. -/
def readAddresses (b : Broker) : Broker × Except JournalError (List Address) :=
  b.read .addresses .addresses Ledger.addresses

/-- The committed records of an address. -/
def readRecords (b : Broker) (a : Address) : Broker × Except JournalError (List Record) :=
  b.read (.load a) .load (·.records a)

/-- The prepared records. -/
def readPrepared (b : Broker) : Broker × Except JournalError (List PreparedRecord) :=
  b.read .prepared .prepared Ledger.preparedRecords

/-! ## Writers -/

/-- Hands a write to the writer of a post office. -/
def submit (b : Broker) (n : Nat) (e : Entry) : Broker :=
  b.modifyOffice n fun o => { o with writer := o.writer.submit e }

/-- Hands a write to the writer of the post office that a cache belongs to. -/
def submitFor (b : Broker) (ref : CacheRef) (e : Entry) : Broker :=
  match ref with
  | .office n _ => b.submit n e
  | .standalone _ => b

/-- Makes the next write of a post office's writer. -/
def writeNext (b : Broker) (n : Nat) : Broker :=
  match (b.office n).writer.queue with
  | [] => b
  | e :: rest =>
    (b.modifyOffice n fun o => { o with writer := { o.writer with queue := rest } }).write
      .writer e |>.1

/-- Makes the next writes of a post office's writer, `k` of them at most. -/
def writeSome (b : Broker) (n : Nat) : Nat → Broker
  | 0 => b
  | k + 1 => (b.writeNext n).writeSome n k

/-- Makes all writes that a post office's writer has been handed. -/
def flush (b : Broker) (n : Nat) : Broker := b.writeSome n (b.office n).writer.queue.length

/-- Makes all writes that any writer has been handed. -/
def flushAll (b : Broker) : Broker := (List.range b.offices.length).foldl flush b

/-- Flushes the writer of a post office and stops it for good. -/
def stop (b : Broker) (n : Nat) : Broker :=
  (b.flush n).modifyOffice n fun o => { o with writer := { o.writer with running := false } }

end MessageRouting.Broker
