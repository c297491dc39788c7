import MessageRouting.Broker.Routing

/-!
# Opening post offices

A post office that keeps its identifiers in the journal begins with what the
journal holds: its caches take in the newest records, the others are pruned,
and prepared branches are staged again and wait for their outcome. If the
journal fails, the post office is not opened, and what has been pruned by then
stays pruned.
-/

namespace MessageRouting.Broker

/-- Prunes records, one by one. -/
def pruneAll (b : Broker) : List Record → Broker × Except JournalError Unit
  | [] => (b, .ok ())
  | r :: rest =>
    match b.write .inline (.prune r.address r.sequence) with
    | (b, .error e) => (b, .error e)
    | (b, .ok ()) => b.pruneAll rest

/-- Fills the cache of an address at a post office from the journal. -/
def loadAddress (b : Broker) (n capacity : Nat) (a : Address) : Broker × Except JournalError Unit :=
  match b.readRecords a with
  | (b, .error e) => (b, .error e)
  | (b, .ok records) =>
    let b := b.openCache (.office n a) a capacity
    match b.pruneAll (Cache.surplus capacity records) with
    | (b, .error e) => (b, .error e)
    | (b, .ok ()) =>
      let ref := CacheRef.office n a
      (b.setCache ref ((b.cache ref).load records), .ok ())

/-- Fills the caches of the addresses, one by one. -/
def loadAll (b : Broker) (n capacity : Nat) : List Address → Broker × Except JournalError Unit
  | [] => (b, .ok ())
  | a :: rest =>
    match b.loadAddress n capacity a with
    | (b, .error e) => (b, .error e)
    | (b, .ok ()) => b.loadAll n capacity rest

/-- Fills the caches of a post office; the prepared records that remain to be staged. -/
def load (b : Broker) (n capacity : Nat) : Broker × Except JournalError (List PreparedRecord) :=
  match b.readAddresses with
  | (b, .error e) => (b, .error e)
  | (b, .ok addresses) =>
    match b.loadAll n capacity addresses with
    | (b, .error e) => (b, .error e)
    | (b, .ok ()) => b.readPrepared

/-- The records of each branch; branches in order, the records of each as they stand. -/
def byBranch (ps : List PreparedRecord) : List (Xid × List Record) :=
  (sortBy Xid.before (ps.map (·.xid)).eraseDups).map fun x =>
    (x, (ps.filter fun p => p.xid = x).map (·.record))

/-- Stages the identifier of a prepared record again, for the transaction of that number, and
registers the delivery that completes with it. -/
def recoverRecord (n t : Nat) (b : Broker) (r : Record) : Broker :=
  let ref := CacheRef.office n r.address
  let b := b.openOfficeCache n r.address
  let (staged, c) := (b.cache ref).recover r (.transaction t)
  let d : PendingDelivery :=
    { delivery :=
        { message := { id := 0, address := r.address, duplicateId := some r.duplicateId }
          stage := some ⟨ref, staged⟩ }
      recorded := true }
  (b.setCache ref c).modifyTransaction t fun t =>
    { t with operations := t.operations ++ [.delivery d] }

/-- Makes the transaction of a branch, and keeps it at the post office. -/
def recoverBranch (n : Nat) (b : Broker) (branch : Xid × List Record) : Broker :=
  let b := b.addTransaction { xid := some branch.1, state := .prepared }
  let t := b.lastTransaction
  let b := branch.2.foldl (recoverRecord n t) b
  b.setBranches (some n) ((b.deskAt (some n)).branches.insert branch.1 t)

/-- Opens a post office that keeps nothing in the journal; its number. -/
def openPlain (b : Broker) (s : Settings) : Broker × Nat :=
  ({ b with offices := b.offices ++ [Office.ofSettings s] }, b.offices.length)

/-- Opens a post office that keeps its identifiers in the journal; its number. -/
def openPersistent (b : Broker) (s : Settings) : Broker × Except RoutingError Nat :=
  let n := b.offices.length
  match b.load n s.idCacheCapacity with
  | (failed, .error e) => ({ failed with caches := b.caches }, .error (.persistence e))
  | (b, .ok prepared) =>
    let office := { Office.ofSettings s with
      persistence := some s.idCachePersistence, writer := { running := true } }
    let b := { b with offices := b.offices ++ [office] }
    ((byBranch prepared).foldl (recoverBranch n) b, .ok n)

/-- Starts a post office: with the journal if its settings ask for it. -/
def start (b : Broker) (s : Settings) : Broker × Except RoutingError Nat :=
  if s.persistIdCache && s.duplicateDetection then b.openPersistent s
  else
    let (b, n) := b.openPlain s
    (b, .ok n)

end MessageRouting.Broker
