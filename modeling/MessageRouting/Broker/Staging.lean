import MessageRouting.Broker.Journal

/-!
# Stages at a broker

Caches together with the journal and with the calls that wait for them. When a
stage is resolved, the calls that wait for its cache may try again. A commit
draws its key first; in mandatory mode the record is written then, in async
mode once the identifier is visible. Evicted records are pruned by the writer.
-/

namespace MessageRouting.Broker

/-- Lets the calls that wait for a cache try again, in the order they began to wait. -/
def wake (b : Broker) (ref : CacheRef) : Broker :=
  { b with
    waiting := b.waiting.filter fun c => c.cache ≠ ref
    ready := b.ready ++ b.waiting.filter fun c => c.cache = ref }

/-- One attempt to stage an identifier. There is no outcome while another owner holds it. -/
def attemptStage (b : Broker) (ref : CacheRef) (id : Bytes) (owner : Owner) :
    Broker × Option StageOutcome :=
  match (b.cache ref).attempt id owner with
  | (some (.staged s), c) => ((b.setCache ref c).log (.granted ⟨ref, s⟩), some (.staged s))
  | (outcome, _) => (b, outcome)

/-- Draws the commit key of a stage and, in mandatory mode, writes the record. -/
def persistStage (b : Broker) (h : HeldStage) : Broker × Except JournalError Unit :=
  match (b.cache h.cache).drawKey h.staged with
  | (none, _) => (b, .ok ())
  | (some key, c) =>
    let b := b.setCache h.cache c
    match b.persistenceOf h.cache with
    | some .mandatory => b.write .inline (.add (h.staged.recordAt key))
    | _ => (b, .ok ())

/-- Makes a staged identifier visible. -/
def commitStage (b : Broker) (h : HeldStage) : Broker :=
  match (b.cache h.cache).commit h.staged with
  | (none, _) => b
  | (some p, c) =>
    let b := ((b.setCache h.cache c).log (.promoted h p)).wake h.cache
    let b := match b.persistenceOf h.cache with
      | some .async => b.submitFor h.cache (.add (h.staged.recordAt p.key))
      | _ => b
    p.evicted.foldl (fun b e => b.submitFor h.cache (.prune c.address e.1)) b

/-- Drops a stage. -/
def rollbackStage (b : Broker) (h : HeldStage) : Broker :=
  match (b.cache h.cache).rollback h.staged with
  | none => b
  | some c => ((b.setCache h.cache c).log (.dropped h)).wake h.cache

/-- Writes the prepared record of a stage, if its cache is kept in the journal. -/
def storePrepared (b : Broker) (x : Xid) (h : HeldStage) : Broker × Except JournalError Unit :=
  match b.persistenceOf h.cache with
  | some _ => b.write .inline (.prepare x h.staged.record)
  | none => (b, .ok ())

end MessageRouting.Broker
