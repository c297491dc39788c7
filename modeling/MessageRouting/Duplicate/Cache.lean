import MessageRouting.Duplicate.Stage
import MessageRouting.Journal.Ledger
import MessageRouting.Table

/-!
# Duplicate-identifier caches

The cache of an address remembers the identifiers committed last. An identifier
is first pending, for one owner, and then visible; when more than `capacity` are
visible the oldest go. Stages and commits are numbered from one counter. The
order of the visible identifiers is that of their commit keys, drawn when a
commit starts, so a late commit of an early stage enters as the newest.
-/

namespace MessageRouting

/-- An identifier that is staged and not yet resolved. -/
structure Pending where
  owner : Owner
  sequence : Nat
  /-- The place among the visible identifiers, drawn when the commit starts. -/
  commitKey : Option Nat := none
  deriving DecidableEq, Repr

/-- The identifiers of one address. -/
structure Cache where
  address : Address
  capacity : Nat
  /-- The visible identifiers by commit key, the oldest first. -/
  visible : List (Nat × Bytes) := []
  /-- The commit key of each visible identifier. -/
  index : Table Bytes Nat := {}
  pending : Table Bytes Pending := {}
  nextSequence : Nat := 1
  deriving DecidableEq, Repr, Inhabited

/-- What a commit did: the key of the identifier that became visible, and the entries it
displaced, the oldest first. -/
structure Promotion where
  key : Nat
  evicted : List (Nat × Bytes)
  deriving DecidableEq, Repr

namespace Cache

/-- A cache that remembers nothing never stages. -/
def enabled (c : Cache) : Bool := 0 < c.capacity

/-- Whether the identifier is visible. -/
def isDuplicate (c : Cache) (id : Bytes) : Bool := c.enabled && c.index.contains id

/-- The visible identifiers, the oldest first. -/
def visibleIds (c : Cache) : List Bytes := c.visible.map (·.2)

/-! ## Staging -/

/-- One attempt to stage an identifier. There is no outcome while another owner holds it. -/
def attempt (c : Cache) (id : Bytes) (owner : Owner) : Option StageOutcome × Cache :=
  if !c.enabled then (some .disabled, c)
  else if c.index.contains id then (some .duplicate, c)
  else match c.pending.get? id with
    | some p => if p.owner = owner then (some .alreadyStaged, c) else (none, c)
    | none =>
      let n := c.nextSequence
      (some (.staged ⟨c.address, id, n, owner⟩),
        { c with pending := c.pending.insert id ⟨owner, n, none⟩, nextSequence := n + 1 })

/-- The pending entry of a stage; none if the stage is resolved or was never granted here. -/
def pendingOf? (c : Cache) (s : Staged) : Option Pending :=
  match c.pending.get? s.duplicateId with
  | some p => if p.sequence = s.sequence then some p else none
  | none => none

/-- The commit key of a pending stage, drawn on first use. -/
def drawKey (c : Cache) (s : Staged) : Option Nat × Cache :=
  match c.pendingOf? s with
  | none => (none, c)
  | some p =>
    match p.commitKey with
    | some key => (some key, c)
    | none =>
      let n := c.nextSequence
      (some n,
        { c with
          pending := c.pending.insert s.duplicateId { p with commitKey := some n }
          nextSequence := n + 1 })

/-! ## Resolving -/

/-- The entries with `id` at `key`, in order of key. -/
def placeVisible (key : Nat) (id : Bytes) : List (Nat × Bytes) → List (Nat × Bytes)
  | [] => [(key, id)]
  | (k, v) :: rest =>
    if key < k then (key, id) :: (k, v) :: rest
    else if key = k then (key, id) :: rest
    else (k, v) :: placeVisible key id rest

/-- The oldest entry whose key is not `key`, and the entries without it. -/
def takeOldest (key : Nat) : List (Nat × Bytes) → Option ((Nat × Bytes) × List (Nat × Bytes))
  | [] => none
  | e :: rest =>
    if e.1 ≠ key then some (e, rest)
    else (takeOldest key rest).map fun (o, more) => (o, e :: more)

/-- Drops the `excess` oldest entries other than the one at `key`; what was dropped, the oldest
first, and the cache then. -/
def evict (key : Nat) : Nat → Cache → List (Nat × Bytes) × Cache
  | 0, c => ([], c)
  | excess + 1, c =>
    match takeOldest key c.visible with
    | none => ([], c)
    | some (e, rest) =>
      let (more, c) := evict key excess { c with visible := rest, index := c.index.erase e.2 }
      (e :: more, c)

/-- Makes a pending stage visible. A stage that is not pending changes nothing. -/
def commit (c : Cache) (s : Staged) : Option Promotion × Cache :=
  match c.drawKey s with
  | (none, c) => (none, c)
  | (some key, c) =>
    let c := { c with
      pending := c.pending.erase s.duplicateId
      visible := placeVisible key s.duplicateId c.visible
      index := c.index.insert s.duplicateId key }
    let (evicted, c) := evict key (c.visible.length - c.capacity) c
    (some ⟨key, evicted⟩, c)

/-- Drops a pending stage; nothing if it is not pending. -/
def rollback (c : Cache) (s : Staged) : Option Cache :=
  match c.pendingOf? s with
  | none => none
  | some _ => some { c with pending := c.pending.erase s.duplicateId }

/-! ## Recovery -/

/-- Records of one address in order of sequence. -/
def bySequence (records : List Record) : List Record :=
  sortBy (fun r s => decide (r.sequence < s.sequence)) records

/-- The records that a cache of this capacity has no room for, the oldest ones. -/
def surplus (capacity : Nat) (records : List Record) : List Record :=
  (bySequence records).take (records.length - capacity)

/-- The records that a cache of this capacity takes in, the newest ones. -/
def retained (capacity : Nat) (records : List Record) : List Record :=
  (bySequence records).drop (records.length - capacity)

/-- Numbers everything to come after the record. -/
def passSequence (c : Cache) (r : Record) : Cache :=
  { c with nextSequence := max c.nextSequence (r.sequence + 1) }

/-- Makes a record visible. -/
def remember (c : Cache) (r : Record) : Cache :=
  { c with
    visible := placeVisible r.sequence r.duplicateId c.visible
    index := c.index.insert r.duplicateId r.sequence }.passSequence r

/-- Takes in the newest of the records, and numbers everything to come after all of them. -/
def load (c : Cache) (records : List Record) : Cache :=
  (surplus c.capacity records).foldl passSequence ((retained c.capacity records).foldl remember c)

/-- Stages the identifier of a prepared record again, as it was before a restart. -/
def recover (c : Cache) (r : Record) (owner : Owner) : Staged × Cache :=
  (⟨c.address, r.duplicateId, r.sequence, owner⟩,
    { c with pending := c.pending.insert r.duplicateId ⟨owner, r.sequence, none⟩ }.passSequence r)

end Cache

end MessageRouting
