import MessageRouting.Json.Reader
import MessageRouting.Message
import MessageRouting.Xid

/-!
# Journal entries

The journal remembers identifiers across restarts. A committed record belongs
to an address and stands at a sequence number; a prepared record belongs to a
branch that waits for its outcome. An entry is one change of these records, and
each has a JSON form.
-/

namespace MessageRouting

/-- An identifier of an address at its sequence number. -/
structure Record where
  address : Address
  sequence : Nat
  duplicateId : Bytes
  deriving DecidableEq, Repr, Inhabited

/-- A record that a prepared branch has staged. -/
structure PreparedRecord where
  xid : Xid
  record : Record
  deriving DecidableEq, Repr, Inhabited

/-- One change of the journal. -/
inductive Entry where
  /-- Adds a committed record, over one that may stand at its sequence. -/
  | add (record : Record)
  /-- Takes the committed record at a sequence away. -/
  | prune (address : Address) (sequence : Nat)
  /-- Adds a prepared record. -/
  | prepare (xid : Xid) (record : Record)
  /-- Takes all prepared records of a branch away. -/
  | resolve (xid : Xid)
  deriving DecidableEq, Repr

open Json (Value)

/-! ## JSON forms -/

def Address.toJson (a : Address) : Value := .ofString a.text

def Address.ofJson? (v : Value) : Option Address := v.text?.map Address.mk

def Xid.toJson (x : Xid) : Value :=
  .ofFields [("format_id", .ofInt x.formatId), ("global_transaction_id", .ofBytes x.globalId),
    ("branch_qualifier", .ofBytes x.qualifier)]

def Xid.ofJson? (v : Value) : Option Xid := do
  match ← v.members? ["format_id", "global_transaction_id", "branch_qualifier"] with
  | [f, g, b] => some ⟨← f.int32?, ← g.bytes?, ← b.bytes?⟩
  | _ => none

def Record.toJson (r : Record) : Value :=
  .ofFields [("address", r.address.toJson), ("sequence", .ofNat r.sequence),
    ("duplicate_id", .ofBytes r.duplicateId)]

def Record.ofJson? (v : Value) : Option Record := do
  match ← v.members? ["address", "sequence", "duplicate_id"] with
  | [a, s, d] => some ⟨← Address.ofJson? a, ← s.nat? Json.maxUInt64, ← d.bytes?⟩
  | _ => none

def PreparedRecord.toJson (p : PreparedRecord) : Value :=
  .ofFields [("xid", p.xid.toJson), ("record", p.record.toJson)]

def PreparedRecord.ofJson? (v : Value) : Option PreparedRecord := do
  match ← v.members? ["xid", "record"] with
  | [x, r] => some ⟨← Xid.ofJson? x, ← Record.ofJson? r⟩
  | _ => none

/-- An object whose first field tells the kind of change. -/
def Entry.toJson : Entry → Value
  | add r => .ofFields [("op", .ofString "add"), ("record", r.toJson)]
  | prune a s =>
    .ofFields [("op", .ofString "prune"), ("address", a.toJson), ("sequence", .ofNat s)]
  | prepare x r =>
    .ofFields [("op", .ofString "prepare"), ("xid", x.toJson), ("record", r.toJson)]
  | resolve x => .ofFields [("op", .ofString "resolve"), ("xid", x.toJson)]

/-- The change of the kind `op` with the members of `body`. -/
def Entry.ofMembers? (op : String) (body : Value) : Option Entry :=
  if op = "add" then do
    match ← body.members? ["record"] with
    | [r] => some (.add (← Record.ofJson? r))
    | _ => none
  else if op = "prune" then do
    match ← body.members? ["address", "sequence"] with
    | [a, s] => some (.prune (← Address.ofJson? a) (← s.nat? Json.maxUInt64))
    | _ => none
  else if op = "prepare" then do
    match ← body.members? ["xid", "record"] with
    | [x, r] => some (.prepare (← Xid.ofJson? x) (← Record.ofJson? r))
    | _ => none
  else if op = "resolve" then do
    match ← body.members? ["xid"] with
    | [x] => some (.resolve (← Xid.ofJson? x))
    | _ => none
  else none

/-- The kind stands in the field `op`, wherever that is among the fields, or first in an array. -/
def Entry.ofJson? : Value → Option Entry
  | .object fields => do
    let op ← (← Json.onlyField? "op" fields).text?
    Entry.ofMembers? op (.object (fields.filter fun f => f.1 ≠ some "op"))
  | .array (op :: items) => do Entry.ofMembers? (← op.text?) (.array items)
  | _ => none

end MessageRouting
