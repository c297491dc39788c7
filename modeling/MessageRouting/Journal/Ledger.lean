import MessageRouting.Journal.Entry
import MessageRouting.Sorting

/-!
# Ledgers

What a journal remembers after all its entries: the committed records, by
address and sequence, and the prepared records in the order they came. A ledger
is all there is to a journal in memory; a journal file keeps one beside the
bytes.
-/

namespace MessageRouting

/-- The records a journal holds. The committed ones stand in order of address and sequence. -/
structure Ledger where
  committed : List Record := []
  prepared : List PreparedRecord := []
  deriving DecidableEq, Repr, Inhabited

/-- Whether two records stand at the same address and sequence. -/
def Record.samePlace (r s : Record) : Bool := r.address = s.address && r.sequence = s.sequence

/-- Order by address, then by sequence. -/
def Record.before (r s : Record) : Bool :=
  if r.address = s.address then decide (r.sequence < s.sequence) else r.address.before s.address

namespace Ledger

/-- The records with `r` in its place, over one that stood there. -/
def placeRecord (r : Record) : List Record → List Record
  | [] => [r]
  | s :: rest =>
    if r.samePlace s then r :: rest
    else if r.before s then r :: s :: rest
    else s :: placeRecord r rest

theorem mem_placeRecord {r s : Record} {l : List Record} (h : s ∈ placeRecord r l) :
    s = r ∨ s ∈ l := by
  induction l with
  | nil => simpa [placeRecord] using h
  | cons t rest ih =>
    simp only [placeRecord] at h
    split at h
    · rcases List.mem_cons.1 h with h | h <;> simp [h]
    · split at h
      · rcases List.mem_cons.1 h with h | h <;> simp_all
      · rcases List.mem_cons.1 h with h | h
        · simp [h]
        · rcases ih h with h | h <;> simp [h]

/-- The ledger after one more entry. -/
def apply (l : Ledger) : Entry → Ledger
  | .add r => { l with committed := placeRecord r l.committed }
  | .prune a n =>
    { l with committed := l.committed.filter fun r => !(r.address = a && r.sequence = n) }
  | .prepare x r => { l with prepared := l.prepared ++ [⟨x, r⟩] }
  | .resolve x => { l with prepared := l.prepared.filter fun p => p.xid ≠ x }

/-- The ledger after all the entries, in order. -/
def applyAll (l : Ledger) (es : List Entry) : Ledger := es.foldl apply l

theorem applyAll_append (l : Ledger) (es fs : List Entry) :
    l.applyAll (es ++ fs) = (l.applyAll es).applyAll fs := List.foldl_append

/-- The first of each run of equal addresses. -/
def distinctAddresses : List Address → List Address
  | [] => []
  | [a] => [a]
  | a :: b :: rest =>
    if a = b then distinctAddresses (b :: rest) else a :: distinctAddresses (b :: rest)

/-- The addresses that have committed records, in order. -/
def addresses (l : Ledger) : List Address := distinctAddresses (l.committed.map (·.address))

/-- The committed records of an address, in order of sequence. -/
def records (l : Ledger) (a : Address) : List Record :=
  l.committed.filter fun r => r.address = a

/-- The prepared records by branch, those of one branch in order of arrival. -/
def preparedByBranch (l : Ledger) : List PreparedRecord :=
  sortBy (fun p q => p.xid.before q.xid) l.prepared

/-- The prepared records by address, sequence and branch, those level in all in order of
arrival. -/
def preparedRecords (l : Ledger) : List PreparedRecord :=
  sortBy (fun p q => p.record.before q.record) l.preparedByBranch

/-- Entries that make this ledger from an empty one, none of them superseded. -/
def liveEntries (l : Ledger) : List Entry :=
  l.committed.map .add ++ l.preparedByBranch.map fun p => .prepare p.xid p.record

end Ledger

end MessageRouting
