import MessageRouting.Journal.Ledger
import MessageRouting.Journal.Line

/-!
# Journal files

A journal file holds one line an entry. Opening it replays the lines; an
incomplete line at the end, left by a writer that was cut off, is dropped, and
any other line that is no entry keeps the file from being opened. Compaction
replaces the file by the lines that still matter.
-/

namespace MessageRouting

/-- An open journal file: its bytes, what they amount to, and how many entries they hold. -/
structure JournalFile where
  contents : Bytes
  ledger : Ledger
  entries : Nat
  deriving DecidableEq, Repr, Inhabited

namespace JournalFile

/-- What replaying the segments of a file comes to. -/
structure Replay where
  ledger : Ledger := {}
  entries : Nat := 0
  /-- How many bytes lie before the incomplete line at the end, if there is one. -/
  tornAt : Option Nat := none
  deriving DecidableEq, Repr

/-- Replays one segment that starts after `offset` bytes; `none` if it is a whole line that is no
entry. -/
def Replay.segment? (r : Replay) (offset : Nat) (s : Segment) : Option Replay :=
  if s.isBlank then some r
  else match Entry.ofBytes? s.bytes with
    | some e => some { r with ledger := r.ledger.apply e, entries := r.entries + 1 }
    | none => if s.complete then none else some { r with tornAt := some offset }

/-- Replays the segments in order, the first of them starting after `offset` bytes. -/
def replay? : List Segment → Nat → Replay → Option Replay
  | [], _, r => some r
  | s :: rest, offset, r => do replay? rest (offset + s.bytes.length) (← r.segment? offset s)

/-- Whether the bytes are none or end with a newline. -/
def endsLine (bytes : Bytes) : Bool := bytes.getLast?.all (· = newline)

/-- Opens a file with these contents, without its incomplete line at the end and with a newline at
the end; `none` if a line is no entry. -/
def openBytes? (contents : Bytes) : Option JournalFile := do
  let r ← replay? (segments contents) 0 {}
  let contents := match r.tornAt with
    | some n => contents.take n
    | none => if endsLine contents then contents else contents ++ [newline]
  some { contents, ledger := r.ledger, entries := r.entries }

/-- The file with one more entry. -/
def write (f : JournalFile) (e : Entry) : JournalFile where
  contents := f.contents ++ e.line
  ledger := f.ledger.apply e
  entries := f.entries + 1

/-- The file with the live entries alone. -/
def compact (f : JournalFile) : JournalFile where
  contents := f.ledger.liveEntries.flatMap Entry.line
  ledger := f.ledger
  entries := f.ledger.liveEntries.length

/-- The lines that are not empty, without their newlines. -/
def lines (contents : Bytes) : List Bytes :=
  ((segments contents).map fun s => s.bytes.filter (· ≠ newline)).filter fun l => !l.isEmpty

end JournalFile

end MessageRouting
