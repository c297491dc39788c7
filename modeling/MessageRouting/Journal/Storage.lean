import MessageRouting.Error
import MessageRouting.Journal.File

/-!
# The journal in use

Post offices write to one journal. It is kept in memory until a journal file is
opened. Each kind of call can be switched to fail, a single write can go wrong,
and the file can be damaged from outside; all this happens to journals, and
recovery has to cope with it.
-/

namespace MessageRouting

/-- The kinds of journal calls. -/
inductive JournalMethod where
  | append
  | prune
  | addresses
  | load
  | store
  | delete
  | prepared
  deriving DecidableEq, Repr

namespace JournalMethod

def name : JournalMethod → String
  | append => "append"
  | prune => "prune"
  | addresses => "addresses"
  | load => "load"
  | store => "store"
  | delete => "delete"
  | prepared => "prepared"

/-- The failure of a call that is switched to fail. -/
def failure (m : JournalMethod) : JournalError := .unavailable ("injected " ++ m.name ++ " failure")

end JournalMethod

/-- The kind of call that writes an entry. -/
def Entry.method : Entry → JournalMethod
  | add _ => .append
  | prune _ _ => .prune
  | prepare _ _ => .store
  | resolve _ => .delete

/-- What stands at the path of the journal file. -/
inductive Place where
  | nothing
  | directory
  | file (contents : Bytes)
  deriving DecidableEq, Repr

/-- The journal that post offices write to. -/
structure Storage where
  memory : Ledger := {}
  /-- The journal file, once one has been opened. -/
  file : Option JournalFile := none
  /-- What stands at the path, unless it is the journal file itself. -/
  beside : Place := .nothing
  /-- Whether the journal file has lost its name and stands at no path. -/
  detached : Bool := false
  /-- Whether compaction finds its way blocked. -/
  compactionBlocked : Bool := false
  failing : List JournalMethod := []
  /-- The next writes that go wrong by themselves: for each write to come the kind of call that
  fails if it is of that kind. -/
  lapses : List (Option JournalMethod) := []
  deriving DecidableEq, Repr, Inhabited

namespace Storage

/-- The records of the journal in use. -/
def ledger (s : Storage) : Ledger :=
  match s.file with
  | some f => f.ledger
  | none => s.memory

/-- The outcome of a call of kind `m`, the switches alone considered. -/
def permit (s : Storage) (m : JournalMethod) : Except JournalError Unit :=
  if m ∈ s.failing then .error m.failure else .ok ()

/-- The outcome of the next write if it is a call of kind `m`. -/
def permitWrite (s : Storage) (m : JournalMethod) : Except JournalError Unit :=
  if s.lapses.head? = some (some m) then .error m.failure else s.permit m

/-- Writes an entry, unless calls of its kind fail. -/
def write (s : Storage) (e : Entry) : Storage × Except JournalError Unit :=
  let left := { s with lapses := s.lapses.tail }
  match s.permitWrite e.method with
  | .error err => (left, .error err)
  | .ok () =>
    match s.file with
    | some f => ({ left with file := some (f.write e) }, .ok ())
    | none => ({ left with memory := s.memory.apply e }, .ok ())

/-- What stands at the path. -/
def onDisk (s : Storage) : Place :=
  match s.file with
  | some f => if s.detached then s.beside else .file f.contents
  | none => s.beside

/-- Opens the file at the path. What cannot be opened leaves the journal in memory in use. -/
def openFile (s : Storage) : Storage × Except JournalError Nat :=
  let closed := { s with file := none, beside := s.onDisk, detached := false }
  let opened (contents : Bytes) : Storage × Except JournalError Nat :=
    match JournalFile.openBytes? contents with
    | some f => ({ closed with file := some f }, .ok f.entries)
    | none => (closed, .error .codec)
  match s.onDisk with
  | .nothing => opened []
  | .file contents => opened contents
  | .directory => (closed, .error .io)

/-- Puts something else at the path, in place of a file that the journal may have open. -/
def replace (s : Storage) (place : Place) : Storage :=
  { s with beside := place, detached := true }

/-- How many bytes the file at the path has. -/
def sizeOnDisk (s : Storage) : Nat :=
  match s.onDisk with
  | .file contents => contents.length
  | _ => 0

/-- Cuts the file at the path after `keep` bytes. -/
def cut (s : Storage) (keep : Nat) : Storage :=
  match s.onDisk with
  | .file contents =>
    match s.file with
    | some f =>
      if s.detached then { s with beside := .file (contents.take keep) }
      else { s with file := some { f with contents := contents.take keep } }
    | none => { s with beside := .file (contents.take keep) }
  | _ => s

/-- Compacts the journal file, if there is one; the number of entries then. -/
def compact (s : Storage) : Storage × Except JournalError (Option Nat) :=
  match s.file with
  | none => (s, .ok none)
  | some f =>
    if s.compactionBlocked then (s, .error .io)
    else
      let f := f.compact
      ({ s with file := some f, detached := false }, .ok (some f.entries))

/-- The number of entries in the journal file, if there is one. -/
def entryCount (s : Storage) : Option Nat := s.file.map (·.entries)

/-- The lines at the path that are not empty. -/
def lines (s : Storage) : List Bytes :=
  match s.onDisk with
  | .file contents => JournalFile.lines contents
  | _ => []

end Storage

end MessageRouting
