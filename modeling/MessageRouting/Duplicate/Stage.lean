import MessageRouting.Journal.Entry

/-!
# Stages

An identifier is staged for an owner before it is committed, so that nobody
else commits it in the meantime. A stage is known by the sequence number it was
given: the same identifier staged again is another stage.
-/

namespace MessageRouting

/-- Who has staged an identifier: a transaction, or one send outside any. -/
inductive Owner where
  | transaction (n : Nat)
  | direct (n : Nat)
  deriving DecidableEq, Repr

/-- A granted stage, to be committed or rolled back. -/
structure Staged where
  address : Address
  duplicateId : Bytes
  sequence : Nat
  owner : Owner
  deriving DecidableEq, Repr

/-- The record of the staged identifier at a sequence. -/
def Staged.recordAt (s : Staged) (sequence : Nat) : Record :=
  ⟨s.address, sequence, s.duplicateId⟩

/-- The record of the stage itself. -/
def Staged.record (s : Staged) : Record := s.recordAt s.sequence

/-- How an attempt to stage an identifier ends. -/
inductive StageOutcome where
  | staged (s : Staged)
  /-- The owner has staged the identifier before. -/
  | alreadyStaged
  /-- The identifier is visible. -/
  | duplicate
  /-- The cache remembers nothing. -/
  | disabled
  deriving DecidableEq, Repr

end MessageRouting
