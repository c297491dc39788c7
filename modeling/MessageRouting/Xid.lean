import MessageRouting.Text.Hex

/-!
# Transaction branch identifiers

The global name of a branch of a distributed transaction: a format number and
two byte strings.
-/

namespace MessageRouting

/-- The global name of a transaction branch. -/
structure Xid where
  formatId : Int
  globalId : Bytes
  qualifier : Bytes
  deriving DecidableEq, Repr, Inhabited

/-- Lexicographic order on bytes. -/
def bytesBefore : Bytes → Bytes → Bool
  | _, [] => false
  | [], _ :: _ => true
  | a :: as, b :: bs => if a = b then bytesBefore as bs else decide (a.toNat < b.toNat)

namespace Xid

/-- The format number and both byte strings in hexadecimal, with colons between. -/
def display (x : Xid) : String :=
  toString x.formatId ++ ":" ++ hex x.globalId ++ ":" ++ hex x.qualifier

/-- Order by format number, then by the byte strings. -/
def before (x y : Xid) : Bool :=
  if x.formatId = y.formatId then
    if x.globalId = y.globalId then bytesBefore x.qualifier y.qualifier
    else bytesBefore x.globalId y.globalId
  else decide (x.formatId < y.formatId)

end Xid

end MessageRouting
