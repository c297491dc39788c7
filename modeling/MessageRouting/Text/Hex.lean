import MessageRouting.Text.Utf8

/-!
# Bytes for human readers

Identifiers are opaque bytes. In answers they stand in hexadecimal, in error
texts as text where they are printable.
-/

namespace MessageRouting

/-- The lowercase hexadecimal digit of a number below sixteen. -/
def hexDigit (n : Nat) : Char :=
  if n < 10 then Char.ofNat (n + 48) else Char.ofNat (n + 87)

/-- Two lowercase hexadecimal digits a byte, without separators. -/
def hexDigits : Bytes → List Char
  | [] => []
  | b :: rest => hexDigit (b.toNat / 16) :: hexDigit (b.toNat % 16) :: hexDigits rest

/-- Two lowercase hexadecimal digits a byte, without separators. -/
def hex (bytes : Bytes) : String := String.ofList (hexDigits bytes)

/-- Space and the visible ASCII characters. -/
def isPrintable (b : UInt8) : Bool := 0x20 ≤ b.toNat && b.toNat < 0x7F

/-- The longest identifier that is shown whole. -/
def displayLimit : Nat := 64

/-- A text cut to `displayLimit` characters, with two dots where something was cut. -/
def shorten (cs : List Char) : List Char :=
  if displayLimit < cs.length then cs.take displayLimit ++ ['.', '.'] else cs

/-- How an identifier stands in an error text: as itself if it is printable and not empty, in
hexadecimal otherwise, and shortened either way. -/
def displayIdentifier (id : Bytes) : String :=
  String.ofList (shorten (
    if !id.isEmpty && id.all isPrintable then id.map fun b => Char.ofNat b.toNat
    else hexDigits id))

/-- The name shown for a worker thread, which may have none of its own. -/
def displayThread (name : Option String) : String := name.getD "unknown-thread"

/-- The number shown for the transaction of a send, which may be outside any. -/
def displayTransaction (number : Option Nat) : String :=
  match number with
  | some n => toString n
  | none => "none"

/-- Who applies journal writes: an identity and the name of its thread. -/
structure Worker where
  id : String
  thread : String
  deriving DecidableEq, Repr

/-- The worker `id` on the thread of that name, if it has one. -/
def Worker.on (id : String) (thread : Option String) : Worker := ⟨id, displayThread thread⟩

end MessageRouting
