import MessageRouting.Text.Hex

/-!
# JSON values

A value as its text gives it: numbers keep their decimal digits, objects keep
the order and the repetitions of their fields. `print` writes a value without
any blank.

A string escape may name half of a surrogate pair. Such a string is part of a
correct text but has no characters to give, so a string is an optional text.
-/

namespace MessageRouting.Json

/-- A number as written: `mantissa` times ten to the `exponent`. It is `integral` if it was
written with neither a point nor an exponent. -/
structure Number where
  negative : Bool
  mantissa : Nat
  exponent : Int
  integral : Bool
  deriving DecidableEq, Repr

/-- The text of a string, if all its escapes are whole characters. -/
abbrev Text := Option String

inductive Value where
  | null
  | bool (b : Bool)
  | number (n : Number)
  | text (t : Text)
  | array (items : List Value)
  | object (fields : List (Text × Value))
  deriving Inhabited

/-- The whole number `n`, not negative. -/
def Value.ofNat (n : Nat) : Value := .number ⟨false, n, 0, true⟩

/-- The whole number `n`. -/
def Value.ofInt (n : Int) : Value := .number ⟨decide (n < 0), n.natAbs, 0, true⟩

/-- The string `s`. -/
def Value.ofString (s : String) : Value := .text (some s)

/-- The array of the bytes. -/
def Value.ofBytes (bytes : List UInt8) : Value :=
  .array (bytes.map fun b => Value.ofNat b.toNat)

/-- The object with the named fields in the order given. -/
def Value.ofFields (fields : List (String × Value)) : Value :=
  .object (fields.map fun f => (some f.1, f.2))

/-! ## Printing -/

/-- How a character stands inside a string. Quotes, backslashes and control characters are
escaped, everything else is itself. -/
def printChar (c : Char) : List Char :=
  if c = '"' then ['\\', '"']
  else if c = '\\' then ['\\', '\\']
  else if c.toNat = 8 then ['\\', 'b']
  else if c.toNat = 9 then ['\\', 't']
  else if c.toNat = 10 then ['\\', 'n']
  else if c.toNat = 12 then ['\\', 'f']
  else if c.toNat = 13 then ['\\', 'r']
  else if c.toNat < 32 then
    ['\\', 'u', '0', '0', hexDigit (c.toNat / 16), hexDigit (c.toNat % 16)]
  else [c]

/-- The characters of a string between its quotes. -/
def printChars : List Char → List Char
  | [] => []
  | c :: cs => printChar c ++ printChars cs

/-- A string in quotes. -/
def printString (s : String) : List Char := '"' :: (printChars s.toList ++ ['"'])

/-- A string in quotes; without a text, one with half a surrogate pair. -/
def printText : Text → List Char
  | some s => printString s
  | none => ['"', '\\', 'u', 'd', '8', '0', '0', '"']

/-- A number: its sign, its digits, and an exponent unless it is integral. -/
def printNumber (n : Number) : List Char :=
  (if n.negative then ['-'] else []) ++ Nat.toDigits 10 n.mantissa ++
    (if n.integral then []
     else 'e' :: (if n.exponent < 0 then ['-'] else []) ++ Nat.toDigits 10 n.exponent.natAbs)

mutual

/-- The value without any blank. -/
def Value.print : Value → List Char
  | .null => ['n', 'u', 'l', 'l']
  | .bool true => ['t', 'r', 'u', 'e']
  | .bool false => ['f', 'a', 'l', 's', 'e']
  | .number n => printNumber n
  | .text t => printText t
  | .array items => '[' :: printItems items
  | .object fields => '{' :: printFields fields

/-- The rest of an array after its opening bracket. -/
def printItems : List Value → List Char
  | [] => [']']
  | v :: vs => v.print ++ printMoreItems vs

/-- The rest of an array after an item. -/
def printMoreItems : List Value → List Char
  | [] => [']']
  | v :: vs => ',' :: (v.print ++ printMoreItems vs)

/-- The rest of an object after its opening brace. -/
def printFields : List (Text × Value) → List Char
  | [] => ['}']
  | (k, v) :: fs => printText k ++ ':' :: (v.print ++ printMoreFields fs)

/-- The rest of an object after a field. -/
def printMoreFields : List (Text × Value) → List Char
  | [] => ['}']
  | (k, v) :: fs => ',' :: (printText k ++ ':' :: (v.print ++ printMoreFields fs))

end

end MessageRouting.Json
