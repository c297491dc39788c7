import MessageRouting.Decimal.Binary64
import MessageRouting.Json.Reader

/-!
# JSON5 values

Settings are written in JSON5. A numeral is kept as written and turned into a
number only where one is asked for: some forms are well formed but name no
number, and they do no harm where nobody reads them. A text, an array and an
object keep the character that they have been written with after their opening
mark.
-/

namespace MessageRouting.Json5

/-- The sign in front of a numeral. -/
inductive Sign where
  | none
  | plus
  | minus
  deriving DecidableEq, Repr

/-- The digits of a numeral. -/
inductive Digits where
  | infinity
  | nan
  | hexadecimal (n : Nat)
  /-- `mantissa` times ten to the `exponent`. -/
  | decimal (mantissa : Nat) (exponent : Int)
  deriving DecidableEq, Repr

/-- A number as written. -/
structure Numeral where
  sign : Sign
  digits : Digits
  deriving DecidableEq, Repr

inductive Value where
  | null
  | bool (b : Bool)
  | number (n : Numeral)
  | text (second : Char) (t : Json.Text)
  | array (second : Char) (items : List Value)
  | object (second : Char) (fields : List (Json.Text × Value))
  deriving Inhabited

/-- Whether the value is written with a second character of more than one byte, so that its first
two bytes are no text by themselves. -/
def Value.splitsCharacter : Value → Bool
  | .text c _ => decide (0x80 ≤ c.toNat)
  | .array c _ => decide (0x80 ≤ c.toNat)
  | .object c _ => decide (0x80 ≤ c.toNat)
  | _ => false

/-- A floating-point number. -/
inductive Real where
  | finite (negative : Bool) (x : Binary64)
  | infinite (negative : Bool)
  | nan
  deriving DecidableEq, Repr

/-- The number a numeral names. A sign does not go with hexadecimal digits, a plus sign not with
the names of what is no finite number, and digits have to name a finite one. -/
def Numeral.value? (n : Numeral) : Option Real :=
  match n.digits, n.sign with
  | .infinity, .none => some (.infinite false)
  | .infinity, .minus => some (.infinite true)
  | .infinity, .plus => none
  | .nan, .plus => none
  | .nan, _ => some .nan
  | .hexadecimal h, .none =>
    if h < 4294967296 then (Binary64.nearest h 1).map (.finite false) else none
  | .hexadecimal _, _ => none
  | .decimal m e, sign => (Binary64.ofDecimal m e).map (.finite (sign = .minus))

/-- The whole number next to a number on the side of zero, moved between `low` and `high`; zero
for what is no number. -/
def Real.truncate (low high : Int) : Real → Int
  | .nan => 0
  | .infinite true => low
  | .infinite false => high
  | .finite negative x =>
    let i : Int := if negative then -x.floor else x.floor
    max low (min high i)

/-- The number `v`, cut to a whole one between `low` and `high`. -/
def Value.int? (low high : Int) : Value → Option Int
  | .number n => n.value?.map (Real.truncate low high)
  | _ => none

def Value.bool? : Value → Option Bool
  | .bool b => some b
  | _ => none

end MessageRouting.Json5
