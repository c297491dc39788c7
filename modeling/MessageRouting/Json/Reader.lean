import MessageRouting.Decimal.Binary64
import MessageRouting.Json.Value

/-!
# Reading JSON

`parse` reads one value with nothing but blanks around it. Read strictly, every
string has to have a text, every number has to be in the range of binary
floating point, and values nest at most `depthLimit` deep; read loosely, the
parts that nobody asks for only have to be well formed.
-/

namespace MessageRouting.Json

/-! ## Tokens -/

def isBlank (c : Char) : Bool := c = ' ' || c = '\n' || c = '\t' || c = '\r'

def isDigit (c : Char) : Bool := '0' ≤ c && c ≤ '9'

/-- The text after its leading blanks. -/
def skipBlank : List Char → List Char
  | [] => []
  | c :: cs => if isBlank c then skipBlank cs else c :: cs

/-- What follows `word` at the front of the text. -/
def afterWord? : List Char → List Char → Option (List Char)
  | [], cs => some cs
  | _ :: _, [] => none
  | w :: ws, c :: cs => if w = c then afterWord? ws cs else none

/-- The value of a hexadecimal digit in either case. -/
def hexValue? (c : Char) : Option Nat :=
  if '0' ≤ c ∧ c ≤ '9' then some (c.toNat - 48)
  else if 'a' ≤ c ∧ c ≤ 'f' then some (c.toNat - 87)
  else if 'A' ≤ c ∧ c ≤ 'F' then some (c.toNat - 55)
  else none

/-- The number that hexadecimal digits spell. -/
def hexNumber? : List Char → Option Nat
  | cs => cs.foldlM (fun n c => (hexValue? c).map (16 * n + ·)) 0

/-! ## Strings -/

/-- A piece of a string: a character, or the 16-bit unit that an escape names. -/
inductive Piece where
  | char (c : Char)
  | unit (n : Nat)
  deriving DecidableEq, Repr

/-- What a backslash and `c` stand for. -/
def simpleEscape? (c : Char) : Option Char :=
  if c = '"' then some '"'
  else if c = '\\' then some '\\'
  else if c = '/' then some '/'
  else if c = 'b' then some (Char.ofNat 8)
  else if c = 'f' then some (Char.ofNat 12)
  else if c = 'n' then some '\n'
  else if c = 'r' then some '\r'
  else if c = 't' then some '\t'
  else none

/-- The pieces up to the closing quote, and what follows it. -/
def readPieces : List Char → Option (List Piece × List Char)
  | [] => none
  | c :: cs =>
    if c = '"' then some ([], cs)
    else if c = '\\' then
      match cs with
      | [] => none
      | e :: rest =>
        if e = 'u' then
          match rest with
          | d₁ :: d₂ :: d₃ :: d₄ :: after => do
            let n ← hexNumber? [d₁, d₂, d₃, d₄]
            let (ps, r) ← readPieces after
            some (.unit n :: ps, r)
          | _ => none
        else do
          let x ← simpleEscape? e
          let (ps, r) ← readPieces rest
          some (.char x :: ps, r)
    else if c.toNat < 32 then none
    else do
      let (ps, r) ← readPieces cs
      some (.char c :: ps, r)

def isHighSurrogate (n : Nat) : Bool := 0xD800 ≤ n && n < 0xDC00

def isLowSurrogate (n : Nat) : Bool := 0xDC00 ≤ n && n < 0xE000

/-- The characters of the pieces: two units that form a surrogate pair are one character, and a
unit that is half of a pair without its other half has none. -/
def joinPieces : List Piece → Option (List Char)
  | [] => some []
  | .char c :: ps => (joinPieces ps).map (c :: ·)
  | .unit n :: ps =>
    if isHighSurrogate n then
      match ps with
      | .unit m :: rest =>
        if isLowSurrogate m then
          (joinPieces rest).map (Char.ofNat (0x10000 + (n - 0xD800) * 0x400 + (m - 0xDC00)) :: ·)
        else none
      | _ => none
    else if isLowSurrogate n then none
    else (joinPieces ps).map (Char.ofNat n :: ·)

/-- The string up to its closing quote, and what follows it. -/
def readText (cs : List Char) : Option (Text × List Char) := do
  let (ps, rest) ← readPieces cs
  some ((joinPieces ps).map String.ofList, rest)

/-! ## Numbers -/

/-- One digit or more, and what follows them. -/
def readDigits (cs : List Char) : Option (List Char × List Char) :=
  match cs.takeWhile isDigit with
  | [] => none
  | d :: ds => some (d :: ds, cs.dropWhile isDigit)

/-- A whole part: a zero alone, or digits that do not start with one. -/
def readWhole (cs : List Char) : Option (List Char × List Char) := do
  let (ds, rest) ← readDigits cs
  if ds.head? = some '0' ∧ 1 < ds.length then none else some (ds, rest)

/-- The digits after a point, if there is one. -/
def readFraction (cs : List Char) : Option (Option (List Char) × List Char) :=
  match cs with
  | '.' :: rest => do
    let (ds, rest) ← readDigits rest
    some (some ds, rest)
  | _ => some (none, cs)

/-- The exponent after its letter, if there is one. -/
def readExponent (cs : List Char) : Option (Option Int × List Char) :=
  match cs with
  | c :: rest =>
    if c = 'e' ∨ c = 'E' then
      let (negative, rest) := match rest with
        | '-' :: r => (true, r)
        | '+' :: r => (false, r)
        | _ => (false, rest)
      do
        let (ds, rest) ← readDigits rest
        let n : Int := Nat.ofDigitChars 10 ds 0
        some (some (if negative then -n else n), rest)
    else some (none, cs)
  | [] => some (none, cs)

/-- The number that the whole part, the fraction and the exponent make up. -/
def Number.ofParts (negative : Bool) (whole : List Char) (fraction : Option (List Char))
    (exponent : Option Int) : Number :=
  { negative
    mantissa := Nat.ofDigitChars 10 (whole ++ fraction.getD []) 0
    exponent := exponent.getD 0 - (fraction.getD []).length
    integral := fraction.isNone && exponent.isNone }

/-- A number without its sign, and what follows it. -/
def readUnsigned (negative : Bool) (cs : List Char) : Option (Number × List Char) := do
  let (whole, rest) ← readWhole cs
  let (fraction, rest) ← readFraction rest
  let (exponent, rest) ← readExponent rest
  some (Number.ofParts negative whole fraction exponent, rest)

/-- A number and what follows it. -/
def readNumber (cs : List Char) : Option (Number × List Char) :=
  match cs with
  | '-' :: rest => readUnsigned true rest
  | _ => readUnsigned false cs

/-- The largest number that fits 64 bits. -/
def maxUInt64 : Nat := 18446744073709551615

/-- The longest beginning of the digits of `n` that fits 64 bits, and how many digits it lacks. -/
def leadingDigits (n : Nat) : Nat × Nat :=
  if n ≤ maxUInt64 then (n, 0)
  else
    let (m, dropped) := leadingDigits (n / 10)
    (m, dropped + 1)

theorem leadingDigits_le (n : Nat) : (leadingDigits n).1 ≤ maxUInt64 := by
  fun_induction leadingDigits n with
  | case1 n h => exact h
  | case2 n h m dropped eq ih => simpa [eq] using ih

theorem leadingDigits_of_le {n : Nat} (h : n ≤ maxUInt64) : leadingDigits n = (n, 0) := by
  rw [leadingDigits, if_pos h]

/-- Whether the number is taken for a finite one. Its size is estimated: digits that do not fit 64
bits are left out, and the others and the power of ten are rounded before they are multiplied. -/
def Number.inRange (n : Number) : Bool :=
  let (m, dropped) := leadingDigits n.mantissa
  let e := n.exponent + dropped
  if m = 0 ∨ e < 0 then true
  else if 308 < e then false
  else ((Binary64.nearest m 1).bind fun x =>
    (Binary64.nearest (Binary64.power 10 e.toNat) 1).bind x.mul).isSome

/-! ## Values -/

/-- One level less to nest in; nothing once the limit is reached. -/
def deeper? : Nat → Option Nat
  | 0 => none
  | 1 => none
  | d + 2 => some (d + 1)

mutual

/-- A value at the front of the text, and what follows it. The first number bounds the steps, the
second the nesting. -/
def readValue (strict : Bool) : Nat → Nat → List Char → Option (Value × List Char)
  | 0, _, _ => none
  | _ + 1, _, [] => none
  | fuel + 1, depth, c :: cs =>
    if c = '"' then do
      let (t, rest) ← readText cs
      if strict && t.isNone then none else some (.text t, rest)
    else if c = '[' then do
      let depth ← deeper? depth
      match skipBlank cs with
      | ']' :: rest => some (.array [], rest)
      | cs => do
        let (vs, rest) ← readItems strict fuel depth cs
        some (.array vs, rest)
    else if c = '{' then do
      let depth ← deeper? depth
      match skipBlank cs with
      | '}' :: rest => some (.object [], rest)
      | cs => do
        let (fs, rest) ← readFields strict fuel depth cs
        some (.object fs, rest)
    else if c = 'n' then (afterWord? ['u', 'l', 'l'] cs).map (.null, ·)
    else if c = 't' then (afterWord? ['r', 'u', 'e'] cs).map (.bool true, ·)
    else if c = 'f' then (afterWord? ['a', 'l', 's', 'e'] cs).map (.bool false, ·)
    else do
      let (n, rest) ← readNumber (c :: cs)
      if strict && !n.inRange then none else some (.number n, rest)

/-- The items of an array up to its closing bracket, and what follows it. -/
def readItems (strict : Bool) : Nat → Nat → List Char → Option (List Value × List Char)
  | 0, _, _ => none
  | fuel + 1, depth, cs => do
    let (v, rest) ← readValue strict fuel depth (skipBlank cs)
    match skipBlank rest with
    | ',' :: rest => do
      let (vs, rest) ← readItems strict fuel depth rest
      some (v :: vs, rest)
    | ']' :: rest => some ([v], rest)
    | _ => none

/-- The fields of an object up to its closing brace, and what follows it. -/
def readFields (strict : Bool) : Nat → Nat → List Char → Option (List (Text × Value) × List Char)
  | 0, _, _ => none
  | fuel + 1, depth, cs =>
    match skipBlank cs with
    | '"' :: cs => do
      let (k, rest) ← readText cs
      if strict && k.isNone then none
      else match skipBlank rest with
        | ':' :: rest => do
          let (v, rest) ← readValue strict fuel depth (skipBlank rest)
          match skipBlank rest with
          | ',' :: rest => do
            let (fs, rest) ← readFields strict fuel depth rest
            some ((k, v) :: fs, rest)
          | '}' :: rest => some ([(k, v)], rest)
          | _ => none
        | _ => none
    | _ => none

end

/-- How deep values nest in a text that is read strictly. -/
def depthLimit : Nat := 128

/-- The value that the whole text is, blanks around it aside. -/
def parse (strict : Bool) (text : List Char) : Option Value := do
  let fuel := 2 * text.length + 2
  let (v, rest) ← readValue strict fuel (if strict then depthLimit else fuel) (skipBlank text)
  if skipBlank rest = [] then some v else none

/-! ## Reading a value -/

def Value.text? : Value → Option String
  | .text t => t
  | _ => none

/-- A whole number between `low` and `high`. A zero with a sign is a floating-point zero. -/
def Value.int? (low high : Int) : Value → Option Int
  | .number n =>
    if n.integral && !(n.negative && n.mantissa = 0) then
      let i : Int := if n.negative then -n.mantissa else n.mantissa
      if low ≤ i ∧ i ≤ high then some i else none
    else none
  | _ => none

/-- A whole number from 0 to `high`. -/
def Value.nat? (high : Nat) (v : Value) : Option Nat := (v.int? 0 high).map Int.toNat

/-- The smallest number that fits 32 bits with a sign. -/
def minInt32 : Int := -2147483648

/-- The largest number that fits 32 bits with a sign. -/
def maxInt32 : Int := 2147483647

/-- A whole number that fits 32 bits with a sign. -/
def Value.int32? (v : Value) : Option Int := v.int? minInt32 maxInt32

/-- An array of numbers from 0 to 255. -/
def Value.bytes? : Value → Option (List UInt8)
  | .array items => items.mapM fun v => (v.nat? 255).map UInt8.ofNat
  | _ => none

/-- The values of the fields named `name`. -/
def fieldsNamed (name : String) (fields : List (Text × Value)) : List Value :=
  (fields.filter fun f => f.1 = some name).map (·.2)

/-- The value of the only field named `name`. -/
def onlyField? (name : String) (fields : List (Text × Value)) : Option Value :=
  match fieldsNamed name fields with
  | [v] => some v
  | _ => none

/-- The values of a record with the named members: an object that has each of them once, other
fields being ignored, or an array of as many items. -/
def Value.members? (names : List String) : Value → Option (List Value)
  | .object fields =>
    if fields.all fun f => f.1.isSome then names.mapM fun name => onlyField? name fields
    else none
  | .array items => if items.length = names.length then some items else none
  | _ => none

end MessageRouting.Json
