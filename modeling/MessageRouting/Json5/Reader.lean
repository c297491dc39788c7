import MessageRouting.Json5.Value
import MessageRouting.Text.Letter

/-!
# Reading JSON5

JSON with comments, commas after the last element, names without quotes, single
quotes, more escapes and more forms of numerals.
-/

namespace MessageRouting.Json5

open Json (Piece Text hexValue? hexNumber? isDigit joinPieces afterWord?)

/-! ## Blanks -/

def isLineEnd (c : Char) : Bool :=
  c = '\n' || c = '\r' || c.toNat = 0x2028 || c.toNat = 0x2029

def isBlank (c : Char) : Bool :=
  isLineEnd c || c = ' ' || c = '\t' || c.toNat = 0x0B || c.toNat = 0x0C || c.toNat = 0xA0 ||
    c.toNat = 0x1680 || (0x2000 ≤ c.toNat && c.toNat ≤ 0x200A) || c.toNat = 0x202F ||
    c.toNat = 0x205F || c.toNat = 0x3000 || c.toNat = 0xFEFF

/-- Where a reader of blanks stands. -/
inductive BlankState where
  | outside
  /-- After a slash that may open a comment. -/
  | slash
  | lineComment
  | blockComment
  /-- After a star that may close a comment. -/
  | star

/-- The text after its leading blanks and comments; nothing if a comment does not end. -/
def skip? : BlankState → List Char → Option (List Char)
  | .outside, [] => some []
  | .outside, c :: cs =>
    if isBlank c then skip? .outside cs
    else if c = '/' then skip? .slash cs
    else some (c :: cs)
  | .slash, [] => some ['/']
  | .slash, c :: cs =>
    if c = '/' then skip? .lineComment cs
    else if c = '*' then skip? .blockComment cs
    else some ('/' :: c :: cs)
  | .lineComment, [] => some []
  | .lineComment, c :: cs => skip? (if isLineEnd c then .outside else .lineComment) cs
  | .blockComment, [] => none
  | .blockComment, c :: cs => skip? (if c = '*' then .star else .blockComment) cs
  | .star, [] => none
  | .star, c :: cs =>
    skip? (if c = '/' then .outside else if c = '*' then .star else .blockComment) cs

/-- The text after its leading blanks and comments. A comment that does not end is no comment. -/
def skip (cs : List Char) : List Char := (skip? .outside cs).getD ['/']

/-! ## Strings and names -/

/-- What a backslash and `c` stand for, `c` being no digit, no `x` and no `u`. -/
def escaped (c : Char) : Char :=
  if c = 'b' then Char.ofNat 8
  else if c = 'f' then Char.ofNat 12
  else if c = 'n' then '\n'
  else if c = 'r' then '\r'
  else if c = 't' then '\t'
  else if c = 'v' then Char.ofNat 11
  else c

/-- The pieces up to the closing quote, and what follows it. A line feed that stands right after an
escaped carriage return belongs to that escape. -/
def readPieces (quote : Char) (afterReturn : Bool) : List Char → Option (List Piece × List Char)
  | [] => none
  | c :: cs =>
    if c = quote then some ([], cs)
    else if c = '\\' then
      match cs with
      | [] => none
      | e :: rest =>
        if e = 'u' then
          match rest with
          | d₁ :: d₂ :: d₃ :: d₄ :: after => do
            let n ← hexNumber? [d₁, d₂, d₃, d₄]
            let (ps, r) ← readPieces quote false after
            some (.unit n :: ps, r)
          | _ => none
        else if e = 'x' then
          match rest with
          | d₁ :: d₂ :: after => do
            let n ← hexNumber? [d₁, d₂]
            let (ps, r) ← readPieces quote false after
            some (.char (Char.ofNat n) :: ps, r)
          | _ => none
        else if e = '0' then do
          let (ps, r) ← readPieces quote false rest
          some (.char (Char.ofNat 0) :: ps, r)
        else if isDigit e then none
        else if isLineEnd e then readPieces quote (e = '\r') rest
        else do
          let (ps, r) ← readPieces quote false rest
          some (.char (escaped e) :: ps, r)
    else if afterReturn && c = '\n' then readPieces quote false cs
    else if isLineEnd c then none
    else do
      let (ps, r) ← readPieces quote false cs
      some (.char c :: ps, r)

/-- The string up to its closing quote, and what follows it. -/
def readText (quote : Char) (cs : List Char) : Option (Text × List Char) := do
  let (ps, rest) ← readPieces quote false cs
  some ((joinPieces ps).map String.ofList, rest)

def startsName (c : Char) : Bool := isLetter c || c = '$' || c = '_'

def continuesName (c : Char) : Bool :=
  startsName c || isMark c || c.toNat = 0x200C || c.toNat = 0x200D

/-- The pieces of a name for as long as its characters are accepted, and what follows them. An
escape stands for any unit, whether or not a name could be written with it. -/
def readNamePieces (accepts : Char → Bool) : List Char → List Piece × List Char
  | [] => ([], [])
  | c :: cs =>
    if accepts c then
      let (ps, r) := readNamePieces continuesName cs
      (.char c :: ps, r)
    else match c, cs with
      | '\\', 'u' :: d₁ :: d₂ :: d₃ :: d₄ :: after =>
        match hexNumber? [d₁, d₂, d₃, d₄] with
        | some n =>
          let (ps, r) := readNamePieces continuesName after
          (.unit n :: ps, r)
        | none => ([], c :: cs)
      | _, _ => ([], c :: cs)

/-- A key: a string or a name, and what follows it. -/
def readKey (cs : List Char) : Option (Text × List Char) :=
  match cs with
  | '"' :: rest => readText '"' rest
  | '\'' :: rest => readText '\'' rest
  | _ =>
    match readNamePieces startsName cs with
    | ([], _) => none
    | (ps, rest) => some ((joinPieces ps).map String.ofList, rest)

/-! ## Numerals -/

/-- The exponent at the front of the text, and what follows it; zero if there is none. -/
def readExponent (cs : List Char) : Int × List Char :=
  match cs with
  | [] => (0, cs)
  | c :: rest =>
    if c = 'e' ∨ c = 'E' then
      let (negative, rest) := match rest with
        | '-' :: r => (true, r)
        | '+' :: r => (false, r)
        | _ => (false, rest)
      match rest.takeWhile isDigit with
      | [] => (0, cs)
      | ds =>
        let n : Int := Nat.ofDigitChars 10 ds 0
        (if negative then -n else n, rest.dropWhile isDigit)
    else (0, cs)

/-- The digits `whole` and `fraction` around the point, and the exponent after them. -/
def withExponent (whole fraction cs : List Char) : Digits × List Char :=
  let (e, rest) := readExponent cs
  (.decimal (Nat.ofDigitChars 10 (whole ++ fraction) 0) (e - fraction.length), rest)

/-- A whole part: a zero alone, or digits that do not start with one. -/
def readWhole (cs : List Char) : List Char × List Char :=
  match cs with
  | '0' :: rest => (['0'], rest)
  | _ => (cs.takeWhile isDigit, cs.dropWhile isDigit)

/-- Decimal digits, and what follows them. -/
def readDecimal (cs : List Char) : Option (Digits × List Char) :=
  match readWhole cs with
  | ([], '.' :: rest) =>
    match rest.takeWhile isDigit with
    | [] => none
    | ds => some (withExponent [] ds (rest.dropWhile isDigit))
  | ([], _) => none
  | (whole, '.' :: rest) =>
    some (withExponent whole (rest.takeWhile isDigit) (rest.dropWhile isDigit))
  | (whole, rest) => some (withExponent whole [] rest)

/-- Hexadecimal digits after their mark, and what follows them. -/
def readHexadecimal (cs : List Char) : Option (Digits × List Char) :=
  match cs.takeWhile fun c => (hexValue? c).isSome with
  | [] => none
  | ds => do some (.hexadecimal (← hexNumber? ds), cs.drop ds.length)

/-- A numeral without its sign, and what follows it. -/
def readDigits (cs : List Char) : Option (Digits × List Char) :=
  match afterWord? "Infinity".toList cs with
  | some rest => some (.infinity, rest)
  | none => match afterWord? "NaN".toList cs with
    | some rest => some (.nan, rest)
    | none => match cs with
      | '0' :: x :: rest =>
        match if x = 'x' ∨ x = 'X' then readHexadecimal rest else none with
        | some found => some found
        | none => readDecimal cs
      | _ => readDecimal cs

/-- A numeral, and what follows it. -/
def readNumeral (cs : List Char) : Option (Numeral × List Char) := do
  let (sign, rest) := match cs with
    | '+' :: r => (Sign.plus, r)
    | '-' :: r => (Sign.minus, r)
    | _ => (Sign.none, cs)
  let (digits, rest) ← readDigits rest
  some (⟨sign, digits⟩, rest)

/-! ## Values -/

mutual

/-- A value at the front of the text, and what follows it. The number bounds the steps. -/
def readValue : Nat → List Char → Option (Value × List Char)
  | 0, _ => none
  | _ + 1, [] => none
  | fuel + 1, c :: cs =>
    let second := cs.headD c
    if c = '"' ∨ c = '\'' then (readText c cs).map fun (t, rest) => (.text second t, rest)
    else if c = '[' then
      match skip cs with
      | ']' :: rest => some (.array second [], rest)
      | cs => (readItems fuel cs).map fun (vs, rest) => (.array second vs, rest)
    else if c = '\x7b' then
      match skip cs with
      | '\x7d' :: rest => some (.object second [], rest)
      | cs => (readFields fuel cs).map fun (fs, rest) => (.object second fs, rest)
    else if c = 'n' then (afterWord? "ull".toList cs).map (.null, ·)
    else if c = 't' then (afterWord? "rue".toList cs).map (.bool true, ·)
    else if c = 'f' then (afterWord? "alse".toList cs).map (.bool false, ·)
    else (readNumeral (c :: cs)).map fun (n, rest) => (.number n, rest)

/-- The items of an array up to its closing bracket, and what follows it. -/
def readItems : Nat → List Char → Option (List Value × List Char)
  | 0, _ => none
  | fuel + 1, cs => do
    let (v, rest) ← readValue fuel (skip cs)
    match skip rest with
    | ',' :: rest =>
      match skip rest with
      | ']' :: rest => some ([v], rest)
      | rest => do
        let (vs, rest) ← readItems fuel rest
        some (v :: vs, rest)
    | ']' :: rest => some ([v], rest)
    | _ => none

/-- The fields of an object up to its closing brace, and what follows it. -/
def readFields : Nat → List Char → Option (List (Text × Value) × List Char)
  | 0, _ => none
  | fuel + 1, cs => do
    let (k, rest) ← readKey (skip cs)
    match skip rest with
    | ':' :: rest => do
      let (v, rest) ← readValue fuel (skip rest)
      match skip rest with
      | ',' :: rest =>
        match skip rest with
        | '\x7d' :: rest => some ([(k, v)], rest)
        | rest => do
          let (fs, rest) ← readFields fuel rest
          some ((k, v) :: fs, rest)
      | '\x7d' :: rest => some ([(k, v)], rest)
      | _ => none
    | _ => none

end

/-- The value that the whole text is, blanks and comments around it aside. -/
def parse (text : List Char) : Option Value := do
  let (v, rest) ← readValue (2 * text.length + 2) (skip text)
  if skip rest = [] then some v else none

end MessageRouting.Json5
