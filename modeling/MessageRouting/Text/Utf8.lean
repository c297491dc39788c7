/-!
# UTF-8

Characters as bytes and back. Identifiers, bodies and journal files are bytes;
addresses and names are text, so both directions are needed.

`decode` accepts exactly the well-formed byte sequences: shortest form only, no
surrogates, nothing above U+10FFFF, no truncated character.
-/

namespace MessageRouting

/-- Opaque bytes: identifiers, message bodies, file contents. -/
abbrev Bytes := List UInt8

namespace Utf8

/-- The bytes of the code point `n`, in shortest form. -/
def encodePoint (n : Nat) : Bytes :=
  if n < 0x80 then
    [UInt8.ofNat n]
  else if n < 0x800 then
    [UInt8.ofNat (0xC0 + n / 0x40), UInt8.ofNat (0x80 + n % 0x40)]
  else if n < 0x10000 then
    [UInt8.ofNat (0xE0 + n / 0x1000), UInt8.ofNat (0x80 + n / 0x40 % 0x40),
      UInt8.ofNat (0x80 + n % 0x40)]
  else
    [UInt8.ofNat (0xF0 + n / 0x40000), UInt8.ofNat (0x80 + n / 0x1000 % 0x40),
      UInt8.ofNat (0x80 + n / 0x40 % 0x40), UInt8.ofNat (0x80 + n % 0x40)]

/-- The bytes of a text. -/
def encode : List Char → Bytes
  | [] => []
  | c :: cs => encodePoint c.toNat ++ encode cs

/-- The low six bits of a continuation byte. -/
def continuation? (b : UInt8) : Option Nat :=
  if 0x80 ≤ b.toNat ∧ b.toNat < 0xC0 then some (b.toNat - 0x80) else none

/-- The two-byte character led by `b`. -/
def two? (b b₁ : UInt8) : Option Char := do
  let x ← continuation? b₁
  if 0xC2 ≤ b.toNat ∧ b.toNat < 0xE0 then
    some (Char.ofNat ((b.toNat - 0xC0) * 0x40 + x))
  else none

/-- The three-byte character led by `b`; overlong forms and surrogates are refused. -/
def three? (b b₁ b₂ : UInt8) : Option Char := do
  let x ← continuation? b₁
  let y ← continuation? b₂
  let n := (b.toNat - 0xE0) * 0x1000 + x * 0x40 + y
  if 0xE0 ≤ b.toNat ∧ b.toNat < 0xF0 ∧ 0x800 ≤ n ∧ ¬(0xD800 ≤ n ∧ n < 0xE000) then
    some (Char.ofNat n)
  else none

/-- The four-byte character led by `b`; overlong forms and points above U+10FFFF are refused. -/
def four? (b b₁ b₂ b₃ : UInt8) : Option Char := do
  let x ← continuation? b₁
  let y ← continuation? b₂
  let z ← continuation? b₃
  let n := (b.toNat - 0xF0) * 0x40000 + x * 0x1000 + y * 0x40 + z
  if 0xF0 ≤ b.toNat ∧ b.toNat < 0xF8 ∧ 0x10000 ≤ n ∧ n < 0x110000 then
    some (Char.ofNat n)
  else none

/-- The text that the bytes spell, if they are well formed. -/
def decode : Bytes → Option (List Char)
  | [] => some []
  | b :: rest =>
    if b.toNat < 0x80 then (decode rest).map (Char.ofNat b.toNat :: ·)
    else match rest with
      | [] => none
      | b₁ :: rest₁ =>
        match two? b b₁ with
        | some c => (decode rest₁).map (c :: ·)
        | none => match rest₁ with
          | [] => none
          | b₂ :: rest₂ =>
            match three? b b₁ b₂ with
            | some c => (decode rest₂).map (c :: ·)
            | none => match rest₂ with
              | [] => none
              | b₃ :: rest₃ =>
                match four? b b₁ b₂ b₃ with
                | some c => (decode rest₃).map (c :: ·)
                | none => none

/-- The replacement character, shown for a byte that belongs to no character. -/
def replacement : Char := Char.ofNat 0xFFFD

/-- How many bytes of a character led by `b`, broken off before it was whole, are shown as one
replacement character. -/
def brokenLength (b : UInt8) (rest : Bytes) : Nat :=
  let inside (lo hi : Nat) (x : UInt8) : Bool := lo ≤ x.toNat && x.toNat < hi
  let second (x : UInt8) : Bool :=
    if b.toNat = 0xE0 then inside 0xA0 0xC0 x
    else if b.toNat = 0xED then inside 0x80 0xA0 x
    else if 0xE1 ≤ b.toNat ∧ b.toNat < 0xF0 then inside 0x80 0xC0 x
    else if b.toNat = 0xF0 then inside 0x90 0xC0 x
    else if b.toNat = 0xF4 then inside 0x80 0x90 x
    else if 0xF1 ≤ b.toNat ∧ b.toNat < 0xF4 then inside 0x80 0xC0 x
    else false
  match rest with
  | [] => 1
  | x :: more =>
    if second x then
      match more with
      | [] => 2
      | y :: _ => if 0xF0 ≤ b.toNat ∧ inside 0x80 0xC0 y then 3 else 2
    else 1

/-- The text that the bytes spell, every broken character shown as `replacement`. The first
argument bounds the number of characters. -/
def decodeLossyWithin : Nat → Bytes → List Char
  | 0, _ => []
  | _, [] => []
  | n + 1, b :: rest =>
    if b.toNat < 0x80 then Char.ofNat b.toNat :: decodeLossyWithin n rest
    else match rest.head?.bind (two? b) with
      | some c => c :: decodeLossyWithin n (rest.drop 1)
      | none => match rest.head?.bind fun b₁ => (rest.drop 1).head?.bind (three? b b₁) with
        | some c => c :: decodeLossyWithin n (rest.drop 2)
        | none =>
          match rest with
          | b₁ :: b₂ :: b₃ :: rest₃ =>
            match four? b b₁ b₂ b₃ with
            | some c => c :: decodeLossyWithin n rest₃
            | none => replacement :: decodeLossyWithin n (rest.drop (brokenLength b rest - 1))
          | _ => replacement :: decodeLossyWithin n (rest.drop (brokenLength b rest - 1))

/-- The text that the bytes spell, every broken character shown as `replacement`. -/
def decodeLossy (bytes : Bytes) : List Char := decodeLossyWithin bytes.length bytes

end Utf8

/-- The UTF-8 bytes of a text. -/
def utf8 (s : String) : Bytes := Utf8.encode s.toList

/-- The text that the bytes spell in UTF-8, if they are well formed. -/
def fromUtf8? (bytes : Bytes) : Option String := (Utf8.decode bytes).map String.ofList

end MessageRouting
