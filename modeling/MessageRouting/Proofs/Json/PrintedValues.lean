import MessageRouting.Proofs.Json.ReaderFronts

/-!
# Printed values

What has been printed is read back. That takes values whose strings have a text
and whose numbers are whole and fit 64 bits, nested less deep than the reader
goes; a number is told from what follows it as long as that begins with nothing
that could continue it.

Results:

* `readText_printChars`: a string comes back with all its characters.
* `inRange_of_le`: no whole number of 64 bits is taken for an infinite one.
* `readValue_print`: a printed value is read in front of what does not continue it.
-/

namespace MessageRouting.Json

variable {strict : Bool} {fuel k : Nat} {rest : List Char}

/-! ## Strings -/

theorem hexNumber?_control : ∀ n < 32,
    hexNumber? ['0', '0', hexDigit (n / 16), hexDigit (n % 16)] = some n := by decide

/-- A character is printed so that it is read as one piece, which gives it back. -/
theorem exists_piece (c : Char) : ∃ p : Piece,
    (∀ rest, readPieces (printChar c ++ rest) =
      (readPieces rest).map fun q => (p :: q.1, q.2)) ∧
    ∀ ps, joinPieces (p :: ps) = (joinPieces ps).map (c :: ·) := by
  have hescape : ∀ e, e ≠ 'u' → simpleEscape? e = some c → ∃ p : Piece,
      (∀ rest, readPieces ('\\' :: e :: rest) =
        (readPieces rest).map fun q => (p :: q.1, q.2)) ∧
      ∀ ps, joinPieces (p :: ps) = (joinPieces ps).map (c :: ·) := fun e hne he =>
    ⟨.char c, fun rest => by rw [readPieces_escape hne, he]; rfl, fun _ => rfl⟩
  have hnat : ∀ n, c.toNat = n → c = Char.ofNat n := fun n hn => by rw [← hn, Char.ofNat_toNat]
  unfold printChar
  split
  · rename_i hc
    exact hescape '"' (by decide) (by rw [hc]; rfl)
  split
  · rename_i hc
    exact hescape '\\' (by decide) (by rw [hc]; rfl)
  split
  · rename_i hc
    exact hescape 'b' (by decide) (by rw [hnat _ hc]; rfl)
  split
  · rename_i hc
    exact hescape 't' (by decide) (by rw [hnat _ hc]; rfl)
  split
  · rename_i hc
    exact hescape 'n' (by decide) (by rw [hnat _ hc]; rfl)
  split
  · rename_i hc
    exact hescape 'f' (by decide) (by rw [hnat _ hc]; rfl)
  split
  · rename_i hc
    exact hescape 'r' (by decide) (by rw [hnat _ hc]; rfl)
  split
  · rename_i hc
    refine ⟨.unit c.toNat, fun rest => ?_, fun ps => ?_⟩
    · simp only [List.cons_append, List.nil_append]
      rw [readPieces_unit, hexNumber?_control _ hc]
      rfl
    · have hhigh : isHighSurrogate c.toNat = false := by
        rw [isHighSurrogate, decide_eq_false (by omega), Bool.false_and]
      have hlow : isLowSurrogate c.toNat = false := by
        rw [isLowSurrogate, decide_eq_false (by omega), Bool.false_and]
      rw [joinPieces.eq_def]
      simp only [hhigh, hlow, Bool.false_eq_true, if_false, Char.ofNat_toNat]
  · rename_i hquote hslash _ _ _ _ _ hc
    exact ⟨.char c, fun rest => readPieces_char hquote hslash hc rest, fun _ => rfl⟩

theorem readPieces_printChars (cs rest : List Char) : ∃ ps,
    readPieces (printChars cs ++ '"' :: rest) = some (ps, rest) ∧ joinPieces ps = some cs := by
  induction cs with
  | nil => exact ⟨[], readPieces_quote rest, rfl⟩
  | cons c cs ih =>
    obtain ⟨ps, hps, hjoin⟩ := ih
    obtain ⟨p, hread, hp⟩ := exists_piece c
    refine ⟨p :: ps, ?_, by rw [hp, hjoin, Option.map_some]⟩
    rw [printChars, List.append_assoc, hread, hps, Option.map_some]

/-- A string comes back with all its characters. -/
theorem readText_printChars (s : String) (rest : List Char) :
    readText (printChars s.toList ++ '"' :: rest) = some (some s, rest) := by
  obtain ⟨ps, hps, hjoin⟩ := readPieces_printChars s.toList rest
  rw [readText_eq, hps, Option.map_some, hjoin, Option.map_some, String.ofList_toList]

/-! ## Digits -/

/-- What follows a number without continuing it. -/
def EndsNumber (rest : List Char) : Prop :=
  ∀ c r, rest = c :: r → isDigit c = false ∧ c ≠ '.' ∧ c ≠ 'e' ∧ c ≠ 'E'

theorem endsNumber_nil : EndsNumber [] := fun _ _ h => nomatch h

theorem endsNumber_cons {c : Char} (h : isDigit c = false ∧ c ≠ '.' ∧ c ≠ 'e' ∧ c ≠ 'E')
    (r : List Char) : EndsNumber (c :: r) := fun _ _ heq => by
  obtain ⟨rfl, -⟩ := List.cons.inj heq
  exact h

theorem isDigit_of_mem_toDigits {n : Nat} {c : Char} (h : c ∈ Nat.toDigits 10 n) :
    isDigit c = true := by
  have hc := Nat.isDigit_of_mem_toDigits (by decide) (by decide) h
  simpa [isDigit, Char.isDigit, Char.le_def] using hc

/-- Only zero begins with the digit zero. -/
theorem head?_toDigits {n : Nat} (h : n ≠ 0) : (Nat.toDigits 10 n).head? ≠ some '0' := by
  induction n using Nat.strongRecOn with
  | ind n ih =>
    rw [Nat.toDigits_eq_if (by decide)]
    split
    · rename_i hlt
      have key : ∀ d < 10, d ≠ 0 → [Nat.digitChar d].head? ≠ some '0' := by decide
      exact key n hlt h
    · rename_i hge
      have hleading := ih (n / 10) (by omega) (by omega)
      rw [List.head?_append]
      cases hhead : (Nat.toDigits 10 (n / 10)).head? with
      | none => exact absurd (List.head?_eq_none_iff.1 hhead) Nat.toDigits_ne_nil
      | some d => exact fun hd => hleading (hhead.trans hd)

theorem readDigits_toDigits (n : Nat) (h : EndsNumber rest) :
    readDigits (Nat.toDigits 10 n ++ rest) = some (Nat.toDigits 10 n, rest) := by
  have hall : ∀ c ∈ Nat.toDigits 10 n, isDigit c = true := fun c hc => isDigit_of_mem_toDigits hc
  have hrest : rest.takeWhile isDigit = [] ∧ rest.dropWhile isDigit = rest := by
    cases rest with
    | nil => exact ⟨rfl, rfl⟩
    | cons c r => simp [(h c r rfl).1]
  unfold readDigits
  rw [List.takeWhile_append_of_pos hall, List.dropWhile_append_of_pos hall, hrest.1, hrest.2,
    List.append_nil]
  cases hdigits : Nat.toDigits 10 n with
  | nil => exact absurd hdigits Nat.toDigits_ne_nil
  | cons d ds => rfl

theorem readWhole_toDigits (n : Nat) (h : EndsNumber rest) :
    readWhole (Nat.toDigits 10 n ++ rest) = some (Nat.toDigits 10 n, rest) := by
  unfold readWhole
  rw [readDigits_toDigits n h]
  refine if_neg fun ⟨hzero, hlength⟩ => ?_
  by_cases hn : n = 0
  · rw [hn, Nat.toDigits_of_lt_base (by decide)] at hlength
    exact absurd hlength (by decide)
  · exact head?_toDigits hn hzero

theorem readUnsigned_toDigits (negative : Bool) (n : Nat) (h : EndsNumber rest) :
    readUnsigned negative (Nat.toDigits 10 n ++ rest) = some (⟨negative, n, 0, true⟩, rest) := by
  have hfraction : readFraction rest = some (none, rest) :=
    readFraction_none fun r hr => (h '.' r hr).2.1 rfl
  have hexponent : readExponent rest = some (none, rest) := by
    refine readExponent_none fun c r hr hc => ?_
    obtain ⟨-, -, he, hE⟩ := h c r hr
    exact hc.elim he hE
  unfold readUnsigned
  simp only [readWhole_toDigits n h, hfraction, hexponent, Option.bind_eq_bind, Option.bind_some]
  simp [Number.ofParts, Nat.ofDigitChars_toDigits]

/-! ## Numbers in range -/

theorem log2Quotient_bounds (num den : Nat) :
    (Nat.log2 num : Int) - Nat.log2 den - 1 ≤ Binary64.log2Quotient num den ∧
      Binary64.log2Quotient num den ≤ (Nat.log2 num : Int) - Nat.log2 den := by
  simp only [Binary64.log2Quotient]
  split <;> constructor <;> omega

theorem roundDiv_le (num den : Nat) : Binary64.roundDiv num den ≤ num + 1 := by
  have hq : num / den ≤ num := Nat.div_le_self num den
  simp only [Binary64.roundDiv]
  split
  · omega
  · split
    · omega
    · split <;> omega

theorem mul_lt_power {x y a b n : Nat} (hx : x ≤ Binary64.power 2 a)
    (hy : y ≤ Binary64.power 2 b) (h : a + b < n) : x * y < Binary64.power 2 n :=
  calc x * y ≤ 2 ^ a * 2 ^ b := Nat.mul_le_mul hx hy
    _ = 2 ^ (a + b) := (Nat.pow_add ..).symm
    _ < Binary64.power 2 n := Nat.pow_lt_pow_right (by decide) h

/-- Quotients far from the ends of the range have a value near them, and its parts are bounded. -/
theorem nearest_eq_some {num den : Nat} (hnum : num ≠ 0) (hlt : num < Binary64.power 2 200)
    (hden : den ≠ 0) (hle : den < Binary64.power 2 200) : ∃ s : Nat, ∃ unit : Int,
      Binary64.nearest num den = some ⟨s, unit⟩ ∧
        (Nat.log2 num : Int) - Nat.log2 den - 53 ≤ unit ∧
        unit ≤ (Nat.log2 num : Int) - Nat.log2 den - 52 ∧
        s ≤ num * Binary64.power 2 (-unit).toNat + 1 := by
  have hlog : Nat.log2 num < 200 := (Nat.log2_lt hnum).2 hlt
  have hlog' : Nat.log2 den < 200 := (Nat.log2_lt hden).2 hle
  obtain ⟨hlow, hhigh⟩ := log2Quotient_bounds num den
  have hunit : max (Binary64.log2Quotient num den - 52) (-1074) =
      Binary64.log2Quotient num den - 52 := by omega
  simp only [Binary64.nearest, if_neg hnum, hunit]
  have hlow' : (Nat.log2 num : Int) - Nat.log2 den - 53 ≤ Binary64.log2Quotient num den - 52 := by
    omega
  have hhigh' : Binary64.log2Quotient num den - 52 ≤ (Nat.log2 num : Int) - Nat.log2 den - 52 := by
    omega
  generalize Binary64.log2Quotient num den - 52 = unit at hlow' hhigh'
  have hs : (if 0 ≤ unit then Binary64.roundDiv num (den * Binary64.power 2 unit.toNat)
      else Binary64.roundDiv (num * Binary64.power 2 (-unit).toNat) den) ≤
      num * Binary64.power 2 (-unit).toNat + 1 := by
    split
    · have hzero : (-unit).toNat = 0 := by omega
      have hone : Binary64.power 2 0 = 1 := rfl
      rw [hzero, hone, Nat.mul_one]
      exact roundDiv_le ..
    · exact roundDiv_le ..
  generalize (if 0 ≤ unit then Binary64.roundDiv num (den * Binary64.power 2 unit.toNat)
      else Binary64.roundDiv (num * Binary64.power 2 (-unit).toNat) den) = s at hs
  have hbelow : s * Binary64.power 2 unit.toNat < Binary64.power 2 1024 := by
    have hscale : Binary64.power 2 (-unit).toNat ≤ Binary64.power 2 253 :=
      Nat.pow_le_pow_right (by decide) (by omega)
    have hscale' : Binary64.power 2 unit.toNat ≤ Binary64.power 2 148 :=
      Nat.pow_le_pow_right (by decide) (by omega)
    have hs' : s < Binary64.power 2 454 :=
      calc s ≤ num * Binary64.power 2 (-unit).toNat + Binary64.power 2 (-unit).toNat :=
            Nat.le_trans hs (Nat.add_le_add_left (Nat.two_pow_pos _) _)
        _ = (num + 1) * Binary64.power 2 (-unit).toNat := (Nat.succ_mul ..).symm
        _ < Binary64.power 2 454 := mul_lt_power hlt hscale (by decide)
    exact mul_lt_power (Nat.le_of_lt hs') hscale' (by decide)
  exact ⟨s, unit, if_neg (Nat.not_le.2 hbelow), hlow', hhigh', hs⟩

/-- No whole number of 64 bits is taken for an infinite one. -/
theorem inRange_of_le {n : Number} (hexponent : n.exponent = 0) (hle : n.mantissa ≤ maxUInt64) :
    n.inRange = true := by
  unfold Number.inRange
  rw [leadingDigits_of_le hle, hexponent]
  by_cases hzero : n.mantissa = 0
  · simp [hzero]
  have hlt : n.mantissa < 2 ^ 64 := Nat.lt_of_le_of_lt hle (by decide)
  have hlog : Nat.log2 n.mantissa < 64 := (Nat.log2_lt hzero).2 hlt
  have hlog1 : Nat.log2 1 = 0 := by decide
  obtain ⟨s, unit, hnearest, hlow, hhigh, hs⟩ := nearest_eq_some hzero
    (Nat.lt_trans hlt (by decide)) Nat.one_ne_zero (by decide)
  obtain ⟨t, unit', hone, hlow', hhigh', ht⟩ := nearest_eq_some
    (show Binary64.power 10 0 ≠ 0 by decide) (by decide) Nat.one_ne_zero (by decide)
  rw [hlog1] at hlow hhigh hlow' hhigh'
  simp only [hzero, false_or]
  rw [if_neg (by decide), if_neg (by decide), hnearest, Option.bind_some]
  change ((Binary64.nearest (Binary64.power 10 0) 1).bind (Binary64.mul ⟨s, unit⟩)).isSome = true
  rw [hone, Option.bind_some]
  simp only [Binary64.mul]
  rw [if_neg (by omega)]
  by_cases hproduct : s * t = 0
  · rw [hproduct]
    rfl
  have hpower : ∀ u : Int, -53 ≤ u → Binary64.power 2 (-u).toNat ≤ 2 ^ 53 := fun u hu =>
    Nat.pow_le_pow_right (by decide) (by omega)
  have hle' : s * t ≤ (2 ^ 64 * 2 ^ 53 + 1) * (1 * 2 ^ 53 + 1) :=
    Nat.mul_le_mul
      (Nat.le_trans hs (Nat.succ_le_succ (Nat.mul_le_mul (Nat.le_of_lt hlt) (hpower _ (by omega)))))
      (Nat.le_trans ht (Nat.succ_le_succ (Nat.mul_le_mul (Nat.le_refl 1) (hpower _ (by omega)))))
  have hden : Binary64.power 2 (-(unit + unit')).toNat < Binary64.power 2 200 :=
    Nat.pow_lt_pow_right (by decide) (by omega)
  obtain ⟨u, v, hsome, -⟩ := nearest_eq_some hproduct (Nat.lt_of_le_of_lt hle' (by decide))
    (Nat.ne_of_gt (Nat.two_pow_pos _)) hden
  exact congrArg Option.isSome hsome

/-! ## Values -/

/-- A value that comes back when it has been printed. It nests at most `k` deep. -/
inductive Printable : Nat → Value → Prop
  | null {k : Nat} : Printable k .null
  | bool {k : Nat} (b : Bool) : Printable k (.bool b)
  | number {k : Nat} {n : Number} (hwhole : n.integral = true ∧ n.exponent = 0)
      (hle : n.mantissa ≤ maxUInt64) : Printable k (.number n)
  | text {k : Nat} (s : String) : Printable k (.text (some s))
  | array {k : Nat} {vs : List Value} (h : ∀ v ∈ vs, Printable k v) : Printable (k + 1) (.array vs)
  | object {k : Nat} {fs : List (Text × Value)} (hnames : ∀ f ∈ fs, f.1.isSome = true)
      (h : ∀ f ∈ fs, Printable k f.2) : Printable (k + 1) (.object fs)

theorem printable_ofNat {n : Nat} (h : n ≤ maxUInt64) : Printable k (.ofNat n) :=
  .number ⟨rfl, rfl⟩ h

theorem printable_ofInt {n : Int} (h : n.natAbs ≤ maxUInt64) : Printable k (.ofInt n) :=
  .number ⟨rfl, rfl⟩ h

theorem printable_ofString (s : String) : Printable k (.ofString s) := .text s

theorem printable_ofBytes (bytes : List UInt8) : Printable (k + 1) (.ofBytes bytes) := by
  refine .array fun v hv => ?_
  obtain ⟨b, -, rfl⟩ := List.mem_map.1 hv
  exact printable_ofNat (Nat.le_trans (Nat.le_of_lt b.toNat_lt) (by decide))

theorem printable_ofFields {fs : List (String × Value)} (h : ∀ f ∈ fs, Printable k f.2) :
    Printable (k + 1) (.ofFields fs) := by
  refine .object (fun f hf => ?_) fun f hf => ?_
  · obtain ⟨g, -, rfl⟩ := List.mem_map.1 hf
    rfl
  · obtain ⟨g, hg, rfl⟩ := List.mem_map.1 hf
    exact h g hg

/-- The value is read from what is printed of it. -/
def ReadsBack (strict : Bool) (k : Nat) (v : Value) : Prop :=
  ∀ fuel rest, v.print.length ≤ fuel → EndsNumber rest →
    readValue strict fuel (k + 1) (v.print ++ rest) = some (v, rest)

theorem ne_of_isDigit {c d : Char} (hc : isDigit c = true) (hd : isDigit d = false) : c ≠ d := by
  rintro rfl
  rw [hc] at hd
  cases hd

theorem isBlank_of_isDigit {c : Char} (h : isDigit c = true) : isBlank c = false := by
  simp only [isBlank, Bool.or_eq_false_iff, decide_eq_false_iff_not]
  exact ⟨⟨⟨ne_of_isDigit h (by decide), ne_of_isDigit h (by decide)⟩, ne_of_isDigit h (by decide)⟩,
    ne_of_isDigit h (by decide)⟩

/-- What is printed of a whole number begins with a sign or a digit. -/
theorem exists_cons_printNumber {n : Number} (h : n.integral = true) :
    ∃ c cs, printNumber n = c :: cs ∧ (c = '-' ∨ isDigit c = true) := by
  unfold printNumber
  rw [h, if_pos rfl, List.append_nil]
  cases n.negative with
  | true => exact ⟨_, _, rfl, .inl rfl⟩
  | false =>
    obtain ⟨d, ds, hds⟩ := List.exists_cons_of_ne_nil (Nat.toDigits_ne_nil (b := 10)
      (n := n.mantissa))
    exact ⟨d, ds, by simp [hds], .inr (isDigit_of_mem_toDigits (hds ▸ List.mem_cons_self))⟩

/-- What is printed of a value begins with neither a blank nor a closing bracket. -/
theorem exists_cons_print {v : Value} (h : Printable k v) :
    ∃ c cs, v.print = c :: cs ∧ isBlank c = false ∧ c ≠ ']' := by
  cases h with
  | null => exact ⟨_, _, rfl, by decide⟩
  | bool b => cases b <;> exact ⟨_, _, rfl, by decide⟩
  | text s => exact ⟨_, _, rfl, by decide⟩
  | array h => exact ⟨_, _, rfl, by decide⟩
  | object hnames h => exact ⟨_, _, rfl, by decide⟩
  | number hwhole hle =>
    obtain ⟨c, cs, hc, rfl | hdigit⟩ := exists_cons_printNumber hwhole.1
    · exact ⟨_, cs, hc, by decide⟩
    · exact ⟨c, cs, hc, isBlank_of_isDigit hdigit, ne_of_isDigit hdigit (by decide)⟩

theorem readNumber_print {n : Number} (hwhole : n.integral = true ∧ n.exponent = 0)
    (h : EndsNumber rest) : readNumber (printNumber n ++ rest) = some (n, rest) := by
  obtain ⟨negative, mantissa, exponent, integral⟩ := n
  obtain ⟨rfl, rfl⟩ := hwhole
  simp only [printNumber, if_true, List.append_nil]
  cases negative with
  | true => exact readUnsigned_toDigits true mantissa h
  | false =>
    have hminus : ∀ r, Nat.toDigits 10 mantissa ++ rest ≠ '-' :: r := fun r hr => by
      obtain ⟨d, ds, hds⟩ := List.exists_cons_of_ne_nil (Nat.toDigits_ne_nil (b := 10)
        (n := mantissa))
      have hdigit :=
        isDigit_of_mem_toDigits (hds ▸ List.mem_cons_self : d ∈ Nat.toDigits 10 mantissa)
      rw [hds, List.cons_append] at hr
      exact ne_of_isDigit hdigit (by decide) (List.cons.inj hr).1
    exact (readNumber_unsigned hminus).trans (readUnsigned_toDigits false mantissa h)

theorem readsBack_number {n : Number} (hwhole : n.integral = true ∧ n.exponent = 0)
    (hle : n.mantissa ≤ maxUInt64) : ReadsBack strict k (.number n) := by
  intro fuel rest hfuel hrest
  obtain ⟨c, cs, hcs, hc⟩ := exists_cons_printNumber hwhole.1
  have hread := readNumber_print hwhole hrest
  have hne : ∀ d, isDigit d = false → d ≠ '-' → c ≠ d := fun d hd hminus =>
    hc.elim (fun h => h ▸ Ne.symm hminus) fun h => ne_of_isDigit h hd
  rw [Value.print, hcs] at hfuel ⊢
  rw [hcs] at hread
  cases fuel with
  | zero => cases hfuel
  | succ fuel =>
    rw [List.cons_append] at hread ⊢
    rw [readValue, if_neg (hne _ (by decide) (by decide)), if_neg (hne _ (by decide) (by decide)),
      if_neg (hne _ (by decide) (by decide)), if_neg (hne _ (by decide) (by decide)),
      if_neg (hne _ (by decide) (by decide)), if_neg (hne _ (by decide) (by decide)), hread]
    refine if_neg ?_
    rw [inRange_of_le hwhole.2 hle]
    cases strict <;> decide

theorem readsBack_text (s : String) : ReadsBack strict k (.text (some s)) := by
  intro fuel rest hfuel _
  cases fuel with
  | zero => cases hfuel
  | succ fuel =>
    have hprint :
        (Value.text (some s)).print ++ rest = '"' :: (printChars s.toList ++ '"' :: rest) := by
      simp [Value.print, printText, printString]
    rw [hprint, readValue, if_pos rfl, readText_printChars]
    refine if_neg ?_
    rw [Option.isNone_some, Bool.and_false]
    decide

theorem skipBlank_print {v : Value} (h : Printable k v) (rest : List Char) :
    skipBlank (v.print ++ rest) = v.print ++ rest := by
  obtain ⟨c, cs, hcs, hblank, -⟩ := exists_cons_print h
  rw [hcs, List.cons_append, skipBlank_of_not_blank hblank]

theorem length_print_pos {v : Value} (h : Printable k v) : 0 < v.print.length := by
  obtain ⟨c, cs, hcs, -⟩ := exists_cons_print h
  rw [hcs]
  exact Nat.succ_pos _

section

variable {v : Value} {after : List Char} (h : Printable k v) (hread : ReadsBack strict k v)
  (hfuel : v.print.length ≤ fuel) (hafter : EndsNumber after)

include h hread hfuel hafter

/-- An item is read from what is printed of it, up to what comes after it. -/
theorem readItems_item {vs : List Value}
    (hend : (∃ r ws, skipBlank after = ',' :: r ∧
        readItems strict fuel (k + 1) r = some (ws, rest) ∧ vs = v :: ws) ∨
      skipBlank after = ']' :: rest ∧ vs = [v]) :
    readItems strict (fuel + 1) (k + 1) (v.print ++ after) = some (vs, rest) := by
  refine readItems_eq_some_iff.2 ⟨v, after, ?_, hend⟩
  rw [skipBlank_print h]
  exact hread fuel after hfuel hafter

/-- A field is read from what is printed of it, up to what comes after it. -/
theorem readFields_field (s : String) {fs : List (Text × Value)}
    (hend : (∃ r gs, skipBlank after = ',' :: r ∧
        readFields strict fuel (k + 1) r = some (gs, rest) ∧ fs = (some s, v) :: gs) ∨
      skipBlank after = '\x7d' :: rest ∧ fs = [(some s, v)]) :
    readFields strict (fuel + 1) (k + 1) (printString s ++ ':' :: (v.print ++ after)) =
      some (fs, rest) := by
  refine readFields_eq_some_iff.2 ⟨printChars s.toList ++ '"' :: ':' :: (v.print ++ after), some s,
    ':' :: (v.print ++ after), v.print ++ after, v, after, ?_, readText_printChars s _,
    Bool.and_false _, rfl, ?_, hend⟩
  · rw [printString, List.cons_append, skipBlank_of_not_blank (by decide), List.append_assoc]
    rfl
  · rw [skipBlank_print h]
    exact hread fuel after hfuel hafter

end

/-- The items of an array are read from what is printed of them. -/
theorem readItems_print {v : Value} {vs : List Value} (h : ∀ w ∈ v :: vs, Printable k w)
    (hread : ∀ w ∈ v :: vs, ReadsBack strict k w) (hfuel : (printItems (v :: vs)).length ≤ fuel)
    (rest : List Char) :
    readItems strict fuel (k + 1) (printItems (v :: vs) ++ rest) = some (v :: vs, rest) := by
  induction vs generalizing v fuel with
  | nil =>
    have hlength : (printItems [v]).length = v.print.length + 1 := by
      simp [printItems, printMoreItems]
    obtain ⟨fuel, rfl⟩ := Nat.exists_eq_add_one_of_ne_zero (n := fuel) (by omega)
    rw [printItems, printMoreItems, List.append_assoc]
    exact readItems_item (h v List.mem_cons_self) (hread v List.mem_cons_self) (by omega)
      (endsNumber_cons (by decide) _) (.inr ⟨rfl, rfl⟩)
  | cons w ws ih =>
    have hlength : (printItems (v :: w :: ws)).length =
        v.print.length + ((printItems (w :: ws)).length + 1) := by
      simp [printItems, printMoreItems]
    have hpos := length_print_pos (h v List.mem_cons_self)
    obtain ⟨fuel, rfl⟩ := Nat.exists_eq_add_one_of_ne_zero (n := fuel) (by omega)
    have hws : readItems strict fuel (k + 1) (printItems (w :: ws) ++ rest) =
        some (w :: ws, rest) :=
      ih (fun x hx => h x (List.mem_cons_of_mem v hx))
        (fun x hx => hread x (List.mem_cons_of_mem v hx)) (by omega)
    rw [printItems, printMoreItems, List.append_assoc]
    exact readItems_item (h v List.mem_cons_self) (hread v List.mem_cons_self) (by omega)
      (endsNumber_cons (by decide) _) (.inl ⟨_, _, rfl, hws, rfl⟩)

/-- The fields of an object are read from what is printed of them. -/
theorem readFields_print {f : Text × Value} {fs : List (Text × Value)}
    (hnames : ∀ g ∈ f :: fs, g.1.isSome = true) (h : ∀ g ∈ f :: fs, Printable k g.2)
    (hread : ∀ g ∈ f :: fs, ReadsBack strict k g.2)
    (hfuel : (printFields (f :: fs)).length ≤ fuel) (rest : List Char) :
    readFields strict fuel (k + 1) (printFields (f :: fs) ++ rest) = some (f :: fs, rest) := by
  induction fs generalizing f fuel with
  | nil =>
    obtain ⟨name, v⟩ := f
    obtain ⟨s, rfl⟩ := Option.isSome_iff_exists.1 (hnames _ List.mem_cons_self)
    have hlength : (printFields [(some s, v)]).length =
        (printString s).length + (v.print.length + 2) := by
      simp [printFields, printMoreFields, printText]
    obtain ⟨fuel, rfl⟩ := Nat.exists_eq_add_one_of_ne_zero (n := fuel) (by omega)
    have hv : v.print.length ≤ fuel := by omega
    rw [printFields, printMoreFields, printText, List.append_assoc, List.cons_append,
      List.append_assoc]
    exact readFields_field (h _ List.mem_cons_self) (hread _ List.mem_cons_self) hv
      (endsNumber_cons (by decide) _) s (.inr ⟨rfl, rfl⟩)
  | cons g gs ih =>
    obtain ⟨name, v⟩ := f
    obtain ⟨s, rfl⟩ := Option.isSome_iff_exists.1 (hnames _ List.mem_cons_self)
    have hlength : (printFields ((some s, v) :: g :: gs)).length =
        (printString s).length + (v.print.length + ((printFields (g :: gs)).length + 2)) := by
      simp [printFields, printMoreFields, printText]
      omega
    obtain ⟨fuel, rfl⟩ := Nat.exists_eq_add_one_of_ne_zero (n := fuel) (by omega)
    have hv : v.print.length ≤ fuel := by omega
    have hgs : readFields strict fuel (k + 1) (printFields (g :: gs) ++ rest) =
        some (g :: gs, rest) :=
      ih (fun x hx => hnames x (List.mem_cons_of_mem _ hx))
        (fun x hx => h x (List.mem_cons_of_mem _ hx))
        (fun x hx => hread x (List.mem_cons_of_mem _ hx)) (by omega)
    rw [printFields, printMoreFields, printText, List.append_assoc, List.cons_append,
      List.append_assoc]
    exact readFields_field (h _ List.mem_cons_self) (hread _ List.mem_cons_self) hv
      (endsNumber_cons (by decide) _) s (.inl ⟨_, _, rfl, hgs, rfl⟩)

/-- A printed value is read in front of what does not continue it. -/
theorem readValue_print {v : Value} (h : Printable k v) : ReadsBack strict k v := by
  induction h with
  | null =>
    rintro (_ | fuel) rest hfuel -
    · cases hfuel
    · rfl
  | bool b =>
    rintro (_ | fuel) rest hfuel -
    · cases b <;> cases hfuel
    · cases b <;> rfl
  | number hwhole hle => exact readsBack_number hwhole hle
  | text s => exact readsBack_text s
  | @array k vs h ih =>
    rintro (_ | fuel) rest hfuel -
    · cases hfuel
    · refine readValue_array_iff.2 ⟨k + 1, rfl, ?_⟩
      cases vs with
      | nil => exact .inl ⟨rfl, rfl⟩
      | cons v vs =>
        have hblank : skipBlank (printItems (v :: vs) ++ rest) = printItems (v :: vs) ++ rest := by
          rw [printItems, List.append_assoc, skipBlank_print (h v List.mem_cons_self)]
        have hitems := readItems_print h ih (Nat.le_of_succ_le_succ hfuel) rest
        obtain ⟨c, cs, hcs, -, hbracket⟩ := exists_cons_print (h v List.mem_cons_self)
        refine .inr ⟨fun r hr => ?_, _, hblank.symm ▸ hitems, rfl⟩
        have hhead : printItems (v :: vs) ++ rest = ']' :: r := hblank.symm.trans hr
        rw [printItems, hcs] at hhead
        exact hbracket (List.cons.inj hhead).1
  | @object k fs hnames h ih =>
    rintro (_ | fuel) rest hfuel -
    · cases hfuel
    · refine readValue_object_iff.2 ⟨k + 1, rfl, ?_⟩
      cases fs with
      | nil => exact .inl ⟨rfl, rfl⟩
      | cons f fs =>
        obtain ⟨name, v⟩ := f
        obtain ⟨s, rfl⟩ := Option.isSome_iff_exists.1 (hnames _ List.mem_cons_self)
        have hblank : skipBlank (printFields ((some s, v) :: fs) ++ rest) =
            printFields ((some s, v) :: fs) ++ rest := skipBlank_of_not_blank (by decide) _
        have hfields := readFields_print hnames h ih (Nat.le_of_succ_le_succ hfuel) rest
        refine .inr ⟨fun r hr => ?_, _, hblank.symm ▸ hfields, rfl⟩
        exact absurd (List.cons.inj (hblank.symm.trans hr)).1 (by decide)

/-! ## Characters of a print -/

theorem newline_ne_hexDigit : ∀ n < 32,
    '\n' ∉ ['\\', 'u', '0', '0', hexDigit (n / 16), hexDigit (n % 16)] := by decide

theorem newline_not_mem_printChar (c : Char) : '\n' ∉ printChar c := by
  unfold printChar
  iterate 7 (split; · decide)
  split
  · rename_i hc
    exact newline_ne_hexDigit _ hc
  · rename_i hnewline _ _ _
    rintro hmem
    obtain rfl := List.mem_singleton.1 hmem
    exact hnewline rfl

theorem newline_not_mem_printString (s : String) : '\n' ∉ printString s := by
  have hchars : ∀ cs, '\n' ∉ printChars cs := fun cs => by
    induction cs with
    | nil => exact List.not_mem_nil
    | cons c cs ih =>
      rw [printChars, List.mem_append, not_or]
      exact ⟨newline_not_mem_printChar c, ih⟩
  simp [printString, hchars]

theorem newline_not_mem_printNumber {n : Number} (h : n.integral = true) :
    '\n' ∉ printNumber n := by
  have hdigits : '\n' ∉ Nat.toDigits 10 n.mantissa := fun hmem =>
    absurd (isDigit_of_mem_toDigits hmem) (by decide)
  unfold printNumber
  rw [h, if_pos rfl, List.append_nil, List.mem_append, not_or]
  refine ⟨?_, hdigits⟩
  split <;> decide

/-- A printed value stands on one line. -/
theorem newline_not_mem_print {v : Value} (h : Printable k v) : '\n' ∉ v.print := by
  induction h with
  | null => decide
  | bool b => cases b <;> decide
  | number hwhole hle => exact newline_not_mem_printNumber hwhole.1
  | text s => exact newline_not_mem_printString s
  | @array k vs h ih =>
    have hmore : ∀ ws : List Value, (∀ w ∈ ws, '\n' ∉ w.print) → '\n' ∉ printMoreItems ws := by
      intro ws hws
      induction ws with
      | nil => decide
      | cons w ws ih => simp [printMoreItems, hws w, ih fun x hx => hws x (by simp [hx])]
    cases vs with
    | nil => decide
    | cons v vs =>
      simp [Value.print, printItems, ih v, hmore vs fun w hw => ih w (by simp [hw])]
  | @object k fs hnames h ih =>
    have hname : ∀ t : Text, '\n' ∉ printText t
      | some s => newline_not_mem_printString s
      | none => by decide
    have hmore : ∀ gs : List (Text × Value), (∀ g ∈ gs, '\n' ∉ g.2.print) →
        '\n' ∉ printMoreFields gs := by
      intro gs hgs
      induction gs with
      | nil => decide
      | cons g gs ih =>
        simp [printMoreFields, hname, hgs g, ih fun x hx => hgs x (by simp [hx])]
    cases fs with
    | nil => decide
    | cons f fs =>
      simp [Value.print, printFields, hname, ih f, hmore fs fun w hw => ih w (by simp [hw])]

end MessageRouting.Json
