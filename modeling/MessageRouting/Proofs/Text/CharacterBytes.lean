import MessageRouting.Journal.Line

/-!
# Characters as bytes

A text is found again in its bytes, and it is found from the front: what some
bytes spell does not depend on the bytes after them. So a text that is cut
between two bytes is either cut between two characters or spells nothing.

Results:

* `decode_append`: bytes that spell a text spell it in front of any others.
* `decode_encode`: the bytes of a text spell it.
* `newline_not_mem_encode`: the byte of a newline stands for nothing else.
-/

namespace MessageRouting.Utf8

/-- A byte in the range of the continuation bytes is one. -/
theorem continuation?_of_range {b : UInt8} {x : Nat} (hb : b.toNat = 0x80 + x) (hx : x < 0x40) :
    continuation? b = some x := by
  rw [continuation?, if_pos (by omega), hb, Nat.add_sub_cancel_left]

theorem toNat_ofNat {n : Nat} (h : n < 256) : (UInt8.ofNat n).toNat = n :=
  UInt8.toNat_ofNat_of_lt' h

theorem continuation?_ofNat (n : Nat) :
    continuation? (UInt8.ofNat (0x80 + n % 0x40)) = some (n % 0x40) :=
  continuation?_of_range (toNat_ofNat (by omega)) (by omega)

theorem two?_eq_none {b : UInt8} (hb : 0xE0 ≤ b.toNat) (b₁ : UInt8) : two? b b₁ = none := by
  unfold two?
  cases continuation? b₁ with
  | none => rfl
  | some x => simp only [Option.bind_eq_bind, Option.bind_some]; rw [if_neg (by omega)]

theorem three?_eq_none {b : UInt8} (hb : 0xF0 ≤ b.toNat) (b₁ b₂ : UInt8) :
    three? b b₁ b₂ = none := by
  unfold three?
  cases continuation? b₁ with
  | none => rfl
  | some x =>
    cases continuation? b₂ with
    | none => rfl
    | some y => simp only [Option.bind_eq_bind, Option.bind_some]; rw [if_neg (by omega)]

/-! ## Decoding from the front -/

section

variable {b b₁ b₂ b₃ : UInt8} {rest : Bytes} {c : Char}

theorem decode_one (hb : b.toNat < 0x80) :
    decode (b :: rest) = (decode rest).map (Char.ofNat b.toNat :: ·) := by
  rw [decode.eq_def]
  exact if_pos hb

theorem decode_two (hb : ¬ b.toNat < 0x80) (h : two? b b₁ = some c) :
    decode (b :: b₁ :: rest) = (decode rest).map (c :: ·) := by
  rw [decode.eq_def]
  simp only [if_neg hb, h]

theorem decode_three (hb : ¬ b.toNat < 0x80) (h₁ : two? b b₁ = none)
    (h : three? b b₁ b₂ = some c) :
    decode (b :: b₁ :: b₂ :: rest) = (decode rest).map (c :: ·) := by
  rw [decode.eq_def]
  simp only [if_neg hb, h₁, h]

theorem decode_four (hb : ¬ b.toNat < 0x80) (h₁ : two? b b₁ = none) (h₂ : three? b b₁ b₂ = none)
    (h : four? b b₁ b₂ b₃ = some c) :
    decode (b :: b₁ :: b₂ :: b₃ :: rest) = (decode rest).map (c :: ·) := by
  rw [decode.eq_def]
  simp only [if_neg hb, h₁, h₂, h]

end

/-- Bytes that spell a text spell it in front of any others. -/
theorem decode_append {bs : Bytes} {cs : List Char} (h : decode bs = some cs) (more : Bytes) :
    decode (bs ++ more) = (decode more).map (cs ++ ·) := by
  have hmap : ∀ (c : Char) (ds : List Char),
      ((decode more).map (ds ++ ·)).map (c :: ·) = (decode more).map (c :: ds ++ ·) :=
    fun c ds => by cases decode more <;> rfl
  fun_induction decode bs generalizing cs with
  | case1 =>
    obtain rfl := Option.some.inj h
    simp
  | case2 b rest hb ih =>
    obtain ⟨ds, hds, rfl⟩ := Option.map_eq_some_iff.1 h
    rw [List.cons_append, decode_one hb, ih hds, hmap]
  | case3 b hb => cases h
  | case4 b hb b₁ rest₁ c hc ih =>
    obtain ⟨ds, hds, rfl⟩ := Option.map_eq_some_iff.1 h
    rw [List.cons_append, List.cons_append, decode_two hb hc, ih hds, hmap]
  | case5 b hb b₁ h₁ => cases h
  | case6 b hb b₁ h₁ b₂ rest₂ c hc ih =>
    obtain ⟨ds, hds, rfl⟩ := Option.map_eq_some_iff.1 h
    rw [List.cons_append, List.cons_append, List.cons_append, decode_three hb h₁ hc, ih hds, hmap]
  | case7 b hb b₁ h₁ b₂ h₂ => cases h
  | case8 b hb b₁ h₁ b₂ h₂ b₃ rest₃ c hc ih =>
    obtain ⟨ds, hds, rfl⟩ := Option.map_eq_some_iff.1 h
    rw [List.cons_append, List.cons_append, List.cons_append, List.cons_append,
      decode_four hb h₁ h₂ hc, ih hds, hmap]
  | case9 b hb b₁ h₁ b₂ h₂ b₃ rest₃ hnone => cases h

/-! ## Encoding -/

theorem valid_toNat (c : Char) : c.toNat < 0xD800 ∨ 0xDFFF < c.toNat ∧ c.toNat < 0x110000 := c.valid

/-- The bytes of a character spell it. -/
theorem decode_encodePoint (c : Char) (rest : Bytes) :
    decode (encodePoint c.toNat ++ rest) = (decode rest).map (c :: ·) := by
  have hvalid := valid_toNat c
  have hc : Char.ofNat c.toNat = c := Char.ofNat_toNat c
  generalize c.toNat = n at hvalid hc
  unfold encodePoint
  by_cases h₁ : n < 0x80
  · have hb : (UInt8.ofNat n).toNat = n := toNat_ofNat (by omega)
    rw [if_pos h₁, List.singleton_append, decode_one (by omega), hb, hc]
  by_cases h₂ : n < 0x800
  · have hb : (UInt8.ofNat (0xC0 + n / 0x40)).toNat = 0xC0 + n / 0x40 := toNat_ofNat (by omega)
    have hn : (0xC0 + n / 0x40 - 0xC0) * 0x40 + n % 0x40 = n := by omega
    have htwo : two? (UInt8.ofNat (0xC0 + n / 0x40)) (UInt8.ofNat (0x80 + n % 0x40)) = some c := by
      rw [two?, continuation?_ofNat]
      simp only [Option.bind_eq_bind, Option.bind_some, hb]
      rw [if_pos (by omega), hn, hc]
    rw [if_neg h₁, if_pos h₂]
    exact decode_two (by omega) htwo
  by_cases h₃ : n < 0x10000
  · have hb : (UInt8.ofNat (0xE0 + n / 0x1000)).toNat = 0xE0 + n / 0x1000 := toNat_ofNat (by omega)
    have hn : (0xE0 + n / 0x1000 - 0xE0) * 0x1000 + n / 0x40 % 0x40 * 0x40 + n % 0x40 = n := by
      omega
    have hthree : three? (UInt8.ofNat (0xE0 + n / 0x1000)) (UInt8.ofNat (0x80 + n / 0x40 % 0x40))
        (UInt8.ofNat (0x80 + n % 0x40)) = some c := by
      rw [three?, continuation?_ofNat, continuation?_ofNat]
      simp only [Option.bind_eq_bind, Option.bind_some, hb, hn]
      rw [if_pos (by omega), hc]
    rw [if_neg h₁, if_neg h₂, if_pos h₃]
    exact decode_three (by omega) (two?_eq_none (by omega) _) hthree
  · have hb : (UInt8.ofNat (0xF0 + n / 0x40000)).toNat = 0xF0 + n / 0x40000 :=
      toNat_ofNat (by omega)
    have hn : (0xF0 + n / 0x40000 - 0xF0) * 0x40000 + n / 0x1000 % 0x40 * 0x1000 +
        n / 0x40 % 0x40 * 0x40 + n % 0x40 = n := by omega
    have hfour : four? (UInt8.ofNat (0xF0 + n / 0x40000)) (UInt8.ofNat (0x80 + n / 0x1000 % 0x40))
        (UInt8.ofNat (0x80 + n / 0x40 % 0x40)) (UInt8.ofNat (0x80 + n % 0x40)) = some c := by
      rw [four?, continuation?_ofNat, continuation?_ofNat, continuation?_ofNat]
      simp only [Option.bind_eq_bind, Option.bind_some, hb, hn]
      rw [if_pos (by omega), hc]
    rw [if_neg h₁, if_neg h₂, if_neg h₃]
    exact decode_four (by omega) (two?_eq_none (by omega) _) (three?_eq_none (by omega) ..) hfour

/-- The bytes of a text spell it. -/
theorem decode_encode (cs : List Char) : decode (encode cs) = some cs := by
  induction cs with
  | nil => rfl
  | cons c cs ih => rw [encode, decode_encodePoint, ih, Option.map_some]

theorem encode_append (cs ds : List Char) : encode (cs ++ ds) = encode cs ++ encode ds := by
  induction cs with
  | nil => rfl
  | cons c cs ih => rw [List.cons_append, encode, encode, ih, List.append_assoc]

/-- Only no bytes at all spell nothing. -/
theorem decode_eq_some_nil {bs : Bytes} (h : decode bs = some []) : bs = [] := by
  fun_induction decode bs <;> simp_all

/-- The byte of a newline stands for nothing else. -/
theorem newline_not_mem_encodePoint {n : Nat} (h : n ≠ 10) (hn : n < 0x110000) :
    newline ∉ encodePoint n := by
  have hne : ∀ k, k ≠ 10 → k < 256 → newline ≠ UInt8.ofNat k := fun k hk hlt heq => by
    have := congrArg UInt8.toNat heq
    rw [toNat_ofNat hlt] at this
    exact hk this.symm
  simp only [encodePoint]
  split
  · simp only [List.mem_cons, List.not_mem_nil, or_false]
    exact hne n h (by omega)
  · split
    · simp only [List.mem_cons, List.not_mem_nil, or_false, not_or]
      exact ⟨hne _ (by omega) (by omega), hne _ (by omega) (by omega)⟩
    · split
      · simp only [List.mem_cons, List.not_mem_nil, or_false, not_or]
        exact ⟨hne _ (by omega) (by omega), hne _ (by omega) (by omega),
          hne _ (by omega) (by omega)⟩
      · simp only [List.mem_cons, List.not_mem_nil, or_false, not_or]
        exact ⟨hne _ (by omega) (by omega), hne _ (by omega) (by omega),
          hne _ (by omega) (by omega), hne _ (by omega) (by omega)⟩

theorem newline_not_mem_encode {cs : List Char} (h : '\n' ∉ cs) : newline ∉ encode cs := by
  induction cs with
  | nil => exact List.not_mem_nil
  | cons c cs ih =>
    rw [List.mem_cons, not_or] at h
    rw [encode, List.mem_append, not_or]
    refine ⟨newline_not_mem_encodePoint (fun hc => h.1 ?_) ?_, ih h.2⟩
    · rw [← Char.ofNat_toNat c, hc]
    · have := valid_toNat c
      omega

end MessageRouting.Utf8
