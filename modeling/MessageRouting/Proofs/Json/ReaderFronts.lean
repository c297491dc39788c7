import MessageRouting.Json.Reader

/-!
# Reading from the front

What the reader makes of the front of a text does not depend on the rest, as
soon as it can tell where the front ends. It can for everything that has an end
of its own: a number alone may go on, and is known to end where something else
begins. So a text that is one object is read as it is, and no beginning of it
is read as anything.

Results:

* `readItems_eq_some_iff`, `readFields_eq_some_iff`, `readValue_array_iff`,
  `readValue_object_iff`: what an array or an object is read from.
* `readValue_append`: a value is read in front of anything.
* `parse_eq_none_of_append`: no beginning of a text that is an object is a value.
-/

namespace MessageRouting.Json

variable {strict : Bool} {fuel depth : Nat} {cs rest : List Char}

/-! ## Blanks and words -/

theorem skipBlank_append (h : skipBlank cs ≠ []) (more : List Char) :
    skipBlank (cs ++ more) = skipBlank cs ++ more := by
  induction cs with
  | nil => exact absurd rfl h
  | cons c cs ih =>
    simp only [skipBlank, List.cons_append] at h ⊢
    split
    · rename_i hc
      rw [if_pos hc] at h
      exact ih h
    · rfl

theorem skipBlank_append_of_cons {c : Char} (h : skipBlank cs = c :: rest) (more : List Char) :
    skipBlank (cs ++ more) = c :: (rest ++ more) := by
  rw [skipBlank_append (by simp [h]), h, List.cons_append]

theorem skipBlank_of_not_blank {c : Char} (h : isBlank c = false) (cs : List Char) :
    skipBlank (c :: cs) = c :: cs := by
  rw [skipBlank, if_neg (by simp [h])]

theorem afterWord?_append {ws : List Char} (h : afterWord? ws cs = some rest)
    (more : List Char) : afterWord? ws (cs ++ more) = some (rest ++ more) := by
  fun_induction afterWord? ws cs with
  | case1 cs =>
    obtain rfl := Option.some.inj h
    rfl
  | case2 => cases h
  | case3 ws w cs ih =>
    rw [List.cons_append, afterWord?, if_pos rfl]
    exact ih h
  | case4 => cases h

/-! ## Strings -/

theorem readPieces_quote (cs : List Char) : readPieces ('"' :: cs) = some ([], cs) := by
  rw [readPieces.eq_def]
  exact if_pos rfl

theorem readPieces_unit (d₁ d₂ d₃ d₄ : Char) (cs : List Char) :
    readPieces ('\\' :: 'u' :: d₁ :: d₂ :: d₃ :: d₄ :: cs) =
      (hexNumber? [d₁, d₂, d₃, d₄]).bind fun n =>
        (readPieces cs).map fun p => (.unit n :: p.1, p.2) := by
  rw [readPieces.eq_def]
  simp only [Char.reduceEq, if_false, if_true]
  cases hexNumber? [d₁, d₂, d₃, d₄] <;> cases readPieces cs <;> rfl

theorem readPieces_escape {e : Char} (he : e ≠ 'u') (cs : List Char) :
    readPieces ('\\' :: e :: cs) =
      (simpleEscape? e).bind fun x => (readPieces cs).map fun p => (.char x :: p.1, p.2) := by
  rw [readPieces.eq_def]
  simp only [Char.reduceEq, if_false, if_true, if_neg he]
  cases simpleEscape? e <;> cases readPieces cs <;> rfl

theorem readPieces_char {c : Char} (hquote : c ≠ '"') (hslash : c ≠ '\\') (hc : ¬ c.toNat < 32)
    (cs : List Char) :
    readPieces (c :: cs) = (readPieces cs).map fun p => (.char c :: p.1, p.2) := by
  rw [readPieces.eq_def]
  simp only [if_neg hquote, if_neg hslash, if_neg hc]
  cases readPieces cs <;> rfl

theorem readPieces_append {ps : List Piece} (h : readPieces cs = some (ps, rest))
    (more : List Char) : readPieces (cs ++ more) = some (ps, rest ++ more) := by
  induction cs using readPieces.induct generalizing ps rest with
  | case1 => cases h
  | case2 cs =>
    rw [readPieces_quote] at h
    cases h
    exact readPieces_quote _
  | case3 => cases h
  | case4 d₁ d₂ d₃ d₄ after hne ih =>
    rw [readPieces_unit, Option.bind_eq_some_iff] at h
    obtain ⟨n, hn, hmap⟩ := h
    obtain ⟨p, hp, heq⟩ := Option.map_eq_some_iff.1 hmap
    obtain ⟨rfl, rfl⟩ := Prod.mk.inj heq
    simp only [List.cons_append]
    rw [readPieces_unit, hn, ih hp]
    rfl
  | case5 cs hshort hne =>
    rw [readPieces.eq_def] at h
    simp only [Char.reduceEq, if_false, if_true] at h
    cases h
  | case6 e after he hne ih =>
    rw [readPieces_escape he, Option.bind_eq_some_iff] at h
    obtain ⟨x, hx, hmap⟩ := h
    obtain ⟨p, hp, heq⟩ := Option.map_eq_some_iff.1 hmap
    obtain ⟨rfl, rfl⟩ := Prod.mk.inj heq
    simp only [List.cons_append]
    rw [readPieces_escape he, hx, ih hp]
    rfl
  | case7 c cs hquote hslash hc =>
    rw [readPieces.eq_def] at h
    simp only [if_neg hquote, if_neg hslash, if_pos hc] at h
    cases h
  | case8 c after hquote hslash hc ih =>
    rw [readPieces_char hquote hslash hc] at h
    obtain ⟨p, hp, heq⟩ := Option.map_eq_some_iff.1 h
    obtain ⟨rfl, rfl⟩ := Prod.mk.inj heq
    rw [List.cons_append, readPieces_char hquote hslash hc, ih hp]
    rfl

theorem readText_eq (cs : List Char) :
    readText cs = (readPieces cs).map fun p => ((joinPieces p.1).map String.ofList, p.2) := by
  unfold readText
  cases readPieces cs <;> rfl

theorem readText_append {t : Text} (h : readText cs = some (t, rest)) (more : List Char) :
    readText (cs ++ more) = some (t, rest ++ more) := by
  rw [readText_eq, Option.map_eq_some_iff] at h
  obtain ⟨p, hp, heq⟩ := h
  obtain ⟨rfl, rfl⟩ := Prod.mk.inj heq
  rw [readText_eq, readPieces_append hp]
  rfl

/-! ## Numbers -/

theorem takeWhile_append_of_dropWhile_ne {p : Char → Bool} (h : cs.dropWhile p ≠ [])
    (more : List Char) :
    (cs ++ more).takeWhile p = cs.takeWhile p ∧
      (cs ++ more).dropWhile p = cs.dropWhile p ++ more := by
  induction cs with
  | nil => exact absurd rfl h
  | cons c cs ih =>
    cases hc : p c with
    | true =>
      simp only [List.dropWhile_cons, hc, if_true] at h
      obtain ⟨htake, hdrop⟩ := ih h
      simp [hc, htake, hdrop]
    | false => simp [hc]

theorem readDigits_append {ds : List Char} (h : readDigits cs = some (ds, rest)) (hrest : rest ≠ [])
    (more : List Char) : readDigits (cs ++ more) = some (ds, rest ++ more) := by
  unfold readDigits at h ⊢
  cases htake : cs.takeWhile isDigit with
  | nil => simp [htake] at h
  | cons d ds' =>
    simp only [htake, Option.some.injEq, Prod.mk.injEq] at h
    obtain ⟨rfl, rfl⟩ := h
    obtain ⟨htake', hdrop'⟩ := takeWhile_append_of_dropWhile_ne hrest more
    rw [htake', hdrop', htake]

theorem readWhole_append {ds : List Char} (h : readWhole cs = some (ds, rest)) (hrest : rest ≠ [])
    (more : List Char) : readWhole (cs ++ more) = some (ds, rest ++ more) := by
  unfold readWhole at h ⊢
  cases hdigits : readDigits cs with
  | none => simp [hdigits] at h
  | some p =>
    obtain ⟨ds', rest'⟩ := p
    simp only [hdigits, Option.bind_eq_bind, Option.bind_some] at h
    split at h
    · cases h
    · rename_i hzero
      cases h
      rw [readDigits_append hdigits hrest]
      simp only [Option.bind_eq_bind, Option.bind_some]
      exact if_neg hzero

theorem readFraction_point (cs : List Char) :
    readFraction ('.' :: cs) = (readDigits cs).map fun p => (some p.1, p.2) := by
  simp only [readFraction]
  cases readDigits cs <;> rfl

theorem readFraction_none (h : ∀ r, cs ≠ '.' :: r) : readFraction cs = some (none, cs) := by
  unfold readFraction
  split
  · exact absurd rfl (h _)
  · rfl

theorem readFraction_append {fraction : Option (List Char)}
    (h : readFraction cs = some (fraction, rest)) (hrest : rest ≠ []) (more : List Char) :
    cs ≠ [] ∧ readFraction (cs ++ more) = some (fraction, rest ++ more) := by
  by_cases hpoint : ∃ r, cs = '.' :: r
  · obtain ⟨r, rfl⟩ := hpoint
    rw [readFraction_point, Option.map_eq_some_iff] at h
    obtain ⟨p, hp, heq⟩ := h
    obtain ⟨rfl, rfl⟩ := Prod.mk.inj heq
    rw [List.cons_append, readFraction_point, readDigits_append hp hrest]
    exact ⟨by simp, rfl⟩
  · rw [readFraction_none fun r hr => hpoint ⟨r, hr⟩] at h
    cases h
    refine ⟨hrest, readFraction_none fun r hr => ?_⟩
    obtain ⟨c, cs, rfl⟩ := List.exists_cons_of_ne_nil hrest
    rw [List.cons_append] at hr
    obtain ⟨rfl, -⟩ := List.cons.inj hr
    exact hpoint ⟨cs, rfl⟩

/-- The sign of an exponent, and what follows it. -/
def exponentSign : List Char → Bool × List Char
  | '-' :: r => (true, r)
  | '+' :: r => (false, r)
  | cs => (false, cs)

theorem readExponent_letter {c : Char} (hc : c = 'e' ∨ c = 'E') (cs : List Char) :
    readExponent (c :: cs) = (readDigits (exponentSign cs).2).map fun p =>
      (some (if (exponentSign cs).1 then -(Nat.ofDigitChars 10 p.1 0 : Int)
        else Nat.ofDigitChars 10 p.1 0), p.2) := by
  fun_cases exponentSign cs with
  | case1 r =>
    refine (if_pos hc).trans ?_
    change ((readDigits r).bind fun p => some (some (-(Nat.ofDigitChars 10 p.1 0 : Int)), p.2)) = _
    cases readDigits r <;> rfl
  | case2 r =>
    refine (if_pos hc).trans ?_
    change ((readDigits r).bind fun p => some (some (Nat.ofDigitChars 10 p.1 0 : Int), p.2)) = _
    cases readDigits r <;> rfl
  | case3 cs hminus hplus =>
    refine (if_pos hc).trans ?_
    split
    · exact absurd rfl (hminus _)
    · exact absurd rfl (hplus _)
    · cases readDigits cs <;> rfl

theorem readExponent_none (h : ∀ c r, cs = c :: r → ¬ (c = 'e' ∨ c = 'E')) :
    readExponent cs = some (none, cs) := by
  unfold readExponent
  split
  · rename_i c r
    exact if_neg (h c r rfl)
  · rfl

theorem exponentSign_append (h : cs ≠ []) (more : List Char) :
    exponentSign (cs ++ more) = ((exponentSign cs).1, (exponentSign cs).2 ++ more) := by
  obtain ⟨c, cs, rfl⟩ := List.exists_cons_of_ne_nil h
  by_cases hminus : c = '-'
  · subst hminus
    rfl
  by_cases hplus : c = '+'
  · subst hplus
    rfl
  have hother : ∀ cs, exponentSign (c :: cs) = (false, c :: cs) := fun cs => by
    unfold exponentSign
    split
    · rename_i heq
      exact absurd (List.cons.inj heq).1 hminus
    · rename_i heq
      exact absurd (List.cons.inj heq).1 hplus
    · rfl
  rw [List.cons_append, hother, hother]
  rfl

theorem readExponent_append {exponent : Option Int}
    (h : readExponent cs = some (exponent, rest)) (hrest : rest ≠ []) (more : List Char) :
    cs ≠ [] ∧ readExponent (cs ++ more) = some (exponent, rest ++ more) := by
  by_cases hletter : ∃ c r, cs = c :: r ∧ (c = 'e' ∨ c = 'E')
  · obtain ⟨c, r, rfl, hc⟩ := hletter
    rw [readExponent_letter hc, Option.map_eq_some_iff] at h
    obtain ⟨p, hp, heq⟩ := h
    obtain ⟨rfl, rfl⟩ := Prod.mk.inj heq
    have hr : r ≠ [] := by
      rintro rfl
      cases hp
    rw [List.cons_append, readExponent_letter hc, exponentSign_append hr,
      readDigits_append hp hrest]
    exact ⟨by simp, rfl⟩
  · rw [readExponent_none fun c r hr hc => hletter ⟨c, r, hr, hc⟩] at h
    cases h
    refine ⟨hrest, readExponent_none fun c r hr hc => ?_⟩
    obtain ⟨c', cs, rfl⟩ := List.exists_cons_of_ne_nil hrest
    rw [List.cons_append] at hr
    obtain ⟨rfl, -⟩ := List.cons.inj hr
    exact hletter ⟨c', cs, rfl, hc⟩

theorem readUnsigned_append {negative : Bool} {n : Number}
    (h : readUnsigned negative cs = some (n, rest)) (hrest : rest ≠ []) (more : List Char) :
    readUnsigned negative (cs ++ more) = some (n, rest ++ more) := by
  unfold readUnsigned at h ⊢
  simp only [Option.bind_eq_bind, Option.bind_eq_some_iff] at h
  obtain ⟨⟨whole, cs₁⟩, hwhole, ⟨fraction, cs₂⟩, hfraction, ⟨exponent, cs₃⟩, hexponent, heq⟩ := h
  obtain ⟨rfl, rfl⟩ := Prod.mk.inj (Option.some.inj heq)
  obtain ⟨hcs₂, hexponent'⟩ := readExponent_append hexponent hrest more
  obtain ⟨hcs₁, hfraction'⟩ := readFraction_append hfraction hcs₂ more
  simp only [readWhole_append hwhole hcs₁, hfraction', hexponent', Option.bind_eq_bind,
    Option.bind_some]

theorem readNumber_minus (cs : List Char) : readNumber ('-' :: cs) = readUnsigned true cs := rfl

theorem readNumber_unsigned (h : ∀ r, cs ≠ '-' :: r) : readNumber cs = readUnsigned false cs := by
  unfold readNumber
  split
  · exact absurd rfl (h _)
  · rfl

theorem readNumber_append {n : Number} (h : readNumber cs = some (n, rest)) (hrest : rest ≠ [])
    (more : List Char) : readNumber (cs ++ more) = some (n, rest ++ more) := by
  by_cases hminus : ∃ r, cs = '-' :: r
  · obtain ⟨r, rfl⟩ := hminus
    rw [readNumber_minus] at h
    exact readUnsigned_append h hrest more
  · rw [readNumber_unsigned fun r hr => hminus ⟨r, hr⟩] at h
    rw [readNumber_unsigned fun r hr => ?_]
    · exact readUnsigned_append h hrest more
    · cases cs with
      | nil => cases h
      | cons c cs =>
        rw [List.cons_append] at hr
        obtain ⟨rfl, -⟩ := List.cons.inj hr
        exact hminus ⟨cs, rfl⟩

/-! ## Values -/

/-- What the items of an array are read from. -/
theorem readItems_eq_some_iff {vs : List Value} :
    readItems strict (fuel + 1) depth cs = some (vs, rest) ↔
      ∃ v after, readValue strict fuel depth (skipBlank cs) = some (v, after) ∧
        ((∃ r ws, skipBlank after = ',' :: r ∧ readItems strict fuel depth r = some (ws, rest) ∧
            vs = v :: ws) ∨
          skipBlank after = ']' :: rest ∧ vs = [v]) := by
  rw [readItems, Option.bind_eq_bind, Option.bind_eq_some_iff]
  constructor
  · rintro ⟨⟨v, after⟩, hv, h⟩
    refine ⟨v, after, hv, ?_⟩
    dsimp only at h
    split at h
    · rename_i r hr
      rw [Option.bind_eq_bind, Option.bind_eq_some_iff] at h
      obtain ⟨⟨ws, rest'⟩, hws, heq⟩ := h
      obtain ⟨rfl, rfl⟩ := Prod.mk.inj (Option.some.inj heq)
      exact .inl ⟨r, ws, hr, hws, rfl⟩
    · rename_i r hr
      obtain ⟨rfl, rfl⟩ := Prod.mk.inj (Option.some.inj h)
      exact .inr ⟨hr, rfl⟩
    · cases h
  · rintro ⟨v, after, hv, ⟨r, ws, hr, hws, rfl⟩ | ⟨hr, rfl⟩⟩
    · exact ⟨(v, after), hv, by simp [hr, hws]⟩
    · exact ⟨(v, after), hv, by simp [hr]⟩

/-- What the fields of an object are read from. -/
theorem readFields_eq_some_iff {fs : List (Text × Value)} :
    readFields strict (fuel + 1) depth cs = some (fs, rest) ↔
      ∃ quoted k named colon v after, skipBlank cs = '"' :: quoted ∧
        readText quoted = some (k, named) ∧ (strict && k.isNone) = false ∧
        skipBlank named = ':' :: colon ∧
        readValue strict fuel depth (skipBlank colon) = some (v, after) ∧
        ((∃ r gs, skipBlank after = ',' :: r ∧ readFields strict fuel depth r = some (gs, rest) ∧
            fs = (k, v) :: gs) ∨
          skipBlank after = '}' :: rest ∧ fs = [(k, v)]) := by
  rw [readFields]
  constructor
  · intro h
    split at h
    · rename_i quoted hquoted
      rw [Option.bind_eq_bind, Option.bind_eq_some_iff] at h
      obtain ⟨⟨k, named⟩, hk, h⟩ := h
      dsimp only at h
      split at h
      · cases h
      · rename_i hsome
        split at h
        · rename_i colon hcolon
          rw [Option.bind_eq_bind, Option.bind_eq_some_iff] at h
          obtain ⟨⟨v, after⟩, hv, h⟩ := h
          refine ⟨quoted, k, named, colon, v, after, hquoted, hk, Bool.eq_false_iff.2 hsome, hcolon,
            hv, ?_⟩
          dsimp only at h
          split at h
          · rename_i r hr
            rw [Option.bind_eq_bind, Option.bind_eq_some_iff] at h
            obtain ⟨⟨gs, rest'⟩, hgs, heq⟩ := h
            obtain ⟨rfl, rfl⟩ := Prod.mk.inj (Option.some.inj heq)
            exact .inl ⟨r, gs, hr, hgs, rfl⟩
          · rename_i r hr
            obtain ⟨rfl, rfl⟩ := Prod.mk.inj (Option.some.inj h)
            exact .inr ⟨hr, rfl⟩
          · cases h
        · cases h
    · cases h
  · rintro ⟨quoted, k, named, colon, v, after, hquoted, hk, hsome, hcolon, hv,
      ⟨r, gs, hr, hgs, rfl⟩ | ⟨hr, rfl⟩⟩
    · simp only [hquoted, hk, hsome, hcolon, hv, hr, hgs, Option.bind_eq_bind, Option.bind_some,
        Bool.false_eq_true, if_false]
    · simp only [hquoted, hk, hsome, hcolon, hv, hr, Option.bind_eq_bind, Option.bind_some,
        Bool.false_eq_true, if_false]

/-- What an array is read from. -/
theorem readValue_array_iff {v : Value} :
    readValue strict (fuel + 1) depth ('[' :: cs) = some (v, rest) ↔
      ∃ inside, deeper? depth = some inside ∧
        (skipBlank cs = ']' :: rest ∧ v = .array [] ∨
          (∀ r, skipBlank cs ≠ ']' :: r) ∧ ∃ vs,
            readItems strict fuel inside (skipBlank cs) = some (vs, rest) ∧ v = .array vs) := by
  rw [readValue, if_neg (by decide), if_pos rfl, Option.bind_eq_bind, Option.bind_eq_some_iff]
  refine exists_congr fun inside => and_congr_right fun _ => ?_
  constructor
  · intro h
    split at h
    · rename_i r hr
      obtain ⟨rfl, rfl⟩ := Prod.mk.inj (Option.some.inj h)
      exact .inl ⟨hr, rfl⟩
    · rename_i hne
      rw [Option.bind_eq_bind, Option.bind_eq_some_iff] at h
      obtain ⟨⟨vs, rest'⟩, hvs, heq⟩ := h
      obtain ⟨rfl, rfl⟩ := Prod.mk.inj (Option.some.inj heq)
      exact .inr ⟨hne, vs, hvs, rfl⟩
  · rintro (⟨hr, rfl⟩ | ⟨hne, vs, hvs, rfl⟩)
    · simp only [hr]
    · split
      · rename_i r hr
        exact absurd hr (hne r)
      · rw [hvs]
        rfl

/-- What an object is read from. -/
theorem readValue_object_iff {v : Value} :
    readValue strict (fuel + 1) depth ('\x7b' :: cs) = some (v, rest) ↔
      ∃ inside, deeper? depth = some inside ∧
        (skipBlank cs = '\x7d' :: rest ∧ v = .object [] ∨
          (∀ r, skipBlank cs ≠ '\x7d' :: r) ∧ ∃ fs,
            readFields strict fuel inside (skipBlank cs) = some (fs, rest) ∧ v = .object fs) := by
  rw [readValue, if_neg (by decide), if_neg (by decide), if_pos rfl, Option.bind_eq_bind,
    Option.bind_eq_some_iff]
  refine exists_congr fun inside => and_congr_right fun _ => ?_
  constructor
  · intro h
    split at h
    · rename_i r hr
      obtain ⟨rfl, rfl⟩ := Prod.mk.inj (Option.some.inj h)
      exact .inl ⟨hr, rfl⟩
    · rename_i hne
      rw [Option.bind_eq_bind, Option.bind_eq_some_iff] at h
      obtain ⟨⟨fs, rest'⟩, hfs, heq⟩ := h
      obtain ⟨rfl, rfl⟩ := Prod.mk.inj (Option.some.inj heq)
      exact .inr ⟨hne, fs, hfs, rfl⟩
  · rintro (⟨hr, rfl⟩ | ⟨hne, fs, hfs, rfl⟩)
    · simp only [hr]
    · split
      · rename_i r hr
        exact absurd hr (hne r)
      · rw [hfs]
        rfl

/-! ## Values in front of a text -/

/-- What `fuel` suffices to read is read in front of anything with `fuel'`. A number has to be
followed by something, since what comes next might continue it. -/
structure ReadsOn (strict : Bool) (fuel fuel' : Nat) : Prop where
  value : ∀ {depth cs v rest}, readValue strict fuel depth cs = some (v, rest) →
    (rest ≠ [] ∨ ∀ n, v ≠ .number n) → ∀ more,
    readValue strict fuel' depth (cs ++ more) = some (v, rest ++ more)
  items : ∀ {depth cs vs rest}, readItems strict fuel depth cs = some (vs, rest) → ∀ more,
    readItems strict fuel' depth (cs ++ more) = some (vs, rest ++ more)
  fields : ∀ {depth cs fs rest}, readFields strict fuel depth cs = some (fs, rest) → ∀ more,
    readFields strict fuel' depth (cs ++ more) = some (fs, rest ++ more)

namespace ReadsOn

/-- A word is read in front of anything. -/
theorem word_append {ws : List Char} {v w : Value}
    (h : (afterWord? ws cs).map (w, ·) = some (v, rest)) (more : List Char) :
    (afterWord? ws (cs ++ more)).map (w, ·) = some (v, rest ++ more) := by
  obtain ⟨r, hr, heq⟩ := Option.map_eq_some_iff.1 h
  obtain ⟨rfl, rfl⟩ := Prod.mk.inj heq
  rw [afterWord?_append hr]
  rfl

variable {fuel' : Nat}

/-- A value that a token follows is read in front of anything, and so is the token. -/
theorem value_before (h : ReadsOn strict fuel fuel') {v : Value} {after : List Char} {c : Char}
    (hv : readValue strict fuel depth (skipBlank cs) = some (v, after))
    (hc : skipBlank after = c :: rest) (more : List Char) :
    readValue strict fuel' depth (skipBlank (cs ++ more)) = some (v, after ++ more) ∧
      skipBlank (after ++ more) = c :: (rest ++ more) := by
  have hcs : skipBlank cs ≠ [] := fun hnil => by
    rw [hnil] at hv
    cases fuel <;> cases hv
  have hafter : after ≠ [] := by
    rintro rfl
    cases hc
  rw [skipBlank_append hcs]
  exact ⟨h.value hv (.inl hafter) more, skipBlank_append_of_cons hc more⟩

theorem items_succ (h : ReadsOn strict fuel fuel') {vs : List Value}
    (hvs : readItems strict (fuel + 1) depth cs = some (vs, rest)) (more : List Char) :
    readItems strict (fuel' + 1) depth (cs ++ more) = some (vs, rest ++ more) := by
  obtain ⟨v, after, hv, ⟨r, ws, hr, hws, rfl⟩ | ⟨hr, rfl⟩⟩ := readItems_eq_some_iff.1 hvs
  · obtain ⟨hv', hr'⟩ := h.value_before hv hr more
    exact readItems_eq_some_iff.2 ⟨v, _, hv', .inl ⟨_, ws, hr', h.items hws more, rfl⟩⟩
  · obtain ⟨hv', hr'⟩ := h.value_before hv hr more
    exact readItems_eq_some_iff.2 ⟨v, _, hv', .inr ⟨hr', rfl⟩⟩

theorem fields_succ (h : ReadsOn strict fuel fuel') {fs : List (Text × Value)}
    (hfs : readFields strict (fuel + 1) depth cs = some (fs, rest)) (more : List Char) :
    readFields strict (fuel' + 1) depth (cs ++ more) = some (fs, rest ++ more) := by
  obtain ⟨quoted, k, named, colon, v, after, hquoted, hk, hsome, hcolon, hv,
    ⟨r, gs, hr, hgs, rfl⟩ | ⟨hr, rfl⟩⟩ := readFields_eq_some_iff.1 hfs
  · obtain ⟨hv', hr'⟩ := h.value_before hv hr more
    exact readFields_eq_some_iff.2 ⟨_, k, _, _, v, _, skipBlank_append_of_cons hquoted more,
      readText_append hk more, hsome, skipBlank_append_of_cons hcolon more, hv',
      .inl ⟨_, gs, hr', h.fields hgs more, rfl⟩⟩
  · obtain ⟨hv', hr'⟩ := h.value_before hv hr more
    exact readFields_eq_some_iff.2 ⟨_, k, _, _, v, _, skipBlank_append_of_cons hquoted more,
      readText_append hk more, hsome, skipBlank_append_of_cons hcolon more, hv',
      .inr ⟨hr', rfl⟩⟩

/-- The blanks before what stands inside brackets end where they do. -/
theorem inside_append {close : Char} (hne : ∀ r, skipBlank cs ≠ close :: r)
    (hcs : skipBlank cs ≠ []) (more : List Char) :
    ∀ r, skipBlank (cs ++ more) ≠ close :: r := by
  intro r hr
  obtain ⟨c, cs', hc⟩ := List.exists_cons_of_ne_nil hcs
  rw [skipBlank_append_of_cons hc] at hr
  obtain ⟨rfl, -⟩ := List.cons.inj hr
  exact hne cs' hc

theorem value_succ (h : ReadsOn strict fuel fuel') {v : Value}
    (hv : readValue strict (fuel + 1) depth cs = some (v, rest))
    (hend : rest ≠ [] ∨ ∀ n, v ≠ .number n) (more : List Char) :
    readValue strict (fuel' + 1) depth (cs ++ more) = some (v, rest ++ more) := by
  cases cs with
  | nil => cases hv
  | cons c cs =>
    rw [List.cons_append]
    by_cases harray : c = '['
    · subst harray
      obtain ⟨inside, hdeep, ⟨hclose, rfl⟩ | ⟨hne, vs, hvs, rfl⟩⟩ := readValue_array_iff.1 hv
      · exact readValue_array_iff.2
          ⟨inside, hdeep, .inl ⟨skipBlank_append_of_cons hclose more, rfl⟩⟩
      · have hcs : skipBlank cs ≠ [] := fun hnil => by
          rw [hnil] at hvs
          cases fuel with
          | zero => cases hvs
          | succ fuel => cases fuel <;> cases hvs
        refine readValue_array_iff.2
          ⟨inside, hdeep, .inr ⟨inside_append hne hcs more, vs, ?_, rfl⟩⟩
        rw [skipBlank_append hcs]
        exact h.items hvs more
    by_cases hobject : c = '\x7b'
    · subst hobject
      obtain ⟨inside, hdeep, ⟨hclose, rfl⟩ | ⟨hne, fs, hfs, rfl⟩⟩ := readValue_object_iff.1 hv
      · exact readValue_object_iff.2
          ⟨inside, hdeep, .inl ⟨skipBlank_append_of_cons hclose more, rfl⟩⟩
      · have hcs : skipBlank cs ≠ [] := fun hnil => by
          rw [hnil] at hfs
          cases fuel <;> cases hfs
        refine readValue_object_iff.2
          ⟨inside, hdeep, .inr ⟨inside_append hne hcs more, fs, ?_, rfl⟩⟩
        rw [skipBlank_append hcs]
        exact h.fields hfs more
    by_cases hquote : c = '"'
    · rw [readValue, if_pos hquote] at hv ⊢
      rw [Option.bind_eq_bind, Option.bind_eq_some_iff] at hv
      obtain ⟨⟨t, after⟩, ht, hsome⟩ := hv
      rw [readText_append ht]
      dsimp only at hsome
      split at hsome
      · cases hsome
      · rename_i hstrict
        obtain ⟨rfl, rfl⟩ := Prod.mk.inj (Option.some.inj hsome)
        exact if_neg hstrict
    rw [readValue, if_neg hquote, if_neg harray, if_neg hobject] at hv ⊢
    by_cases hnull : c = 'n'
    · rw [if_pos hnull] at hv ⊢
      exact word_append hv more
    by_cases htrue : c = 't'
    · rw [if_neg hnull, if_pos htrue] at hv ⊢
      exact word_append hv more
    by_cases hfalse : c = 'f'
    · rw [if_neg hnull, if_neg htrue, if_pos hfalse] at hv ⊢
      exact word_append hv more
    rw [if_neg hnull, if_neg htrue, if_neg hfalse, Option.bind_eq_bind] at hv ⊢
    rw [Option.bind_eq_some_iff] at hv
    obtain ⟨⟨n, after⟩, hn, hsome⟩ := hv
    dsimp only at hsome
    split at hsome
    · cases hsome
    · rename_i hstrict
      obtain ⟨rfl, rfl⟩ := Prod.mk.inj (Option.some.inj hsome)
      have hafter : after ≠ [] := hend.resolve_right fun hnumber => hnumber n rfl
      have hn' := readNumber_append hn hafter more
      rw [List.cons_append] at hn'
      rw [hn']
      exact if_neg hstrict

end ReadsOn

theorem readsOn_of_le {fuel' : Nat} (h : fuel ≤ fuel') : ReadsOn strict fuel fuel' := by
  induction fuel generalizing fuel' with
  | zero =>
    refine ⟨fun hv => ?_, fun hvs => ?_, fun hfs => ?_⟩
    · cases hv
    · cases hvs
    · cases hfs
  | succ fuel ih =>
    obtain ⟨fuel', rfl⟩ := Nat.exists_eq_add_one_of_ne_zero (Nat.ne_of_gt (Nat.lt_of_lt_of_le
      (Nat.succ_pos fuel) h))
    have hih : ReadsOn strict fuel fuel' := ih (Nat.le_of_succ_le_succ h)
    exact ⟨hih.value_succ, hih.items_succ, hih.fields_succ⟩

/-- A value that is no number is read in front of anything. -/
theorem readValue_append {fuel' : Nat} {v : Value} (hfuel : fuel ≤ fuel')
    (hv : readValue strict fuel depth cs = some (v, rest)) (hnumber : ∀ n, v ≠ .number n)
    (more : List Char) : readValue strict fuel' depth (cs ++ more) = some (v, rest ++ more) :=
  (readsOn_of_le hfuel).value hv (.inr hnumber) more

/-- What begins with a brace is read as an object. -/
theorem exists_object_of_readValue {v : Value}
    (h : readValue strict fuel depth ('\x7b' :: cs) = some (v, rest)) : ∃ fs, v = .object fs := by
  cases fuel with
  | zero => cases h
  | succ fuel =>
    obtain ⟨_, -, ⟨-, rfl⟩ | ⟨-, fs, -, rfl⟩⟩ := readValue_object_iff.1 h
    · exact ⟨[], rfl⟩
    · exact ⟨fs, rfl⟩

theorem parse_strict_eq_some_iff {v : Value} :
    parse true cs = some v ↔ ∃ rest,
      readValue true (2 * cs.length + 2) depthLimit (skipBlank cs) = some (v, rest) ∧
        skipBlank rest = [] := by
  unfold parse
  simp only [if_true, Option.bind_eq_bind, Option.bind_eq_some_iff]
  constructor
  · rintro ⟨⟨v', rest⟩, hv, h⟩
    dsimp only at h
    split at h
    · rename_i hrest
      obtain rfl := Option.some.inj h
      exact ⟨rest, hv, hrest⟩
    · cases h
  · rintro ⟨rest, hv, hrest⟩
    exact ⟨(v, rest), hv, if_pos hrest⟩

/-- No beginning of a text that is an object is a value. -/
theorem parse_eq_none_of_append {v : Value} {more : List Char}
    (h : readValue true fuel depthLimit ('\x7b' :: cs ++ more) = some (v, [])) (hmore : more ≠ []) :
    parse true ('\x7b' :: cs) = none := by
  refine Option.eq_none_iff_forall_ne_some.2 fun v' hv' => ?_
  obtain ⟨rest, hread, -⟩ := parse_strict_eq_some_iff.1 hv'
  rw [skipBlank_of_not_blank (by decide)] at hread
  have hno : ∀ {w : Value}, (∃ fs, w = .object fs) → ∀ n, w ≠ .number n := by
    rintro _ ⟨fs, rfl⟩ n heq
    cases heq
  have hcut := readValue_append (Nat.le_max_left _ fuel) hread
    (hno (exists_object_of_readValue hread)) more
  have hwhole := readValue_append (Nat.le_max_right (2 * ('\x7b' :: cs).length + 2) fuel) h
    (hno (exists_object_of_readValue h)) []
  rw [List.append_nil, hcut] at hwhole
  exact hmore (List.append_eq_nil_iff.1 (Prod.mk.inj (Option.some.inj hwhole)).2).2

end MessageRouting.Json
