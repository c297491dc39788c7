import MessageRouting.Proofs.Json.ReaderFronts

/-!
# Open brackets

A text from which a value is read closes every bracket that it opens, ends every
string, and has no `o` outside them. Scanning a text for brackets and quotes is
all it takes to see that it is cut off inside a value: a beginning of an object
leaves its brace open, whatever it is followed by.

Results:

* `level_of_readValue`: a value opens and closes as many brackets.
* `scan?_of_parse`: a text that is a value leaves no bracket open.
* `scan?_of_cut`: a proper beginning of an object leaves a bracket open.
-/

namespace MessageRouting.Json

/-! ## Scanning -/

/-- Where a text stands: outside strings, in one, or behind a backslash in one. -/
inductive Mode where
  | plain
  | quoted
  | escaped
  deriving DecidableEq, Repr

/-- One character further, with so many brackets open; nothing for a bracket that closes none of
them, or for an `o` outside a string. -/
def advance? : Mode × Nat → Char → Option (Mode × Nat)
  | (.quoted, d), c =>
    if c = '"' then some (.plain, d) else if c = '\\' then some (.escaped, d) else some (.quoted, d)
  | (.escaped, d), _ => some (.quoted, d)
  | (.plain, d), c =>
    if c = '"' then some (.quoted, d)
    else if c = '\x7b' ∨ c = '[' then some (.plain, d + 1)
    else if c = '\x7d' ∨ c = ']' then (if d = 0 then none else some (.plain, d - 1))
    else if c = 'o' then none
    else some (.plain, d)

/-- Where a text stands after these characters. -/
def scan? : Mode × Nat → List Char → Option (Mode × Nat)
  | s, [] => some s
  | s, c :: cs => (advance? s c).bind (scan? · cs)

theorem scan?_append (s : Mode × Nat) (cs ds : List Char) :
    scan? s (cs ++ ds) = (scan? s cs).bind (scan? · ds) := by
  induction cs generalizing s with
  | nil => rfl
  | cons c cs ih =>
    rw [List.cons_append, scan?, scan?]
    cases advance? s c with
    | none => rfl
    | some t => exact ih t

/-- One more bracket that is open stays open. -/
theorem advance?_deeper {m m' : Mode} {d d' : Nat} {c : Char}
    (h : advance? (m, d) c = some (m', d')) : advance? (m, d + 1) c = some (m', d' + 1) := by
  cases m with
  | quoted =>
    simp only [advance?] at h ⊢
    split at h <;> simp_all
    split at h <;> simp_all
  | escaped =>
    simp only [advance?, Option.some.injEq, Prod.mk.injEq] at h ⊢
    exact ⟨h.1, congrArg (· + 1) h.2⟩
  | plain =>
    simp only [advance?] at h ⊢
    split at h
    · simp_all
    split at h
    · simp_all
    split at h
    · split at h
      · cases h
      · simp_all
        omega
    split at h
    · cases h
    · simp_all

theorem scan?_deeper {m m' : Mode} {d d' : Nat} {cs : List Char}
    (h : scan? (m, d) cs = some (m', d')) : scan? (m, d + 1) cs = some (m', d' + 1) := by
  induction cs generalizing m d with
  | nil =>
    obtain ⟨rfl, rfl⟩ := Prod.mk.inj (Option.some.inj h)
    rfl
  | cons c cs ih =>
    obtain ⟨⟨m₁, d₁⟩, hc, hcs⟩ := Option.bind_eq_some_iff.1 h
    rw [scan?, advance?_deeper hc]
    exact ih hcs

/-- The text up to `rest` opens and closes as many brackets, and ends outside strings. -/
def Level (cs rest : List Char) : Prop :=
  ∃ used, cs = used ++ rest ∧ ∀ d, scan? (.plain, d) used = some (.plain, d)

/-- Whether a character changes nothing outside strings. -/
def isNeutral (c : Char) : Bool :=
  c ≠ '"' && c ≠ '\x7b' && c ≠ '[' && c ≠ '\x7d' && c ≠ ']' && c ≠ 'o'

namespace Level

variable {cs mid rest : List Char}

theorem refl (cs : List Char) : Level cs cs := ⟨[], rfl, fun _ => rfl⟩

theorem trans (h : Level cs mid) (h' : Level mid rest) : Level cs rest := by
  obtain ⟨used, rfl, hused⟩ := h
  obtain ⟨used', rfl, hused'⟩ := h'
  refine ⟨used ++ used', (List.append_assoc ..).symm, fun d => ?_⟩
  rw [scan?_append, hused d]
  exact hused' d

theorem cons {c : Char} (hc : isNeutral c = true) (h : Level cs rest) : Level (c :: cs) rest := by
  obtain ⟨used, rfl, hused⟩ := h
  refine ⟨c :: used, rfl, fun d => ?_⟩
  simp only [isNeutral, Bool.and_eq_true, decide_eq_true_eq] at hc
  rw [scan?, advance?]
  simp only [hc, or_self, if_false]
  exact hused d

theorem of_neutral {used : List Char} (h : ∀ c ∈ used, isNeutral c = true) (rest : List Char) :
    Level (used ++ rest) rest := by
  induction used with
  | nil => exact refl rest
  | cons c used ih =>
    exact (ih fun x hx => h x (List.mem_cons_of_mem c hx)).cons (h c List.mem_cons_self)

/-- Brackets around what is level are level. -/
theorem bracket {opening closing : Char} (hopen : opening = '\x7b' ∨ opening = '[')
    (hclose : closing = '\x7d' ∨ closing = ']') (h : Level cs (closing :: rest)) :
    Level (opening :: cs) rest := by
  obtain ⟨used, rfl, hused⟩ := h
  refine ⟨opening :: (used ++ [closing]), by simp, fun d => ?_⟩
  have hfirst : advance? (.plain, d) opening = some (.plain, d + 1) := by
    rcases hopen with rfl | rfl <;> rfl
  have hlast : advance? (.plain, d + 1) closing = some (.plain, d) := by
    rcases hclose with rfl | rfl <;> rfl
  rw [scan?, hfirst, Option.bind_some, scan?_append, hused (d + 1), Option.bind_some, scan?, hlast]
  rfl

end Level

variable {strict : Bool} {fuel depth : Nat} {cs rest : List Char}

/-! ## Tokens -/

theorem level_skipBlank (cs : List Char) : Level cs (skipBlank cs) := by
  induction cs with
  | nil => exact .refl []
  | cons c cs ih =>
    rw [skipBlank]
    split
    · rename_i hc
      refine ih.cons ?_
      simp only [isBlank, Bool.or_eq_true, decide_eq_true_eq] at hc
      rcases hc with ((rfl | rfl) | rfl) | rfl <;> decide
    · exact .refl _

/-- What stands behind blanks stands level with what stands before them. -/
theorem Level.skip {mid : List Char} (h : Level (skipBlank mid) rest) : Level mid rest :=
  (level_skipBlank mid).trans h

theorem eq_append_of_afterWord? {ws : List Char} (h : afterWord? ws cs = some rest) :
    cs = ws ++ rest := by
  fun_induction afterWord? ws cs with
  | case1 cs => exact Option.some.inj h
  | case2 => cases h
  | case3 ws w cs ih => rw [ih h, List.cons_append]
  | case4 => cases h

theorem level_word {c : Char} {ws : List Char} {v w : Value}
    (hws : (c :: ws).all isNeutral = true)
    (h : (afterWord? ws cs).map (w, ·) = some (v, rest)) : Level (c :: cs) rest := by
  obtain ⟨r, hr, heq⟩ := Option.map_eq_some_iff.1 h
  obtain ⟨-, rfl⟩ := Prod.mk.inj heq
  rw [eq_append_of_afterWord? hr]
  exact Level.of_neutral (List.all_eq_true.1 hws) r

/-! ## Strings -/

theorem isSome_of_hexNumber? {ds : List Char} {n k : Nat}
    (h : ds.foldlM (fun n c => (hexValue? c).map (16 * n + ·)) k = some n) :
    ∀ c ∈ ds, (hexValue? c).isSome = true := by
  induction ds generalizing k with
  | nil => exact fun c hc => nomatch hc
  | cons d ds ih =>
    rw [List.foldlM_cons, Option.bind_eq_bind, Option.bind_eq_some_iff] at h
    obtain ⟨k', hk', hds⟩ := h
    obtain ⟨x, hx, -⟩ := Option.map_eq_some_iff.1 hk'
    intro c hc
    rcases List.mem_cons.1 hc with rfl | hc
    · rw [hx]
      rfl
    · exact ih hds c hc

theorem advance?_quoted_hex {c : Char} (h : (hexValue? c).isSome = true) (d : Nat) :
    advance? (.quoted, d) c = some (.quoted, d) := by
  have hquote : c ≠ '"' := by
    rintro rfl
    cases h
  have hslash : c ≠ '\\' := by
    rintro rfl
    cases h
  rw [advance?, if_neg hquote, if_neg hslash]

/-- The pieces of a string end it. -/
theorem scan?_readPieces {ps : List Piece} (h : readPieces cs = some (ps, rest)) :
    ∃ used, cs = used ++ rest ∧ ∀ d, scan? (.quoted, d) used = some (.plain, d) := by
  induction cs using readPieces.induct generalizing ps rest with
  | case1 => cases h
  | case2 cs =>
    rw [readPieces_quote] at h
    cases h
    exact ⟨['"'], rfl, fun _ => rfl⟩
  | case3 => cases h
  | case4 d₁ d₂ d₃ d₄ after hne ih =>
    rw [readPieces_unit, Option.bind_eq_some_iff] at h
    obtain ⟨n, hn, hmap⟩ := h
    obtain ⟨p, hp, heq⟩ := Option.map_eq_some_iff.1 hmap
    obtain ⟨-, rfl⟩ := Prod.mk.inj heq
    obtain ⟨used, hused, hscan⟩ := ih hp
    have hhex := isSome_of_hexNumber? hn
    refine ⟨'\\' :: 'u' :: d₁ :: d₂ :: d₃ :: d₄ :: used, by rw [hused]; rfl, fun d => ?_⟩
    have hdigits : scan? (.quoted, d) (d₁ :: d₂ :: d₃ :: d₄ :: used) = some (.plain, d) := by
      rw [scan?, advance?_quoted_hex (hhex d₁ (by simp)), Option.bind_some,
        scan?, advance?_quoted_hex (hhex d₂ (by simp)), Option.bind_some,
        scan?, advance?_quoted_hex (hhex d₃ (by simp)), Option.bind_some,
        scan?, advance?_quoted_hex (hhex d₄ (by simp)), Option.bind_some, hscan]
    exact hdigits
  | case5 cs hshort hne =>
    rw [readPieces.eq_def] at h
    simp only [Char.reduceEq, if_false, if_true] at h
    cases h
  | case6 e after he hne ih =>
    rw [readPieces_escape he, Option.bind_eq_some_iff] at h
    obtain ⟨x, hx, hmap⟩ := h
    obtain ⟨p, hp, heq⟩ := Option.map_eq_some_iff.1 hmap
    obtain ⟨-, rfl⟩ := Prod.mk.inj heq
    obtain ⟨used, hused, hscan⟩ := ih hp
    exact ⟨'\\' :: e :: used, by rw [hused]; rfl, hscan⟩
  | case7 c cs hquote hslash hc =>
    rw [readPieces.eq_def] at h
    simp only [if_neg hquote, if_neg hslash, if_pos hc] at h
    cases h
  | case8 c after hquote hslash hc ih =>
    rw [readPieces_char hquote hslash hc] at h
    obtain ⟨p, hp, heq⟩ := Option.map_eq_some_iff.1 h
    obtain ⟨-, rfl⟩ := Prod.mk.inj heq
    obtain ⟨used, hused, hscan⟩ := ih hp
    refine ⟨c :: used, by rw [hused]; rfl, fun d => ?_⟩
    rw [scan?, advance?, if_neg hquote, if_neg hslash]
    exact hscan d

theorem level_readText {t : Text} (h : readText cs = some (t, rest)) : Level ('"' :: cs) rest := by
  rw [readText_eq, Option.map_eq_some_iff] at h
  obtain ⟨p, hp, heq⟩ := h
  obtain ⟨-, rfl⟩ := Prod.mk.inj heq
  obtain ⟨used, rfl, hused⟩ := scan?_readPieces hp
  exact ⟨'"' :: used, rfl, hused⟩

/-! ## Numbers -/

theorem isNeutral_of_isDigit {c : Char} (h : isDigit c = true) : isNeutral c = true := by
  simp only [isNeutral, Bool.and_eq_true, decide_eq_true_eq]
  refine ⟨⟨⟨⟨⟨?_, ?_⟩, ?_⟩, ?_⟩, ?_⟩, ?_⟩ <;> rintro rfl <;> exact absurd h (by decide)

theorem level_readDigits {ds : List Char} (h : readDigits cs = some (ds, rest)) :
    Level cs rest := by
  have hsplit : cs = cs.takeWhile isDigit ++ cs.dropWhile isDigit :=
    List.takeWhile_append_dropWhile.symm
  have hrest : rest = cs.dropWhile isDigit := by
    unfold readDigits at h
    split at h
    · cases h
    · exact (Prod.mk.inj (Option.some.inj h)).2.symm
  rw [hsplit, hrest]
  exact Level.of_neutral (fun c hc =>
    isNeutral_of_isDigit (List.all_eq_true.1 List.all_takeWhile c hc)) _

theorem level_readWhole {ds : List Char} (h : readWhole cs = some (ds, rest)) : Level cs rest := by
  obtain ⟨⟨ds', rest'⟩, hdigits, hsome⟩ := Option.bind_eq_some_iff.1 h
  dsimp only at hsome
  split at hsome
  · cases hsome
  · obtain ⟨-, rfl⟩ := Prod.mk.inj (Option.some.inj hsome)
    exact level_readDigits hdigits

theorem level_readFraction {fraction : Option (List Char)}
    (h : readFraction cs = some (fraction, rest)) : Level cs rest := by
  by_cases hpoint : ∃ r, cs = '.' :: r
  · obtain ⟨r, rfl⟩ := hpoint
    rw [readFraction_point, Option.map_eq_some_iff] at h
    obtain ⟨p, hp, heq⟩ := h
    obtain ⟨-, rfl⟩ := Prod.mk.inj heq
    exact (level_readDigits hp).cons (by decide)
  · rw [readFraction_none fun r hr => hpoint ⟨r, hr⟩] at h
    cases h
    exact .refl _

theorem level_exponentSign (cs : List Char) : Level cs (exponentSign cs).2 := by
  fun_cases exponentSign cs with
  | case1 r => exact (Level.refl r).cons (by decide)
  | case2 r => exact (Level.refl r).cons (by decide)
  | case3 cs hminus hplus => exact .refl cs

theorem level_readExponent {exponent : Option Int}
    (h : readExponent cs = some (exponent, rest)) : Level cs rest := by
  by_cases hletter : ∃ c r, cs = c :: r ∧ (c = 'e' ∨ c = 'E')
  · obtain ⟨c, r, rfl, hc⟩ := hletter
    rw [readExponent_letter hc, Option.map_eq_some_iff] at h
    obtain ⟨p, hp, heq⟩ := h
    obtain ⟨-, rfl⟩ := Prod.mk.inj heq
    refine ((level_exponentSign r).trans (level_readDigits hp)).cons ?_
    rcases hc with rfl | rfl <;> decide
  · rw [readExponent_none fun c r hr hc => hletter ⟨c, r, hr, hc⟩] at h
    cases h
    exact .refl _

theorem level_readUnsigned {negative : Bool} {n : Number}
    (h : readUnsigned negative cs = some (n, rest)) : Level cs rest := by
  unfold readUnsigned at h
  simp only [Option.bind_eq_bind, Option.bind_eq_some_iff] at h
  obtain ⟨⟨whole, cs₁⟩, hwhole, ⟨fraction, cs₂⟩, hfraction, ⟨exponent, cs₃⟩, hexponent, heq⟩ := h
  obtain ⟨-, rfl⟩ := Prod.mk.inj (Option.some.inj heq)
  exact (level_readWhole hwhole).trans
    ((level_readFraction hfraction).trans (level_readExponent hexponent))

theorem level_readNumber {n : Number} (h : readNumber cs = some (n, rest)) : Level cs rest := by
  by_cases hminus : ∃ r, cs = '-' :: r
  · obtain ⟨r, rfl⟩ := hminus
    rw [readNumber_minus] at h
    exact (level_readUnsigned h).cons (by decide)
  · rw [readNumber_unsigned fun r hr => hminus ⟨r, hr⟩] at h
    exact level_readUnsigned h

/-! ## Values -/

/-- What is read with `fuel` steps is level, and so is what stands inside brackets. -/
structure ReadsLevel (strict : Bool) (fuel : Nat) : Prop where
  value : ∀ {depth cs v rest}, readValue strict fuel depth cs = some (v, rest) → Level cs rest
  items : ∀ {depth cs vs rest}, readItems strict fuel depth cs = some (vs, rest) →
    Level cs (']' :: rest)
  fields : ∀ {depth cs fs rest}, readFields strict fuel depth cs = some (fs, rest) →
    Level cs ('\x7d' :: rest)

namespace ReadsLevel

theorem items_succ (h : ReadsLevel strict fuel) {vs : List Value}
    (hvs : readItems strict (fuel + 1) depth cs = some (vs, rest)) : Level cs (']' :: rest) := by
  obtain ⟨v, after, hv, ⟨r, ws, hr, hws, -⟩ | ⟨hr, -⟩⟩ := readItems_eq_some_iff.1 hvs
  · have hafter : Level after (']' :: rest) := by
      refine Level.skip ?_
      rw [hr]
      exact (h.items hws).cons (by decide)
    exact (h.value hv).skip.trans hafter
  · exact (h.value hv).skip.trans (hr ▸ level_skipBlank after)

theorem fields_succ (h : ReadsLevel strict fuel) {fs : List (Text × Value)}
    (hfs : readFields strict (fuel + 1) depth cs = some (fs, rest)) :
    Level cs ('\x7d' :: rest) := by
  obtain ⟨quoted, k, named, colon, v, after, hquoted, hk, -, hcolon, hv, htail⟩ :=
    readFields_eq_some_iff.1 hfs
  have hname : Level cs named := (hquoted ▸ level_skipBlank cs).trans (level_readText hk)
  have hcolon' : Level named colon :=
    (hcolon ▸ level_skipBlank named).trans ((Level.refl colon).cons (by decide))
  have hvalue : Level cs after := (hname.trans hcolon').trans (h.value hv).skip
  refine hvalue.trans ?_
  rcases htail with ⟨r, gs, hr, hgs, -⟩ | ⟨hr, -⟩
  · refine Level.skip ?_
    rw [hr]
    exact (h.fields hgs).cons (by decide)
  · exact hr ▸ level_skipBlank after

/-- What stands inside the braces of an object is level. -/
theorem inside_object (h : ReadsLevel strict fuel) {v : Value}
    (hv : readValue strict (fuel + 1) depth ('\x7b' :: cs) = some (v, rest)) :
    Level cs ('\x7d' :: rest) := by
  obtain ⟨inside, -, ⟨hclose, -⟩ | ⟨-, fs, hfs, -⟩⟩ := readValue_object_iff.1 hv
  · exact hclose ▸ level_skipBlank cs
  · exact (h.fields hfs).skip

theorem inside_array (h : ReadsLevel strict fuel) {v : Value}
    (hv : readValue strict (fuel + 1) depth ('[' :: cs) = some (v, rest)) :
    Level cs (']' :: rest) := by
  obtain ⟨inside, -, ⟨hclose, -⟩ | ⟨-, vs, hvs, -⟩⟩ := readValue_array_iff.1 hv
  · exact hclose ▸ level_skipBlank cs
  · exact (h.items hvs).skip

theorem value_succ (h : ReadsLevel strict fuel) {v : Value}
    (hv : readValue strict (fuel + 1) depth cs = some (v, rest)) : Level cs rest := by
  cases cs with
  | nil => cases hv
  | cons c cs =>
    by_cases harray : c = '['
    · subst harray
      exact (h.inside_array hv).bracket (.inr rfl) (.inr rfl)
    by_cases hobject : c = '\x7b'
    · subst hobject
      exact (h.inside_object hv).bracket (.inl rfl) (.inl rfl)
    by_cases hquote : c = '"'
    · subst hquote
      rw [readValue, if_pos rfl, Option.bind_eq_bind, Option.bind_eq_some_iff] at hv
      obtain ⟨⟨t, after⟩, ht, hsome⟩ := hv
      dsimp only at hsome
      split at hsome
      · cases hsome
      · obtain ⟨-, rfl⟩ := Prod.mk.inj (Option.some.inj hsome)
        exact level_readText ht
    rw [readValue, if_neg hquote, if_neg harray, if_neg hobject] at hv
    by_cases hnull : c = 'n'
    · rw [if_pos hnull] at hv
      exact level_word (by rw [hnull]; rfl) hv
    by_cases htrue : c = 't'
    · rw [if_neg hnull, if_pos htrue] at hv
      exact level_word (by rw [htrue]; rfl) hv
    by_cases hfalse : c = 'f'
    · rw [if_neg hnull, if_neg htrue, if_pos hfalse] at hv
      exact level_word (by rw [hfalse]; rfl) hv
    rw [if_neg hnull, if_neg htrue, if_neg hfalse, Option.bind_eq_bind,
      Option.bind_eq_some_iff] at hv
    obtain ⟨⟨n, after⟩, hn, hsome⟩ := hv
    dsimp only at hsome
    split at hsome
    · cases hsome
    · obtain ⟨-, rfl⟩ := Prod.mk.inj (Option.some.inj hsome)
      exact level_readNumber hn

end ReadsLevel

theorem readsLevel (strict : Bool) (fuel : Nat) : ReadsLevel strict fuel := by
  induction fuel with
  | zero =>
    refine ⟨fun hv => ?_, fun hvs => ?_, fun hfs => ?_⟩
    · cases hv
    · cases hvs
    · cases hfs
  | succ fuel ih => exact ⟨ih.value_succ, ih.items_succ, ih.fields_succ⟩

/-- A value opens and closes as many brackets. -/
theorem level_of_readValue {v : Value} (h : readValue strict fuel depth cs = some (v, rest)) :
    Level cs rest := (readsLevel strict fuel).value h

/-! ## Texts that are cut off -/

/-- A whole value leaves no bracket open. -/
theorem scan?_of_parse {v : Value} (h : parse true cs = some v) :
    scan? (.plain, 0) cs = some (.plain, 0) := by
  obtain ⟨rest, hread, hrest⟩ := parse_strict_eq_some_iff.1 h
  have hlevel : Level cs [] :=
    (level_of_readValue hread).skip.trans (hrest ▸ level_skipBlank rest)
  obtain ⟨used, rfl, hused⟩ := hlevel
  rw [List.append_nil]
  exact hused 0

/-- A beginning of an object leaves a bracket open. -/
theorem scan?_of_cut {v : Value} {cut : List Char} {c : Char} {more : List Char}
    (h : readValue strict fuel depth ('\x7b' :: cut ++ c :: more) = some (v, [])) :
    ∃ m d, scan? (.plain, 0) ('\x7b' :: cut) = some (m, d + 1) := by
  cases fuel with
  | zero => cases h
  | succ fuel =>
    have hinside : Level (cut ++ c :: more) ['\x7d'] := (readsLevel strict fuel).inside_object h
    obtain ⟨used, hsplit, hused⟩ := hinside
    -- The last character is the brace that closes the object, so the cut is before it.
    have hcut : ∃ left, used = cut ++ left := by
      have hlast : cut ++ (c :: more).dropLast = used := by
        have hdrop := congrArg List.dropLast hsplit
        rwa [List.dropLast_append_of_ne_nil (List.cons_ne_nil c more),
          List.dropLast_concat] at hdrop
      exact ⟨_, hlast.symm⟩
    obtain ⟨left, rfl⟩ := hcut
    have hscan := hused 0
    rw [scan?_append, Option.bind_eq_some_iff] at hscan
    obtain ⟨⟨m, d⟩, hfront, -⟩ := hscan
    exact ⟨m, d, scan?_deeper hfront⟩

end MessageRouting.Json
