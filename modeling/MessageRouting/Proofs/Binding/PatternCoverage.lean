import Mathlib.Data.List.Forall2
import MessageRouting.Proofs.Binding.OrderedList

/-!
# What patterns cover

A text is a pattern if it is made of words, and `#` stands at the end only. An
address is covered if its words can be divided among the words of the pattern:
`*` gets one word, `#` gets what is left, and every other word gets itself. The
reader of patterns and the loop that tries an address word by word agree with
this on every text.

Results:

* `parseWords_eq_ok_iff`: which words are read as a pattern, and as which one.
* `matchWords_iff`: words fit segments if they can be divided among them.
* `words_divided`: all of it, and what it means for the two indexes of a registry.
-/

namespace MessageRouting

open Address (anyWord anyWords words)

/-! ## Words of a pattern -/

namespace PatternSegment

/-- The segment that a word of a pattern is. -/
def ofWord (w : List Char) : PatternSegment :=
  if w = Address.anyWord then .anyWord else if w = Address.anyWords then .anyWords else .literal w

theorem ofWord_anyWord : ofWord Address.anyWord = .anyWord := rfl

theorem ofWord_anyWords : ofWord Address.anyWords = .anyWords := rfl

theorem ofWord_literal {w : List Char} (hword : w ≠ Address.anyWord)
    (hwords : w ≠ Address.anyWords) :
    ofWord w = .literal w := by
  rw [ofWord, if_neg hword, if_neg hwords]

theorem isWildcard_ofWord (w : List Char) :
    (ofWord w).isWildcard = decide (w = Address.anyWord ∨ w = Address.anyWords) := by
  by_cases hword : w = Address.anyWord
  · rw [hword]
    rfl
  by_cases hwords : w = Address.anyWords
  · rw [hwords]
    rfl
  rw [ofWord_literal hword hwords]
  simp [isWildcard, hword, hwords]

end PatternSegment

namespace Pattern

/-- Whether a word of a pattern can be given these words of an address. -/
def MayHave (w : List Char) (share : List (List Char)) : Prop :=
  if w = anyWord then ∃ v, share = [v]
  else if w = anyWords then True
  else share = [w]

theorem mayHave_anyWord {share : List (List Char)} : MayHave anyWord share ↔ ∃ v, share = [v] := by
  rw [MayHave, if_pos rfl]

theorem mayHave_anyWords (share : List (List Char)) : MayHave anyWords share := by
  rw [MayHave, if_neg (by decide), if_pos rfl]
  trivial

theorem mayHave_literal {w : List Char} (hword : w ≠ anyWord) (hwords : w ≠ anyWords)
    {share : List (List Char)} : MayHave w share ↔ share = [w] := by
  rw [MayHave, if_neg hword, if_neg hwords]

/-- The words of an address can be divided among those of a pattern, in order and with nothing left
over. -/
def Divides (pattern address : List (List Char)) : Prop :=
  ∃ shares : List (List (List Char)), shares.flatten = address ∧ List.Forall₂ MayHave pattern shares

theorem divides_nil {vs : List (List Char)} : Divides [] vs ↔ vs = [] := by
  constructor
  · rintro ⟨shares, rfl, hshares⟩
    cases hshares
    rfl
  · rintro rfl
    exact ⟨[], rfl, .nil⟩

/-- The first word of a pattern gets its share, and the others divide the rest. -/
theorem divides_cons {w : List Char} {ws vs : List (List Char)} :
    Divides (w :: ws) vs ↔
      ∃ share rest, vs = share ++ rest ∧ MayHave w share ∧ Divides ws rest := by
  constructor
  · rintro ⟨shares, rfl, hshares⟩
    obtain ⟨share, more, hw, hws, rfl⟩ := List.forall₂_cons_left_iff.1 hshares
    exact ⟨share, more.flatten, rfl, hw, more, rfl, hws⟩
  · rintro ⟨share, rest, rfl, hw, more, rfl, hws⟩
    exact ⟨share :: more, rfl, .cons hw hws⟩

/-- A word that takes exactly one word takes the first. -/
theorem divides_cons_one {w : List Char} {ws vs : List (List Char)} {P : List Char → Prop}
    (hw : ∀ share, MayHave w share ↔ ∃ v, share = [v] ∧ P v) :
    Divides (w :: ws) vs ↔ ∃ v rest, vs = v :: rest ∧ P v ∧ Divides ws rest := by
  rw [divides_cons]
  constructor
  · rintro ⟨share, rest, rfl, hshare, hrest⟩
    obtain ⟨v, rfl, hv⟩ := (hw share).1 hshare
    exact ⟨v, rest, rfl, hv, hrest⟩
  · rintro ⟨v, rest, rfl, hv, hrest⟩
    exact ⟨[v], rest, rfl, (hw [v]).2 ⟨v, rfl, hv⟩, hrest⟩

/-! ## Reading -/

/-- Whether words make up a pattern: none is empty, and `#` stands at the end only. -/
structure WellFormed (ws : List (List Char)) : Prop where
  not_empty : ∀ w ∈ ws, w ≠ []
  anyWords_last : ∀ w ∈ ws.dropLast, w ≠ anyWords

theorem wellFormed_nil : WellFormed [] :=
  ⟨fun _ h => absurd h List.not_mem_nil, fun _ h => absurd h List.not_mem_nil⟩

theorem wellFormed_cons {w : List Char} {ws : List (List Char)} :
    WellFormed (w :: ws) ↔ w ≠ [] ∧ (w = anyWords → ws = []) ∧ WellFormed ws := by
  cases ws with
  | nil =>
    constructor
    · intro h
      exact ⟨h.not_empty w List.mem_cons_self, fun _ => rfl, wellFormed_nil⟩
    · rintro ⟨hne, -, -⟩
      exact ⟨fun v hv => List.mem_singleton.1 hv ▸ hne, fun v hv => absurd hv List.not_mem_nil⟩
  | cons w' ws =>
    constructor
    · intro h
      have hmem : ∀ v ∈ (w' :: ws).dropLast, v ∈ (w :: w' :: ws).dropLast := fun v hv => by
        rw [List.dropLast_cons_cons]
        exact List.mem_cons_of_mem w hv
      have hw : w ∈ (w :: w' :: ws).dropLast := by
        rw [List.dropLast_cons_cons]
        exact List.mem_cons_self
      exact ⟨h.not_empty w List.mem_cons_self, fun heq => absurd heq (h.anyWords_last w hw),
        fun v hv => h.not_empty v (List.mem_cons_of_mem w hv),
        fun v hv => h.anyWords_last v (hmem v hv)⟩
    · rintro ⟨hne, hlast, h⟩
      refine ⟨fun v hv => ?_, fun v hv => ?_⟩
      · rcases List.mem_cons.1 hv with rfl | hv
        · exact hne
        · exact h.not_empty v hv
      · rw [List.dropLast_cons_cons] at hv
        rcases List.mem_cons.1 hv with rfl | hv
        · exact fun heq => List.cons_ne_nil w' ws (hlast heq)
        · exact h.anyWords_last v hv

/-- Words are read as a pattern if they make one up, and each as the segment that it is. -/
theorem parseWords_eq_ok_iff {ws : List (List Char)} {segments : List PatternSegment} :
    parseWords ws = .ok segments ↔ WellFormed ws ∧ segments = ws.map .ofWord := by
  have hmap : ∀ (s : PatternSegment) (ws : List (List Char)) (segments : List PatternSegment),
      (parseWords ws).map (s :: ·) = .ok segments ↔
        ∃ rest, parseWords ws = .ok rest ∧ segments = s :: rest := fun s ws segments => by
    cases parseWords ws with
    | error fault => simp [Except.map]
    | ok rest => simp [Except.map, eq_comm]
  induction ws generalizing segments with
  | nil => simp [parseWords, wellFormed_nil, eq_comm]
  | cons w ws ih =>
    rw [wellFormed_cons, List.map_cons, parseWords]
    by_cases hempty : w = []
    · simp [hempty]
    rw [if_neg hempty]
    by_cases hword : w = anyWord
    · have hne : w ≠ anyWords := by rw [hword]; decide
      rw [if_pos hword, hmap, hword, PatternSegment.ofWord_anyWord]
      constructor
      · rintro ⟨rest, hrest, rfl⟩
        obtain ⟨hformed, rfl⟩ := ih.1 hrest
        exact ⟨⟨hword ▸ hempty, fun heq => absurd heq (hword ▸ hne), hformed⟩, rfl⟩
      · rintro ⟨⟨-, -, hformed⟩, rfl⟩
        exact ⟨_, ih.2 ⟨hformed, rfl⟩, rfl⟩
    rw [if_neg hword]
    by_cases hwords : w = anyWords
    · rw [if_pos hwords, hwords, PatternSegment.ofWord_anyWords]
      constructor
      · intro h
        split at h
        · rename_i hlast
          subst hlast
          exact ⟨⟨hwords ▸ hempty, fun _ => rfl, wellFormed_nil⟩, (Except.ok.inj h).symm⟩
        · cases h
      · rintro ⟨⟨-, hlast, -⟩, rfl⟩
        rw [hlast rfl]
        rfl
    · rw [if_neg hwords, hmap, PatternSegment.ofWord_literal hword hwords]
      constructor
      · rintro ⟨rest, hrest, rfl⟩
        obtain ⟨hformed, rfl⟩ := ih.1 hrest
        exact ⟨⟨hempty, fun heq => absurd heq hwords, hformed⟩, rfl⟩
      · rintro ⟨⟨-, -, hformed⟩, rfl⟩
        exact ⟨_, ih.2 ⟨hformed, rfl⟩, rfl⟩

/-- A text is read as a pattern if its words make one up; the empty text is one empty word. -/
theorem parse_eq_ok_iff {a : Address} {p : Pattern} :
    parse a = .ok p ↔
      WellFormed (words a.text) ∧ p = ⟨a, (words a.text).map .ofWord⟩ := by
  by_cases hempty : a.isEmpty = true
  · have htext : a.text = "" := by simpa [Address.isEmpty] using hempty
    have hwords : words a.text = [[]] := by rw [htext]; rfl
    rw [parse, if_pos hempty, hwords]
    constructor
    · intro h
      cases h
    · rintro ⟨hformed, -⟩
      exact absurd rfl (hformed.not_empty [] List.mem_cons_self)
  · rw [parse, if_neg hempty]
    cases hwords : parseWords (words a.text) with
    | error fault =>
      have hnot : ¬ WellFormed (words a.text) := fun hformed => by
        rw [parseWords_eq_ok_iff.2 ⟨hformed, rfl⟩] at hwords
        cases hwords
      exact ⟨fun h => (nomatch h), fun h => absurd h.1 hnot⟩
    | ok segments =>
      obtain ⟨hformed, rfl⟩ := parseWords_eq_ok_iff.1 hwords
      exact ⟨fun h => ⟨hformed, (Except.ok.inj h).symm⟩, fun h => congrArg Except.ok h.2.symm⟩

/-! ## Covering -/

/-- Words fit the segments of a pattern if they can be divided among its words. -/
theorem matchWords_iff {ws : List (List Char)} (h : WellFormed ws) (vs : List (List Char)) :
    matchWords (ws.map .ofWord) vs = true ↔ Divides ws vs := by
  induction ws generalizing vs with
  | nil => simp [matchWords, divides_nil]
  | cons w ws ih =>
    obtain ⟨-, hlast, hrest⟩ := wellFormed_cons.1 h
    rw [List.map_cons]
    by_cases hword : w = anyWord
    · subst hword
      have hone : ∀ share, MayHave anyWord share ↔ ∃ v, share = [v] ∧ True := fun share => by
        rw [mayHave_anyWord]
        simp
      rw [PatternSegment.ofWord_anyWord, divides_cons_one hone]
      cases vs with
      | nil => simp [matchWords]
      | cons v vs => simp [matchWords, ih hrest]
    by_cases hwords : w = anyWords
    · -- Nothing comes after `#`, so it gets all words.
      subst hwords
      obtain rfl := hlast rfl
      refine ⟨fun _ => ?_, fun _ => rfl⟩
      exact divides_cons.2 ⟨vs, [], (List.append_nil vs).symm, mayHave_anyWords vs,
        divides_nil.2 rfl⟩
    · have hone : ∀ share, MayHave w share ↔ ∃ v, share = [v] ∧ v = w := fun share => by
        rw [mayHave_literal hword hwords]
        simp
      rw [PatternSegment.ofWord_literal hword hwords, divides_cons_one hone]
      cases vs with
      | nil => simp [matchWords]
      | cons v vs => simp [matchWords, ih hrest]

theorem hasWildcards_of_words (a : Address) (ws : List (List Char)) :
    (Pattern.mk a (ws.map .ofWord)).hasWildcards = false ↔
      ∀ w ∈ ws, w ≠ anyWord ∧ w ≠ anyWords := by
  simp only [hasWildcards, List.any_map, List.any_eq_false, Function.comp_apply,
    PatternSegment.isWildcard_ofWord, decide_eq_true_eq, not_or]

end Pattern

/-! ## Registries -/

namespace Registry

variable {r : Registry} {es : List Registered}

/-- The entries of a registry are those that are found by their names. -/
theorem Lists.mem_iff_byName (h : Lists r es) (e : Registered) :
    e ∈ es ↔ r.byName.get? e.binding.name = some e := by
  rw [h.byName]
  constructor
  · intro he
    cases hfind : es.find? fun f => f.binding.name = e.binding.name with
    | none =>
      have hnone := List.find?_eq_none.1 hfind e he
      simp at hnone
    | some f =>
      have hname : f.binding.name = e.binding.name := by simpa using List.find?_some hfind
      rw [List.inj_on_of_nodup_map h.names (List.mem_of_find?_eq_some hfind) he hname]
  · exact List.mem_of_find?_eq_some

/-- By the text of an address just the bindings without wildcards are found whose patterns cover
it. -/
theorem Lists.mem_literal_iff (h : Lists r es) (a : Address) (e : Registered) :
    e ∈ (r.literal.get? a).getD [] ↔
      r.byName.get? e.binding.name = some e ∧ e.pattern.hasWildcards = false ∧
        e.pattern.covers a.text = true := by
  rw [h.mem_literal, h.mem_iff_byName]

end Registry

namespace Pattern

/-- A text is a pattern if it is not empty, has no empty word and `#` for its last word at most. The
pattern covers the texts whose words can be divided among its own: `*` gets one word, a `#` at the
end gets any number, and any other word gets itself. Without wildcards it covers the text that
spells it and no other. So a registry that looks for such patterns by the text of an address finds
those that cover it. -/
theorem words_divided (a : Address) :
    ((∃ p, parse a = .ok p) ↔
      a.text ≠ "" ∧ (∀ w ∈ words a.text, w ≠ []) ∧ ∀ w ∈ (words a.text).dropLast, w ≠ anyWords) ∧
    (∀ p, parse a = .ok p →
      (∀ text, p.covers text = true ↔ Divides (words a.text) (words text)) ∧
      (p.hasWildcards = false ↔ ∀ w ∈ words a.text, w ≠ anyWord ∧ w ≠ anyWords) ∧
      (p.hasWildcards = false → ∀ text, p.covers text = true ↔ text = a.text)) ∧
    ∀ (requests : List Registry.Request) (e : Registered),
      e ∈ ((({} : Registry).after requests).literal.get? a).getD [] ↔
        (({} : Registry).after requests).byName.get? e.binding.name = some e ∧
          e.pattern.hasWildcards = false ∧ e.pattern.covers a.text = true := by
  refine ⟨⟨?_, ?_⟩, fun p hp => ?_, fun requests e => ?_⟩
  · rintro ⟨p, hp⟩
    obtain ⟨hformed, -⟩ := parse_eq_ok_iff.1 hp
    refine ⟨fun hempty => ?_, hformed.not_empty, hformed.anyWords_last⟩
    rw [hempty] at hformed
    exact hformed.not_empty [] List.mem_cons_self rfl
  · rintro ⟨-, hwords, hlast⟩
    exact ⟨_, parse_eq_ok_iff.2 ⟨⟨hwords, hlast⟩, rfl⟩⟩
  · have hplain := covers_of_plain hp
    obtain ⟨hformed, rfl⟩ := parse_eq_ok_iff.1 hp
    exact ⟨fun text => matchWords_iff hformed (words text), hasWildcards_of_words a _, hplain⟩
  · obtain ⟨-, es, hlists, -⟩ := Registry.responses_of_lists Registry.lists_empty requests
    exact hlists.mem_literal_iff a e

/-- In an address an empty word is a word, and wildcard characters are only that. `#` may get
nothing, but `*` must get a word. -/
theorem words_divided_both :
    ∃ p, parse ⟨"shop.*.#"⟩ = .ok p ∧
      (∀ text, p.covers text = true ↔ Divides (words "shop.*.#") (words text)) ∧
      p.covers "shop..orders.#" = true ∧ p.covers "shop.north" = true ∧ p.covers "shop" = false := by
  have hparse : parse ⟨"shop.*.#"⟩ =
      .ok ⟨⟨"shop.*.#"⟩, [.literal ['s', 'h', 'o', 'p'], .anyWord, .anyWords]⟩ := by decide
  exact ⟨_, hparse, ((words_divided ⟨"shop.*.#"⟩).2.1 _ hparse).1, by decide, by decide, by decide⟩

end Pattern

end MessageRouting
