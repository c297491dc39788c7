import MessageRouting.Address

/-!
# Address patterns

A binding names its address by a pattern: words, `*` for exactly one word, and
at the end `#` for any number of further words. A wildcard character inside a
longer word is an ordinary character.

Results:

* `covers_of_plain`: a pattern without wildcards covers its own text alone.
-/

namespace MessageRouting

/-- What keeps a text from being a pattern. -/
inductive PatternFault where
  | emptyAddress
  | emptySegment
  | anyWordsNotLast
  deriving DecidableEq, Repr

/-- The reason given for refusing a text as a pattern. -/
def PatternFault.reason : PatternFault → String
  | emptyAddress => "address is empty"
  | emptySegment => "address contains an empty segment"
  | anyWordsNotLast => "'#' must be the last segment of a pattern"

/-- One segment of a pattern. -/
inductive PatternSegment where
  | literal (word : List Char)
  | anyWord
  | anyWords
  deriving DecidableEq, Repr

def PatternSegment.isWildcard : PatternSegment → Bool
  | literal _ => false
  | anyWord => true
  | anyWords => true

/-- A well-formed pattern: its text and its segments. -/
structure Pattern where
  address : Address
  segments : List PatternSegment
  deriving DecidableEq, Repr

namespace Pattern

/-- Reads the words from the left; the first word at fault decides the refusal. -/
def parseWords : List (List Char) → Except PatternFault (List PatternSegment)
  | [] => .ok []
  | w :: ws =>
    if w = [] then .error .emptySegment
    else if w = Address.anyWord then (parseWords ws).map (.anyWord :: ·)
    else if w = Address.anyWords then
      if ws = [] then .ok [.anyWords] else .error .anyWordsNotLast
    else (parseWords ws).map (.literal w :: ·)

/-- The pattern that an address spells. -/
def parse (a : Address) : Except PatternFault Pattern :=
  if a.isEmpty then .error .emptyAddress
  else (parseWords (Address.words a.text)).map fun segments => ⟨a, segments⟩

/-- Whether some segment stands for more than one text. -/
def hasWildcards (p : Pattern) : Bool := p.segments.any PatternSegment.isWildcard

/-- Whether the words fit the segments, segment by segment from the left. -/
def matchWords : List PatternSegment → List (List Char) → Bool
  | [], ws => ws.isEmpty
  | .anyWords :: _, _ => true
  | .anyWord :: _, [] => false
  | .anyWord :: ps, _ :: ws => matchWords ps ws
  | .literal _ :: _, [] => false
  | .literal l :: ps, w :: ws => decide (w = l) && matchWords ps ws

/-- Whether the pattern covers the text. -/
def covers (p : Pattern) (text : String) : Bool := matchWords p.segments (Address.words text)

theorem segments_of_parse {a : Address} {p : Pattern} (h : parse a = .ok p) :
    p.address = a ∧ parseWords (Address.words a.text) = .ok p.segments := by
  unfold parse at h
  split at h
  · cases h
  · cases hwords : parseWords (Address.words a.text) with
    | error fault =>
      rw [hwords] at h
      cases h
    | ok segments =>
      rw [hwords] at h
      cases h
      exact ⟨rfl, rfl⟩

/-- Segments none of which is a wildcard spell the words that they have been read from. -/
theorem literals_of_parseWords {ws : List (List Char)} {segments : List PatternSegment}
    (h : parseWords ws = .ok segments)
    (hplain : segments.any PatternSegment.isWildcard = false) : segments = ws.map .literal := by
  induction ws generalizing segments with
  | nil =>
    cases h
    rfl
  | cons w ws ih =>
    simp only [parseWords] at h
    split at h
    · cases h
    · split at h
      · cases hrest : parseWords ws with
        | error fault =>
          rw [hrest] at h
          cases h
        | ok rest =>
          rw [hrest] at h
          cases h
          simp [PatternSegment.isWildcard] at hplain
      · split at h
        · split at h
          · cases h
            simp [PatternSegment.isWildcard] at hplain
          · cases h
        · cases hrest : parseWords ws with
          | error fault =>
            rw [hrest] at h
            cases h
          | ok rest =>
            rw [hrest] at h
            cases h
            rw [List.any_cons, Bool.or_eq_false_iff] at hplain
            rw [List.map_cons, ih hrest hplain.2]

theorem matchWords_literals (ws vs : List (List Char)) :
    matchWords (ws.map .literal) vs = true ↔ vs = ws := by
  induction ws generalizing vs with
  | nil => simp [matchWords]
  | cons w ws ih =>
    cases vs with
    | nil => simp [matchWords]
    | cons v vs => simp [matchWords, ih]

/-- A pattern without wildcards covers the text that spells it, and no other. -/
theorem covers_of_plain {a : Address} {p : Pattern} (h : parse a = .ok p)
    (hplain : p.hasWildcards = false) (text : String) : p.covers text = true ↔ text = a.text := by
  rw [covers, literals_of_parseWords (segments_of_parse h).2 hplain, matchWords_literals]
  exact ⟨Address.words_injective, congrArg Address.words⟩

end Pattern

end MessageRouting
