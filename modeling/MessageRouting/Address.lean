import MessageRouting.Text.Utf8

/-!
# Addresses

An address is the text a message is sent to and a binding is registered under.
Dots divide it into segments; comparison is by text, code point by code point.

Results:

* `intercalate_splitAt`, `sep_not_mem_of_mem_splitAt`: splitting loses nothing,
  and leaves no separator inside a piece.
-/

namespace MessageRouting

/-- The text that messages are sent to; as a pattern, the text that a binding is made for. -/
structure Address where
  text : String
  deriving DecidableEq, Repr, Inhabited

/-- The pieces of `cs` between the characters `sep`, of which there is always at least one. -/
def splitAt (sep : Char) : List Char → List (List Char)
  | [] => [[]]
  | c :: cs =>
    if c = sep then [] :: splitAt sep cs
    else match splitAt sep cs with
      | [] => [[c]]
      | piece :: pieces => (c :: piece) :: pieces

theorem splitAt_ne_nil (sep : Char) (cs : List Char) : splitAt sep cs ≠ [] := by
  cases cs with
  | nil => simp [splitAt]
  | cons c cs =>
    simp only [splitAt]
    split
    · simp
    · split <;> simp

/-- Between its pieces a text has nothing but separators. -/
theorem intercalate_splitAt (sep : Char) (cs : List Char) :
    List.intercalate [sep] (splitAt sep cs) = cs := by
  induction cs with
  | nil => simp [splitAt]
  | cons c cs ih =>
    obtain ⟨piece, pieces, h⟩ := List.exists_cons_of_ne_nil (splitAt_ne_nil sep cs)
    rw [h] at ih
    by_cases hc : c = sep
    · simp only [splitAt, hc, if_true, h]
      rw [List.intercalate_cons_cons, ih]
      rfl
    · simp only [splitAt, hc, if_false, h]
      cases pieces with
      | nil => simpa using ih
      | cons p ps =>
        rw [List.intercalate_cons_cons] at ih ⊢
        simp [← ih]

/-- No piece has a separator inside. -/
theorem sep_not_mem_of_mem_splitAt {sep : Char} {cs piece : List Char}
    (h : piece ∈ splitAt sep cs) : sep ∉ piece := by
  induction cs generalizing piece with
  | nil => simp_all [splitAt]
  | cons c cs ih =>
    obtain ⟨p, ps, hs⟩ := List.exists_cons_of_ne_nil (splitAt_ne_nil sep cs)
    rw [hs] at ih
    by_cases hc : c = sep
    · simp only [splitAt, hc, if_true, hs, List.mem_cons] at h
      rcases h with rfl | h
      · simp
      · exact ih (by simpa using h)
    · simp only [splitAt, hc, if_false, hs, List.mem_cons] at h
      rcases h with rfl | h
      · simp only [List.mem_cons, not_or]
        exact ⟨fun e => hc e.symm, ih (by simp)⟩
      · exact ih (by simp [h])

namespace Address

/-- Divides an address into segments. -/
def delimiter : Char := '.'

/-- Stands for exactly one segment. -/
def anyWord : List Char := ['*']

/-- Stands for any number of segments at the end, also none. -/
def anyWords : List Char := ['#']

/-- The words of a text, split at the delimiter. -/
def words (text : String) : List (List Char) := splitAt delimiter text.toList

/-- Texts of the same words are the same. -/
theorem words_injective {s t : String} (h : words s = words t) : s = t := by
  have hjoined := congrArg (List.intercalate [delimiter]) h
  rw [words, words, intercalate_splitAt, intercalate_splitAt] at hjoined
  exact String.toList_injective hjoined

/-- The words of the address. -/
def segments (a : Address) : List String := (words a.text).map String.ofList

def isEmpty (a : Address) : Bool := a.text.isEmpty

/-- Whether some segment stands for more than itself. -/
def containsWildcard (a : Address) : Bool :=
  (words a.text).any fun w => w = anyWord || w = anyWords

/-- Whether `a` comes before `b`, code point by code point. -/
def before (a b : Address) : Bool := decide (a.text < b.text)

end Address

end MessageRouting
