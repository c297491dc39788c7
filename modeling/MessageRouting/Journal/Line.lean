import MessageRouting.Journal.Entry

/-!
# Journal lines

An entry as one line of bytes: its JSON form in UTF-8 and a newline. Since
control characters are escaped inside strings, the newline at the end is the
only one.

Results:

* `flatMap_segments`, `segments_line_append`: cutting a file into segments loses
  nothing, and gives back a line that stands in front.
-/

namespace MessageRouting

/-- The byte that ends a line. -/
def newline : UInt8 := 10

namespace Entry

/-- The JSON text of an entry, without the newline. -/
def text (e : Entry) : Bytes := Utf8.encode e.toJson.print

/-- The line of an entry. -/
def line (e : Entry) : Bytes := e.text ++ [newline]

/-- The entry that the bytes spell, blanks around it aside. -/
def ofBytes? (bytes : Bytes) : Option Entry := do
  Entry.ofJson? (← Json.parse true (← Utf8.decode bytes))

end Entry

/-- The blanks that may fill a line. -/
def isBlankByte (b : UInt8) : Bool := b = 32 || b = 9 || b = 10 || b = 12 || b = 13

/-- A piece of a file: a line up to and with its newline, or the end of the file without one. -/
structure Segment where
  bytes : Bytes
  complete : Bool
  deriving DecidableEq, Repr

/-- The segment with `b` in front. -/
def Segment.cons (b : UInt8) (s : Segment) : Segment := ⟨b :: s.bytes, s.complete⟩

/-- Whether the segment holds nothing but blanks. -/
def Segment.isBlank (s : Segment) : Bool := s.bytes.all isBlankByte

/-- The segments of a file. Only the last one may lack its newline, and then it is not empty. -/
def segments : Bytes → List Segment
  | [] => []
  | b :: rest =>
    if b = newline then ⟨[b], true⟩ :: segments rest
    else match segments rest with
      | [] => [⟨[b], false⟩]
      | s :: more => s.cons b :: more

/-- The segments of a file hold all its bytes, in order. -/
theorem flatMap_segments (bytes : Bytes) : (segments bytes).flatMap Segment.bytes = bytes := by
  induction bytes with
  | nil => rfl
  | cons b rest ih =>
    simp only [segments]
    split
    · simp [ih]
    · split <;> simp_all [Segment.cons]

/-- A line in front of a file is its first segment. -/
theorem segments_line_append {l : Bytes} (h : newline ∉ l) (rest : Bytes) :
    segments (l ++ newline :: rest) = ⟨l ++ [newline], true⟩ :: segments rest := by
  induction l with
  | nil => simp [segments]
  | cons b l ih =>
    simp only [List.mem_cons, not_or] at h
    simp [segments, Ne.symm h.1, ih h.2, Segment.cons]

end MessageRouting
