import MessageRouting.Json5.Reader
import MessageRouting.Text.Utf8

/-!
# Settings

What a post office can be told: how many identifiers it remembers for each
address, whether and when it writes them to the journal, and how many
notifications it keeps for slow readers. Settings are read from JSON5, where
everything may be left out, and have a JSON form.
-/

namespace MessageRouting

/-- When a committed identifier is written to the journal. -/
inductive PersistenceMode where
  /-- After it has become visible, through the journal writer. -/
  | async
  /-- Before the commit, which fails if the write fails. -/
  | mandatory
  deriving DecidableEq, Repr

def PersistenceMode.name : PersistenceMode → String
  | async => "async"
  | mandatory => "mandatory"

def PersistenceMode.ofName? (name : String) : Option PersistenceMode :=
  if name = "async" then some .async
  else if name = "mandatory" then some .mandatory
  else none

/-- The settings of a post office. -/
structure Settings where
  /-- Identifiers remembered for each address; without a positive number, none. -/
  idCacheSize : Int := 2000
  persistIdCache : Bool := true
  idCachePersistence : PersistenceMode := .async
  notificationQueueSize : Nat := 256
  deriving DecidableEq, Repr, Inhabited

/-- Why settings cannot be read. -/
inductive SettingsError where
  /-- There is no text to read. -/
  | io
  /-- The text does not give settings. -/
  | parse
  /-- A number is looked for in a value whose first two bytes end inside a character. Reading stops
  there, without an answer. -/
  | splitCharacter
  deriving DecidableEq, Repr

namespace Settings

/-- The identifiers that a cache has room for. -/
def idCacheCapacity (s : Settings) : Nat := s.idCacheSize.toNat

/-- Whether duplicates are looked for. -/
def duplicateDetection (s : Settings) : Bool := decide (0 < s.idCacheSize)

/-- The names of the settings in order. -/
def fieldNames : List String :=
  ["id_cache_size", "persist_id_cache", "id_cache_persistence", "notification_queue_size"]

/-- The JSON form, with every setting. -/
def toJson (s : Settings) : Json.Value :=
  .ofFields [("id_cache_size", .ofInt s.idCacheSize), ("persist_id_cache", .bool s.persistIdCache),
    ("id_cache_persistence", .ofString s.idCachePersistence.name),
    ("notification_queue_size", .ofNat s.notificationQueueSize)]

/-- What is there, or the error that it is not. -/
def orParse {α : Type} : Option α → Except SettingsError α
  | some a => .ok a
  | none => .error .parse

/-- How the values of a format are read as the values of the settings. -/
structure Reading (α : Type) where
  size : α → Except SettingsError Int
  persist : α → Except SettingsError Bool
  mode : α → Except SettingsError PersistenceMode
  queueSize : α → Except SettingsError Nat

/-- The settings with the named one read from a value. -/
def set {α : Type} (r : Reading α) (s : Settings) (name : String) (v : α) :
    Except SettingsError Settings :=
  if name = "id_cache_size" then (r.size v).map fun n => { s with idCacheSize := n }
  else if name = "persist_id_cache" then (r.persist v).map fun b => { s with persistIdCache := b }
  else if name = "id_cache_persistence" then
    (r.mode v).map fun m => { s with idCachePersistence := m }
  else if name = "notification_queue_size" then
    (r.queueSize v).map fun n => { s with notificationQueueSize := n }
  else .error .parse

theorem set_eq_error {α : Type} (r : Reading α) (s : Settings) {name : String} (v : α)
    (h : name ∉ fieldNames) : set r s name v = .error .parse := by
  simp only [fieldNames, List.mem_cons, List.not_mem_nil, or_false, not_or] at h
  simp [set, h]

/-- The settings with the fields read in the order in which they stand. The first thing that is
wrong decides: a name that has no text, is no setting or has been `seen`, or a value. -/
def setFields {α : Type} (r : Reading α) (seen : List String) (s : Settings) :
    List (Json.Text × α) → Except SettingsError Settings
  | [] => .ok s
  | (none, _) :: _ => .error .parse
  | (some name, v) :: rest =>
    if name ∈ seen then .error .parse
    else match set r s name v with
      | .error e => .error e
      | .ok s => setFields r (name :: seen) s rest

/-- Nothing is read once something is wrong. -/
theorem setFields_append_of_error {α : Type} (r : Reading α) {seen : List String} {s : Settings}
    {fields : List (Json.Text × α)} {e : SettingsError} (rest : List (Json.Text × α))
    (h : setFields r seen s fields = .error e) :
    setFields r seen s (fields ++ rest) = .error e := by
  fun_induction setFields r seen s fields with
  | case1 => cases h
  | case2 => exact h
  | case3 seen s name v fields hs => simpa [setFields, hs] using h
  | case4 seen s name v fields hs e' he => simpa [setFields, hs, he] using h
  | case5 seen s name v fields hs s' hok ih => simpa [setFields, hs, hok] using ih h

/-- The items with the names of the settings in order. -/
def inOrder {α : Type} (items : List α) : List (Json.Text × α) :=
  (fieldNames.map some).zip items

/-! ## From JSON -/

def boolOfJson? : Json.Value → Option Bool
  | .bool b => some b
  | _ => none

/-- A mode by its name, or as an object with its name and null. -/
def modeOfJson? : Json.Value → Option PersistenceMode
  | .text t => t.bind PersistenceMode.ofName?
  | .object [(k, .null)] => k.bind PersistenceMode.ofName?
  | _ => none

def readingOfJson : Reading Json.Value where
  size v := orParse v.int32?
  persist v := orParse (boolOfJson? v)
  mode v := orParse (modeOfJson? v)
  queueSize v := orParse (v.nat? Json.maxUInt64)

/-- The settings of a JSON value: an object, or an array of the first settings in order. -/
def ofJson? : Json.Value → Option Settings
  | .object fields => (setFields readingOfJson [] {} fields).toOption
  | .array items =>
    if items.length ≤ fieldNames.length then
      (setFields readingOfJson [] {} (inOrder items)).toOption
    else none
  | _ => none

/-! ## From JSON5 -/

/-- A mode by its name, or as an object whose first field is named for it: a mode holds nothing, so
neither the value of that field nor the fields after it count. -/
def modeOfJson5? : Json5.Value → Option PersistenceMode
  | .text _ t => t.bind PersistenceMode.ofName?
  | .object _ ((k, _) :: _) => k.bind PersistenceMode.ofName?
  | _ => none

/-- A number, cut to a whole one between `low` and `high`. The mark of hexadecimal digits is looked
for in the first two bytes of any value, and they have to be a text. -/
def numberOfJson5 (low high : Int) (v : Json5.Value) : Except SettingsError Int :=
  if v.splitsCharacter then .error .splitCharacter else orParse (v.int? low high)

def readingOfJson5 : Reading Json5.Value where
  size v := numberOfJson5 Json.minInt32 Json.maxInt32 v
  persist v := orParse v.bool?
  mode v := orParse (modeOfJson5? v)
  queueSize v := (numberOfJson5 0 Json.maxUInt64 v).map Int.toNat

/-- The settings of a JSON5 value. Items after the last setting do no harm. -/
def ofJson5Value : Json5.Value → Except SettingsError Settings
  | .object _ fields => setFields readingOfJson5 [] {} fields
  | .array _ items => setFields readingOfJson5 [] {} (inOrder items)
  | _ => .error .parse

/-- Reads settings from a JSON5 text. -/
def ofJson5 (text : String) : Except SettingsError Settings :=
  match Json5.parse text.toList with
  | some v => ofJson5Value v
  | none => .error .parse

/-- Reads settings from the contents of a file, if there is one. -/
def ofFile (contents : Option Bytes) : Except SettingsError Settings :=
  match contents.bind fromUtf8? with
  | some text => ofJson5 text
  | none => .error .io

end Settings

end MessageRouting
