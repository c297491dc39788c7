import MessageRouting.Proofs.Persistence.RecordNumbers

/-!
# What the journal is asked for

A write that fails leaves nothing in the journal, but somebody has asked for it,
at a number of its own. So the calls are counted here as they are made, whether
they go well or not, and with them the writes that the writer has still to ask
for. Nothing is lost when the writer makes its next call: what it was handed
has been asked for then.

Results:

* `asks_persistStage`, `asks_commitStage`, `asks_storePrepared`, `asks_writeNext`:
  what a single step asks for.
* `asks_storeAll`: what storing the stages of a branch asks for.
* `writes_sublist`: what has been written has been asked for, in that order.
-/

namespace MessageRouting

/-- The entry that the journal is asked to take, if the event tells of such a call. -/
def Event.asked? : Event → Option Entry
  | .journal _ (.write e) _ => some e
  | _ => none

/-- The committed record that an entry adds. -/
def Entry.added? : Entry → Option Record
  | .add r => some r
  | _ => none

/-- The prepared record that an entry adds. -/
def Entry.stored? : Entry → Option PreparedRecord
  | .prepare x r => some ⟨x, r⟩
  | _ => none

theorem Event.asked?_of_written {e : Event} {x : Entry} (h : e.written? = some x) :
    e.asked? = some x := by
  unfold written? at h
  split at h
  · exact h
  · cases h

namespace Broker

variable {mode : PersistenceMode} {b b' b'' : Broker}

/-- The entries that the journal has been asked to take, in order. -/
def asked (b : Broker) : List Entry := b.trace.filterMap Event.asked?

/-- What the journal has been asked for, and then what it will be asked for. -/
def requests (b : Broker) : List Entry := b.asked ++ b.queue

/-- From `b` to `b'` the entries `new` are asked for, now or later. -/
def Asks (b b' : Broker) (new : List Entry) : Prop := b'.requests.Perm (b.requests ++ new)

theorem Asks.refl (b : Broker) : Asks b b [] := by simp [Asks]

theorem Asks.trans {new new' : List Entry} (h : Asks b b' new) (h' : Asks b' b'' new') :
    Asks b b'' (new ++ new') := by
  unfold Asks at h h' ⊢
  rw [← List.append_assoc]
  exact h'.trans (h.append_right _)

/-- What has been written has been asked for. -/
theorem writes_sublist (b : Broker) : b.writes.Sublist b.asked := by
  unfold writes asked
  induction b.trace with
  | nil => exact .slnil
  | cons e rest ih =>
    rw [List.filterMap_cons, List.filterMap_cons]
    cases hwritten : e.written? with
    | some x =>
      rw [Event.asked?_of_written hwritten]
      exact ih.cons_cons x
    | none =>
      cases e.asked? with
      | none => exact ih
      | some x => exact ih.cons x

theorem asked_log (b : Broker) (e : Event) : (b.log e).asked = b.asked ++ e.asked?.toList := by
  simp only [asked, log, List.filterMap_append]
  cases h : e.asked? <;> simp [h]

/-- What is asked for now goes before what is to be asked for later. -/
theorem Logs.asks {inline handed new : List Entry} (h : Logs b b' inline handed)
    (hasked : b'.asked = b.asked ++ new) : Asks b b' (new ++ handed) := by
  unfold Asks requests
  rw [hasked, h.queue, List.append_assoc, List.append_assoc]
  refine List.Perm.append_left _ ?_
  rw [← List.append_assoc, ← List.append_assoc]
  exact List.perm_append_comm.append_right _

/-- Where nothing is asked for at once, it is what the writer is handed. -/
theorem Logs.asks_handed {inline handed : List Entry} (h : Logs b b' inline handed)
    (hasked : b'.asked = b.asked) : Asks b b' handed := by
  have hnothing : b'.asked = b.asked ++ [] := by rw [hasked, List.append_nil]
  exact h.asks hnothing

/-! ## Single steps -/

theorem asks_write {caller : JournalCaller} {e : Entry} {result : Except JournalError Unit}
    (h : b.write caller e = (b', result)) : Asks b b' [e] := by
  have hasked : b'.asked = b.asked ++ [e] := by
    obtain rfl := congrArg Prod.fst h
    exact asked_log ..
  rcases logs_write h with ⟨-, hlogs⟩ | ⟨-, hlogs⟩
  · exact hlogs.asks hasked
  · exact hlogs.asks hasked

theorem asks_openOfficeCache (b : Broker) (n : Nat) (a : Address) :
    Asks b (b.openOfficeCache n a) [] := by
  refine (logs_openOfficeCache b n a).asks_handed ?_
  rcases openOfficeCache_cases b n a with ⟨-, heq⟩ | ⟨-, heq⟩
  · rw [heq]
  · rw [heq]
    rfl

theorem asks_granted {ref : CacheRef} {id : Bytes} {owner : Owner} {s : Staged}
    (h : b.attemptStage ref id owner = (b', some (.staged s))) : Asks b b' [] := by
  refine (logs_granted h).asks_handed ?_
  obtain ⟨c, -, rfl⟩ := attemptStage_granted h
  exact (asked_log ..).trans (List.append_nil _)

/-- In mandatory mode the record of a stage is asked for when its key is drawn. -/
theorem asks_persistStage (hb : Keeping mode b) {h : HeldStage} (hh : h.AtOffice)
    {result : Except JournalError Unit} (hp : b.persistStage h = (b', result)) :
    b' = b ∨ ∃ key c, Cache.Drawn (b.cache h.cache) h.staged key c ∧
      (∀ ref, b'.cache ref = if h.cache = ref then c else b.cache ref) ∧
      Asks b b' (if mode = .mandatory then [.add (h.staged.recordAt key)] else []) := by
  rcases persistStage_cases hp with ⟨-, rfl, -⟩ |
    ⟨key, c, hdrawn, ⟨hmode, hwrite⟩ | ⟨hmode, rfl, -⟩⟩
  · exact .inl rfl
  · have hset : Asks b (b.setCache h.cache c) [] := (logs_setCache b h.cache c).asks_handed rfl
    refine .inr ⟨key, c, hdrawn, fun ref => ?_, ?_⟩
    · obtain rfl := congrArg Prod.fst hwrite
      rw [cache_write, cache_setCache]
    · rw [hb.persistenceOf hh, Option.some.injEq] at hmode
      rw [if_pos hmode]
      exact hset.trans (asks_write hwrite)
  · refine .inr ⟨key, c, hdrawn, fun ref => cache_setCache .., ?_⟩
    rw [hb.persistenceOf hh, ne_eq, Option.some.injEq] at hmode
    rw [if_neg hmode]
    exact (logs_setCache b h.cache c).asks_handed rfl

theorem asks_commitStage (hb : Keeping mode b) (haddressed : Addressed b) {h : HeldStage}
    (hh : h.AtOffice) :
    b.commitStage h = b ∨ ∃ p c, Cache.Committed (b.cache h.cache) h.staged p c ∧
      (∀ ref, (b.commitStage h).cache ref = if h.cache = ref then c else b.cache ref) ∧
      Asks b (b.commitStage h) (p.entries mode h.staged) := by
  rcases logs_commitStage hb haddressed hh with ⟨-, heq⟩ | ⟨p, c, hcommitted, hcache, hlogs⟩
  · exact .inl heq
  · refine .inr ⟨p, c, hcommitted, hcache, hlogs.asks_handed ?_⟩
    rcases commitStage_eq b h with ⟨-, heq⟩ | ⟨p', c', os, -, heq⟩
    · rw [heq]
    · rw [heq]
      exact (asked_log ..).trans (List.append_nil _)

theorem asks_rollbackStage (b : Broker) (h : HeldStage) : Asks b (b.rollbackStage h) [] := by
  refine (logs_rollbackStage b h).asks_handed ?_
  rcases rollbackStage_cases b h with ⟨-, heq⟩ | ⟨q, c, -, -, heq⟩
  · rw [heq]
  · rw [heq]
    exact (asked_log ..).trans (List.append_nil _)

theorem asks_release (hb : Keeping mode b) {h : HeldStage × Bool} (hh : h.1.AtOffice)
    (x : Option Xid) : Asks b (b.release x h) (released x h) := by
  refine (logs_release hb hh x).asks_handed ?_
  unfold release
  split
  · split
    · obtain ⟨os, hos⟩ := submitFor_eq b h.1.cache (.resolve _)
      rw [hos]
      rfl
    · rfl
  · rfl

theorem asks_storePrepared (hb : Keeping mode b) {h : HeldStage} (hh : h.AtOffice) {x : Xid}
    {result : Except JournalError Unit} (hs : b.storePrepared x h = (b', result)) :
    Asks b b' [.prepare x h.staged.record] := by
  unfold storePrepared at hs
  rw [hb.persistenceOf hh] at hs
  exact asks_write hs

/-- What the writer asks for next it has been handed before. -/
theorem asks_writeNext (b : Broker) : Asks b (b.writeNext 0) [] := by
  rcases logs_writeNext b with ⟨-, heq⟩ | ⟨e, rest, hqueue, hrest, -⟩
  · rw [heq]
    exact .refl b
  · have hasked : (b.writeNext 0).asked = b.asked ++ [e] := by
      unfold writeNext
      rw [show (b.office 0).writer.queue = e :: rest from hqueue]
      exact asked_log ..
    unfold Asks requests
    rw [hasked, hqueue, hrest, List.append_nil, List.append_assoc]
    exact .refl _

/-! ## All stages of a branch -/

/-- Storing a branch asks for the records of its first stages. -/
theorem asks_storeAll (hb : Keeping mode b) {hs : List (HeldStage × Bool)}
    (hhs : ∀ h ∈ hs, h.1.AtOffice) (x : Xid) :
    ∃ k, Asks b (b.storeAll x hs).1 ((hs.take k).map fun h => .prepare x h.1.staged.record) := by
  induction hs generalizing b with
  | nil => exact ⟨0, .refl b⟩
  | cons h rest ih =>
    have hh := hhs h (by simp)
    rcases hs : b.storePrepared x h.1 with ⟨c, result⟩
    have hfirst := asks_storePrepared hb hh hs
    cases result with
    | error e =>
      rw [storeAll_cons_error hs]
      exact ⟨1, by simpa using hfirst⟩
    | ok _ =>
      rw [storeAll_cons_ok hs]
      obtain ⟨k, hk⟩ := ih (keeping_step (.stored hh hs) hb) fun g hg => hhs g (by simp [hg])
      exact ⟨k + 1, by simpa using hfirst.trans hk⟩

/-! ## What is asked for of the books -/

theorem asked_books (b : Broker) : b.books.asked = b.asked := by
  show (b.trace.filter Event.isBooked).filterMap Event.asked? = _
  rw [List.filterMap_filter]
  refine List.filterMap_congr fun e _ => ?_
  cases e <;> rfl

end Broker

end MessageRouting
