import MessageRouting.Proofs.Cache.Soundness
import MessageRouting.Proofs.Journal.LedgerWrites

/-!
# Writes of a post office

What a post office that keeps its identifiers in the journal writes there: some
entries at once, by whoever is routing, others by its writer, in the order they
were handed over. Each operation on stages is read as the entries it writes and
those it hands over.

Results:

* `logs_persistStage`, `logs_commitStage`, `logs_rollbackStage`,
  `logs_storePrepared`, `logs_release`: what a single step writes and hands over.
* `logs_persistAll`, `logs_storeAll`, `logs_promoteAll`, `logs_dropAll`: the same
  of all stages of a transaction.
* `logs_writeNext`: what the writer writes.
-/

namespace MessageRouting

/-- The entry that the journal has taken, if the event tells of one. -/
def Event.written? : Event → Option Entry
  | .journal _ (.write e) true => some e
  | _ => none

/-- What a promotion hands to the writer: the record in async mode, and the prunes of what it
displaces. -/
def Promotion.entries (mode : PersistenceMode) (s : Staged) (p : Promotion) : List Entry :=
  (if mode = .async then [.add (s.recordAt p.key)] else []) ++
    p.evicted.map fun e => .prune s.address e.1

theorem Promotion.mem_entries {mode : PersistenceMode} {s : Staged} {p : Promotion} {e : Entry}
    (h : e ∈ p.entries mode s) :
    e = .add (s.recordAt p.key) ∨ ∃ f ∈ p.evicted, e = .prune s.address f.1 := by
  rcases List.mem_append.1 h with h | h
  · split at h
    · exact Or.inl (List.mem_singleton.1 h)
    · cases h
  · obtain ⟨f, hf, rfl⟩ := List.mem_map.1 h
    exact Or.inr ⟨f, hf, rfl⟩

namespace Broker

/-- The entries that the journal has taken, in order. -/
def writes (b : Broker) : List Entry := b.trace.filterMap Event.written?

/-- One post office, with a running writer, that keeps its identifiers in the journal. -/
structure Keeping (mode : PersistenceMode) (b : Broker) : Prop where
  single : b.offices.length = 1
  persistence : (b.office 0).persistence = some mode
  running : (b.office 0).writer.running = true

variable {mode : PersistenceMode} {b b' b'' : Broker}

theorem Keeping.of_stations (hb : Keeping mode b) (h : b'.stations = b.stations) :
    Keeping mode b' := by
  have hlength := congrArg List.length h
  simp only [stations, List.length_map] at hlength
  have hstation := station_office h 0
  simp only [Office.station, Prod.mk.injEq] at hstation
  exact ⟨hlength.trans hb.single, hstation.2.1.trans hb.persistence,
    hstation.2.2.trans hb.running⟩

theorem keeping_step (h : Step b b') (hb : Keeping mode b) : Keeping mode b' :=
  hb.of_stations (stations_step h)

theorem Keeping.persistenceOf (hb : Keeping mode b) {h : HeldStage} (hh : h.AtOffice) :
    b.persistenceOf h.cache = some mode := by
  rw [hh]
  exact hb.persistence

/-! ## Entries written and handed over -/

/-- From `b` to `b'` the journal takes the entries `inline`, and the writer is handed the entries
`handed`. -/
structure Logs (b b' : Broker) (inline handed : List Entry) : Prop where
  writes : b'.writes = b.writes ++ inline
  ledger : b'.storage.ledger = b.storage.ledger.applyAll inline
  queue : b'.queue = b.queue ++ handed
  takes : ∀ m, b.storage.Takes m → b'.storage.Takes m
  stations : b'.stations = b.stations

theorem Logs.refl (b : Broker) : Logs b b [] [] :=
  ⟨by simp, rfl, by simp, fun _ h => h, rfl⟩

theorem Logs.trans {i i' h h' : List Entry} (h₁ : Logs b b' i h) (h₂ : Logs b' b'' i' h') :
    Logs b b'' (i ++ i') (h ++ h') := by
  refine ⟨?_, ?_, ?_, fun m hm => h₂.takes m (h₁.takes m hm), h₂.stations.trans h₁.stations⟩
  · rw [h₂.writes, h₁.writes, List.append_assoc]
  · rw [h₂.ledger, h₁.ledger, Ledger.applyAll_append]
  · rw [h₂.queue, h₁.queue, List.append_assoc]

theorem logs_setCache (b : Broker) (ref : CacheRef) (c : Cache) :
    Logs b (b.setCache ref c) [] [] :=
  ⟨by simp [writes, setCache], rfl, by simp [queue, setCache, office], fun _ h => h, rfl⟩

theorem logs_log {e : Event} (b : Broker) (h : e.written? = none) : Logs b (b.log e) [] [] :=
  ⟨by simp [writes, log, h], rfl, by simp [queue, log, office], fun _ h => h, rfl⟩

theorem logs_wake (b : Broker) (ref : CacheRef) : Logs b (b.wake ref) [] [] :=
  ⟨by simp [writes, wake], rfl, by simp [queue, wake, office], fun _ h => h, rfl⟩

theorem logs_submitFor (hb : Keeping mode b) (a : Address) (e : Entry) :
    Logs b (b.submitFor (.office 0 a) e) [] [e] := by
  refine ⟨by simp [writes, submitFor, submit, modifyOffice], rfl, ?_, fun _ h => h,
    (steady_submitFor ..).stations⟩
  have hoffice := office_modifyOffice b 0 (fun o => { o with writer := o.writer.submit e })
    (by rw [hb.single]; exact Nat.one_pos)
  show ((b.modifyOffice 0 _).office 0).writer.queue = _
  rw [hoffice, if_pos rfl]
  simp [JournalWriter.submit, hb.running, queue]

/-- An entry written at once is taken by the journal, or changes nothing there. -/
theorem logs_write {caller : JournalCaller} {e : Entry} {result : Except JournalError Unit}
    (h : b.write caller e = (b', result)) :
    (result = .ok () ∧ Logs b b' [e] []) ∨ (∃ err, result = .error err) ∧ Logs b b' [] [] := by
  have hwrite : b.write caller e =
      (({ b with storage := (b.storage.write e).1 } : Broker).log
        (.journal caller (.write e) (b.storage.write e).2.isOk), (b.storage.write e).2) := rfl
  have hwrites : ∀ ok : Bool, (({ b with storage := (b.storage.write e).1 } : Broker).log
      (.journal caller (.write e) ok)).writes = b.writes ++ if ok then [e] else [] := by
    intro ok
    simp only [writes, log, List.filterMap_append]
    cases ok <;> rfl
  rw [hwrite, Prod.mk.injEq] at h
  obtain ⟨rfl, rfl⟩ := h
  have htakes : ∀ m, b.storage.Takes m → (b.storage.write e).1.Takes m :=
    fun m hm => Storage.takes_write hm e
  rcases Storage.ledger_write b.storage e with ⟨hok, hledger⟩ | ⟨⟨err, herr⟩, hledger⟩
  · refine Or.inl ⟨hok, ⟨?_, hledger, by simp [queue, log, office], htakes, rfl⟩⟩
    rw [hwrites, hok]
    rfl
  · refine Or.inr ⟨⟨err, herr⟩, ⟨?_, hledger, by simp [queue, log, office], htakes, rfl⟩⟩
    rw [hwrites, herr]
    rfl

/-! ## Single steps -/

theorem logs_called (b : Broker) (waiting ready : List Call) :
    Logs b { b with waiting, ready } [] [] :=
  ⟨by simp [writes], rfl, by simp [queue, office], fun _ h => h, rfl⟩

theorem logs_openOfficeCache (b : Broker) (n : Nat) (a : Address) :
    Logs b (b.openOfficeCache n a) [] [] := by
  rcases openOfficeCache_cases b n a with ⟨-, heq⟩ | ⟨-, heq⟩
  · rw [heq]
    exact .refl b
  · rw [heq]
    exact logs_setCache ..

theorem logs_granted {ref : CacheRef} {id : Bytes} {owner : Owner} {s : Staged}
    (h : b.attemptStage ref id owner = (b', some (.staged s))) : Logs b b' [] [] := by
  obtain ⟨c, -, rfl⟩ := attemptStage_granted h
  exact (logs_setCache b ref c).trans (logs_log _ rfl)

/-- In mandatory mode the record of a stage is written when its key is drawn. -/
theorem logs_persistStage (hb : Keeping mode b) {h : HeldStage} (hh : h.AtOffice)
    {result : Except JournalError Unit} (hp : b.persistStage h = (b', result)) :
    ((b.cache h.cache).pendingOf? h.staged = none ∧ b' = b ∧ result = .ok ()) ∨
      ∃ key c, Cache.Drawn (b.cache h.cache) h.staged key c ∧
        (∀ ref, b'.cache ref = if h.cache = ref then c else b.cache ref) ∧
        (mode = .async → result = .ok ()) ∧
        Logs b b' (if mode = .mandatory ∧ result = .ok () then
          [.add (h.staged.recordAt key)] else []) [] := by
  rcases persistStage_cases hp with hnone | ⟨key, c, hdrawn, ⟨hmode, hwrite⟩ | ⟨hmode, rfl, rfl⟩⟩
  · exact Or.inl hnone
  · rw [hb.persistenceOf hh, Option.some.injEq] at hmode
    subst hmode
    have hset := logs_setCache b h.cache c
    refine Or.inr ⟨key, c, hdrawn, fun ref => ?_, fun hasync => (by cases hasync), ?_⟩
    · obtain rfl := congrArg Prod.fst hwrite
      rw [cache_write, cache_setCache]
    · rcases logs_write hwrite with ⟨rfl, hlogs⟩ | ⟨⟨err, rfl⟩, hlogs⟩
      · simpa using hset.trans hlogs
      · simpa using hset.trans hlogs
  · refine Or.inr ⟨key, c, hdrawn, fun ref => cache_setCache .., fun _ => rfl, ?_⟩
    rw [if_neg]
    · exact logs_setCache ..
    · rintro ⟨rfl, -⟩
      exact hmode (hb.persistenceOf hh)

/-- A journal that takes every write persists every stage, and goes on taking every write. -/
theorem persistStage_of_takes (htakes : ∀ e : Entry, b.storage.Takes e.method) (h : HeldStage) :
    (b.persistStage h).2 = .ok () ∧ ∀ e : Entry, (b.persistStage h).1.storage.Takes e.method := by
  rcases hp : b.persistStage h with ⟨b', result⟩
  obtain ⟨-, rfl, rfl⟩ | ⟨key, c, -, ⟨-, hwrite⟩ | ⟨-, rfl, rfl⟩⟩ := persistStage_cases hp
  · exact ⟨rfl, htakes⟩
  · obtain ⟨rfl, rfl⟩ := Prod.mk.inj hwrite
    exact ⟨(Storage.write_of_takes (s := b.storage) (htakes _)).1,
      fun e => Storage.takes_write (s := b.storage) (htakes e) _⟩
  · exact ⟨rfl, htakes⟩

theorem logs_pruneEvicted (hb : Keeping mode b) (a a' : Address)
    (evicted : List (Nat × Bytes)) :
    Logs b (evicted.foldl (fun b e => b.submitFor (.office 0 a) (.prune a' e.1)) b) []
      (evicted.map fun e => .prune a' e.1) := by
  induction evicted generalizing b with
  | nil => exact .refl b
  | cons e rest ih =>
    have hfirst := logs_submitFor hb a (.prune a' e.1)
    exact hfirst.trans (ih (hb.of_stations hfirst.stations))

theorem address_of_pendingOf (hb : Addressed b) {a : Address} {s : Staged} {q : Pending}
    (hq : (b.cache (.office 0 a)).pendingOf? s = some q) :
    (b.cache (.office 0 a)).address = a := by
  cases hget : b.caches.get? (.office 0 a) with
  | none =>
    rw [cache_of_get?_none hget] at hq
    cases hq
  | some c =>
    rw [cache_of_get?_some hget]
    exact hb a c hget

/-- A stage that becomes visible has its record handed over in async mode, and the prunes of what
it displaces. -/
theorem logs_commitStage (hb : Keeping mode b) (haddressed : Addressed b) {h : HeldStage}
    (hh : h.AtOffice) :
    ((b.cache h.cache).pendingOf? h.staged = none ∧ b.commitStage h = b) ∨
      ∃ p c, Cache.Committed (b.cache h.cache) h.staged p c ∧
        (∀ ref, (b.commitStage h).cache ref = if h.cache = ref then c else b.cache ref) ∧
        Logs b (b.commitStage h) [] (p.entries mode h.staged) := by
  rcases commitStage_cases b h with hnone | ⟨p, c, b₁, hcommitted, hb₁, heq⟩
  · exact Or.inl hnone
  · refine Or.inr ⟨p, c, hcommitted, ?_, ?_⟩
    · intro ref
      rw [heq, cache_pruneEvicted, hb₁]
      split
      · rw [cache_submitFor, cache_wake, cache_log, cache_setCache]
      · rw [cache_wake, cache_log, cache_setCache]
    · obtain ⟨q, hq⟩ := hcommitted.pendingOf
      have haddress : c.address = h.staged.address := by
        rw [hh] at hq
        rw [hcommitted.address, hh, address_of_pendingOf haddressed hq]
      have hmarked : Logs b b₁ [] [] := by
        rw [hb₁]
        exact ((logs_setCache b h.cache c).trans (logs_log _ rfl)).trans (logs_wake ..)
      have hb₁' := hb.of_stations hmarked.stations
      rw [heq, hb.persistenceOf hh, haddress, Promotion.entries]
      by_cases hmode : mode = .async
      · subst hmode
        rw [if_pos rfl, if_pos rfl, hh]
        have hadded := logs_submitFor hb₁' h.staged.address (.add (h.staged.recordAt p.key))
        exact (hmarked.trans hadded).trans
          (logs_pruneEvicted (hb₁'.of_stations hadded.stations) ..)
      · rw [if_neg (by simpa using hmode), if_neg hmode, hh]
        exact hmarked.trans (logs_pruneEvicted hb₁' ..)

theorem logs_rollbackStage (b : Broker) (h : HeldStage) : Logs b (b.rollbackStage h) [] [] := by
  rcases rollbackStage_cases b h with ⟨-, heq⟩ | ⟨q, c, -, -, heq⟩
  · rw [heq]
    exact .refl b
  · rw [heq]
    exact ((logs_setCache b h.cache c).trans (logs_log _ rfl)).trans (logs_wake ..)

/-- What the release of a stage hands to the writer. -/
def released (x : Option Xid) (h : HeldStage × Bool) : List Entry :=
  match x with
  | some x => if h.2 then [.resolve x] else []
  | none => []

theorem logs_release (hb : Keeping mode b) {h : HeldStage × Bool} (hh : h.1.AtOffice)
    (x : Option Xid) : Logs b (b.release x h) [] (released x h) := by
  unfold release released
  cases x with
  | none => exact .refl b
  | some x =>
    dsimp only
    split
    · rw [hh]
      exact logs_submitFor hb ..
    · exact .refl b

theorem logs_storePrepared (hb : Keeping mode b) {h : HeldStage} (hh : h.AtOffice) {x : Xid}
    {result : Except JournalError Unit} (hs : b.storePrepared x h = (b', result)) :
    (result = .ok () ∧ Logs b b' [.prepare x h.staged.record] []) ∨
      (∃ err, result = .error err) ∧ Logs b b' [] [] := by
  unfold storePrepared at hs
  rw [hb.persistenceOf hh] at hs
  exact logs_write hs

/-- The writer writes its first entry, or drops it if the journal fails. -/
theorem logs_writeNext (b : Broker) :
    (b.queue = [] ∧ b.writeNext 0 = b) ∨
      ∃ e rest, b.queue = e :: rest ∧ (b.writeNext 0).queue = rest ∧
        (b.writeNext 0).stations = b.stations ∧
        (∀ m, b.storage.Takes m → (b.writeNext 0).storage.Takes m) ∧
        ((b.writeNext 0).writes = b.writes ++ [e] ∧
            (b.writeNext 0).storage.ledger = b.storage.ledger.apply e ∨
          (b.writeNext 0).writes = b.writes ∧
            (b.writeNext 0).storage.ledger = b.storage.ledger ∧
            ¬ b.storage.Takes e.method) := by
  cases hqueue : b.queue with
  | nil =>
    refine Or.inl ⟨rfl, ?_⟩
    unfold writeNext
    rw [show (b.office 0).writer.queue = [] from hqueue]
  | cons e rest =>
    have hoffice : 0 < b.offices.length := by
      rcases Nat.eq_zero_or_pos b.offices.length with hzero | hpos
      · rw [queue, office, List.length_eq_zero_iff.1 hzero] at hqueue
        cases hqueue
      · exact hpos
    have hnext : b.writeNext 0 = ((b.modifyOffice 0 fun o =>
        { o with writer := { o.writer with queue := rest } }).write .writer e).1 := by
      unfold writeNext
      rw [show (b.office 0).writer.queue = e :: rest from hqueue]
    generalize hb₁ : (b.modifyOffice 0 fun o =>
      { o with writer := { o.writer with queue := rest } }) = b₁ at hnext
    have hstorage : b₁.storage = b.storage := by rw [← hb₁]; rfl
    have hwrites : b₁.writes = b.writes := by rw [← hb₁]; rfl
    have hrest : b₁.queue = rest := by
      rw [← hb₁, queue, office_modifyOffice b 0 _ hoffice]
      rfl
    have hstations : (b.writeNext 0).stations = b.stations := (steady_writeNext b 0).stations
    refine Or.inr ⟨e, rest, rfl, ?_⟩
    rw [hnext] at hstations ⊢
    rw [← hstorage, ← hwrites]
    rcases logs_write (b := b₁) (Prod.eta _).symm with ⟨-, hlogs⟩ | ⟨⟨err, herr⟩, hlogs⟩
    · refine ⟨by simpa [hrest] using hlogs.queue, hstations, hlogs.takes, Or.inl ⟨hlogs.writes, ?_⟩⟩
      exact hlogs.ledger
    · refine ⟨by simpa [hrest] using hlogs.queue, hstations, hlogs.takes,
        Or.inr ⟨by simpa using hlogs.writes, hlogs.ledger, fun htakes => ?_⟩⟩
      have hok := (Storage.write_of_takes htakes).1
      rw [show (b₁.storage.write e).2 = .error err from herr] at hok
      cases hok

/-! ## All stages of a transaction -/

/-- Drawing the keys of stages writes records of theirs in mandatory mode, and nothing in async
mode. -/
theorem logs_persistAll (hb : Keeping mode b) {hs : List (HeldStage × Bool)}
    (hhs : ∀ h ∈ hs, h.1.AtOffice) :
    ∃ inline, Logs b (b.persistAll hs).1 inline [] ∧
      (∀ e ∈ inline, ∃ h ∈ hs, ∃ key, e = .add (h.1.staged.recordAt key)) ∧
      (mode = .async → inline = []) := by
  induction hs generalizing b with
  | nil => exact ⟨[], .refl b, by simp, fun _ => rfl⟩
  | cons h rest ih =>
    rcases hp : b.persistStage h.1 with ⟨c, result⟩
    have hfirst : ∃ inline, Logs b c inline [] ∧
        (∀ e ∈ inline, ∃ key, e = .add (h.1.staged.recordAt key)) ∧
        (mode = .async → inline = []) := by
      rcases logs_persistStage hb (hhs h (by simp)) hp with ⟨-, rfl, -⟩ |
        ⟨key, d, -, -, -, hlogs⟩
      · exact ⟨[], .refl c, by simp, fun _ => rfl⟩
      · refine ⟨_, hlogs, fun e he => ⟨key, ?_⟩, fun hasync => ?_⟩
        · split at he
          · exact List.mem_singleton.1 he
          · cases he
        · rw [if_neg]
          rintro ⟨rfl, -⟩
          cases hasync
    obtain ⟨inline, hlogs, hadds, hnone⟩ := hfirst
    simp only [persistAll, hp]
    cases result with
    | error err =>
      exact ⟨inline, hlogs, fun e he => ⟨h, by simp, hadds e he⟩, hnone⟩
    | ok _ =>
      obtain ⟨more, hmore, hadds', hnone'⟩ := ih (hb.of_stations hlogs.stations)
        fun g hg => hhs g (by simp [hg])
      refine ⟨inline ++ more, by simpa using hlogs.trans hmore, fun e he => ?_, fun hasync => ?_⟩
      · rcases List.mem_append.1 he with he | he
        · exact ⟨h, by simp, hadds e he⟩
        · obtain ⟨g, hg, hkey⟩ := hadds' e he
          exact ⟨g, by simp [hg], hkey⟩
      · rw [hnone hasync, hnone' hasync]
        rfl

/-- Storing a branch writes the records of its first stages, all of them if it goes well. -/
theorem logs_storeAll (hb : Keeping mode b) {hs marks : List (HeldStage × Bool)}
    (hhs : ∀ h ∈ hs, h.1.AtOffice) {x : Xid} {result : Except JournalError Unit}
    (h : b.storeAll x hs = (b', marks, result)) :
    ∃ k, marks = ((hs.take k).map fun h => (h.1, true)) ++ hs.drop k ∧
      Logs b b' ((hs.take k).map fun h => .prepare x h.1.staged.record) [] ∧
      (result = .ok () → hs.length ≤ k) := by
  induction hs generalizing b marks with
  | nil =>
    cases h
    exact ⟨0, rfl, .refl _, fun _ => Nat.le_refl _⟩
  | cons g rest ih =>
    rcases hs : b.storePrepared x g.1 with ⟨c, r⟩
    rcases logs_storePrepared hb (hhs g (by simp)) hs with ⟨rfl, hlogs⟩ | ⟨⟨err, rfl⟩, hlogs⟩
    · rw [storeAll_cons_ok hs] at h
      rcases hrest : c.storeAll x rest with ⟨d, more, r'⟩
      rw [hrest] at h
      cases h
      obtain ⟨k, rfl, hmore, hk⟩ := ih (hb.of_stations hlogs.stations)
        (fun g hg => hhs g (by simp [hg])) hrest
      refine ⟨k + 1, rfl, ?_, fun hok => ?_⟩
      · simpa using hlogs.trans hmore
      · simpa using hk hok
    · rw [storeAll_cons_error hs] at h
      cases h
      exact ⟨0, rfl, hlogs, fun hok => by cases hok⟩

/-- Dropping the stages of a branch has its prepared records deleted. -/
theorem logs_dropAll (hb : Keeping mode b) {hs : List (HeldStage × Bool)}
    (hhs : ∀ h ∈ hs, h.1.AtOffice) (x : Option Xid) :
    Logs b (b.dropAll x hs) [] (hs.flatMap (released x)) := by
  induction hs generalizing b with
  | nil => exact .refl b
  | cons h rest ih =>
    have hdropped := logs_rollbackStage b h.1
    have hfirst := hdropped.trans
      (logs_release (hb.of_stations hdropped.stations) (hhs h (by simp)) x)
    exact hfirst.trans (ih (hb.of_stations hfirst.stations) fun g hg => hhs g (by simp [hg]))

/-- Making the stages of a branch visible has its prepared records deleted. -/
theorem logs_promoteAll (hb : Keeping mode b) (haddressed : Addressed b)
    {hs : List (HeldStage × Bool)} (hhs : ∀ h ∈ hs, h.1.AtOffice) (x : Option Xid) :
    ∃ handed, Logs b (b.promoteAll x hs) [] handed ∧
      handed.filter Entry.isPrepared = hs.flatMap (released x) := by
  induction hs generalizing b with
  | nil => exact ⟨[], .refl b, rfl⟩
  | cons h rest ih =>
    have hh := hhs h (by simp)
    have hpromoted : ∃ handed, Logs b (b.commitStage h.1) [] handed ∧
        handed.filter Entry.isPrepared = [] := by
      rcases logs_commitStage hb haddressed hh with ⟨-, heq⟩ | ⟨p, c, -, -, hlogs⟩
      · rw [heq]
        exact ⟨[], .refl b, rfl⟩
      · refine ⟨_, hlogs, List.filter_eq_nil_iff.2 fun e he => ?_⟩
        rcases p.mem_entries he with rfl | ⟨f, -, rfl⟩ <;> simp [Entry.isPrepared]
    obtain ⟨handed, hlogs, hplain⟩ := hpromoted
    have hfirst := hlogs.trans (logs_release (hb.of_stations hlogs.stations) hh x)
    have haddressed' : Addressed ((b.commitStage h.1).release x h) :=
      addressed_step (.released hh x) (addressed_step (.promoted hh) haddressed)
    obtain ⟨more, hmore, hreleased⟩ := ih (hb.of_stations hfirst.stations) haddressed'
      fun g hg => hhs g (by simp [hg])
    refine ⟨_, hfirst.trans hmore, ?_⟩
    have hsame : (released x h).filter Entry.isPrepared = released x h := by
      refine List.filter_eq_self.2 fun e he => ?_
      unfold released at he
      split at he
      · split at he
        · rw [List.mem_singleton.1 he]
          rfl
        · cases he
      · cases he
    rw [List.filter_append, List.filter_append, hplain, hsame, hreleased]
    rfl

end Broker

end MessageRouting
