import MessageRouting.Broker.Command

/-!
# The books of a broker

Stages, commit keys and journal writes depend on a part of the broker only: the
journal, the caches, the writers, the calls that wait, and what the trace tells
of stages and of the journal. That part is again a broker, with everything else
left out, so that the operations on it are those of the broker itself. Queues,
bindings, hooks and notifications never touch it.

Results:

* `books_attemptStage`, `books_persistStage`, `books_commitStage`,
  `books_rollbackStage`, `books_storePrepared`, `books_submitFor`,
  `books_writeNext`: what happens to stages and to the journal depends on the
  books alone.
* `books_enqueueFrom`, `books_withdrawAll`: queues leave the books as they are.
-/

namespace MessageRouting

/-- Whether an event tells of a stage or of the journal. -/
def Event.isBooked : Event → Bool
  | .granted _ => true
  | .promoted _ _ => true
  | .dropped _ => true
  | .journal _ _ _ => true
  | _ => false

/-- What the books keep of a post office. -/
def Office.books (o : Office) : Office where
  settings := o.settings
  persistence := o.persistence
  writer := o.writer

namespace Broker

/-- The part of the broker that stages and the journal live in. -/
def books (b : Broker) : Broker where
  storage := b.storage
  offices := b.offices.map Office.books
  caches := b.caches
  waiting := b.waiting
  ready := b.ready
  trace := b.trace.filter Event.isBooked

/-! ## What the books show -/

@[simp] theorem cache_books (b : Broker) (ref : CacheRef) : b.books.cache ref = b.cache ref := rfl

theorem settings_books (b : Broker) (n : Nat) :
    (b.books.office n).settings = (b.office n).settings := by
  simp only [office, books, List.getD_eq_getElem?_getD, List.getElem?_map]
  cases b.offices[n]? <;> rfl

theorem persistence_books (b : Broker) (n : Nat) :
    (b.books.office n).persistence = (b.office n).persistence := by
  simp only [office, books, List.getD_eq_getElem?_getD, List.getElem?_map]
  cases b.offices[n]? <;> rfl

theorem writer_books (b : Broker) (n : Nat) :
    (b.books.office n).writer = (b.office n).writer := by
  simp only [office, books, List.getD_eq_getElem?_getD, List.getElem?_map]
  cases b.offices[n]? <;> rfl

@[simp] theorem persistenceOf_books (b : Broker) (ref : CacheRef) :
    b.books.persistenceOf ref = b.persistenceOf ref := by
  cases ref with
  | office n a => exact persistence_books b n
  | standalone n => rfl

/-! ## Changes outside the books -/

theorem books_log_of_not {b : Broker} {e : Event} (h : e.isBooked = false) :
    (b.log e).books = b.books := by
  simp [log, books, h]

theorem books_modifyOffice_of_eq (b : Broker) (n : Nat) {f : Office → Office}
    (h : ∀ o, (f o).books = o.books) : (b.modifyOffice n f).books = b.books := by
  have hoffices : (b.offices.modify n f).map Office.books = b.offices.map Office.books := by
    refine List.ext_getElem? fun i => ?_
    simp only [List.getElem?_map, List.getElem?_modify]
    cases b.offices[i]? with
    | none => rfl
    | some o =>
      split
      · exact congrArg some (h o)
      · rfl
  simp only [modifyOffice, books, hoffices]

theorem books_setDesk (b : Broker) (n : Option Nat) (d : Desk) :
    (b.setDesk n d).books = b.books := by
  cases n with
  | none => rfl
  | some n => exact books_modifyOffice_of_eq b n fun _ => rfl

theorem books_setRegistry (b : Broker) (n : Option Nat) (r : Registry) :
    (b.setRegistry n r).books = b.books := books_setDesk ..

theorem books_setBranches (b : Broker) (n : Option Nat) (t : Table Xid Nat) :
    (b.setBranches n t).books = b.books := books_setDesk ..

theorem books_notify (b : Broker) (n : Nat) (what : Notification) :
    (b.notify n what).books = b.books := books_modifyOffice_of_eq b n fun _ => rfl

theorem books_modifyTransaction (b : Broker) (n : Nat) (f : Transaction → Transaction) :
    (b.modifyTransaction n f).books = b.books := by
  cases n <;> rfl

theorem books_enqueue (b : Broker) (queue : String) (message : Nat) :
    (b.enqueue queue message).1.books = b.books := by
  simp only [enqueue]
  rw [books_log_of_not rfl]
  rfl

theorem books_withdraw (b : Broker) (message : Nat) (queue : String) :
    (b.withdraw message queue).books = b.books := by
  simp only [withdraw]
  rw [books_log_of_not rfl]
  rfl

/-- Placing a message on queues leaves the books as they are. -/
theorem books_enqueueFrom (b : Broker) (message : Nat) (accepted queues : List String) :
    (b.enqueueFrom message accepted queues).1.books = b.books := by
  induction queues generalizing b accepted with
  | nil => rfl
  | cons q rest ih =>
    have hb := books_enqueue b q message
    simp only [enqueueFrom]
    split
    · rename_i heq
      rw [heq] at hb
      exact hb
    · rename_i heq
      rw [heq] at hb
      rw [ih, hb]

theorem books_enqueueTargets (b : Broker) (d : Delivery) :
    (b.enqueueTargets d).1.books = b.books := books_enqueueFrom ..

/-- Taking a message back leaves the books as they are. -/
theorem books_withdrawAll (b : Broker) (message : Nat) (accepted : List String) :
    (b.withdrawAll message accepted).books = b.books := by
  unfold withdrawAll
  induction accepted.reverse generalizing b with
  | nil => rfl
  | cons q rest ih => rw [List.foldl_cons, ih, books_withdraw]

/-! ## Changes of the books -/

theorem books_log {b : Broker} {e : Event} (h : e.isBooked = true) :
    (b.log e).books = b.books.log e := by
  simp [log, books, h]

theorem books_setCache (b : Broker) (ref : CacheRef) (c : Cache) :
    (b.setCache ref c).books = b.books.setCache ref c := rfl

theorem books_wake (b : Broker) (ref : CacheRef) : (b.wake ref).books = b.books.wake ref := rfl

theorem books_modifyOffice (b : Broker) (n : Nat) {f : Office → Office}
    (h : ∀ o, (f o).books = f o.books) :
    (b.modifyOffice n f).books = b.books.modifyOffice n f := by
  have hoffices : (b.offices.modify n f).map Office.books
      = (b.offices.map Office.books).modify n f := by
    refine List.ext_getElem? fun i => ?_
    simp only [List.getElem?_map, List.getElem?_modify]
    cases b.offices[i]? with
    | none => rfl
    | some o =>
      split
      · exact congrArg some (h o)
      · rfl
  simp only [modifyOffice, books, hoffices]

theorem books_openOfficeCache (b : Broker) (n : Nat) (a : Address) :
    (b.openOfficeCache n a).books = b.books.openOfficeCache n a := by
  unfold openOfficeCache openCache
  rw [settings_books]
  show _ = if b.caches.contains _ then _ else _
  split
  · rfl
  · rfl

theorem books_write (b : Broker) (caller : JournalCaller) (e : Entry) :
    (b.write caller e).1.books = (b.books.write caller e).1 ∧
      (b.write caller e).2 = (b.books.write caller e).2 := by
  refine ⟨?_, rfl⟩
  simp only [write]
  rw [books_log rfl]
  rfl

theorem books_submitFor (b : Broker) (ref : CacheRef) (e : Entry) :
    (b.submitFor ref e).books = b.books.submitFor ref e := by
  cases ref with
  | office n a => exact books_modifyOffice b n fun _ => rfl
  | standalone n => rfl

theorem books_attemptStage (b : Broker) (ref : CacheRef) (id : Bytes) (owner : Owner) :
    (b.attemptStage ref id owner).1.books = (b.books.attemptStage ref id owner).1 ∧
      (b.attemptStage ref id owner).2 = (b.books.attemptStage ref id owner).2 := by
  unfold attemptStage
  rw [cache_books]
  split
  · exact ⟨books_log rfl, rfl⟩
  · exact ⟨rfl, rfl⟩

theorem books_persistStage (b : Broker) (h : HeldStage) :
    (b.persistStage h).1.books = (b.books.persistStage h).1 ∧
      (b.persistStage h).2 = (b.books.persistStage h).2 := by
  unfold persistStage
  rw [cache_books]
  split
  · exact ⟨rfl, rfl⟩
  · rename_i key c hdraw
    simp only [← books_setCache, persistenceOf_books]
    split
    · exact books_write ..
    · exact ⟨rfl, rfl⟩

theorem books_pruneEvicted (b : Broker) (ref : CacheRef) (a : Address)
    (evicted : List (Nat × Bytes)) :
    (evicted.foldl (fun b e => b.submitFor ref (.prune a e.1)) b).books =
      evicted.foldl (fun b e => b.submitFor ref (.prune a e.1)) b.books := by
  induction evicted generalizing b with
  | nil => rfl
  | cons e rest ih => rw [List.foldl_cons, List.foldl_cons, ih, books_submitFor]

theorem books_commitStage (b : Broker) (h : HeldStage) :
    (b.commitStage h).books = b.books.commitStage h := by
  unfold commitStage
  rw [cache_books]
  split
  · rfl
  · rename_i p c hcommit
    have hlog : (((b.setCache h.cache c).log (.promoted h p)).wake h.cache).books =
        ((b.books.setCache h.cache c).log (.promoted h p)).wake h.cache := by
      rw [books_wake, books_log rfl, books_setCache]
    simp only [books_pruneEvicted, ← hlog, persistenceOf_books]
    split
    · rw [books_submitFor]
    · rfl

theorem books_rollbackStage (b : Broker) (h : HeldStage) :
    (b.rollbackStage h).books = b.books.rollbackStage h := by
  unfold rollbackStage
  rw [cache_books]
  split
  · rfl
  · rw [books_wake, books_log rfl, books_setCache]

theorem books_storePrepared (b : Broker) (x : Xid) (h : HeldStage) :
    (b.storePrepared x h).1.books = (b.books.storePrepared x h).1 ∧
      (b.storePrepared x h).2 = (b.books.storePrepared x h).2 := by
  unfold storePrepared
  rw [persistenceOf_books]
  split
  · exact books_write ..
  · exact ⟨rfl, rfl⟩

theorem books_writeNext (b : Broker) (n : Nat) : (b.writeNext n).books = b.books.writeNext n := by
  unfold writeNext
  rw [writer_books]
  split
  · rfl
  · rw [(books_write ..).1]
    exact congrArg (fun b : Broker => (b.write .writer _).1)
      (books_modifyOffice b n fun _ => rfl)

end Broker

end MessageRouting
