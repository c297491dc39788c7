import MessageRouting.Proofs.Persistence.JournalMirror
import MessageRouting.Proofs.Persistence.NumbersInUse
import MessageRouting.Proofs.Persistence.RolledBackRecords
import MessageRouting.Proofs.Restart.OrderlyJournals

/-!
# Sequences over many lives

A post office that keeps its identifiers in the journal is started, used, and
stopped, or it crashes and loses writes; then another start finds what is left.
The numbers of its caches are made up anew from the committed and prepared
records there, though stages, commits that failed and pruned records have taken
numbers, too. All the same no record is ever appended over another one, in any
life and in either mode, whatever fails.

Results:

* `below_start`: a start numbers everything to come after all that the journal
  held.
* `Lasting.clean`: what lives leave in the journal is fit for another start.
* `places_unique`: no place is asked for twice in one life, or asked for where
  the journal holds a record.
-/

namespace MessageRouting

/-! ## Ledgers -/

namespace Ledger

/-- A committed record was there before or has been added. -/
theorem committed_of_applyAll {l : Ledger} {es : List Entry} {r : Record}
    (h : r ∈ (l.applyAll es).committed) : r ∈ l.committed ∨ .add r ∈ es := by
  induction es generalizing l with
  | nil => exact .inl h
  | cons e rest ih =>
    rcases ih h with h | h
    · cases e with
      | add s =>
        rcases mem_placeRecord h with rfl | h
        · exact .inr (by simp)
        · exact .inl h
      | prune a n => exact .inl (List.mem_of_mem_filter h)
      | prepare x s => exact .inl h
      | resolve x => exact .inl h
    · exact .inr (List.mem_cons_of_mem _ h)

/-- The prepared records were there before or have been added, in that order. -/
theorem prepared_applyAll_sublist (l : Ledger) (es : List Entry) :
    (l.applyAll es).prepared.Sublist (l.prepared ++ es.filterMap Entry.stored?) := by
  induction es generalizing l with
  | nil => simp [applyAll]
  | cons e rest ih =>
    refine (ih (l.apply e)).trans ?_
    cases e with
    | add r => exact .refl _
    | prune a n => exact .refl _
    | prepare x r =>
      rw [show (l.apply (.prepare x r)).prepared = l.prepared ++ [⟨x, r⟩] from rfl,
        List.append_assoc]
      exact .refl _
    | resolve x => exact List.filter_sublist.append_right _

end Ledger

/-! ## Numbers after a start -/

namespace Cache

/-- What passes each record leaves all of them behind. -/
theorem sequence_lt_foldl {f : Cache → Record → Cache}
    (hf : ∀ c r, (f c r).nextSequence = max c.nextSequence (r.sequence + 1)) (rs : List Record)
    (c : Cache) : c.nextSequence ≤ (rs.foldl f c).nextSequence ∧
      ∀ r ∈ rs, r.sequence < (rs.foldl f c).nextSequence := by
  induction rs generalizing c with
  | nil => exact ⟨Nat.le_refl _, by simp⟩
  | cons r rest ih =>
    obtain ⟨hle, hlt⟩ := ih (f c r)
    rw [hf] at hle
    refine ⟨by rw [List.foldl_cons]; omega, fun s hs => ?_⟩
    rcases List.mem_cons.1 hs with rfl | hs
    · rw [List.foldl_cons]
      omega
    · exact hlt s hs

/-- A cache that is filled numbers everything to come after the records, those included that it
has no room for. -/
theorem sequence_lt_load (c : Cache) {rs : List Record} {r : Record} (hr : r ∈ rs) :
    r.sequence < (c.load rs).nextSequence := by
  obtain ⟨hle, hsurplus⟩ := sequence_lt_foldl (f := passSequence) (fun _ _ => rfl)
    (surplus c.capacity rs) ((retained c.capacity rs).foldl remember c)
  obtain ⟨-, hretained⟩ := sequence_lt_foldl (f := remember) (fun _ _ => rfl)
    (retained c.capacity rs) c
  rcases List.mem_append.1 ((surplus_retained c.capacity rs).mem_iff.2 hr) with hr | hr
  · exact hsurplus r hr
  · exact Nat.lt_of_lt_of_le (hretained r hr) hle

end Cache

namespace Broker

variable {l : Ledger} {b b' : Broker} {mailboxes : Table String Mailbox} {storage : Storage}
  {s : Settings} {k : Nat}

theorem next_le_recoverBranch (b : Broker) (branch : Xid × List Record) (ref : CacheRef) :
    b.next ref ≤ (recoverBranch 0 b branch).next ref := by
  have hrecords : ∀ (rs : List Record) (t : Nat) (c : Broker),
      c.next ref ≤ (rs.foldl (recoverRecord 0 t) c).next ref := by
    intro rs t
    induction rs with
    | nil => exact fun c => Nat.le_refl _
    | cons r rest ih => exact fun c => Nat.le_trans (next_le_recoverRecord t c r ref) (ih _)
  exact hrecords branch.2 _ (b.addTransaction { xid := some branch.1, state := .prepared })

theorem next_le_branches (branches : List (Xid × List Record)) (b : Broker) (ref : CacheRef) :
    b.next ref ≤ (branches.foldl (recoverBranch 0) b).next ref := by
  induction branches generalizing b with
  | nil => exact Nat.le_refl _
  | cons branch rest ih => exact Nat.le_trans (next_le_recoverBranch b branch ref) (ih _)

/-- A start numbers everything to come after the committed records that it finds, those included
that it prunes. -/
theorem below_start (hpersist : s.persistIdCache = true ∧ s.duplicateDetection = true)
    (hordered : Ledger.Ordered storage.ledger.committed)
    (h : ({ mailboxes, storage } : Broker).start s = (b, .ok k)) {r : Record}
    (hr : r ∈ storage.ledger.committed) : r.sequence < b.next (.office 0 r.address) := by
  obtain ⟨c, ps, hload, rfl⟩ := start_ok hpersist h
  obtain ⟨hfilled, -⟩ := filling_load hordered hload
  have hcache := cache_of_get?_some ((hfilled.filled (.office 0 r.address) _).2
    ⟨r.address, Ledger.mem_addresses hr, rfl, rfl⟩)
  have hrecord : r ∈ storage.ledger.records r.address := List.mem_filter.2 ⟨hr, by simp⟩
  have hlt : r.sequence < c.next (.office 0 r.address) := by
    rw [next, hcache]
    exact Cache.sequence_lt_load _ hrecord
  refine Nat.lt_of_lt_of_le ?_ (next_le_branches (byBranch ps) _ _)
  exact hlt

/-! ## Journal calls of a start -/

/-- The broker has asked the journal for nothing but prunes, and the ledger shows those that have
been made. -/
structure Pruning (l : Ledger) (b : Broker) : Prop where
  recounted : b.storage.ledger = l.applyAll b.writes
  prunes : ∀ e ∈ b.asked, ∃ a n, e = .prune a n
  queue : b.queue = []

theorem Pruning.of_same (hb : Pruning l b) (htrace : b'.trace = b.trace)
    (hstorage : b'.storage = b.storage) (hqueue : b'.queue = b.queue) : Pruning l b' := by
  refine ⟨?_, ?_, hqueue.trans hb.queue⟩
  · rw [hstorage, writes, htrace]
    exact hb.recounted
  · rw [asked, htrace]
    exact hb.prunes

theorem queue_recoverBranch (b : Broker) (branch : Xid × List Record) :
    (recoverBranch 0 b branch).queue = b.queue := by
  have hoffices := offices_recoverRecords
    (b.addTransaction { xid := some branch.1, state := .prepared }).lastTransaction branch.2
    (b.addTransaction { xid := some branch.1, state := .prepared })
  unfold recoverBranch
  dsimp only
  generalize branch.2.foldl (recoverRecord 0 _) _ = c at hoffices ⊢
  rw [← queue_books, setBranches, books_setDesk, queue_books, queue, office, hoffices]
  rfl

theorem pruning_read (hb : Pruning l b) {α : Type} {call : JournalCall} {m : JournalMethod}
    {f : Ledger → α} (hcall : ∀ e, call ≠ .write e) : Pruning l (b.read call m f).1 := by
  have hwritten : ∀ ok, Event.written? (.journal .inline call ok) = none := by
    cases call with
    | write e => exact absurd rfl (hcall e)
    | _ => exact fun _ => rfl
  have hasked : ∀ ok, Event.asked? (.journal .inline call ok) = none := by
    cases call with
    | write e => exact absurd rfl (hcall e)
    | _ => exact fun _ => rfl
  refine ⟨?_, ?_, hb.queue⟩
  · rw [show (b.read call m f).1.writes = b.writes by simp [read, writes, log, hwritten]]
    exact hb.recounted
  · rw [show (b.read call m f).1.asked = b.asked by simp [read, asked, log, hasked]]
    exact hb.prunes

theorem pruning_write (hb : Pruning l b) (a : Address) (n : Nat) :
    Pruning l (b.write .inline (.prune a n)).1 := by
  refine ⟨?_, fun e he => ?_, hb.queue⟩
  · rcases logs_write (b := b) (Prod.eta _).symm with ⟨-, hlogs⟩ | ⟨-, hlogs⟩
    · rw [hlogs.ledger, hlogs.writes, hb.recounted, Ledger.applyAll_append]
    · rw [hlogs.ledger, hlogs.writes, hb.recounted, Ledger.applyAll_append]
  · have hasked : (b.write .inline (.prune a n)).1.asked = b.asked ++ [.prune a n] :=
      asked_log ..
    rw [hasked] at he
    rcases List.mem_append.1 he with he | he
    · exact hb.prunes e he
    · exact ⟨a, n, List.mem_singleton.1 he⟩

theorem pruning_openCache (hb : Pruning l b) (ref : CacheRef) (a : Address) (capacity : Nat) :
    Pruning l (b.openCache ref a capacity) := by
  unfold openCache
  split
  · exact hb
  · exact hb.of_same rfl rfl rfl

theorem pruning_load (hb : Pruning l b) (capacity : Nat) : Pruning l (b.load 0 capacity).1 := by
  have hkeeps : LoadingKeeps (Pruning l) 0 capacity :=
    { reads := fun c _ _ _ hcall hc => pruning_read hc hcall
      prunes := fun c r hc => pruning_write hc r.address r.sequence
      opens := fun c a hc => pruning_openCache hc _ _ _
      fills := fun c a rs hc => hc.of_same rfl rfl rfl }
  exact hkeeps.load hb

theorem queue_opened (hqueue : b.queue = []) {o : Office} (ho : o.writer.queue = []) :
    ({ b with offices := b.offices ++ [o] } : Broker).queue = [] := by
  unfold queue office at hqueue ⊢
  dsimp only
  cases hoffices : b.offices with
  | nil => exact ho
  | cons p rest =>
    rw [hoffices] at hqueue
    exact hqueue

/-- A start asks the journal for prunes, whether it succeeds or not. -/
theorem pruning_start (hpersist : s.persistIdCache = true ∧ s.duplicateDetection = true)
    {result : Except RoutingError Nat}
    (h : ({ mailboxes, storage } : Broker).start s = (b, result)) :
    Pruning storage.ledger b := by
  have hloaded : Pruning storage.ledger
      (({ mailboxes, storage } : Broker).load 0 s.idCacheCapacity).1 :=
    pruning_load ⟨rfl, fun _ he => absurd he List.not_mem_nil, rfl⟩ _
  rcases start_outcomes hpersist h with ⟨c, e, hload, -, rfl⟩ | ⟨c, ps, hload, -, rfl⟩
  · rw [hload] at hloaded
    exact hloaded.of_same rfl rfl rfl
  · rw [hload] at hloaded
    have hbranches : ∀ (branches : List (Xid × List Record)) (d : Broker),
        Pruning storage.ledger d → Pruning storage.ledger (branches.foldl (recoverBranch 0) d) := by
      intro branches
      induction branches with
      | nil => exact fun d hd => hd
      | cons branch rest ih =>
        intro d hd
        obtain ⟨htrace, hstorage⟩ := trace_recoverBranch d branch
        exact ih _ (hd.of_same htrace hstorage (queue_recoverBranch d branch))
    exact hbranches _ _ ⟨hloaded.recounted, hloaded.prunes, queue_opened hloaded.queue rfl⟩

theorem Pruning.requests (hb : Pruning l b) : ∀ e ∈ b.requests, ∃ a n, e = .prune a n := by
  intro e he
  rw [Broker.requests, hb.queue, List.append_nil] at he
  exact hb.prunes e he

theorem Pruning.additions (hb : Pruning l b) : b.additions = [] :=
  List.filterMap_eq_nil_iff.2 fun e he => by
    obtain ⟨a, n, rfl⟩ := hb.requests e he
    rfl

theorem Pruning.deposits (hb : Pruning l b) : b.deposits = [] :=
  List.filterMap_eq_nil_iff.2 fun e he => by
    obtain ⟨a, n, rfl⟩ := hb.requests e he
    rfl

theorem additions_books : b.books.additions = b.additions := by
  rw [additions, requests, asked_books, queue_books]
  rfl

theorem deposits_books : b.books.deposits = b.deposits := by
  rw [deposits, requests, asked_books, queue_books]
  rfl

/-- At the beginning of a life no place has been asked for. -/
theorem unrepeated_start (hpersist : s.persistIdCache = true ∧ s.duplicateDetection = true)
    (hordered : Ledger.Ordered storage.ledger.committed)
    (hprepared : (storage.ledger.prepared.map (·.record)).Nodup)
    (h : ({ mailboxes, storage } : Broker).start s = (b, .ok k)) :
    Proper Call.Routes b ∧ Unrepeated storage.ledger s.idCachePersistence b.next b.view := by
  have hbegun := (begun_start hpersist hordered h).1
  have hpruning := pruning_start hpersist h
  have hrecords : (recordsOf b.view.stages).Perm (storage.ledger.prepared.map (·.record)) :=
    records_start hpersist hordered h
  have hadditions : b.books.additions = [] := additions_books.trans hpruning.additions
  have hunkeyed : ∀ t, b.keyOf t = none := unkeyed_iff.1 hbegun.unkeyed
  refine ⟨hbegun.proper _, hbegun.atOffice, hbegun.unkeyed, hbegun.custody, ?_,
    hrecords.nodup_iff.2 hprepared, [], ?_, ?_⟩
  · show b.storage.ledger = storage.ledger.applyAll b.books.writes
    rw [writes_books]
    exact hpruning.recounted
  · refine ⟨keeping_books hbegun.keeping, hbegun.addressed, hbegun.keyed, fun _ => Nat.le_refl _,
      fun t k ht => ?_, ?_, fun r hr => ?_, fun _ r hr => ?_, ?_⟩
    · rw [show b.view.books.keyOf t = b.keyOf t from rfl, hunkeyed] at ht
      cases ht
    · rw [show b.view.books.additions = [] from hadditions]
      exact List.nodup_nil
    · rw [show b.view.books.additions = [] from hadditions] at hr
      cases hr
    · rw [show b.view.books.additions = [] from hadditions] at hr
      cases hr
    · rw [show b.view.books.deposits = [] from deposits_books.trans hpruning.deposits]
  · rw [List.append_nil]
    refine hrecords.symm.subperm.trans (List.Perm.subperm (.of_eq ?_))
    -- All transactions are prepared.
    refine congrArg recordsOf (List.flatMap_congr fun o ho => ?_)
    rw [Outline.decided, if_neg (by simp [hbegun.prepared o ho])]

end Broker

/-! ## Lives -/

/-- The committed record that the journal is asked to add, if the event tells of such a call. -/
def Event.appended? (e : Event) : Option Record := e.asked?.bind Entry.added?

namespace Broker

/-- The broker in a life of a post office that keeps its identifiers in the journal, which holds
the ledger `l` when the life begins: the start has failed, or the post office has been in use, with
kinds of journal calls beginning or ceasing to fail. -/
inductive Life (l : Ledger) : Broker → Prop where
  | failed {mailboxes : Table String Mailbox} {storage : Storage} {s : Settings} {b : Broker}
      {e : RoutingError} (hstorage : storage.ledger = l)
      (hpersist : s.persistIdCache = true ∧ s.duplicateDetection = true)
      (hstart : ({ mailboxes, storage } : Broker).start s = (b, .error e)) : Life l b
  | used {mailboxes : Table String Mailbox} {storage : Storage} {s : Settings} {b : Broker}
      {n : Nat} (hstorage : storage.ledger = l)
      (hpersist : s.persistIdCache = true ∧ s.duplicateDetection = true)
      (hstart : ({ mailboxes, storage } : Broker).start s = (b, .ok n)) {cs : List Command}
      (hcs : ∀ c ∈ cs, c.isUse = true) : Life l (b.run cs)

/-- The ledger is one that the lives of post offices have left in the journal, one after the
other. -/
inductive Lasting : Ledger → Prop where
  /-- No record is prepared twice. -/
  | new {es : List Entry}
      (hprepared : ((({} : Ledger).applyAll es).prepared.map (·.record)).Nodup) :
      Lasting (({} : Ledger).applyAll es)
  | stopped {l : Ledger} {b : Broker} (hl : Lasting l) (hb : Life l b) :
      Lasting (b.stop 0).storage.ledger
  /-- Of the writes made or handed to the writer any may have got lost. -/
  | crashed {l : Ledger} {b : Broker} (hl : Lasting l) (hb : Life l b) {es : List Entry}
      (hes : es.Sublist (b.writes ++ b.queue)) : Lasting (l.applyAll es)

/-- What a start expects of the journal. -/
structure Clean (l : Ledger) : Prop where
  ordered : Ledger.Ordered l.committed
  apart : (l.prepared.map (·.record)).Nodup

/-- What comes of the journal in a life. -/
structure Allocated (l : Ledger) (b : Broker) : Prop where
  recounted : b.storage.ledger = l.applyAll b.writes
  apart : (b.additions.map Record.place).Nodup
  fresh : ∀ r ∈ b.additions, ∀ q ∈ l.committed, q.place ≠ r.place
  prepared : ((l.prepared ++ b.deposits).map (·.record)).Nodup

theorem Life.allocated (hl : Clean l) (hb : Life l b) : Allocated l b := by
  cases hb with
  | failed hstorage hpersist hstart =>
    have hpruning := pruning_start hpersist hstart
    rw [hstorage] at hpruning
    refine ⟨hpruning.recounted, ?_, fun r hr => ?_, ?_⟩
    · rw [hpruning.additions]
      exact List.nodup_nil
    · rw [hpruning.additions] at hr
      cases hr
    · rw [hpruning.deposits, List.append_nil]
      exact hl.apart
  | @used mailboxes storage s b n hstorage hpersist hstart cs hcs =>
    subst hstorage
    obtain ⟨hproper, hbegun⟩ := unrepeated_start hpersist hl.ordered hl.apart hstart
    have hused := unrepeated_run hcs hproper hbegun
    obtain ⟨ps, hallotted, hps⟩ := hused.allotted
    have hadditions : (b.run cs).view.books.additions = (b.run cs).additions := additions_books
    have hdeposits : (b.run cs).view.books.deposits = (b.run cs).deposits := deposits_books
    refine ⟨?_, hadditions ▸ hallotted.apart, fun r hr q hq hplace => ?_, ?_⟩
    · rw [← writes_books]
      exact hused.recounted
    · obtain ⟨haddress, hsequence⟩ := Prod.mk.inj hplace
      have hbelow := below_start hpersist hl.ordered hstart hq
      have hfloor := (hallotted.within r (hadditions ▸ hr)).1
      rw [haddress, hsequence] at hbelow
      omega
    · have hstages : ((storage.ledger.prepared ++ ps).map (·.record)).Nodup :=
        nodup_of_subperm hps (hused.apart.sublist ((View.decided_sublist _).map _))
      rw [← hdeposits]
      exact (((hallotted.deposits.append_left _).map _).nodup_iff).2 hstages

/-- Whatever gets lost of a life, the journal is fit for another start. -/
theorem Allocated.clean (hl : Clean l) (hb : Allocated l b) {es : List Entry}
    (hes : es.Sublist (b.writes ++ b.queue)) : Clean (l.applyAll es) := by
  refine ⟨Ledger.ordered_applyAll hl.ordered es, hb.prepared.sublist (List.Sublist.map _ ?_)⟩
  refine (Ledger.prepared_applyAll_sublist l es).trans (List.Sublist.append_left ?_ _)
  exact (hes.trans ((writes_sublist b).append_right _)).filterMap _

/-- A stop flushes, which a post office in use may do as well. -/
theorem Life.flushed (hb : Life l b) : Life l (b.flush 0) ∨ b.queue = [] := by
  cases hb with
  | failed hstorage hpersist hstart => exact .inr (pruning_start hpersist hstart).queue
  | @used mailboxes storage s b n hstorage hpersist hstart cs hcs =>
    have hflush : Life l (b.run (cs ++ [.flush 0])) :=
      .used hstorage hpersist hstart fun c hc => by
        rcases List.mem_append.1 hc with hc | hc
        · exact hcs c hc
        · rw [List.mem_singleton.1 hc]
          rfl
    exact .inl (by simpa [run, perform] using hflush)

theorem Lasting.clean (h : Lasting l) : Clean l := by
  induction h with
  | @new es hprepared => exact ⟨Ledger.ordered_of_entries rfl, hprepared⟩
  | @stopped l b hl hb ih =>
    rcases hb.flushed with hflushed | hqueue
    · have hallocated := hflushed.allocated ih
      show Clean (b.flush 0).storage.ledger
      rw [hallocated.recounted]
      exact hallocated.clean ih (List.sublist_append_left _ _)
    · have hallocated := hb.allocated ih
      have hflush : b.flush 0 = b := by
        rw [flush, show (b.office 0).writer.queue = [] from hqueue]
        rfl
      show Clean (b.flush 0).storage.ledger
      rw [hflush, hallocated.recounted]
      exact hallocated.clean ih (List.sublist_append_left _ _)
  | @crashed l b hl hb es hes ih => exact (hb.allocated ih).clean ih hes

/-- In every life the journal holds what has been written to it, and no record is ever appended at a
place that has been asked for in this life or where the journal holds a committed record. -/
theorem places_unique (h : Lasting l) (hb : Life l b) :
    b.storage.ledger = l.applyAll b.writes ∧
      ((b.trace.filterMap Event.appended?).map Record.place).Nodup ∧
      ∀ before e after r, b.trace = before ++ e :: after → e.appended? = some r →
        ∀ q ∈ (l.applyAll (before.filterMap Event.written?)).committed, q.place ≠ r.place := by
  have hallocated := hb.allocated h.clean
  have hadditions : (b.trace.filterMap Event.appended?).Sublist b.additions := by
    have happended : b.trace.filterMap Event.appended? = b.asked.filterMap Entry.added? :=
      (List.filterMap_filterMap ..).symm
    rw [happended]
    exact (List.sublist_append_left _ _).filterMap _
  have hnodup := hallocated.apart.sublist (hadditions.map Record.place)
  refine ⟨hallocated.recounted, hnodup, fun before e after r htrace he q hq hplace => ?_⟩
  rw [htrace, List.filterMap_append, List.filterMap_cons_some he] at hadditions hnodup
  rcases Ledger.committed_of_applyAll hq with hq | hq
  · exact hallocated.fresh r (hadditions.subset (by simp)) q hq hplace
  · -- The journal holds what has been appended before.
    have hbefore : q ∈ before.filterMap Event.appended? := by
      obtain ⟨x, hx, hwritten⟩ := List.mem_filterMap.1 hq
      refine List.mem_filterMap.2 ⟨x, hx, ?_⟩
      rw [Event.appended?, Event.asked?_of_written hwritten]
      rfl
    rw [List.map_append, List.map_cons, List.nodup_append] at hnodup
    exact hnodup.2.2 _ (List.mem_map_of_mem hbefore) _ List.mem_cons_self hplace

/-- Sends that displace each other, and a branch that is prepared in between. -/
def hastySends : List Command :=
  [.route 0 0 (messageTo "orders" 1) none true, .writeNext 0,
    .route 0 1 (messageTo "orders" 2) none true, .begin (some exampleXid),
    .route 0 2 (messageTo "orders" 3) (some 1) true, .prepareBranch (some 0) 1,
    .route 0 3 (messageTo "orders" 4) none true]

/-- The branch is committed, and two sends follow. -/
def lateOutcome : List Command :=
  [.commitBranch (some 0) exampleXid, .route 0 0 (messageTo "orders" 5) none true,
    .route 0 1 (messageTo "orders" 6) none true]

/-- A post office in async mode crashes with four writes to go, of which the first is made. The next
one, in mandatory mode, prunes a record when it starts, and one append goes wrong. -/
theorem places_unique_crashed :
    let b₁ := (({} : Broker).start (laterSettings 1)).1.run hastySends
    let orders : Address := ⟨"orders"⟩
    let l := ({} : Ledger).applyAll (b₁.writes ++ b₁.queue.take 1)
    let b₂ := (({ storage := { memory := l, lapses := [none, none, some .append] } } : Broker).start
      (earlierSettings 1)).1.run lateOutcome
    b₁.queue = [.add ⟨orders, 4, [2]⟩, .prune orders 2, .add ⟨orders, 7, [4]⟩, .prune orders 4] ∧
      l.committed = [⟨orders, 2, [1]⟩, ⟨orders, 4, [2]⟩] ∧
      b₂.trace.filterMap Event.appended? =
        [⟨orders, 6, [3]⟩, ⟨orders, 8, [5]⟩, ⟨orders, 10, [6]⟩] ∧
      b₂.storage.ledger = l.applyAll b₂.writes ∧
      ((b₂.trace.filterMap Event.appended?).map Record.place).Nodup := by
  intro b₁ orders l b₂
  have hstart₁ : ({} : Broker).start (laterSettings 1) =
      ((({} : Broker).start (laterSettings 1)).1, .ok 0) := by decide +kernel
  have hstart₂ : ({ storage := { memory := l, lapses := [none, none, some .append] } } :
      Broker).start (earlierSettings 1) =
        ((({ storage := { memory := l, lapses := [none, none, some .append] } } : Broker).start
          (earlierSettings 1)).1, .ok 0) := by decide +kernel
  have hfirst : Life ({} : Ledger) b₁ := .used rfl (by decide) hstart₁ (by decide)
  have hsecond : Life l b₂ := .used rfl (by decide) hstart₂ (by decide)
  have hnew : Lasting (({} : Ledger).applyAll []) := .new List.nodup_nil
  have hleft : Lasting l := hnew.crashed hfirst ((List.take_sublist 1 _).append_left _)
  obtain ⟨hledger, hplaces, -⟩ := places_unique hleft hsecond
  exact ⟨by decide +kernel, by decide +kernel, by decide +kernel, hledger, hplaces⟩

end Broker

end MessageRouting
