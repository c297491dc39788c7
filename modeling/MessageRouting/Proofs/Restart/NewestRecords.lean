import MessageRouting.Proofs.Restart.FoundIdentifiers

/-!
# Identifiers across restarts

A start keeps the newest committed records of every address, as many as the
settings ask for, shows their identifiers in the order of their sequences, and
rids the journal of the others. So a later start finds just these, however many
it could take in. A start that fails half-way has not touched them.

Results:

* `newest_start`: what a start shows, and what it leaves in the journal.
* `kept_start`: what no start removes, whether it succeeds or not.
* `started_again`: a start finds what the one before has left.
* `newest_openFile`: a start on a journal file that has been opened.
* `restart_newest`: all of it, for any journal.
-/

namespace MessageRouting

/-! ## The newest records -/

namespace Ledger

/-- The newest `n` of an address's committed records, the oldest first; all of them if there are no
more than that. -/
def newest (l : Ledger) (n : Nat) (a : Address) : List Record :=
  (l.records a).drop ((l.records a).length - n)

variable {l : Ledger}

theorem address_of_mem_records {a : Address} {r : Record} (h : r ∈ l.records a) :
    r.address = a := by
  simpa using (List.mem_filter.1 h).2

/-- An address that is listed has records. -/
theorem records_ne_nil {a : Address} (h : a ∈ l.addresses) : l.records a ≠ [] := by
  obtain ⟨r, hr, rfl⟩ := List.mem_map.1 (mem_distinctAddresses.1 h)
  exact List.ne_nil_of_mem (List.mem_filter.2 ⟨hr, by simp⟩)

/-- The records of an address are listed in the order of their sequences. -/
theorem sorted_records (h : Ordered l.committed) (a : Address) :
    (l.records a).Pairwise fun r s => r.sequence < s.sequence := by
  have hrecords : Ordered (l.records a) := h.filter _
  refine List.Pairwise.imp_of_mem ?_ hrecords
  intro r s hr hs hrs
  have ha : r.address = s.address :=
    (address_of_mem_records hr).trans (address_of_mem_records hs).symm
  rwa [Record.before, if_pos ha, decide_eq_true_eq] at hrs

theorem newest_sublist (l : Ledger) (n : Nat) (a : Address) :
    (l.newest n a).Sublist (l.records a) := List.drop_sublist ..

theorem newest_of_length_le {n : Nat} {a : Address} (h : (l.records a).length ≤ n) :
    l.newest n a = l.records a := by
  rw [newest, Nat.sub_eq_zero_of_le h, List.drop_zero]

theorem length_newest_le (l : Ledger) (n : Nat) (a : Address) : (l.newest n a).length ≤ n := by
  rw [newest, List.length_drop]
  omega

theorem bySequence_records (h : Ordered l.committed) (a : Address) :
    Cache.bySequence (l.records a) = l.records a := by
  refine sortBy_of_pairwise ((sorted_records h a).imp fun hlt => ?_)
  exact decide_eq_false (Nat.not_lt.2 (Nat.le_of_lt hlt))

/-- A cache with room for `n` identifiers takes in the newest records. -/
theorem retained_records (h : Ordered l.committed) (n : Nat) (a : Address) :
    Cache.retained n (l.records a) = l.newest n a := by
  rw [Cache.retained, bySequence_records h, newest]

theorem surplus_records {n : Nat} {a : Address} (hle : (l.records a).length ≤ n) :
    Cache.surplus n (l.records a) = [] := by
  rw [Cache.surplus, Nat.sub_eq_zero_of_le hle, List.take_zero]

/-- No record that is taken in is one that there is no room for. -/
theorem not_mem_surplus (h : Ordered l.committed) {n : Nat} {a : Address} {r s : Record}
    (hr : r ∈ l.newest n a) (hs : s ∈ Cache.surplus n (l.records a)) :
    r.sequence ≠ s.sequence := by
  have hperm := Cache.surplus_retained n (l.records a)
  have hne := hperm.symm.pairwise (sequence_ne_of_records h a) fun h => Ne.symm h
  rw [← retained_records h] at hr
  exact Ne.symm ((List.pairwise_append.1 hne).2.2 s hs r hr)

end Ledger

/-! ## Journal files -/

namespace JournalFile

/-- Replaying the lines of a file applies entries. -/
theorem replay_entries {segments : List Segment} {offset : Nat} {r r' : Replay}
    (h : replay? segments offset r = some r') :
    ∃ entries, r'.ledger = r.ledger.applyAll entries := by
  induction segments generalizing offset r with
  | nil =>
    cases h
    exact ⟨[], rfl⟩
  | cons s rest ih =>
    obtain ⟨r₁, hsegment, hrest⟩ := Option.bind_eq_some_iff.1 h
    obtain ⟨entries, hentries⟩ := ih hrest
    unfold Replay.segment? at hsegment
    split at hsegment
    · cases hsegment
      exact ⟨entries, hentries⟩
    · split at hsegment
      · rename_i e _
        cases hsegment
        exact ⟨e :: entries, hentries⟩
      · split at hsegment
        · cases hsegment
        · cases hsegment
          exact ⟨entries, hentries⟩

theorem entries_openBytes {contents : Bytes} {f : JournalFile}
    (h : openBytes? contents = some f) : ∃ entries, f.ledger = ({} : Ledger).applyAll entries := by
  obtain ⟨r, hreplay, hf⟩ := Option.bind_eq_some_iff.1 h
  obtain ⟨entries, hentries⟩ := replay_entries hreplay
  cases hf
  exact ⟨entries, hentries⟩

end JournalFile

/-- A journal file that has been opened holds what its entries amount to. -/
theorem entries_openFile {st st' : Storage} {n : Nat} (h : st.openFile = (st', .ok n)) :
    ∃ entries, st'.ledger = ({} : Ledger).applyAll entries := by
  simp only [Storage.openFile] at h
  split at h
  · split at h
    · rename_i hbytes
      cases h
      exact JournalFile.entries_openBytes hbytes
    · cases h
  · split at h
    · rename_i hbytes
      cases h
      exact JournalFile.entries_openBytes hbytes
    · cases h
  · cases h

namespace Cache

/-- A cache that is filled from sorted records shows the newest of them as they stand. -/
theorem visible_load {l : Ledger} (h : Ledger.Ordered l.committed) (n : Nat) (a : Address) :
    (({ address := a, capacity := n } : Cache).load (l.records a)).visible =
      (l.newest n a).map fun r => (r.sequence, r.duplicateId) := by
  have hfilled := mem_load (c := { address := a, capacity := n }) rfl rfl
    (Ledger.sequence_ne_of_records h a)
  obtain ⟨hkeyed, -, -, hmem⟩ := hfilled
  have hsorted : Sorted ((l.newest n a).map fun r => (r.sequence, r.duplicateId)) :=
    List.pairwise_map.2 ((Ledger.sorted_records h a).sublist (Ledger.newest_sublist l n a))
  have : Std.Irrefl fun e f : Nat × Bytes => e.1 < f.1 := ⟨fun e => Nat.lt_irrefl e.1⟩
  have : Std.Antisymm fun e f : Nat × Bytes => e.1 < f.1 :=
    ⟨fun e f hef hfe => absurd (Nat.lt_trans hef hfe) (Nat.lt_irrefl _)⟩
  refine List.Pairwise.eq_of_mem_iff hkeyed.sorted hsorted fun e => ?_
  rw [hmem, List.mem_map, Ledger.retained_records h]
  constructor
  · rintro ⟨r, hr, rfl⟩
    exact ⟨r, hr, rfl⟩
  · rintro ⟨r, hr, rfl⟩
    exact ⟨r, hr, rfl⟩

end Cache

namespace Broker

variable {b b' : Broker} {mailboxes : Table String Mailbox} {storage : Storage} {s : Settings}

/-! ## Starts that succeed -/

/-- A start shows the newest records of every address, and leaves just these in the journal. -/
theorem newest_start {k : Nat} (hpersist : s.persistIdCache = true ∧ s.duplicateDetection = true)
    (hordered : Ledger.Ordered storage.ledger.committed)
    (h : ({ mailboxes, storage } : Broker).start s = (b, .ok k)) (a : Address) :
    (b.cache (.office 0 a)).visibleIds =
        (storage.ledger.newest s.idCacheCapacity a).map (·.duplicateId) ∧
      b.storage.ledger.records a = storage.ledger.newest s.idCacheCapacity a := by
  have hrestored := restored_start hpersist hordered h
  obtain ⟨hbegun, -, -⟩ := begun_start hpersist hordered h
  have hvisible := (hrestored.visible a).trans (Cache.visible_load hordered _ a)
  refine ⟨by rw [Cache.visibleIds, hvisible, List.map_map]; rfl, ?_⟩
  have hsub := Ledger.newest_sublist storage.ledger s.idCacheCapacity a
  have hsorted : Ledger.Ordered (storage.ledger.newest s.idCacheCapacity a) :=
    List.Pairwise.sublist hsub (hordered.filter _)
  refine Ledger.records_ext hbegun.ordered hsorted fun r => ?_
  have hmirror : ∀ k id, ⟨a, k, id⟩ ∈ b.storage.ledger.committed ↔
      ⟨a, k, id⟩ ∈ storage.ledger.newest s.idCacheCapacity a := by
    intro k id
    rw [hbegun.mirror, hvisible, List.mem_map]
    constructor
    · rintro ⟨r, hr, heq⟩
      have ha := Ledger.address_of_mem_records (hsub.subset hr)
      cases heq
      subst ha
      exact hr
    · exact fun hr => ⟨_, hr, rfl⟩
  constructor
  · intro hr
    have ha := Ledger.address_of_mem_records (hsub.subset hr)
    subst ha
    exact ⟨(hmirror _ _).2 hr, rfl⟩
  · rintro ⟨hr, rfl⟩
    exact (hmirror _ _).1 hr

/-! ## What no start removes -/

/-- Pruning records takes the first of them out of the journal, up to a failure. -/
theorem pruneAll_prefix {rs : List Record} {result : Except JournalError Unit}
    (h : b.pruneAll rs = (b', result)) :
    ∃ done : List Record, done <+: rs ∧
      Logs b b' (done.map fun r => .prune r.address r.sequence) [] := by
  induction rs generalizing b with
  | nil =>
    cases h
    exact ⟨[], List.prefix_refl _, .refl _⟩
  | cons r rest ih =>
    simp only [pruneAll] at h
    rcases hw : b.write .inline (.prune r.address r.sequence) with ⟨c, written⟩
    rw [hw] at h
    cases written with
    | error e =>
      cases h
      rcases logs_write hw with ⟨hok, -⟩ | ⟨-, hlogs⟩
      · cases hok
      · exact ⟨[], List.nil_prefix, hlogs⟩
    | ok _ =>
      rcases logs_write hw with ⟨-, hfirst⟩ | ⟨⟨err, herr⟩, -⟩
      · obtain ⟨done, hdone, hlogs⟩ := ih h
        exact ⟨r :: done, List.cons_prefix_cons.2 ⟨rfl, hdone⟩, hfirst.trans hlogs⟩
      · cases herr

/-- Loading an address prunes some of its records that there is no room for, and nothing else. -/
theorem loadAddress_prunes {capacity : Nat} {a : Address} {result : Except JournalError Unit}
    (h : b.loadAddress 0 capacity a = (b', result)) :
    ∃ done : List Record, (∀ r ∈ done, r ∈ Cache.surplus capacity (b.storage.ledger.records a)) ∧
      b'.storage.ledger =
        b.storage.ledger.applyAll (done.map fun r => .prune r.address r.sequence) := by
  unfold loadAddress at h
  rcases hread : b.readRecords a with ⟨b₁, read⟩
  have hstorage : b₁.storage = b.storage := by
    obtain rfl := congrArg Prod.fst hread
    rfl
  rw [hread] at h
  cases read with
  | error e =>
    cases h
    exact ⟨[], by simp, by rw [hstorage]; rfl⟩
  | ok records =>
    obtain ⟨-, -, rfl⟩ := read_ok (fun e he => by cases he) hread
    dsimp only at h
    have hopened : (b₁.openCache (.office 0 a) a capacity).storage = b.storage := by
      rw [← hstorage]
      unfold openCache
      split <;> rfl
    rcases hprune : (b₁.openCache (.office 0 a) a capacity).pruneAll
      (Cache.surplus capacity (b.storage.ledger.records a)) with ⟨b₂, pruned⟩
    obtain ⟨done, hdone, hlogs⟩ := pruneAll_prefix hprune
    have hledger := hlogs.ledger
    rw [hopened] at hledger
    rw [hprune] at h
    refine ⟨done, fun r hr => hdone.subset hr, ?_⟩
    cases pruned with
    | error e =>
      cases h
      exact hledger
    | ok _ =>
      cases h
      exact hledger

/-- The caches that have been filled so far have cost none of the newest records. -/
theorem Filling.kept_newest {st : Storage} {capacity : Nat} {as : List Address}
    (hb : Filling st capacity as b) (hs : Ledger.Ordered st.ledger.committed) {a : Address}
    {r : Record} (hr : r ∈ st.ledger.newest capacity a) : r ∈ b.storage.ledger.committed := by
  have hrecord := (Ledger.newest_sublist ..).subset hr
  have ha := Ledger.address_of_mem_records hrecord
  subst ha
  by_cases hmem : r.address ∈ as
  · have hcache := cache_of_get?_some ((hb.filled (.office 0 r.address) _).2 ⟨_, hmem, rfl, rfl⟩)
    refine (hb.mirror _ hmem r.sequence r.duplicateId).2 ?_
    rw [hcache, Cache.visible_load hs]
    exact List.mem_map.2 ⟨r, hr, rfl⟩
  · rw [← hb.untouched _ hmem] at hrecord
    exact (List.mem_filter.1 hrecord).1

theorem kept_loadAddress {st : Storage} {capacity : Nat} {as : List Address} {a : Address}
    {result : Except JournalError Unit} (hb : Filling st capacity as b)
    (hs : Ledger.Ordered st.ledger.committed) (ha : a ∉ as)
    (h : b.loadAddress 0 capacity a = (b', result)) {a' : Address} {r : Record}
    (hr : r ∈ st.ledger.newest capacity a') : r ∈ b'.storage.ledger.committed := by
  obtain ⟨done, hdone, hledger⟩ := loadAddress_prunes h
  rw [hb.untouched a ha] at hdone
  have haddress : ∀ p ∈ done, p.address = a := fun p hp =>
    Ledger.address_of_mem_records ((Cache.surplus_retained ..).mem_iff.1
      (List.mem_append_left _ (hdone p hp)))
  have hprunes : (done.map fun r => Entry.prune r.address r.sequence) =
      done.map fun r => .prune a r.sequence :=
    List.map_congr_left fun p hp => by rw [haddress p hp]
  rw [hledger, hprunes]
  -- Whatever has been pruned by now is at this address and was too much there.
  refine (Ledger.mem_prunes ..).2 ⟨hb.kept_newest hs hr, fun p hp hsame => ?_⟩
  have hra := Ledger.address_of_mem_records ((Ledger.newest_sublist ..).subset hr)
  obtain rfl : a' = a := hra.symm.trans hsame.1
  exact Ledger.not_mem_surplus hs hr (hdone p hp) hsame.2

theorem kept_loadAll {st : Storage} {capacity : Nat} {as bs : List Address}
    {result : Except JournalError Unit} (hb : Filling st capacity as b)
    (hs : Ledger.Ordered st.ledger.committed) (hnodup : (as ++ bs).Nodup)
    (h : b.loadAll 0 capacity bs = (b', result)) {a : Address} {r : Record}
    (hr : r ∈ st.ledger.newest capacity a) : r ∈ b'.storage.ledger.committed := by
  induction bs generalizing b as with
  | nil =>
    cases h
    exact hb.kept_newest hs hr
  | cons c rest ih =>
    have hc : c ∉ as := by
      intro hmem
      exact (List.nodup_append.1 hnodup).2.2 c hmem c (by simp) rfl
    simp only [loadAll] at h
    rcases hload : b.loadAddress 0 capacity c with ⟨b₁, loaded⟩
    rw [hload] at h
    cases loaded with
    | error e =>
      cases h
      exact kept_loadAddress hb hs hc hload hr
    | ok _ =>
      have hnext := filling_loadAddress hb hc hload
      exact ih hnext (by simpa using hnodup) h

/-- A load, however far it gets, removes none of the newest records. -/
theorem kept_load {st : Storage} {capacity : Nat}
    {result : Except JournalError (List PreparedRecord)} (hs : Ledger.Ordered st.ledger.committed)
    (h : ({ mailboxes, storage := st } : Broker).load 0 capacity = (b', result)) {a : Address}
    {r : Record} (hr : r ∈ st.ledger.newest capacity a) : r ∈ b'.storage.ledger.committed := by
  have hfresh : Filling st capacity [] { mailboxes, storage := st } := filling_fresh hs
  unfold load at h
  rcases hread : ({ mailboxes, storage := st } : Broker).readAddresses with ⟨b₁, read⟩
  rw [hread] at h
  cases read with
  | error e =>
    obtain rfl := congrArg Prod.fst hread
    cases h
    exact hfresh.kept_newest hs hr
  | ok addresses =>
    obtain ⟨hb₁, haddresses⟩ := filling_read hfresh (fun e he => by cases he) hread
    obtain rfl := congrArg Prod.fst hread
    subst haddresses
    dsimp only at h
    rcases hload : Broker.loadAll _ 0 capacity (Ledger.addresses _) with ⟨b₂, loaded⟩
    rw [hload] at h
    have hkept := kept_loadAll hb₁ hs (Ledger.nodup_addresses hs) hload hr
    cases loaded with
    | error e =>
      cases h
      exact hkept
    | ok _ =>
      obtain rfl := congrArg Prod.fst h
      exact hkept

/-- A start removes none of the newest records, whether it succeeds or not. -/
theorem kept_start {result : Except RoutingError Nat}
    (hpersist : s.persistIdCache = true ∧ s.duplicateDetection = true)
    (hordered : Ledger.Ordered storage.ledger.committed)
    (h : ({ mailboxes, storage } : Broker).start s = (b, result)) {a : Address} {r : Record}
    (hr : r ∈ storage.ledger.newest s.idCacheCapacity a) : r ∈ b.storage.ledger.committed := by
  rcases start_outcomes hpersist h with ⟨c, e, hload, -, rfl⟩ | ⟨c, ps, hload, -, rfl⟩
  · exact kept_load hordered hload hr
  · obtain ⟨hfilled, -⟩ := filling_load hordered hload
    have hbegun := begun_filled hordered hfilled
      (o := { Office.ofSettings s with
        persistence := some s.idCachePersistence, writer := { running := true } }) rfl rfl
    rw [(begun_branches (byBranch ps) hbegun).2.1]
    exact kept_load hordered hload hr

/-! ## Calls that fail -/

/-- So far every journal call has been made, and the calls that fail are those `methods`. -/
structure Smooth (methods : List JournalMethod) (b : Broker) : Prop where
  failing : b.storage.failing = methods
  made : ∀ caller call, .journal caller call false ∉ b.trace

variable {methods : List JournalMethod}

theorem smooth_log (hb : Smooth methods b) (caller : JournalCaller) (call : JournalCall) :
    Smooth methods (b.log (.journal caller call true)) := by
  refine ⟨hb.failing, fun caller' call' hmem => ?_⟩
  rcases List.mem_append.1 hmem with hold | hnew
  · exact hb.made caller' call' hold
  · rw [List.mem_singleton] at hnew
    cases hnew

/-- A read that goes well is of a kind that does not fail. -/
theorem smooth_read {α : Type} {call : JournalCall} {m : JournalMethod} {f : Ledger → α} {x : α}
    (hb : Smooth methods b) (h : b.read call m f = (b', .ok x)) :
    Smooth methods b' ∧ m ∉ methods := by
  unfold read at h
  by_cases hm : m ∈ b.storage.failing
  · rw [Storage.permit, if_pos hm] at h
    cases h
  · rw [Storage.permit, if_neg hm] at h
    cases h
    exact ⟨smooth_log hb _ _, hb.failing ▸ hm⟩

theorem failing_write (st : Storage) (e : Entry) : (st.write e).1.failing = st.failing := by
  unfold Storage.write
  cases st.permitWrite e.method with
  | error err => rfl
  | ok _ => cases hfile : st.file <;> simp

theorem smooth_pruneAll {rs : List Record} (hb : Smooth methods b)
    (h : b.pruneAll rs = (b', .ok ())) : Smooth methods b' := by
  induction rs generalizing b with
  | nil =>
    cases h
    exact hb
  | cons r rest ih =>
    simp only [pruneAll, write] at h
    have hfailing := failing_write b.storage (.prune r.address r.sequence)
    generalize b.storage.write (.prune r.address r.sequence) = w at h hfailing
    obtain ⟨st, written⟩ := w
    cases written with
    | error e => cases h
    | ok _ =>
      refine ih (smooth_log ?_ .inline _) h
      exact ⟨hfailing.trans hb.failing, hb.made⟩

theorem smooth_loadAddress {capacity : Nat} {a : Address} (hb : Smooth methods b)
    (h : b.loadAddress 0 capacity a = (b', .ok ())) : Smooth methods b' ∧ .load ∉ methods := by
  unfold loadAddress at h
  rcases hread : b.readRecords a with ⟨b₁, read⟩
  rw [hread] at h
  cases read with
  | error e => cases h
  | ok records =>
    obtain ⟨hb₁, hpermitted⟩ := smooth_read hb hread
    have hopened : Smooth methods (b₁.openCache (.office 0 a) a capacity) := by
      unfold openCache
      split <;> exact ⟨hb₁.failing, hb₁.made⟩
    dsimp only at h
    rcases hprune : (b₁.openCache (.office 0 a) a capacity).pruneAll
      (Cache.surplus capacity records) with ⟨b₂, pruned⟩
    rw [hprune] at h
    cases pruned with
    | error e => cases h
    | ok _ =>
      have hb₂ := smooth_pruneAll hopened hprune
      cases h
      exact ⟨⟨hb₂.failing, hb₂.made⟩, hpermitted⟩

theorem smooth_loadAll {capacity : Nat} {as : List Address} (hb : Smooth methods b)
    (h : b.loadAll 0 capacity as = (b', .ok ())) :
    Smooth methods b' ∧ (as ≠ [] → .load ∉ methods) := by
  induction as generalizing b with
  | nil =>
    cases h
    exact ⟨hb, fun hne => absurd rfl hne⟩
  | cons a rest ih =>
    simp only [loadAll] at h
    rcases hload : b.loadAddress 0 capacity a with ⟨c, loaded⟩
    rw [hload] at h
    cases loaded with
    | error e => cases h
    | ok _ =>
      obtain ⟨hc, hpermitted⟩ := smooth_loadAddress hb hload
      exact ⟨(ih hc h).1, fun _ => hpermitted⟩

/-- The kinds of calls that a start reads a ledger with do not fail. -/
structure Readable (methods : List JournalMethod) (l : Ledger) : Prop where
  addresses : .addresses ∉ methods
  load : l.addresses ≠ [] → .load ∉ methods
  prepared : .prepared ∉ methods

theorem smooth_load {capacity : Nat} {ps : List PreparedRecord} (hb : Smooth methods b)
    (h : b.load 0 capacity = (b', .ok ps)) :
    Smooth methods b' ∧ Readable methods b.storage.ledger := by
  unfold load at h
  rcases hread : b.readAddresses with ⟨b₁, read⟩
  rw [hread] at h
  cases read with
  | error e => cases h
  | ok addresses =>
    obtain ⟨hb₁, haddresses⟩ := smooth_read hb hread
    obtain ⟨-, -, rfl⟩ := read_ok (fun e he => by cases he) hread
    dsimp only at h
    rcases hload : b₁.loadAll 0 capacity b.storage.ledger.addresses with ⟨b₂, loaded⟩
    rw [hload] at h
    cases loaded with
    | error e => cases h
    | ok _ =>
      obtain ⟨hb₂, hpermitted⟩ := smooth_loadAll hb₁ hload
      obtain ⟨hb', hprepared⟩ := smooth_read hb₂ h
      exact ⟨hb', haddresses, hpermitted, hprepared⟩

theorem trace_recoverBranch (b : Broker) (branch : Xid × List Record) :
    (recoverBranch 0 b branch).trace = b.trace ∧
      (recoverBranch 0 b branch).storage = b.storage := by
  have hrecords : ∀ (rs : List Record) (t : Nat) (c : Broker),
      (rs.foldl (recoverRecord 0 t) c).trace = c.trace ∧
        (rs.foldl (recoverRecord 0 t) c).storage = c.storage := by
    intro rs t
    induction rs with
    | nil => exact fun c => ⟨rfl, rfl⟩
    | cons r rest ih =>
      intro c
      obtain ⟨htrace, hstorage⟩ := ih (recoverRecord 0 t c r)
      have hframe := recoverRecord_frame t c r
      exact ⟨htrace.trans (by rw [hframe]), hstorage.trans (by rw [hframe])⟩
  exact hrecords branch.2 _ _

theorem smooth_branches {branches : List (Xid × List Record)} (hb : Smooth methods b) :
    Smooth methods (branches.foldl (recoverBranch 0) b) := by
  induction branches generalizing b with
  | nil => exact hb
  | cons branch rest ih =>
    obtain ⟨htrace, hstorage⟩ := trace_recoverBranch b branch
    exact ih ⟨hstorage ▸ hb.failing, htrace ▸ hb.made⟩

/-- A start that succeeds has made all its journal calls. -/
theorem smooth_start {k : Nat} (hpersist : s.persistIdCache = true ∧ s.duplicateDetection = true)
    (h : ({ mailboxes, storage } : Broker).start s = (b, .ok k)) :
    Smooth storage.failing b ∧ Readable storage.failing storage.ledger := by
  obtain ⟨c, ps, hload, rfl⟩ := start_ok hpersist h
  have hfresh : Smooth storage.failing ({ mailboxes, storage } : Broker) :=
    ⟨rfl, fun _ _ hmem => by cases hmem⟩
  obtain ⟨hc, hreadable⟩ := smooth_load hfresh hload
  exact ⟨smooth_branches ⟨hc.failing, hc.made⟩, hreadable⟩

/-- A start on a journal in which a call has failed is refused for that. -/
theorem refused_start {result : Except RoutingError Nat}
    (hpersist : s.persistIdCache = true ∧ s.duplicateDetection = true)
    (h : ({ mailboxes, storage } : Broker).start s = (b, result)) {caller : JournalCaller}
    {call : JournalCall} (hfailed : .journal caller call false ∈ b.trace) :
    ∃ e, result = .error (.persistence e) := by
  rcases start_outcomes hpersist h with ⟨_, e, -, hresult, -⟩ | ⟨_, _, -, rfl, -⟩
  · exact ⟨e, hresult⟩
  · exact absurd hfailed ((smooth_start hpersist h).1.made caller call)

/-! ## Starts that can prune -/

theorem read_of_permitted {α : Type} {call : JournalCall} {m : JournalMethod} {f : Ledger → α}
    (hm : m ∉ b.storage.failing) :
    b.read call m f = (b.log (.journal .inline call true), .ok (f b.storage.ledger)) := by
  rw [read, Storage.permit, if_neg hm]
  rfl

/-- There is nothing to prune for caches of that capacity, or prunes do not fail. -/
def Prunable (capacity : Nat) (st : Storage) : Prop :=
  (∀ a, (st.ledger.records a).length ≤ capacity) ∨ st.Takes .prune

/-- Prunes go well, and prunes to come will. -/
theorem pruneAll_of_prunable {capacity : Nat} {a : Address} (h : Prunable capacity b.storage) :
    ∃ b', b.pruneAll (Cache.surplus capacity (b.storage.ledger.records a)) = (b', .ok ()) ∧
      b'.storage.failing = b.storage.failing ∧ Prunable capacity b'.storage := by
  have hall : ∀ (rs : List Record) (b : Broker), b.storage.Takes .prune →
      ∃ b', b.pruneAll rs = (b', .ok ()) ∧ b'.storage.failing = b.storage.failing ∧
        b'.storage.Takes .prune := by
    intro rs
    induction rs with
    | nil => exact fun b htakes => ⟨b, rfl, rfl, htakes⟩
    | cons r rest ih =>
      intro b htakes
      let e : Entry := .prune r.address r.sequence
      have hok : (b.write .inline e).2 = .ok () := (Storage.write_of_takes (e := e) htakes).1
      obtain ⟨b', hb', hfailing, htakes'⟩ := ih (b.write .inline e).1 (Storage.takes_write htakes e)
      refine ⟨b', ?_, hfailing.trans (failing_write ..), htakes'⟩
      rw [pruneAll, show b.write .inline (.prune r.address r.sequence) = (_, .ok ()) from
        Prod.ext rfl hok]
      exact hb'
  rcases h with hfits | htakes
  · rw [Ledger.surplus_records (hfits a)]
    exact ⟨b, rfl, rfl, .inl hfits⟩
  · obtain ⟨b', hb', hfailing, htakes'⟩ := hall _ b htakes
    exact ⟨b', hb', hfailing, .inr htakes'⟩

theorem loadAddress_of_prunable {capacity : Nat} {a : Address} (hload : .load ∉ b.storage.failing)
    (h : Prunable capacity b.storage) :
    ∃ b', b.loadAddress 0 capacity a = (b', .ok ()) ∧ b'.storage.failing = b.storage.failing ∧
      Prunable capacity b'.storage := by
  have hopened : ((b.log (.journal .inline (.load a) true)).openCache (.office 0 a) a
      capacity).storage = b.storage := by
    unfold openCache
    split <;> rfl
  obtain ⟨c, hc, hfailing, hprunable⟩ := pruneAll_of_prunable (a := a) (hopened ▸ h)
  rw [hopened] at hc hfailing
  have hloaded : b.loadAddress 0 capacity a =
      (c.setCache (.office 0 a) ((c.cache (.office 0 a)).load (b.storage.ledger.records a)),
        .ok ()) := by
    rw [loadAddress, readRecords, read_of_permitted hload]
    dsimp only
    rw [hc]
  exact ⟨_, hloaded, hfailing, hprunable⟩

theorem loadAll_of_prunable {capacity : Nat} {as : List Address}
    (hload : as ≠ [] → .load ∉ b.storage.failing) (h : Prunable capacity b.storage) :
    ∃ b', b.loadAll 0 capacity as = (b', .ok ()) ∧ b'.storage.failing = b.storage.failing := by
  induction as generalizing b with
  | nil => exact ⟨b, rfl, rfl⟩
  | cons a rest ih =>
    have hpermitted := hload (List.cons_ne_nil a rest)
    obtain ⟨c, hc, hfailing, hprunable⟩ := loadAddress_of_prunable (a := a) hpermitted h
    obtain ⟨b', hb', hsame⟩ := ih (fun _ => hfailing ▸ hpermitted) hprunable
    exact ⟨b', by rw [loadAll, hc]; exact hb', hsame.trans hfailing⟩

/-- A start succeeds if it can read the journal, and prune it where it has to. -/
theorem start_of_prunable (mailboxes : Table String Mailbox)
    (hpersist : s.persistIdCache = true ∧ s.duplicateDetection = true)
    (hreadable : Readable storage.failing storage.ledger)
    (h : Prunable s.idCacheCapacity storage) :
    ∃ b, ({ mailboxes, storage } : Broker).start s = (b, .ok 0) := by
  obtain ⟨c, hc, hfailing⟩ := loadAll_of_prunable
    (b := ({ mailboxes, storage } : Broker).log (.journal .inline .addresses true))
    hreadable.load h
  have hprepared : .prepared ∉ c.storage.failing := by
    rw [hfailing]
    exact hreadable.prepared
  have hload : ({ mailboxes, storage } : Broker).load 0 s.idCacheCapacity =
      (c.log (.journal .inline .prepared true), .ok c.storage.ledger.preparedRecords) := by
    rw [load, readAddresses, read_of_permitted hreadable.addresses]
    dsimp only
    rw [hc]
    exact read_of_permitted hprepared
  unfold start
  rw [if_pos (by simp [hpersist]), openPersistent]
  simp only [List.length_nil, hload]
  exact ⟨_, rfl⟩

/-- A start finds what the start before has left, and shows the same, as long as it has as much
room. -/
theorem started_again {k : Nat} (hpersist : s.persistIdCache = true ∧ s.duplicateDetection = true)
    (hordered : Ledger.Ordered storage.ledger.committed)
    (h : ({ mailboxes, storage } : Broker).start s = (b, .ok k)) {s₂ : Settings}
    (hpersist₂ : s₂.persistIdCache = true ∧ s₂.duplicateDetection = true)
    (hroom : s.idCacheCapacity ≤ s₂.idCacheCapacity) (mailboxes₂ : Table String Mailbox) :
    ∃ b₂, ({ mailboxes := mailboxes₂, storage := b.storage } : Broker).start s₂ = (b₂, .ok 0) ∧
      ∀ a, (b₂.cache (.office 0 a)).visibleIds = (b.cache (.office 0 a)).visibleIds ∧
        b₂.storage.ledger.records a = b.storage.ledger.records a := by
  have hordered₂ := (begun_start hpersist hordered h).1.ordered
  obtain ⟨hsmooth, hreadable⟩ := smooth_start hpersist h
  have hnewest := newest_start hpersist hordered h
  have hfits : ∀ a, (b.storage.ledger.records a).length ≤ s₂.idCacheCapacity := by
    intro a
    rw [(hnewest a).2]
    exact Nat.le_trans (Ledger.length_newest_le ..) hroom
  have hreadable₂ : Readable b.storage.failing b.storage.ledger := by
    rw [hsmooth.failing]
    refine ⟨hreadable.addresses, fun hne => hreadable.load ?_, hreadable.prepared⟩
    obtain ⟨a, ha⟩ := List.exists_mem_of_ne_nil _ hne
    intro hnil
    apply Ledger.records_ne_nil ha
    rw [(hnewest a).2, Ledger.newest, Ledger.records_of_not_mem (by simp [hnil]), List.drop_nil]
  obtain ⟨b₂, hb₂⟩ := start_of_prunable mailboxes₂ hpersist₂ hreadable₂ (.inl hfits)
  refine ⟨b₂, hb₂, fun a => ?_⟩
  obtain ⟨hvisible, hrecords⟩ := newest_start hpersist₂ hordered₂ hb₂ a
  rw [Ledger.newest_of_length_le (hfits a)] at hvisible hrecords
  rw [hvisible, hrecords, (hnewest a).1, (hnewest a).2]
  exact ⟨rfl, rfl⟩

/-- A journal file that has been opened can be started on: its newest records are shown if the start
succeeds, and are still there if it does not. -/
theorem newest_openFile {st : Storage} {n : Nat} {result : Except RoutingError Nat}
    (hpersist : s.persistIdCache = true ∧ s.duplicateDetection = true)
    (hopen : st.openFile = (storage, .ok n))
    (h : ({ mailboxes, storage } : Broker).start s = (b, result)) (a : Address) :
    (∀ k, result = .ok k →
      (b.cache (.office 0 a)).visibleIds =
          (storage.ledger.newest s.idCacheCapacity a).map (·.duplicateId) ∧
        b.storage.ledger.records a = storage.ledger.newest s.idCacheCapacity a) ∧
      ∀ r ∈ storage.ledger.newest s.idCacheCapacity a, r ∈ b.storage.ledger.committed := by
  obtain ⟨entries, hwritten⟩ := entries_openFile hopen
  have hordered := Ledger.ordered_of_entries hwritten
  refine ⟨?_, fun r => kept_start hpersist hordered h⟩
  rintro k rfl
  exact newest_start hpersist hordered h a

/-! ## All of it -/

/-- A start on any journal: it holds what the entries written to it amount to, in memory or on a
file that has been opened (`entries_openFile`). If the start succeeds, each address shows the
identifiers of its newest committed records, as many as there is room for, in the order of their
sequences; the journal holds these records and no others, and a later start with as much room or
more shows the same and leaves the journal as it is. If a prune fails, the start fails for it.
Whatever comes of the start, none of the newest records has been removed. -/
theorem restart_newest (hpersist : s.persistIdCache = true ∧ s.duplicateDetection = true)
    (entries : List Entry) (hwritten : storage.ledger = ({} : Ledger).applyAll entries)
    {result : Except RoutingError Nat}
    (h : ({ mailboxes, storage } : Broker).start s = (b, result)) :
    (∀ a, (storage.ledger.records a).Pairwise fun r r' => r.sequence < r'.sequence) ∧
      (∀ k, result = .ok k → ∀ a,
        (b.cache (.office 0 a)).visibleIds =
            (storage.ledger.newest s.idCacheCapacity a).map (·.duplicateId) ∧
          b.storage.ledger.records a = storage.ledger.newest s.idCacheCapacity a) ∧
      (∀ k, result = .ok k → ∀ s₂ : Settings,
        s₂.persistIdCache = true ∧ s₂.duplicateDetection = true →
        s.idCacheCapacity ≤ s₂.idCacheCapacity → ∀ mailboxes₂, ∃ b₂,
          ({ mailboxes := mailboxes₂, storage := b.storage } : Broker).start s₂ = (b₂, .ok 0) ∧
            ∀ a, (b₂.cache (.office 0 a)).visibleIds = (b.cache (.office 0 a)).visibleIds ∧
              b₂.storage.ledger.records a = b.storage.ledger.records a) ∧
      (∀ a n, .journal .inline (.write (.prune a n)) false ∈ b.trace →
        ∃ e, result = .error (.persistence e)) ∧
      ∀ a, ∀ r ∈ storage.ledger.newest s.idCacheCapacity a, r ∈ b.storage.ledger.committed := by
  have hordered := Ledger.ordered_of_entries hwritten
  refine ⟨Ledger.sorted_records hordered, ?_, ?_, fun a n => refused_start hpersist h,
    fun a r => kept_start hpersist hordered h⟩
  · rintro k rfl
    exact newest_start hpersist hordered h
  · rintro k rfl s₂ hpersist₂ hroom mailboxes₂
    exact started_again hpersist hordered h hpersist₂ hroom mailboxes₂

/-- A journal with two records more than a post office has room for that remembers two. -/
def crowdedStorage : Storage where
  memory := ({} : Ledger).applyAll
    [.add ⟨⟨"invoices"⟩, 1, [1]⟩, .add ⟨⟨"invoices"⟩, 2, [2]⟩, .add ⟨⟨"invoices"⟩, 3, [3]⟩,
      .add ⟨⟨"orders"⟩, 7, [1]⟩, .add ⟨⟨"orders"⟩, 9, [2]⟩, .add ⟨⟨"orders"⟩, 4, [3]⟩]

/-- The second prune goes wrong by itself. -/
def secondPruneFails : Storage := { crowdedStorage with lapses := [none, some .prune] }

theorem restart_newest_crowded :
    let b := (({ storage := crowdedStorage } : Broker).start (laterSettings 2)).1
    let failed := (({ storage := secondPruneFails } : Broker).start (laterSettings 2)).1
    let orders : Address := ⟨"orders"⟩
    ((b.cache (.office 0 orders)).visibleIds = [[1], [2]] ∧
        b.storage.ledger.records orders = [⟨orders, 7, [1]⟩, ⟨orders, 9, [2]⟩] ∧
        ∃ b₂, ({ storage := b.storage } : Broker).start (laterSettings 5) = (b₂, .ok 0) ∧
          (b₂.cache (.office 0 orders)).visibleIds = (b.cache (.office 0 orders)).visibleIds) ∧
      (∃ e, (({ storage := secondPruneFails } : Broker).start (laterSettings 2)).2 =
          .error (.persistence e)) ∧
      (⟨orders, 7, [1]⟩ : Record) ∈ failed.storage.ledger.committed := by
  have hstart : ({ storage := crowdedStorage } : Broker).start (laterSettings 2) =
      ((({ storage := crowdedStorage } : Broker).start (laterSettings 2)).1, .ok 0) := by
    decide +kernel
  obtain ⟨-, hok, hagain, -, -⟩ := restart_newest (s := laterSettings 2) (by decide) _ rfl hstart
  obtain ⟨hvisible, hrecords⟩ := hok 0 rfl ⟨"orders"⟩
  obtain ⟨b₂, hb₂, hsame⟩ := hagain 0 rfl (laterSettings 5) (by decide) (by decide) {}
  have hfailing : ({ storage := secondPruneFails } : Broker).start (laterSettings 2) = (_, _) := rfl
  obtain ⟨-, -, -, hfailed, hkept⟩ :=
    restart_newest (s := laterSettings 2) (by decide) _ rfl hfailing
  refine ⟨⟨hvisible.trans (by decide +kernel), hrecords.trans (by decide +kernel), b₂, hb₂,
    (hsame _).1⟩, hfailed ⟨"orders"⟩ 4 (by decide +kernel), hkept ⟨"orders"⟩ _ (by decide +kernel)⟩

end Broker

end MessageRouting
