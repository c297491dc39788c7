import MessageRouting.Broker.Opening
import MessageRouting.Proofs.Cache.Filling
import MessageRouting.Proofs.Persistence.PreparedRecords
import MessageRouting.Proofs.Stage.Custody

/-!
# What a start finds

A post office that keeps its identifiers in the journal begins with what the
journal holds. Its caches take in the newest records and the journal is rid of
the others, so that journal and caches agree; each prepared branch is a
prepared transaction again, with a stage for each of its records.

Results:

* `LoadingKeeps.load`: loading the caches keeps what each of its steps keeps.
* `begun_start`: journal, caches and branches agree after a start.
-/

namespace MessageRouting

namespace Cache

/-! ## Stages from before -/

theorem keyOf_recover (c : Cache) (r : Record) (owner : Owner) (t : Staged) :
    (c.recover r owner).2.keyOf t = if r.duplicateId = t.duplicateId then none else c.keyOf t := by
  have hget := Table.get?_insert c.pending r.duplicateId t.duplicateId ⟨owner, r.sequence, none⟩
  simp only [keyOf, pendingOf?, recover, passSequence, hget]
  by_cases hid : r.duplicateId = t.duplicateId
  · rw [if_pos hid, if_pos hid]
    dsimp only
    split <;> rfl
  · rw [if_neg hid, if_neg hid]

theorem keyed_recover {c : Cache} (hc : Keyed c) (r : Record) (owner : Owner) :
    Keyed (c.recover r owner).2 := by
  have hvisible : (c.recover r owner).2.visible = c.visible := rfl
  apply hc.mono hvisible (Nat.le_max_left ..)
  intro t key ht
  rw [keyOf_recover] at ht
  split at ht
  · cases ht
  · exact ht

end Cache

/-! ## The addresses of a ledger -/

namespace Ledger

theorem mem_distinctAddresses {a : Address} {l : List Address} :
    a ∈ distinctAddresses l ↔ a ∈ l := by
  fun_induction distinctAddresses l with
  | case1 => rfl
  | case2 b => rfl
  | case3 b rest ih =>
    rw [ih]
    simp
  | case4 b c rest hne ih => simp only [List.mem_cons, ih]

/-- Addresses in order, runs of equal ones cut down to one, are all different. -/
theorem nodup_distinctAddresses {l : List Address}
    (h : l.Pairwise fun a b => a = b ∨ a.before b = true) : (distinctAddresses l).Nodup := by
  fun_induction distinctAddresses l with
  | case1 => exact List.nodup_nil
  | case2 a => exact List.nodup_singleton a
  | case3 b rest ih => exact ih (List.pairwise_cons.1 h).2
  | case4 a b rest hne ih =>
    obtain ⟨ha, hrest⟩ := List.pairwise_cons.1 h
    have hab : a.before b = true := (ha b (by simp)).resolve_left hne
    apply List.nodup_cons.2 ⟨fun hmem => ?_, ih hrest⟩
    rcases List.mem_cons.1 (mem_distinctAddresses.1 hmem) with heq | hmem
    · exact hne heq
    · rcases (List.pairwise_cons.1 hrest).1 a hmem with heq | hba
      · exact hne heq.symm
      · have haa := Address.before_trans hab hba
        rw [Address.before_irrefl] at haa
        cases haa

theorem nodup_addresses {l : Ledger} (h : Ordered l.committed) : l.addresses.Nodup := by
  apply nodup_distinctAddresses
  apply List.pairwise_map.2
  apply List.Pairwise.imp _ h
  intro r s hrs
  unfold Record.before at hrs
  by_cases heq : r.address = s.address
  · exact Or.inl heq
  · rw [if_neg heq] at hrs
    exact Or.inr hrs

theorem mem_addresses {l : Ledger} {r : Record} (h : r ∈ l.committed) : r.address ∈ l.addresses :=
  mem_distinctAddresses.2 (List.mem_map_of_mem h)

/-- The records of an address stand at different sequences. -/
theorem sequence_ne_of_records {l : Ledger} (h : Ordered l.committed) (a : Address) :
    (l.records a).Pairwise fun r s => r.sequence ≠ s.sequence := by
  have hrecords : Ordered (l.records a) := h.filter _
  apply List.Pairwise.imp_of_mem _ hrecords
  intro r s hr hs hrs hseq
  have hra : r.address = a := by simpa using (List.mem_filter.1 hr).2
  have hsa : s.address = a := by simpa using (List.mem_filter.1 hs).2
  rw [Record.before, if_pos (hra.trans hsa.symm), decide_eq_true_eq] at hrs
  omega

end Ledger

namespace Broker

variable {b b' : Broker}

/-! ## What loading keeps -/

/-- Each step in which a post office loads its caches keeps `P`. -/
structure LoadingKeeps (P : Broker → Prop) (n capacity : Nat) : Prop where
  reads : ∀ {α : Type} (b : Broker) {call : JournalCall} (m : JournalMethod) (f : Ledger → α),
    (∀ e, call ≠ .write e) → P b → P (b.read call m f).1
  prunes : ∀ (b : Broker) (r : Record), P b → P (b.write .inline (.prune r.address r.sequence)).1
  opens : ∀ (b : Broker) (a : Address), P b → P (b.openCache (.office n a) a capacity)
  fills : ∀ (b : Broker) (a : Address) (rs : List Record), P b →
    P (b.setCache (.office n a) ((b.cache (.office n a)).load rs))

namespace LoadingKeeps

variable {P : Broker → Prop} {n capacity : Nat}

theorem pruneAll (h : LoadingKeeps P n capacity) (rs : List Record) (hb : P b) :
    P (b.pruneAll rs).1 := by
  induction rs generalizing b with
  | nil => exact hb
  | cons r rest ih =>
    have hwritten := h.prunes b r hb
    simp only [Broker.pruneAll]
    rcases hw : b.write .inline (.prune r.address r.sequence) with ⟨c, result⟩
    rw [hw] at hwritten
    cases result with
    | error e => exact hwritten
    | ok _ => exact ih hwritten

theorem loadAddress (h : LoadingKeeps P n capacity) (a : Address) (hb : P b) :
    P (b.loadAddress n capacity a).1 := by
  have hread : P (b.readRecords a).1 := h.reads b _ _ (fun e he => by cases he) hb
  unfold Broker.loadAddress
  rcases hr : b.readRecords a with ⟨c, result⟩
  rw [hr] at hread
  cases result with
  | error e => exact hread
  | ok records =>
    have hpruned := h.pruneAll (Cache.surplus capacity records) (h.opens c a hread)
    dsimp only
    rcases hp : (c.openCache (.office n a) a capacity).pruneAll
      (Cache.surplus capacity records) with ⟨d, result⟩
    rw [hp] at hpruned
    cases result with
    | error e => exact hpruned
    | ok _ => exact h.fills d a records hpruned

theorem loadAll (h : LoadingKeeps P n capacity) (as : List Address) (hb : P b) :
    P (b.loadAll n capacity as).1 := by
  induction as generalizing b with
  | nil => exact hb
  | cons a rest ih =>
    have hloaded := h.loadAddress a hb
    simp only [Broker.loadAll]
    rcases hl : b.loadAddress n capacity a with ⟨c, result⟩
    rw [hl] at hloaded
    cases result with
    | error e => exact hloaded
    | ok _ => exact ih hloaded

/-- Loading the caches keeps what its steps keep, wherever it fails. -/
theorem load (h : LoadingKeeps P n capacity) (hb : P b) : P (b.load n capacity).1 := by
  have hread : P b.readAddresses.1 := h.reads b _ _ (fun e he => by cases he) hb
  unfold Broker.load
  rcases hr : b.readAddresses with ⟨c, result⟩
  rw [hr] at hread
  cases result with
  | error e => exact hread
  | ok addresses =>
    have hloaded := h.loadAll addresses hread
    dsimp only
    rcases hl : c.loadAll n capacity addresses with ⟨d, result⟩
    rw [hl] at hloaded
    cases result with
    | error e => exact hloaded
    | ok _ => exact h.reads d _ _ (fun e he => by cases he) hloaded

end LoadingKeeps

/-! ## Loading -/

/-- Pruning records that goes well takes them out of the journal, and does nothing else. -/
theorem pruneAll_ok {rs : List Record} (h : b.pruneAll rs = (b', .ok ())) :
    Logs b b' (rs.map fun r => .prune r.address r.sequence) [] ∧
      b' = { b with storage := b'.storage, trace := b'.trace } := by
  induction rs generalizing b with
  | nil =>
    cases h
    exact ⟨.refl _, rfl⟩
  | cons r rest ih =>
    simp only [pruneAll] at h
    rcases hw : b.write .inline (.prune r.address r.sequence) with ⟨c, result⟩
    rw [hw] at h
    cases result with
    | error e => cases h
    | ok _ =>
      have hc : c = { b with storage := c.storage, trace := c.trace } := by
        obtain rfl := congrArg Prod.fst hw
        rfl
      obtain ⟨hlogs, heq⟩ := ih h
      rcases logs_write hw with ⟨-, hfirst⟩ | ⟨⟨err, herr⟩, -⟩
      · refine ⟨hfirst.trans hlogs, ?_⟩
        rw [heq, hc]
      · cases herr

/-- The caches of some addresses have been filled from the journal `s`, and the journal is rid of
what they had no room for. -/
structure Filling (s : Storage) (capacity : Nat) (as : List Address) (b : Broker) : Prop where
  offices : b.offices = []
  transactions : b.transactions = []
  waiting : b.waiting = []
  ready : b.ready = []
  takes : ∀ m, s.Takes m → b.storage.Takes m
  unadded : ∀ r, .add r ∉ b.writes
  prepared : b.storage.ledger.prepared = s.ledger.prepared
  ordered : Ledger.Ordered b.storage.ledger.committed
  kept : ∀ r ∈ b.storage.ledger.committed, r ∈ s.ledger.committed
  untouched : ∀ a, a ∉ as → b.storage.ledger.records a = s.ledger.records a
  filled : ∀ ref c, b.caches.get? ref = some c ↔ ∃ a ∈ as, ref = .office 0 a ∧
    c = ({ address := a, capacity } : Cache).load (s.ledger.records a)
  mirror : ∀ a ∈ as, ∀ k id,
    ⟨a, k, id⟩ ∈ b.storage.ledger.committed ↔ (k, id) ∈ (b.cache (.office 0 a)).visible

/-- What is known of a cache that has been filled. -/
theorem Filling.loaded {s : Storage} {capacity : Nat} {as : List Address}
    (hb : Filling s capacity as b) (hs : Ledger.Ordered s.ledger.committed) {ref : CacheRef}
    {c : Cache} (hc : b.caches.get? ref = some c) :
    ∃ a ∈ as, ref = .office 0 a ∧ c.address = a ∧ c.pending = {} ∧ c.Keyed := by
  obtain ⟨a, ha, href, rfl⟩ := (hb.filled ref c).1 hc
  obtain ⟨hkeyed, haddress, hpending, -⟩ := Cache.mem_load (c := { address := a, capacity }) rfl rfl
    (Ledger.sequence_ne_of_records hs a)
  exact ⟨a, ha, href, haddress, hpending, hkeyed⟩

/-- A read that goes well finds what is in the ledger. -/
theorem read_ok {α : Type} {call : JournalCall} {m : JournalMethod} {f : Ledger → α} {x : α}
    (hcall : ∀ e, call ≠ .write e) (h : b.read call m f = (b', .ok x)) :
    Logs b b' [] [] ∧ b' = { b with trace := b'.trace } ∧ x = f b.storage.ledger := by
  unfold read at h
  cases hpermit : b.storage.permit m with
  | error e =>
    rw [hpermit] at h
    cases h
  | ok _ =>
    rw [hpermit] at h
    cases h
    refine ⟨logs_log b ?_, rfl, rfl⟩
    cases call with
    | write e => exact absurd rfl (hcall e)
    | _ => rfl

theorem filling_read {s : Storage} {capacity : Nat} {as : List Address} {α : Type}
    {call : JournalCall} {m : JournalMethod} {f : Ledger → α} {x : α}
    (hb : Filling s capacity as b) (hcall : ∀ e, call ≠ .write e)
    (h : b.read call m f = (b', .ok x)) : Filling s capacity as b' ∧ x = f b'.storage.ledger := by
  obtain ⟨hlogs, heq, rfl⟩ := read_ok hcall h
  rw [heq]
  refine ⟨⟨hb.offices, hb.transactions, hb.waiting, hb.ready, hb.takes, fun r hr => ?_,
    hb.prepared, hb.ordered, hb.kept, hb.untouched, hb.filled, hb.mirror⟩, rfl⟩
  have hwrites := hlogs.writes
  rw [heq, List.append_nil] at hwrites
  exact hb.unadded r (hwrites ▸ hr)

/-- A cache that has been filled and a journal that is rid of the surplus show the same records. -/
theorem mirror_load {l l' : Ledger} {a : Address} {capacity : Nat} (hl : Ledger.Ordered l.committed)
    (hl' : ∀ r, r ∈ l'.committed ↔ r ∈ l.committed ∧
      ∀ s ∈ Cache.surplus capacity (l.records a), ¬ (r.address = a ∧ r.sequence = s.sequence))
    (k : Nat) (id : Bytes) : ⟨a, k, id⟩ ∈ l'.committed ↔
      ∃ r ∈ Cache.retained capacity (l.records a), (k, id) = (r.sequence, r.duplicateId) := by
  have hperm := Cache.surplus_retained capacity (l.records a)
  have hapart : ∀ s ∈ Cache.surplus capacity (l.records a),
      ∀ r ∈ Cache.retained capacity (l.records a), s.sequence ≠ r.sequence := by
    have hne := hperm.symm.pairwise (Ledger.sequence_ne_of_records hl a) fun h => Ne.symm h
    exact (List.pairwise_append.1 hne).2.2
  have haddress : ∀ r ∈ l.records a, r.address = a := by
    intro r hr
    simpa using (List.mem_filter.1 hr).2
  rw [hl']
  constructor
  · rintro ⟨hmem, hnot⟩
    have hrecord : (⟨a, k, id⟩ : Record) ∈ l.records a :=
      List.mem_filter.2 ⟨hmem, by simp⟩
    rcases List.mem_append.1 (hperm.mem_iff.2 hrecord) with hsurplus | hretained
    · exact absurd ⟨rfl, rfl⟩ (hnot _ hsurplus)
    · exact ⟨_, hretained, rfl⟩
  · rintro ⟨r, hr, heq⟩
    cases heq
    have hrecord : r ∈ l.records a := hperm.mem_iff.1 (List.mem_append_right _ hr)
    have hra := haddress r hrecord
    subst hra
    exact ⟨(List.mem_filter.1 hrecord).1, fun s hs hsame => hapart s hs r hr hsame.2.symm⟩

/-- Loading an address that goes well fills its cache with what the journal lists, and prunes what
there is no room for. -/
theorem loadAddress_ok {capacity : Nat} {a : Address}
    (hnone : b.caches.get? (.office 0 a) = none)
    (h : b.loadAddress 0 capacity a = (b', .ok ())) :
    Logs b b' ((Cache.surplus capacity (b.storage.ledger.records a)).map
        fun r => .prune a r.sequence) [] ∧
      b' = { b with storage := b'.storage, trace := b'.trace, caches := b'.caches } ∧
      ∀ ref, b'.caches.get? ref = if .office 0 a = ref then
        some (({ address := a, capacity } : Cache).load (b.storage.ledger.records a))
        else b.caches.get? ref := by
  unfold loadAddress at h
  rcases hread : b.readRecords a with ⟨b₁, result⟩
  rw [hread] at h
  cases result with
  | error e => cases h
  | ok records =>
    obtain ⟨hlogged, heq₁, rfl⟩ := read_ok (fun e he => by cases he) hread
    have hopen : b₁.openCache (.office 0 a) a capacity =
        b₁.setCache (.office 0 a) { address := a, capacity } := by
      unfold openCache
      rw [heq₁, if_neg (by simp [Table.contains, hnone])]
    dsimp only at h
    rw [hopen] at h
    rcases hprune : (b₁.setCache (.office 0 a) { address := a, capacity }).pruneAll
      (Cache.surplus capacity (b.storage.ledger.records a)) with ⟨b₂, result⟩
    rw [hprune] at h
    cases result with
    | error e => cases h
    | ok _ =>
      cases h
      obtain ⟨hpruned, heq₂⟩ := pruneAll_ok hprune
      have hmade : b₂.cache (.office 0 a) = { address := a, capacity } := by
        rw [heq₂]
        exact cache_of_get?_some (by simp [setCache])
      have haddress : ∀ r ∈ Cache.surplus capacity (b.storage.ledger.records a),
          r.address = a := fun r hr => by
        have hrecord := (Cache.surplus_retained ..).mem_iff.1 (List.mem_append_left _ hr)
        simpa using (List.mem_filter.1 hrecord).2
      have hlogs := ((hlogged.trans (logs_setCache b₁ (.office 0 a)
        { address := a, capacity })).trans hpruned).trans (logs_setCache b₂ (.office 0 a)
          (({ address := a, capacity } : Cache).load (b.storage.ledger.records a)))
      rw [hmade]
      refine ⟨?_, ?_, fun ref => ?_⟩
      · rw [List.map_congr_left fun r hr => by rw [haddress r hr]] at hlogs
        simpa only [List.nil_append, List.append_nil] using hlogs
      · rw [heq₂, heq₁]
        rfl
      · rw [heq₂, heq₁]
        simp only [setCache, Table.get?_insert]
        split <;> rfl

/-- Filling one cache more. -/
theorem filling_loadAddress {s : Storage} {as : List Address} {capacity : Nat} {a : Address}
    (hb : Filling s capacity as b) (ha : a ∉ as) (h : b.loadAddress 0 capacity a = (b', .ok ())) :
    Filling s capacity (as ++ [a]) b' := by
  have hnone : b.caches.get? (.office 0 a) = none := by
    rcases hget : b.caches.get? (.office 0 a) with _ | c
    · rfl
    · obtain ⟨a', ha', href, -⟩ := (hb.filled _ _).1 hget
      cases href
      exact absurd ha' ha
  obtain ⟨hlogs, heq, hget⟩ := loadAddress_ok hnone h
  have hcommitted : ∀ r, r ∈ b'.storage.ledger.committed ↔ r ∈ b.storage.ledger.committed ∧
      ∀ s ∈ Cache.surplus capacity (b.storage.ledger.records a),
        ¬ (r.address = a ∧ r.sequence = s.sequence) := fun r => by
    rw [hlogs.ledger]
    exact Ledger.mem_prunes ..
  obtain ⟨-, -, -, hvisible⟩ := Cache.mem_load (c := { address := a, capacity }) rfl rfl
    (Ledger.sequence_ne_of_records hb.ordered a)
  constructor
  case offices => rw [heq]; exact hb.offices
  case transactions => rw [heq]; exact hb.transactions
  case waiting => rw [heq]; exact hb.waiting
  case ready => rw [heq]; exact hb.ready
  case takes => exact fun m hm => hlogs.takes m (hb.takes m hm)
  case unadded =>
    intro r hr
    rw [hlogs.writes] at hr
    rcases List.mem_append.1 hr with hmem | hmem
    · exact hb.unadded r hmem
    · simp at hmem
  case prepared => rw [hlogs.ledger, Ledger.prepared_prunes, hb.prepared]
  case ordered =>
    rw [hlogs.ledger]
    exact Ledger.ordered_applyAll hb.ordered _
  case kept => exact fun r hr => hb.kept r ((hcommitted r).1 hr).1
  case untouched =>
    intro a' ha'
    rw [List.mem_append, List.mem_singleton, not_or] at ha'
    rw [hlogs.ledger, Ledger.records_prunes hb.ordered ha'.2, hb.untouched a' ha'.1]
  case filled =>
    intro ref c
    rw [hget, hb.untouched a ha]
    by_cases href : .office 0 a = ref
    · rw [if_pos href, Option.some.injEq]
      constructor
      · rintro rfl
        exact ⟨a, by simp, href.symm, rfl⟩
      · rintro ⟨a', -, href', rfl⟩
        rw [← href] at href'
        cases href'
        rfl
    · rw [if_neg href, hb.filled]
      constructor
      · rintro ⟨a', ha', hrest⟩
        exact ⟨a', List.mem_append_left _ ha', hrest⟩
      · rintro ⟨a', ha', rfl, hc⟩
        refine ⟨a', (List.mem_append.1 ha').resolve_right fun hmem => href ?_, rfl, hc⟩
        rw [List.mem_singleton.1 hmem]
  case mirror =>
    intro a' ha' k id
    rcases List.mem_append.1 ha' with hold | hnew
    · have hother : a' ≠ a := fun heq => ha (heq ▸ hold)
      have hcache : b'.cache (.office 0 a') = b.cache (.office 0 a') := by
        simp [cache, hget, Ne.symm hother]
      rw [hcache, ← hb.mirror a' hold k id, hcommitted]
      exact ⟨fun h => h.1, fun h => ⟨h, fun s _ hsame => hother hsame.1⟩⟩
    · obtain rfl := List.mem_singleton.1 hnew
      rw [cache_of_get?_some (by rw [hget, if_pos rfl]), hvisible]
      exact mirror_load hb.ordered hcommitted k id

theorem filling_loadAll {s : Storage} {as bs : List Address} {capacity : Nat}
    (hb : Filling s capacity as b) (hnodup : (as ++ bs).Nodup)
    (h : b.loadAll 0 capacity bs = (b', .ok ())) : Filling s capacity (as ++ bs) b' := by
  induction bs generalizing b as with
  | nil =>
    cases h
    rwa [List.append_nil]
  | cons a rest ih =>
    rw [← List.singleton_append, ← List.append_assoc] at hnodup ⊢
    simp only [loadAll] at h
    rcases hload : b.loadAddress 0 capacity a with ⟨c, result⟩
    rw [hload] at h
    cases result with
    | error e => cases h
    | ok _ =>
      have ha : a ∉ as := by
        intro hmem
        have hapart := (List.nodup_append.1 (List.nodup_append.1 hnodup).1).2.2
        exact hapart a hmem a (by simp) rfl
      exact ih (filling_loadAddress hb ha hload) hnodup h

/-- Before anything is loaded no cache has been filled. -/
theorem filling_fresh {mailboxes : Table String Mailbox} {s : Storage} {capacity : Nat}
    (hs : Ledger.Ordered s.ledger.committed) :
    Filling s capacity [] { mailboxes, storage := s } := by
  refine ⟨rfl, rfl, rfl, rfl, fun m hm => hm, ?_, rfl, hs, fun r hr => hr, fun a _ => rfl, ?_, ?_⟩
  · intro r hr
    cases hr
  · intro ref c
    constructor
    · intro hc
      cases hc
    · rintro ⟨a, ha, -⟩
      cases ha
  · intro a ha
    cases ha

/-- Loading that goes well leaves caches and journal with the same records. -/
theorem filling_load {mailboxes : Table String Mailbox} {s : Storage} {capacity : Nat}
    {ps : List PreparedRecord} (hs : Ledger.Ordered s.ledger.committed)
    (h : ({ mailboxes, storage := s } : Broker).load 0 capacity = (b, .ok ps)) :
    Filling s capacity s.ledger.addresses b ∧ ps = b.storage.ledger.preparedRecords := by
  unfold load at h
  rcases hread : ({ mailboxes, storage := s } : Broker).readAddresses with ⟨b₁, result⟩
  rw [hread] at h
  cases result with
  | error e => cases h
  | ok addresses =>
    obtain ⟨hb₁, haddresses⟩ := filling_read (filling_fresh hs) (fun e he => by cases he) hread
    have hstorage : b₁.storage = s := by
      obtain rfl := congrArg Prod.fst hread
      rfl
    rw [hstorage] at haddresses
    subst haddresses
    dsimp only at h
    rcases hload : b₁.loadAll 0 capacity s.ledger.addresses with ⟨b₂, result⟩
    rw [hload] at h
    cases result with
    | error e => cases h
    | ok _ =>
      have hb₂ := filling_loadAll hb₁ (Ledger.nodup_addresses hs) hload
      exact filling_read hb₂ (fun e he => by cases he) h

/-! ## Branches from before -/

/-- The stage of a record of a branch, for the transaction of that number. -/
def recovered (t : Nat) (r : Record) : HeldStage :=
  ⟨.office 0 r.address, ⟨r.address, r.duplicateId, r.sequence, .transaction t⟩⟩

/-- A post office has been started, and nothing has happened there yet. -/
structure Begun (mode : PersistenceMode) (b : Broker) : Prop where
  keeping : Keeping mode b
  waiting : b.waiting = []
  ready : b.ready = []
  queue : b.queue = []
  unadded : ∀ r, .add r ∉ b.writes
  addressed : Addressed b
  keyed : AllKeyed b
  unkeyed : Unkeyed b
  ordered : Ledger.Ordered b.storage.ledger.committed
  mirror : ∀ a k id,
    ⟨a, k, id⟩ ∈ b.storage.ledger.committed ↔ (k, id) ∈ (b.cache (.office 0 a)).visible
  prepared : ∀ o ∈ b.outlines, o.state = .prepared
  marked : ∀ o ∈ b.outlines, ∀ h ∈ o.held,
    h.2 = true ∧ h.1.AtOffice ∧ h.1.staged.sequence < b.next h.1.cache

/-- What staging a record again makes of the caches. -/
theorem get?_recoverRecord (t : Nat) (b : Broker) (r : Record) (ref : CacheRef) :
    (recoverRecord 0 t b r).caches.get? ref =
      if .office 0 r.address = ref then
        some (((b.openOfficeCache 0 r.address).cache ref).recover r (.transaction t)).2
      else (b.openOfficeCache 0 r.address).caches.get? ref := by
  have hmodify : ∀ (c : Broker) (f : Transaction → Transaction),
      (c.modifyTransaction t f).caches = c.caches := by
    intro c f
    cases t <;> rfl
  unfold recoverRecord
  dsimp only
  rw [hmodify]
  show (Table.insert _ _ _).get? ref = _
  rw [Table.get?_insert]
  split
  · rename_i href
    rw [href]
  · rfl

theorem cache_recoverRecord (t : Nat) (b : Broker) (r : Record) (ref : CacheRef) :
    (recoverRecord 0 t b r).cache ref =
      if .office 0 r.address = ref then
        (((b.openOfficeCache 0 r.address).cache ref).recover r (.transaction t)).2
      else (b.openOfficeCache 0 r.address).cache ref := by
  rw [cache, get?_recoverRecord]
  split <;> rfl

/-- Staging a record again changes caches and transactions only. -/
theorem recoverRecord_frame (t : Nat) (b : Broker) (r : Record) :
    recoverRecord 0 t b r =
      { b with
        caches := (recoverRecord 0 t b r).caches
        transactions := (recoverRecord 0 t b r).transactions } := by
  have hopen : b.openOfficeCache 0 r.address =
      { b with caches := (b.openOfficeCache 0 r.address).caches } := by
    rcases openOfficeCache_cases b 0 r.address with ⟨-, heq⟩ | ⟨-, heq⟩
    · rw [heq]
    · rw [heq]
      rfl
  unfold recoverRecord
  dsimp only
  rw [hopen]
  cases t <;> rfl

theorem address_opened {b : Broker} (hb : Addressed b) (a : Address) :
    ((b.openOfficeCache 0 a).cache (.office 0 a)).address = a := by
  rcases openOfficeCache_cases b 0 a with ⟨⟨c, hc⟩, heq⟩ | ⟨-, heq⟩
  · rw [heq, cache_of_get?_some hc]
    exact hb a c hc
  · rw [heq, cache_setCache, if_pos rfl]

/-- The outlines after the last transaction has been given the stage of one more record. -/
theorem outlines_recoverRecord {b : Broker} (hb : Addressed b) {os : List Outline} {o : Outline}
    (houtlines : b.outlines = os ++ [o]) (r : Record) :
    (recoverRecord 0 (os.length + 1) b r).outlines =
      os ++ [{ o with held := o.held ++ [(recovered (os.length + 1) r, true)] }] := by
  have haddress := address_opened hb r.address
  have hopened : (b.openOfficeCache 0 r.address).outlines = b.outlines :=
    outlines_of_transactions (transactions_openOfficeCache ..)
  have hlength : b.transactions.length = os.length + 1 := by
    have hlen := congrArg List.length houtlines
    simpa [outlines] using hlen
  have hlast : (b.transaction (os.length + 1)).outline = o := by
    have hget := outline_transaction b os.length
    rw [if_pos (by omega), houtlines] at hget
    simpa using hget.symm
  unfold recoverRecord
  dsimp only
  rw [outlines_modifyTransaction, transaction_of_transactions (b := b)]
  · show ((b.openOfficeCache 0 r.address).outlines).set _ _ = _
    rw [hopened, houtlines, List.set_append_right _ _ (Nat.le_refl _), Nat.sub_self]
    rw [← hlast]
    simp [Transaction.outline, Transaction.slots, Operation.held?, Cache.recover, recovered,
      haddress]
  · exact transactions_openOfficeCache ..

theorem visible_recoverRecord (t : Nat) (b : Broker) (r : Record) (ref : CacheRef) :
    ((recoverRecord 0 t b r).cache ref).visible = (b.cache ref).visible := by
  rw [cache_recoverRecord]
  split <;> exact visible_openOfficeCache ..

/-- A record that is staged again has no commit key. -/
theorem unkeyed_recoverRecord {b : Broker} (hb : Unkeyed b) (t : Nat) (r : Record) :
    Unkeyed (recoverRecord 0 t b r) := unkeyed_iff.2 fun h => by
  have hopened : ((b.openOfficeCache 0 r.address).cache h.cache).keyOf h.staged = none := by
    have hpending := (pending_openOfficeCache b 0 r.address h.cache).1
    have hnone := unkeyed_iff.1 hb h
    simp only [keyOf, Cache.keyOf, Cache.pendingOf?, hpending] at hnone ⊢
    exact hnone
  rw [keyOf, cache_recoverRecord]
  split
  · rw [Cache.keyOf_recover, hopened, ite_self]
  · exact hopened

theorem next_le_recoverRecord (t : Nat) (b : Broker) (r : Record) (ref : CacheRef) :
    b.next ref ≤ (recoverRecord 0 t b r).next ref := by
  apply Nat.le_trans (next_le_of_step (.opened r.address) ref)
  simp only [next, cache_recoverRecord]
  split
  · exact Nat.le_max_left ..
  · exact Nat.le_refl _

theorem addressed_recoverRecord {b : Broker} (hb : Addressed b) (t : Nat) (r : Record) :
    Addressed (recoverRecord 0 t b r) := by
  intro a c hc
  rw [get?_recoverRecord] at hc
  split at hc
  · rename_i href
    cases href
    cases hc
    exact address_opened hb r.address
  · exact addressed_step (.opened r.address) hb a c hc

theorem keyed_recoverRecord {b : Broker} (hb : AllKeyed b) (t : Nat) (r : Record) :
    AllKeyed (recoverRecord 0 t b r) := fun ref => by
  have hopened := keyed_step (.opened r.address) hb ref
  rw [cache_recoverRecord]
  split
  · exact Cache.keyed_recover hopened ..
  · exact hopened

/-- Staging a record again leaves everything as it has to be after a start. -/
theorem begun_recoverRecord {mode : PersistenceMode} {b : Broker} (hb : Begun mode b)
    {os : List Outline} {o : Outline} (houtlines : b.outlines = os ++ [o]) (r : Record) :
    Begun mode (recoverRecord 0 (os.length + 1) b r) := by
  have houtlines' := outlines_recoverRecord hb.addressed houtlines r
  have hframe := recoverRecord_frame (os.length + 1) b r
  have hold : ∀ g ∈ os ++ [o], g ∈ b.outlines := fun g hg => houtlines ▸ hg
  constructor
  case keeping =>
    rw [hframe]
    exact hb.keeping.of_stations rfl
  case waiting => rw [hframe]; exact hb.waiting
  case ready => rw [hframe]; exact hb.ready
  case queue => rw [hframe]; exact hb.queue
  case unadded => rw [hframe]; exact hb.unadded
  case addressed => exact addressed_recoverRecord hb.addressed _ r
  case keyed => exact keyed_recoverRecord hb.keyed _ r
  case unkeyed => exact unkeyed_recoverRecord hb.unkeyed _ r
  case ordered => rw [hframe]; exact hb.ordered
  case mirror =>
    intro a k id
    rw [visible_recoverRecord, ← hb.mirror, hframe]
  case prepared =>
    intro g hg
    rw [houtlines'] at hg
    rcases List.mem_append.1 hg with hg | hg
    · exact hb.prepared g (hold g (List.mem_append_left _ hg))
    · rw [List.mem_singleton.1 hg]
      exact hb.prepared o (hold o (by simp))
  case marked =>
    intro g hg h hh
    have hkept : ∀ g ∈ b.outlines, ∀ h ∈ g.held, h.2 = true ∧ h.1.AtOffice ∧
        h.1.staged.sequence < (recoverRecord 0 (os.length + 1) b r).next h.1.cache := by
      intro g hg h hh
      obtain ⟨hmark, hat, hlt⟩ := hb.marked g hg h hh
      exact ⟨hmark, hat, Nat.lt_of_lt_of_le hlt (next_le_recoverRecord ..)⟩
    rw [houtlines'] at hg
    rcases List.mem_append.1 hg with hg | hg
    · exact hkept g (hold g (List.mem_append_left _ hg)) h hh
    · rw [List.mem_singleton.1 hg] at hh
      rcases List.mem_append.1 hh with hh | hh
      · exact hkept o (hold o (by simp)) h hh
      · rw [List.mem_singleton.1 hh]
        refine ⟨rfl, rfl, ?_⟩
        simp only [recovered, next, cache_recoverRecord, if_pos]
        exact Nat.lt_of_lt_of_le (Nat.lt_succ_self _) (Nat.le_max_right ..)

/-- The last transaction is given the stages of records, one by one. -/
theorem begun_recoverRecords {mode : PersistenceMode} {os : List Outline} {x : Option Xid}
    {st : TransactionState} {held : List (HeldStage × Bool)} {b : Broker} (hb : Begun mode b)
    (houtlines : b.outlines = os ++ [⟨x, st, held⟩]) (rs : List Record) :
    Begun mode (rs.foldl (recoverRecord 0 (os.length + 1)) b) ∧
      (rs.foldl (recoverRecord 0 (os.length + 1)) b).storage = b.storage ∧
      (rs.foldl (recoverRecord 0 (os.length + 1)) b).outlines =
        os ++ [⟨x, st, held ++ rs.map fun r => (recovered (os.length + 1) r, true)⟩] := by
  induction rs generalizing b held with
  | nil => exact ⟨hb, rfl, by simpa using houtlines⟩
  | cons r rest ih =>
    obtain ⟨hbegun, hstorage, hheld⟩ := ih (begun_recoverRecord hb houtlines r)
      (outlines_recoverRecord hb.addressed houtlines r)
    refine ⟨hbegun, hstorage.trans ?_, by simpa using hheld⟩
    rw [recoverRecord_frame]

/-- A branch that begins prepared has no stages yet. -/
theorem begun_addTransaction {mode : PersistenceMode} {b : Broker} (hb : Begun mode b) (x : Xid) :
    Begun mode (b.addTransaction { xid := some x, state := .prepared }) ∧
      (b.addTransaction { xid := some x, state := .prepared }).outlines =
        b.outlines ++ [⟨some x, .prepared, []⟩] := by
  have hadded : (b.addTransaction { xid := some x, state := .prepared }).outlines =
      b.outlines ++ [⟨some x, .prepared, []⟩] := by
    show List.map _ (b.transactions ++ [_]) = _
    rw [List.map_append]
    rfl
  refine ⟨⟨hb.keeping.of_stations rfl, hb.waiting, hb.ready, hb.queue, hb.unadded, hb.addressed,
    hb.keyed, hb.unkeyed, hb.ordered, hb.mirror, fun o ho => ?_, fun o ho h hh => ?_⟩, hadded⟩
  · rw [hadded] at ho
    rcases List.mem_append.1 ho with ho | ho
    · exact hb.prepared o ho
    · rw [List.mem_singleton.1 ho]
  · rw [hadded] at ho
    rcases List.mem_append.1 ho with ho | ho
    · exact hb.marked o ho h hh
    · rw [List.mem_singleton.1 ho] at hh
      cases hh

theorem begun_setBranches {mode : PersistenceMode} {b : Broker} (hb : Begun mode b)
    (t : Table Xid Nat) : Begun mode (b.setBranches (some 0) t) := by
  have hqueue : (b.setBranches (some 0) t).queue = b.queue := by
    show ((b.modifyOffice 0 _).office 0).writer.queue = _
    rw [office_modifyOffice b 0 _ (by rw [hb.keeping.single]; exact Nat.one_pos), if_pos rfl]
    rfl
  exact ⟨hb.keeping.of_stations (stations_modifyOffice _ _ fun _ => rfl), hb.waiting, hb.ready,
    hqueue.trans hb.queue, hb.unadded, hb.addressed, hb.keyed, hb.unkeyed, hb.ordered, hb.mirror,
    hb.prepared, hb.marked⟩

/-- Making a branch again gives it a prepared transaction with a stage for each of its records. -/
theorem begun_recoverBranch {mode : PersistenceMode} {b : Broker} (hb : Begun mode b) (x : Xid)
    (rs : List Record) :
    Begun mode (recoverBranch 0 b (x, rs)) ∧
      (recoverBranch 0 b (x, rs)).storage = b.storage ∧
      (recoverBranch 0 b (x, rs)).outlines = b.outlines ++
        [⟨some x, .prepared, rs.map fun r => (recovered (b.outlines.length + 1) r, true)⟩] := by
  have hlast : (b.addTransaction { xid := some x, state := .prepared }).lastTransaction =
      b.outlines.length + 1 := by
    simp [addTransaction, lastTransaction, outlines]
  obtain ⟨hadded, houtlines⟩ := begun_addTransaction hb x
  obtain ⟨hall, hstorage, hheld⟩ := begun_recoverRecords hadded houtlines rs
  unfold recoverBranch
  dsimp only
  rw [hlast]
  exact ⟨begun_setBranches hall _, hstorage, hheld⟩

theorem nodup_eraseDups {α : Type} [DecidableEq α] (l : List α) : l.eraseDups.Nodup := by
  match l with
  | [] => exact List.nodup_nil
  | a :: rest =>
    rw [List.eraseDups_cons]
    refine List.nodup_cons.2 ⟨fun hmem => ?_, nodup_eraseDups _⟩
    simp at hmem
termination_by l.length
decreasing_by exact Nat.lt_succ_of_le (List.length_filter_le ..)

theorem nodup_byBranch (ps : List PreparedRecord) : ((byBranch ps).map (·.1)).Nodup := by
  have hfst : (byBranch ps).map (·.1) = sortBy Xid.before (ps.map (·.xid)).eraseDups := by
    rw [byBranch, List.map_map]
    exact List.map_id _
  rw [hfst]
  exact (sortBy_perm ..).nodup_iff.2 (nodup_eraseDups _)

/-- Records put together by xid are the records that there are. -/
theorem perm_filters {xs : List Xid} {ps : List PreparedRecord} (hxs : xs.Nodup)
    (hps : ∀ p ∈ ps, p.xid ∈ xs) : (xs.flatMap fun x => ps.filter fun p => p.xid = x).Perm ps := by
  induction xs generalizing ps with
  | nil =>
    rw [List.eq_nil_iff_forall_not_mem.2 fun p hp => List.not_mem_nil (hps p hp)]
    exact .refl _
  | cons x rest ih =>
    obtain ⟨hx, hrest⟩ := List.nodup_cons.1 hxs
    have hsame : (rest.flatMap fun y => ps.filter fun p => p.xid = y) =
        rest.flatMap fun y => (ps.filter fun p => !(p.xid = x)).filter fun p => p.xid = y := by
      apply List.flatMap_congr
      intro y hy
      rw [List.filter_filter]
      apply List.filter_congr
      intro p _
      by_cases hp : p.xid = y
      · have hne : y ≠ x := fun heq => hx (heq ▸ hy)
        simp [hp, hne]
      · simp [hp]
    have hothers := @ih (ps.filter fun p => !(p.xid = x)) hrest fun p hp => by
      obtain ⟨hp, hne⟩ := List.mem_filter.1 hp
      exact (List.mem_cons.1 (hps p hp)).resolve_left (by simpa using hne)
    rw [List.flatMap_cons, hsame]
    exact (hothers.append_left _).trans (List.filter_append_perm ..)

/-- The records of all branches are the records that there are. -/
theorem byBranch_perm (ps : List PreparedRecord) :
    ((byBranch ps).flatMap fun branch => branch.2.map fun r => ⟨branch.1, r⟩).Perm ps := by
  have hrecords : ((byBranch ps).flatMap fun branch => branch.2.map fun r =>
      (⟨branch.1, r⟩ : PreparedRecord)) =
        (sortBy Xid.before (ps.map (·.xid)).eraseDups).flatMap
          fun x => ps.filter fun p => p.xid = x := by
    rw [byBranch, List.flatMap_map]
    apply List.flatMap_congr
    intro x _
    rw [List.map_map]
    have hself : ∀ p ∈ ps.filter (fun p => p.xid = x),
        ((fun r => (⟨x, r⟩ : PreparedRecord)) ∘ (·.record)) p = p := by
      intro p hp
      have hx : p.xid = x := by simpa using (List.mem_filter.1 hp).2
      rw [← hx]
      rfl
    exact (List.map_congr_left hself).trans (List.map_id _)
  rw [hrecords]
  refine perm_filters ((sortBy_perm ..).nodup_iff.2 (nodup_eraseDups _)) fun p hp => ?_
  rw [(sortBy_perm ..).mem_iff, List.mem_eraseDups]
  exact List.mem_map_of_mem hp

theorem pledges_recovered (x : Xid) (t : Nat) (rs : List Record) :
    (⟨some x, .prepared, rs.map fun r => (recovered t r, true)⟩ : Outline).pledges =
      rs.map fun r => ⟨x, r⟩ := by
  rw [Outline.pledges_of_marked (by simp), List.map_map]
  rfl

/-- Making branches again, one by one. -/
theorem begun_branches {mode : PersistenceMode} (branches : List (Xid × List Record)) {b : Broker}
    (hb : Begun mode b) :
    Begun mode (branches.foldl (recoverBranch 0) b) ∧
      (branches.foldl (recoverBranch 0) b).storage = b.storage ∧
      (branches.foldl (recoverBranch 0) b).outlines.filterMap Outline.xid =
        b.outlines.filterMap Outline.xid ++ branches.map (·.1) ∧
      (branches.foldl (recoverBranch 0) b).outlines.flatMap Outline.pledges =
        b.outlines.flatMap Outline.pledges ++
          branches.flatMap fun branch => branch.2.map fun r => ⟨branch.1, r⟩ := by
  induction branches generalizing b with
  | nil => exact ⟨hb, rfl, by simp, by simp⟩
  | cons branch rest ih =>
    obtain ⟨hnext, hstorage, houtlines⟩ := begun_recoverBranch hb branch.1 branch.2
    obtain ⟨hall, hstorage', hxids, hpledges⟩ := ih hnext
    refine ⟨hall, hstorage'.trans hstorage, hxids.trans ?_, hpledges.trans ?_⟩
    · rw [houtlines, List.filterMap_append]
      simp
    · rw [houtlines, List.flatMap_append, List.flatMap_singleton, pledges_recovered]
      simp

/-! ## Starts -/

/-- What is known of all caches once those of some addresses have been filled. -/
theorem Filling.cache_cases {s : Storage} {capacity : Nat} {as : List Address}
    (hb : Filling s capacity as b) (hs : Ledger.Ordered s.ledger.committed) (ref : CacheRef) :
    b.cache ref = Cache.absent ∨ ∃ a ∈ as, ref = .office 0 a ∧ (b.cache ref).address = a ∧
      (b.cache ref).pending = {} ∧ (b.cache ref).Keyed := by
  rcases hget : b.caches.get? ref with _ | c
  · exact Or.inl (cache_of_get?_none hget)
  · rw [cache_of_get?_some hget]
    exact Or.inr (hb.loaded hs hget)

/-- Once the caches are filled, a post office that is added finds them in agreement with the
journal. -/
theorem begun_filled {s : Storage} {capacity : Nat} {o : Office} {mode : PersistenceMode}
    (hs : Ledger.Ordered s.ledger.committed) (hb : Filling s capacity s.ledger.addresses b)
    (hmode : o.persistence = some mode)
    (hwriter : o.writer = { running := true }) :
    Begun mode { b with offices := b.offices ++ [o] } := by
  have hoffice : ({ b with offices := b.offices ++ [o] } : Broker).office 0 = o := by
    simp [office, hb.offices]
  have houtlines : ({ b with offices := b.offices ++ [o] } : Broker).outlines = [] := by
    simp [outlines, hb.transactions]
  constructor
  case keeping =>
    refine ⟨by simp [hb.offices], ?_, ?_⟩
    · rw [hoffice, hmode]
    · rw [hoffice, hwriter]
  case waiting => exact hb.waiting
  case ready => exact hb.ready
  case queue =>
    show (Broker.office _ 0).writer.queue = []
    rw [hoffice, hwriter]
  case unadded => exact hb.unadded
  case addressed =>
    intro a c hc
    obtain ⟨a', -, href, haddress, -⟩ := hb.loaded hs hc
    cases href
    exact haddress
  case keyed =>
    intro ref
    show (b.cache ref).Keyed
    rcases hb.cache_cases hs ref with habsent | ⟨a, -, -, -, -, hkeyed⟩
    · rw [habsent]
      exact Cache.keyed_empty ..
    · exact hkeyed
  case unkeyed =>
    refine unkeyed_iff.2 fun t => ?_
    have hnone : (b.cache t.cache).pending = {} := by
      rcases hb.cache_cases hs t.cache with habsent | ⟨a, -, -, -, hpending, -⟩
      · rw [habsent]
        rfl
      · exact hpending
    show (b.cache t.cache).keyOf t.staged = none
    rw [Cache.keyOf, Cache.pendingOf?_of_get?_none]
    · rfl
    · rw [hnone]
      rfl
  case ordered => exact hb.ordered
  case mirror =>
    intro a k id
    show _ ∈ b.storage.ledger.committed ↔ _ ∈ (b.cache _).visible
    by_cases ha : a ∈ s.ledger.addresses
    · exact hb.mirror a ha k id
    · have habsent : b.cache (.office 0 a) = Cache.absent := by
        rcases hb.cache_cases hs (.office 0 a) with habsent | ⟨a', ha', href, -⟩
        · exact habsent
        · cases href
          exact absurd ha' ha
      rw [habsent]
      exact ⟨fun hmem => absurd (Ledger.mem_addresses (hb.kept _ hmem)) ha,
        fun hmem => by cases hmem⟩
  case prepared => exact fun g hg => absurd (houtlines ▸ hg) List.not_mem_nil
  case marked => exact fun g hg => absurd (houtlines ▸ hg) List.not_mem_nil

/-- All that a start can do: it loads what the journal holds and, if that goes well, opens a post
office and makes the branches again. -/
theorem start_outcomes {mailboxes : Table String Mailbox} {storage : Storage} {s : Settings}
    {result : Except RoutingError Nat}
    (hpersist : s.persistIdCache = true ∧ s.duplicateDetection = true)
    (h : ({ mailboxes, storage } : Broker).start s = (b, result)) :
    (∃ c e, ({ mailboxes, storage } : Broker).load 0 s.idCacheCapacity = (c, .error e) ∧
      result = .error (.persistence e) ∧ b = { c with caches := {} }) ∨
    ∃ c ps, ({ mailboxes, storage } : Broker).load 0 s.idCacheCapacity = (c, .ok ps) ∧
      result = .ok 0 ∧
      b = (byBranch ps).foldl (recoverBranch 0) { c with
        offices := c.offices ++ [{ Office.ofSettings s with
          persistence := some s.idCachePersistence, writer := { running := true } }] } := by
  unfold start at h
  rw [if_pos (by simp [hpersist]), openPersistent] at h
  rcases hload : ({ mailboxes, storage } : Broker).load 0 s.idCacheCapacity with ⟨c, loaded⟩
  simp only [List.length_nil, hload] at h
  cases loaded with
  | error e =>
    cases h
    exact .inl ⟨c, e, rfl, rfl, rfl⟩
  | ok ps =>
    cases h
    exact .inr ⟨c, ps, rfl, rfl, rfl⟩

theorem start_ok {mailboxes : Table String Mailbox} {storage : Storage} {s : Settings} {n : Nat}
    (hpersist : s.persistIdCache = true ∧ s.duplicateDetection = true)
    (h : ({ mailboxes, storage } : Broker).start s = (b, .ok n)) :
    ∃ c ps, ({ mailboxes, storage } : Broker).load 0 s.idCacheCapacity = (c, .ok ps) ∧
      b = (byBranch ps).foldl (recoverBranch 0) { c with
        offices := c.offices ++ [{ Office.ofSettings s with
          persistence := some s.idCachePersistence, writer := { running := true } }] } := by
  rcases start_outcomes hpersist h with ⟨_, _, -, hresult, -⟩ | ⟨c, ps, hload, -, hb⟩
  · cases hresult
  · exact ⟨c, ps, hload, hb⟩

/-- After a start journal, caches and branches agree: what is visible is what is committed, and
each prepared record has its stage with the branch of its xid. -/
theorem begun_start {mailboxes : Table String Mailbox} {storage : Storage} {s : Settings} {n : Nat}
    (hpersist : s.persistIdCache = true ∧ s.duplicateDetection = true)
    (hordered : Ledger.Ordered storage.ledger.committed)
    (h : ({ mailboxes, storage } : Broker).start s = (b, .ok n)) :
    Begun s.idCachePersistence b ∧ (∀ m, storage.Takes m → b.storage.Takes m) ∧
      (b.outlines.filterMap Outline.xid).Nodup ∧
      b.storage.ledger.prepared.Perm (b.outlines.flatMap Outline.pledges) := by
  obtain ⟨c, ps, hload, rfl⟩ := start_ok hpersist h
  obtain ⟨hfilled, rfl⟩ := filling_load hordered hload
  have hbegun := begun_filled hordered hfilled
    (o := { Office.ofSettings s with
      persistence := some s.idCachePersistence, writer := { running := true } }) rfl rfl
  have hnone : ({ c with offices := c.offices ++ [{ Office.ofSettings s with
      persistence := some s.idCachePersistence, writer := { running := true } }] } :
        Broker).outlines = [] := by
    simp [outlines, hfilled.transactions]
  obtain ⟨hall, hstorage, hxids, hpledges⟩ :=
    begun_branches (byBranch c.storage.ledger.preparedRecords) hbegun
  rw [hnone, List.filterMap_nil, List.nil_append] at hxids
  rw [hnone, List.flatMap_nil, List.nil_append] at hpledges
  refine ⟨hall, fun m hm => ?_, ?_, ?_⟩
  · rw [hstorage]
    exact hfilled.takes m hm
  · rw [hxids]
    exact nodup_byBranch _
  · rw [hstorage, hpledges]
    apply List.Perm.symm
    apply (byBranch_perm _).trans
    exact (sortBy_perm ..).trans (sortBy_perm ..)

/-! ## What runs begin with -/

theorem queue_books (b : Broker) : b.books.queue = b.queue := by
  rw [queue, writer_books]
  rfl

theorem keeping_books {mode : PersistenceMode} (hb : Keeping mode b) : Keeping mode b.books := by
  refine ⟨?_, ?_, ?_⟩
  · show (b.offices.map Office.books).length = 1
    rw [List.length_map]
    exact hb.single
  · rw [persistence_books]
    exact hb.persistence
  · rw [writer_books]
    exact hb.running

variable {mode : PersistenceMode}

theorem Begun.stages {h : HeldStage} (hb : Begun mode b) (hh : h ∈ b.view.stages) :
    h.AtOffice ∧ h.staged.sequence < b.next h.cache := by
  obtain ⟨o, ho, hheld⟩ := List.mem_flatMap.1 (show h ∈ b.outlines.flatMap Outline.stages from hh)
  obtain ⟨g, hg, rfl⟩ := List.mem_map.1 hheld
  exact (hb.marked o ho g hg).2

theorem Begun.atOffice (hb : Begun mode b) : b.view.Local :=
  ⟨hb.addressed, fun _ hh => (hb.stages hh).1⟩

theorem Begun.proper (hb : Begun mode b) (P : Call → Prop) : Proper P b := by
  refine ⟨hb.keeping.single, fun c hc => ?_⟩
  rw [hb.waiting, hb.ready] at hc
  cases hc

/-- The stages from before the start lie below the numbers that the caches begin with. -/
theorem Begun.custody (hb : Begun mode b) : Custody b.next b.view := by
  have hbelow : ∀ h ∈ b.view.stages, ¬ h.Above b.next := by
    intro h hh habove
    have hlt := (hb.stages hh).2
    unfold HeldStage.Above at habove
    omega
  refine ⟨fun _ => Nat.le_refl _, fun h hh => (hb.stages hh).2, ?_, fun h hh habove => ?_⟩
  · have hnone : (b.view.stages.filter fun h => h.Above b.next) = [] :=
      List.filter_eq_nil_iff.2 fun h hh => by simpa using hbelow h hh
    rw [Apart, hnone]
    exact List.nodup_nil
  · exact absurd habove (hbelow h (stages_of_live hh))

theorem Begun.mirrored (hb : Begun .async b) (htakes : ∀ e : Entry, b.storage.Takes e.method) :
    Mirrored b.books := by
  refine ⟨keeping_books hb.keeping, htakes, hb.addressed, hb.keyed, hb.ordered, ?_⟩
  intro a k id
  rw [settled, queue_books, hb.queue]
  exact hb.mirror a k id

theorem Begun.pledged (hb : Begun mode b) (htakes : b.storage.Takes .delete)
    (hrecords : b.storage.ledger.prepared.Perm (b.outlines.flatMap Outline.pledges)) :
    Pledged mode b.view := by
  have hqueue : b.books.queue = [] := (queue_books b).trans hb.queue
  refine ⟨keeping_books hb.keeping, htakes, hb.atOffice, ?_, ?_, ?_, ?_, ?_⟩
  · intro o ho hactive
    rw [hb.prepared o ho] at hactive
    cases hactive
  · intro o ho _ h hh
    exact (hb.marked o ho h hh).1
  · intro x hx
    rw [show b.view.books.queue = [] from hqueue] at hx
    cases hx
  · intro x r hx
    rw [show b.view.books.queue = [] from hqueue] at hx
    cases hx
  · show b.books.settled.prepared.Perm _
    rw [settled, hqueue]
    exact hrecords

end Broker

end MessageRouting
