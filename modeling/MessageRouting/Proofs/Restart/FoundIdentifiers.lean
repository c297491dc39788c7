import MessageRouting.Proofs.Persistence.JournalMirror

/-!
# Identifiers found at a start

A start makes the newest committed records of an address visible and the
prepared records pending, each kind for itself. The record of a commit is
written before the prepared record goes, so a journal that was cut off in
between holds both, and the identifier is then visible and pending at once. Any
journal will do here, whatever has happened to it.

Results:

* `restored_start`: what a start finds for every address.
* `sound_recovered`: which identifiers are both visible and pending, and that
  the others are listed once at most and known just as long.
* `recovered_twice`: what becomes of one that is both.
-/

namespace MessageRouting

/-- The identifiers of an address that a cache with room for `n` of them takes in. -/
def Ledger.retainedIds (l : Ledger) (n : Nat) (a : Address) : List Bytes :=
  (Cache.retained n (l.records a)).map (·.duplicateId)

/-- The identifiers of an address that branches have staged. -/
def Ledger.preparedIds (l : Ledger) (a : Address) : List Bytes :=
  (l.prepared.filter fun p => p.record.address = a).map (·.record.duplicateId)

theorem Ledger.mem_preparedIds {l : Ledger} {a : Address} {id : Bytes} :
    id ∈ l.preparedIds a ↔
      ∃ r ∈ l.prepared.map (·.record), r.address = a ∧ r.duplicateId = id := by
  simp only [preparedIds, List.mem_map, List.mem_filter, decide_eq_true_eq]
  constructor
  · rintro ⟨p, ⟨hp, ha⟩, hid⟩
    exact ⟨p.record, ⟨p, hp, rfl⟩, ha, hid⟩
  · rintro ⟨_, ⟨p, hp, rfl⟩, ha, hid⟩
    exact ⟨p, ⟨hp, ha⟩, hid⟩

theorem Ledger.records_of_not_mem {l : Ledger} {a : Address} (ha : a ∉ l.addresses) :
    l.records a = [] := by
  refine List.filter_eq_nil_iff.2 fun r hr hra => ha ?_
  have haddress : r.address = a := by simpa using hra
  exact haddress ▸ mem_addresses hr

namespace Broker

variable {b : Broker} {l : Ledger} {n : Nat} {rs : List Record}

/-! ## Caches after a start -/

/-- The caches of the first post office show what they have taken in from the ledger, and the
identifiers of the records `rs` are pending there. -/
structure Restored (l : Ledger) (n : Nat) (rs : List Record) (b : Broker) : Prop where
  equipped : Equipped n b
  visible : ∀ a, (b.cache (.office 0 a)).visible =
    (({ address := a, capacity := n } : Cache).load (l.records a)).visible
  index : ∀ a, (b.cache (.office 0 a)).index =
    (({ address := a, capacity := n } : Cache).load (l.records a)).index
  pending : ∀ a id, (∃ q, (b.cache (.office 0 a)).pending.get? id = some q) ↔
    ∃ r ∈ rs, r.address = a ∧ r.duplicateId = id

/-- A post office that is added finds the caches filled. -/
theorem restored_filled {s : Storage} {o : Office} (hs : Ledger.Ordered s.ledger.committed)
    (hb : Filling s n s.ledger.addresses b) (ho : o.settings.idCacheCapacity = n) :
    Restored s.ledger n [] { b with offices := b.offices ++ [o] } := by
  have hoffice : ({ b with offices := b.offices ++ [o] } : Broker).office 0 = o := by
    simp [office, hb.offices]
  have hcache : ∀ a, b.cache (.office 0 a) = Cache.absent ∧ s.ledger.records a = [] ∨
      b.cache (.office 0 a) =
        ({ address := a, capacity := n } : Cache).load (s.ledger.records a) := by
    intro a
    by_cases ha : a ∈ s.ledger.addresses
    · exact Or.inr (cache_of_get?_some ((hb.filled _ _).2 ⟨a, ha, rfl, rfl⟩))
    · refine Or.inl ⟨cache_of_get?_none ?_, Ledger.records_of_not_mem ha⟩
      rcases hget : b.caches.get? (.office 0 a) with _ | c
      · rfl
      · obtain ⟨a', ha', href, -⟩ := (hb.filled _ _).1 hget
        cases href
        exact absurd ha' ha
  refine ⟨⟨by rw [hoffice, ho], fun a c hc => ?_⟩, fun a => ?_, fun a => ?_, fun a id => ?_⟩
  · obtain ⟨a', -, href, rfl⟩ := (hb.filled _ _).1 hc
    cases href
    have hfilled := Cache.filled_load (c := { address := a, capacity := n }) rfl
      (Ledger.sequence_ne_of_records hs a)
    exact ⟨hfilled.address, hfilled.capacity⟩
  · rcases hcache a with ⟨habsent, hnone⟩ | heq
    · show (b.cache _).visible = _
      rw [habsent, hnone, Cache.load_nil]
      rfl
    · exact congrArg Cache.visible heq
  · rcases hcache a with ⟨habsent, hnone⟩ | heq
    · show (b.cache _).index = _
      rw [habsent, hnone, Cache.load_nil]
      rfl
    · exact congrArg Cache.index heq
  · have hnone : (b.cache (.office 0 a)).pending = {} := by
      rcases hcache a with ⟨habsent, -⟩ | heq
      · rw [habsent]
        rfl
      · rw [heq]
        exact (Cache.filled_load rfl (Ledger.sequence_ne_of_records hs a)).pending
    constructor
    · rintro ⟨q, hq⟩
      have hold : (b.cache (.office 0 a)).pending.get? id = some q := hq
      rw [hnone] at hold
      cases hold
    · rintro ⟨r, hr, -⟩
      cases hr

/-- Making a cache shows nothing new. -/
theorem restored_opened (hb : Restored l n rs b) (a : Address) :
    Restored l n rs (b.openOfficeCache 0 a) := by
  refine ⟨equipped_step (.opened a) hb.equipped, fun a' => ?_, fun a' => ?_, fun a' id => ?_⟩
  · rw [visible_openOfficeCache]
    exact hb.visible a'
  · rw [← hb.index a']
    rcases openOfficeCache_cases b 0 a with ⟨-, heq⟩ | ⟨hnone, heq⟩
    · rw [heq]
    · rw [heq, cache_setCache]
      split
      · rename_i href
        rw [← href, cache_of_get?_none hnone]
        rfl
      · rfl
  · rw [(pending_openOfficeCache b 0 a _).1]
    exact hb.pending a' id

/-- Staging a record again makes its identifier pending, and does nothing else to the caches. -/
theorem restored_recoverRecord (hb : Restored l n rs b) (t : Nat) (r : Record) :
    Restored l n (rs ++ [r]) (recoverRecord 0 t b r) := by
  have hopened := restored_opened hb r.address
  have hget := get?_recoverRecord t b r
  have hcache := cache_recoverRecord t b r
  have hsettings : ((recoverRecord 0 t b r).office 0).settings = (b.office 0).settings := by
    rw [recoverRecord_frame]
    rfl
  generalize recoverRecord 0 t b r = b' at hget hcache hsettings
  refine ⟨⟨by rw [hsettings]; exact hb.equipped.settings, fun a c hc => ?_⟩, fun a => ?_,
    fun a => ?_, fun a id => ?_⟩
  · rw [hget] at hc
    split at hc
    · rename_i href
      cases href
      cases hc
      rcases hopened.equipped.cache r.address with habsent | hcache'
      · rcases openOfficeCache_cases b 0 r.address with ⟨⟨c, hc⟩, heq⟩ | ⟨-, heq⟩
        · rw [heq, cache_of_get?_some hc]
          exact hb.equipped.caches _ c hc
        · rw [heq, cache_setCache, if_pos rfl]
          exact ⟨rfl, hb.equipped.settings⟩
      · exact hcache'
    · exact hopened.equipped.caches a c hc
  · rw [← hopened.visible a, hcache]
    split <;> rfl
  · rw [← hopened.index a, hcache]
    split <;> rfl
  · have hold := hopened.pending a id
    rw [hcache]
    by_cases ha : r.address = a
    · subst ha
      rw [if_pos rfl]
      show (∃ q, (Table.insert _ _ _).get? id = some q) ↔ _
      rw [Table.get?_insert]
      by_cases hid : r.duplicateId = id
      · simp [hid]
      · rw [if_neg hid, hold]
        simp [hid]
    · rw [if_neg fun href => ha (by injection href), hold]
      simp [ha]

/-- What a ledger and records still to be staged say of the caches does not depend on anything
but the caches and the settings. -/
theorem Restored.of_caches {b' : Broker} (hb : Restored l n rs b) (hcaches : b'.caches = b.caches)
    (hsettings : (b'.office 0).settings = (b.office 0).settings) : Restored l n rs b' := by
  have hcache := cache_of_caches hcaches
  refine ⟨⟨by rw [hsettings]; exact hb.equipped.settings, fun a c hc => ?_⟩, fun a => ?_,
    fun a => ?_, fun a id => ?_⟩
  · exact hb.equipped.caches a c (hcaches ▸ hc)
  · rw [hcache]
    exact hb.visible a
  · rw [hcache]
    exact hb.index a
  · rw [hcache]
    exact hb.pending a id

theorem restored_recoverBranch (hb : Restored l n rs b) (branch : Xid × List Record) :
    Restored l n (rs ++ branch.2) (recoverBranch 0 b branch) := by
  have hrecords : ∀ (more rs : List Record) (t : Nat) (c : Broker), Restored l n rs c →
      Restored l n (rs ++ more) (more.foldl (recoverRecord 0 t) c) := by
    intro more
    induction more with
    | nil =>
      intro rs t c hc
      rwa [List.append_nil]
    | cons r rest ih =>
      intro rs t c hc
      have h := ih _ t _ (restored_recoverRecord hc t r)
      rwa [List.append_assoc] at h
  have hadded : Restored l n rs (b.addTransaction { xid := some branch.1, state := .prepared }) :=
    hb.of_caches rfl rfl
  have hall := hrecords branch.2 rs
    (b.addTransaction { xid := some branch.1, state := .prepared }).lastTransaction _ hadded
  unfold recoverBranch
  dsimp only
  generalize branch.2.foldl (recoverRecord 0 _)
    (b.addTransaction { xid := some branch.1, state := .prepared }) = c at hall ⊢
  have hstations : ∀ t, (c.setBranches (some 0) t).stations = c.stations :=
    fun t => stations_modifyOffice _ _ fun _ => rfl
  exact hall.of_caches rfl (congrArg Prod.fst (station_office (hstations _) 0))

theorem restored_branches (branches : List (Xid × List Record)) (hb : Restored l n rs b) :
    Restored l n (rs ++ branches.flatMap (·.2)) (branches.foldl (recoverBranch 0) b) := by
  induction branches generalizing b rs with
  | nil => simpa using hb
  | cons branch rest ih =>
    have h := ih (restored_recoverBranch hb branch)
    rwa [List.append_assoc] at h

theorem records_byBranch (ps : List PreparedRecord) :
    ((byBranch ps).flatMap (·.2)).Perm (ps.map (·.record)) := by
  have hperm := (byBranch_perm ps).map (·.record)
  rw [List.map_flatMap] at hperm
  have hsame : ((byBranch ps).flatMap fun branch =>
      (branch.2.map fun r => (⟨branch.1, r⟩ : PreparedRecord)).map (·.record)) =
        (byBranch ps).flatMap (·.2) := by
    apply List.flatMap_congr
    intro branch _
    rw [List.map_map]
    exact List.map_id _
  rwa [hsame] at hperm

/-- After a start each cache shows the newest committed records of its address, and the
identifiers of the prepared records are pending. -/
theorem restored_start {mailboxes : Table String Mailbox} {storage : Storage} {s : Settings}
    {k : Nat} (hpersist : s.persistIdCache = true ∧ s.duplicateDetection = true)
    (hordered : Ledger.Ordered storage.ledger.committed)
    (h : ({ mailboxes, storage } : Broker).start s = (b, .ok k)) :
    Restored storage.ledger s.idCacheCapacity (storage.ledger.prepared.map (·.record)) b := by
  obtain ⟨c, ps, hload, rfl⟩ := start_ok hpersist h
  obtain ⟨hfilled, rfl⟩ := filling_load hordered hload
  have hrestored := restored_branches (byBranch c.storage.ledger.preparedRecords)
    (restored_filled hordered hfilled (o := { Office.ofSettings s with
      persistence := some s.idCachePersistence, writer := { running := true } }) rfl)
  refine ⟨hrestored.equipped, hrestored.visible, hrestored.index, fun a id => ?_⟩
  rw [hrestored.pending, List.nil_append]
  have hperm : ((byBranch c.storage.ledger.preparedRecords).flatMap (·.2)).Perm
      (storage.ledger.prepared.map (·.record)) := by
    apply (records_byBranch _).trans
    rw [← hfilled.prepared]
    exact ((sortBy_perm ..).trans (sortBy_perm ..)).map _
  constructor
  · rintro ⟨r, hr, hsame⟩
    exact ⟨r, hperm.mem_iff.1 hr, hsame⟩
  · rintro ⟨r, hr, hsame⟩
    exact ⟨r, hperm.mem_iff.2 hr, hsame⟩

/-! ## One identifier -/

/-- Whether an identifier of an address is pending at the first post office. -/
def isPending (b : Broker) (a : Address) (id : Bytes) : Bool :=
  (b.cache (.office 0 a)).pending.contains id

theorem isPending_iff {a : Address} {id : Bytes} :
    b.isPending a id = true ↔ ∃ q, (b.cache (.office 0 a)).pending.get? id = some q :=
  Option.isSome_iff_exists

theorem Restored.count (hl : Ledger.Ordered l.committed) (hb : Restored l n rs b) (a : Address)
    (id : Bytes) : (b.cache (.office 0 a)).visibleIds.count id = (l.retainedIds n a).count id := by
  have hcount := Cache.count_load (c := { address := a, capacity := n }) rfl
    (Ledger.sequence_ne_of_records hl a) id
  show ((b.cache (.office 0 a)).visible.map (·.2)).count id = _
  rw [hb.visible]
  exact hcount

theorem Restored.mem_visibleIds (hl : Ledger.Ordered l.committed) (hb : Restored l n rs b)
    (a : Address) (id : Bytes) :
    id ∈ (b.cache (.office 0 a)).visibleIds ↔ id ∈ l.retainedIds n a := by
  rw [← List.count_pos_iff, ← List.count_pos_iff, hb.count hl]

/-- The cache of an address is keyed, has room for what it shows, and is sound at an identifier. -/
def SoundAt (ref : CacheRef) (id : Bytes) (b : Broker) : Prop :=
  (b.cache ref).Keyed ∧ (b.cache ref).Fitting ∧ Cache.SoundAt id (b.cache ref)

theorem soundAt_step {ref : CacheRef} {id : Bytes} {b b' : Broker} (h : Step b b')
    (hb : SoundAt ref id b) : SoundAt ref id b' := by
  obtain ⟨hkeyed, hfitting, hsound⟩ := hb
  unfold SoundAt
  rcases cache_step h ref with heq | ⟨a, -, -, heq⟩ | hchange
  · rw [heq]
    exact ⟨hkeyed, hfitting, hsound⟩
  · rw [heq]
    have hempty := Cache.sound_empty a (b.office 0).settings.idCacheCapacity
    exact ⟨hempty.toKeyed, ⟨hempty.fits, hempty.room⟩, hempty.at id⟩
  · exact ⟨Cache.keyed_change hchange hkeyed, Cache.fitting_change hchange hkeyed hfitting,
      Cache.soundAt_change hchange hkeyed hsound⟩

/-- A start leaves the caches sound at an identifier that has one record at most among those taken
in, and is not staged by a branch besides. -/
theorem soundAt_restored (hl : Ledger.Ordered l.committed) (hkeyed : AllKeyed b) (hn : 0 < n)
    (hb : Restored l n rs b) {a : Address} {id : Bytes}
    (honce : (l.retainedIds n a).count id ≤ 1)
    (hapart : ¬ (id ∈ l.retainedIds n a ∧ b.isPending a id = true)) :
    SoundAt (.office 0 a) id b := by
  have hrs := Ledger.sequence_ne_of_records hl a
  have hsound := Cache.soundAt_load (c := { address := a, capacity := n }) rfl rfl rfl hrs honce
  refine ⟨hkeyed _, ⟨?_, fun id q hq => ?_⟩, ⟨fun key => ?_, fun q hq => ?_⟩⟩
  · rcases hb.equipped.cache a with habsent | ⟨-, hcapacity⟩
    · rw [habsent]
      exact Nat.le_refl _
    · have hfitting := Cache.fitting_load (c := { address := a, capacity := n }) rfl rfl hrs
      have hfilled := Cache.filled_load (c := { address := a, capacity := n }) rfl hrs
      rw [hb.visible, hcapacity]
      exact Nat.le_trans hfitting.fits (Nat.le_of_eq hfilled.capacity)
  · rcases hb.equipped.cache a with habsent | ⟨-, hcapacity⟩
    · rw [habsent] at hq
      cases hq
    · rw [hcapacity]
      exact hn
  · rw [hb.index, hb.visible]
    exact hsound.index key
  · have hnot : id ∉ l.retainedIds n a := fun hmem => hapart ⟨hmem, isPending_iff.2 ⟨q, hq⟩⟩
    rw [← hb.mem_visibleIds hl] at hnot
    cases hkey : (b.cache (.office 0 a)).index.get? id with
    | none => rfl
    | some key =>
      rw [hb.index, hsound.index, ← hb.visible] at hkey
      exact absurd (List.mem_map.2 ⟨_, hkey, rfl⟩) hnot

/-- A start makes an identifier both visible and pending just when the newest committed records of
its address hold it and a branch has staged it. Any other identifier that has one such record at
most is listed once at most in whatever follows, is known as a duplicate just as long as it is
listed, and is never visible and pending at once. -/
theorem sound_recovered {mailboxes : Table String Mailbox} {storage : Storage} {s : Settings}
    {k : Nat} (hpersist : s.persistIdCache = true ∧ s.duplicateDetection = true)
    (entries : List Entry) (hwritten : storage.ledger = ({} : Ledger).applyAll entries)
    (h : ({ mailboxes, storage } : Broker).start s = (b, .ok k)) (a : Address) (id : Bytes) :
    let retained := storage.ledger.retainedIds s.idCacheCapacity a
    let staged := storage.ledger.preparedIds a
    (id ∈ (b.cache (.office 0 a)).visibleIds ∧ b.isPending a id = true ↔
        id ∈ retained ∧ id ∈ staged) ∧
      (retained.count id ≤ 1 → ¬ (id ∈ retained ∧ id ∈ staged) →
        ∀ cs : List Command, (∀ c ∈ cs, c.isTraffic = true) →
          let c := (b.run cs).cache (.office 0 a)
          c.visibleIds.count id ≤ 1 ∧ (c.isDuplicate id = true ↔ id ∈ c.visibleIds) ∧
            ¬ (id ∈ c.visibleIds ∧ (b.run cs).isPending a id = true)) := by
  intro retained staged
  have hordered := Ledger.ordered_of_entries hwritten
  have hrestored := restored_start hpersist hordered h
  have hbegun := (begun_start hpersist hordered h).1
  have hpending : b.isPending a id = true ↔ id ∈ staged := by
    rw [isPending_iff, hrestored.pending, ← Ledger.mem_preparedIds]
  have hvisible := hrestored.mem_visibleIds hordered a id
  refine ⟨by rw [hpending, hvisible], fun honce hapart cs hcs => ?_⟩
  have hroom : 0 < s.idCacheCapacity := by
    have hsize : 0 < s.idCacheSize := by simpa [Settings.duplicateDetection] using hpersist.2
    unfold Settings.idCacheCapacity
    omega
  have hsound : SoundAt (.office 0 a) id b.books :=
    soundAt_restored hordered hbegun.keyed hroom hrestored honce
      fun hboth => hapart ⟨hboth.1, hpending.1 hboth.2⟩
  obtain ⟨hkeyed, hfitting, hat⟩ := (books_moves (fun _ _ => soundAt_step)
    (moves_run hcs (hbegun.proper _)).1 hbegun.atOffice hsound).1
  have hlisted := Cache.isDuplicate_iff hat hfitting
  refine ⟨Cache.count_visibleIds hat hkeyed.sorted, hlisted, fun hboth => ?_⟩
  obtain ⟨q, hq⟩ := isPending_iff.1 hboth.2
  have hfound := hlisted.2 hboth.1
  simp [Cache.isDuplicate, Table.contains, hat.apart q hq] at hfound

/-- A journal with a committed record and the record of a prepared branch. -/
def branchStorage : Storage where
  memory := ({} : Ledger).applyAll
    [.add ⟨⟨"orders"⟩, 1, [1]⟩, .prepare exampleXid ⟨⟨"orders"⟩, 2, [2]⟩]

theorem sound_recovered_committed :
    let b := (({ storage := branchStorage } : Broker).start (laterSettings 2)).1
    let c := (b.run [.commitBranch (some 0) exampleXid]).cache (.office 0 ⟨"orders"⟩)
    b.isPending ⟨"orders"⟩ [2] = true ∧ c.visibleIds = [[1], [2]] ∧
      c.visibleIds.count [2] ≤ 1 ∧ (c.isDuplicate [2] = true ↔ [2] ∈ c.visibleIds) := by
  have hstart : ({ storage := branchStorage } : Broker).start (laterSettings 2) =
      ((({ storage := branchStorage } : Broker).start (laterSettings 2)).1, .ok 0) := by
    decide +kernel
  obtain ⟨honce, hlisted, -⟩ := (sound_recovered (s := laterSettings 2) (by decide) _ rfl hstart
    ⟨"orders"⟩ [2]).2 (by decide +kernel) (by decide +kernel)
    [.commitBranch (some 0) exampleXid] (by decide)
  exact ⟨by decide +kernel, by decide +kernel, honce, hlisted⟩

/-- A branch is prepared and committed, and its prepared record is not deleted. -/
def commitUndeleted : List Command :=
  [.begin (some exampleXid), .route 0 0 (messageTo "orders" 1) (some 1) true,
    .prepareBranch (some 0) 1, .failing [.delete], .commitBranch (some 0) exampleXid, .flush 0,
    .failing []]

/-- An identifier that a start finds both committed and prepared is visible and pending. Committing
the branch again lists it a second time, and when the older entry is evicted the newer one is not
known as a duplicate any more. -/
theorem recovered_twice :
    let first := (({} : Broker).start (laterSettings 2)).1.run commitUndeleted
    let b := (({ storage := first.storage } : Broker).start (laterSettings 2)).1
    let ref := CacheRef.office 0 ⟨"orders"⟩
    let c := b.run [.commitBranch (some 0) exampleXid]
    let d := c.run [.route 0 0 (messageTo "orders" 2) none true]
    ((b.cache ref).visibleIds = [[1]] ∧ b.isPending ⟨"orders"⟩ [1] = true) ∧
      (c.cache ref).visibleIds = [[1], [1]] ∧
      (d.cache ref).visibleIds = [[1], [2]] ∧ (d.cache ref).isDuplicate [1] = false := by
  decide +kernel

end Broker

end MessageRouting
