import MessageRouting.Proofs.Cache.Filling

/-!
# The representation of a cache

A cache is asked to stage identifiers, to draw the commit keys of stages, and to
commit stages or roll them back. The stages it is given may be anybody's: still
pending, resolved long ago, or never granted by this cache. Whatever it is
asked, in whatever order, its tables and its counter go on saying the same.

Results:

* `change_perform`: a request is one operation of the cache, or does nothing.
* `consistent_performAll`: what holds of a cache after any requests.
* `listed_performAll`: what of it is left when records of one identifier have
  been taken in several times.
-/

namespace MessageRouting.Cache

/-- What a cache can be asked. -/
inductive Request where
  | stage (id : Bytes) (owner : Owner)
  /-- Draws the commit key of a stage before the commit. -/
  | persist (s : Staged)
  | commit (s : Staged)
  | rollback (s : Staged)
  deriving DecidableEq, Repr

/-- The cache after one request. -/
def perform (c : Cache) : Request → Cache
  | .stage id owner => (c.attempt id owner).2
  | .persist s => (c.drawKey s).2
  | .commit s => (c.commit s).2
  | .rollback s => (c.rollback s).getD c

/-- The cache after requests, in order. -/
def performAll (c : Cache) (requests : List Request) : Cache := requests.foldl perform c

/-! ## One request -/

theorem attempt_cases (c : Cache) (id : Bytes) (owner : Owner) :
    (c.attempt id owner).2 = c ∨
      ∃ s, c.attempt id owner = (some (.staged s), (c.attempt id owner).2) := by
  unfold attempt
  split
  · exact Or.inl rfl
  · split
    · exact Or.inl rfl
    · split
      · split <;> exact Or.inl rfl
      · exact Or.inr ⟨_, rfl⟩

/-- A stage that is not pending here cannot be committed. -/
theorem commit_of_drawKey_none {c : Cache} {s : Staged} (h : (c.drawKey s).1 = none) :
    c.commit s = (none, c) := by
  rcases hdraw : c.drawKey s with ⟨key, d⟩
  rw [hdraw] at h
  subst h
  rw [commit, hdraw, (drawKey_none hdraw).2]

/-- A request is one operation of the cache, or does nothing. -/
theorem change_perform (c : Cache) (r : Request) : c.perform r = c ∨ Change c (c.perform r) := by
  cases r with
  | stage id owner =>
    rcases attempt_cases c id owner with heq | ⟨s, hs⟩
    · exact Or.inl heq
    · exact Or.inr (.staged hs)
  | persist s =>
    rcases hdraw : c.drawKey s with ⟨key, d⟩
    simp only [perform, hdraw]
    cases key with
    | none => exact Or.inl (drawKey_none hdraw).2
    | some key => exact Or.inr (.drawn (drawKey_some hdraw))
  | commit s =>
    rcases hcommit : c.commit s with ⟨p, d⟩
    simp only [perform, hcommit]
    cases p with
    | none =>
      refine Or.inl ?_
      have hnone : (c.drawKey s).1 = none := by
        rw [drawKey, commit_none hcommit]
      rw [commit_of_drawKey_none hnone] at hcommit
      exact (Prod.mk.inj hcommit).2.symm
    | some p => exact Or.inr (.committed (commit_some hcommit))
  | rollback s =>
    simp only [perform]
    cases hrollback : c.rollback s with
    | none => exact Or.inl rfl
    | some d =>
      obtain ⟨⟨q, hq⟩, hd⟩ := rollback_some hrollback
      exact Or.inr (.dropped hq hd)

/-- What every operation keeps is kept by any requests. -/
theorem of_performAll {Q : Cache → Prop} (hQ : ∀ c c', Change c c' → Q c → Q c') {c : Cache}
    (hc : Q c) (requests : List Request) : Q (c.performAll requests) := by
  induction requests generalizing c with
  | nil => exact hc
  | cons r rest ih =>
    apply ih
    rcases change_perform c r with heq | hchange
    · rw [heq]
      exact hc
    · exact hQ _ _ hchange hc

/-! ## Whole caches -/

/-- A cache that has just been made, with room for `n` identifiers: empty, or filled with records
of different sequences and different identifiers. -/
inductive Fresh (n : Nat) : Cache → Prop where
  | empty (a : Address) : Fresh n { address := a, capacity := n }
  | loaded (a : Address) {records : List Record} (hsequences : (records.map (·.sequence)).Nodup)
    (hids : (records.map (·.duplicateId)).Nodup) :
    Fresh n (({ address := a, capacity := n } : Cache).load records)

/-- The tables and the counter of a cache with room for `n` identifiers say the same. -/
structure Consistent (n : Nat) (c : Cache) : Prop where
  /-- `visible` and `index` are inverse to each other. -/
  inverse : ∀ id key, c.index.get? id = some key ↔ (key, id) ∈ c.visible
  fits : c.visible.length ≤ n
  apart : ∀ id q, c.pending.get? id = some q → id ∉ c.visibleIds
  /-- No two visible entries stand at one sequence, -/
  visible_ne : (c.visible.map (·.1)).Nodup
  /-- none stands at the commit key of a pending stage, -/
  key_ne : ∀ id q key, c.pending.get? id = some q → q.commitKey = some key →
    key ∉ c.visible.map (·.1)
  /-- and no two pending stages have one commit key. -/
  key_inj : ∀ id id' q q' key, c.pending.get? id = some q → c.pending.get? id' = some q' →
    q.commitKey = some key → q'.commitKey = some key → id = id'
  visible_lt : ∀ e ∈ c.visible, e.1 < c.nextSequence
  sequence_lt : ∀ id q, c.pending.get? id = some q → q.sequence < c.nextSequence
  key_lt : ∀ id q key, c.pending.get? id = some q → q.commitKey = some key → key < c.nextSequence

/-- The commit key that the table of pending stages holds is the one of the stage. -/
theorem keyOf_of_pending {c : Cache} {id : Bytes} {q : Pending} {key : Nat}
    (hq : c.pending.get? id = some q) (hkey : q.commitKey = some key) :
    c.keyOf ⟨c.address, id, q.sequence, q.owner⟩ = some key := by
  rw [keyOf, pendingOf?_eq_some.2 ⟨hq, rfl⟩]
  exact hkey

theorem Sound.consistent {c : Cache} (hc : Sound c) : Consistent c.capacity c where
  inverse := hc.index
  fits := hc.fits
  apart := by
    intro id q hq hmem
    obtain ⟨e, he, rfl⟩ := List.mem_map.1 hmem
    have hindex := (hc.index e.2 e.1).2 he
    rw [hc.apart e.2 q hq] at hindex
    cases hindex
  visible_ne := List.pairwise_map.2 (hc.sorted.imp Nat.ne_of_lt)
  key_ne := by
    intro id q key hq hkey hmem
    obtain ⟨e, he, heq⟩ := List.mem_map.1 hmem
    exact hc.key_ne _ key (keyOf_of_pending hq hkey) e he heq
  key_inj := fun _ _ _ _ key hq hq' hkey hkey' =>
    hc.key_inj _ _ key (keyOf_of_pending hq hkey) (keyOf_of_pending hq' hkey')
  visible_lt := hc.visible_lt
  sequence_lt := hc.sequence_lt
  key_lt := fun _ _ key hq hkey => hc.key_lt _ key (keyOf_of_pending hq hkey)

theorem Fresh.sound {n : Nat} {c : Cache} (hc : Fresh n c) : Sound c ∧ c.capacity = n := by
  cases hc with
  | empty a => exact ⟨sound_empty a n, rfl⟩
  | loaded a hsequences hids =>
    have hrs := List.pairwise_map.1 hsequences
    exact ⟨sound_load rfl rfl rfl hrs hids, (filled_load rfl hrs).capacity⟩

/-- Whatever a cache has been asked since it was made, its tables and its counter say the same. -/
theorem consistent_performAll {n : Nat} {c : Cache} (hc : Fresh n c) (requests : List Request) :
    Consistent n (c.performAll requests) := by
  obtain ⟨hsound, hcapacity⟩ := of_performAll (Q := fun c => Sound c ∧ c.capacity = n)
    (fun c c' h hc => ⟨sound_change h hc.1, (frame_change h).2.trans hc.2⟩) hc.sound requests
  exact hcapacity ▸ hsound.consistent

/-- A stage is committed twice, and one of another cache is rolled back; the oldest entry goes. -/
theorem consistent_performAll_stale :
    let a : Address := ⟨"orders"⟩
    let s : Staged := ⟨a, [3], 8, .direct 1⟩
    let c : Cache := ({ address := a, capacity := 2 } : Cache).load [⟨a, 7, [1]⟩, ⟨a, 4, [2]⟩]
    let requests : List Request :=
      [.stage [3] (.direct 1), .persist s, .stage [4] (.direct 2), .commit s, .commit s,
        .rollback ⟨a, [4], 3, .direct 2⟩]
    Fresh 2 c ∧ (c.performAll requests).visible = [(7, [1]), (9, [3])] ∧
      Consistent 2 (c.performAll requests) := by
  have hfresh : Fresh 2 (({ address := ⟨"orders"⟩, capacity := 2 } : Cache).load
      [⟨⟨"orders"⟩, 7, [1]⟩, ⟨⟨"orders"⟩, 4, [2]⟩]) := .loaded _ (by decide) (by decide)
  exact ⟨hfresh, by decide, consistent_performAll hfresh _⟩

/-! ## Repeated identifiers -/

/-- A cache may be filled with several records of one identifier: it lists the identifier as often
as it retains a record of it. An identifier that is not listed twice then never is, and the cache
knows it as a duplicate just as long as it lists it, whatever becomes of the others. Of every
identifier a duplicate is at least listed. -/
theorem listed_performAll {a : Address} {n : Nat} {records : List Record}
    (hsequences : (records.map (·.sequence)).Nodup) (requests : List Request) (id : Bytes) :
    let filled := ({ address := a, capacity := n } : Cache).load records
    let c := filled.performAll requests
    filled.visibleIds.count id = ((retained n records).map (·.duplicateId)).count id ∧
      c.visibleIds.length ≤ n ∧
      (c.isDuplicate id = true → id ∈ c.visibleIds) ∧
      (filled.visibleIds.count id ≤ 1 →
        c.visibleIds.count id ≤ 1 ∧ (c.isDuplicate id = true ↔ id ∈ c.visibleIds)) := by
  intro filled c
  have hrs := List.pairwise_map.1 hsequences
  have hcount : filled.visibleIds.count id = _ :=
    count_load (c := { address := a, capacity := n }) rfl hrs id
  have hkeyed : filled.Keyed := (mem_load rfl rfl hrs).1
  have hfitting : filled.Fitting := fitting_load rfl rfl hrs
  have hcapacity : filled.capacity = n := (filled_load rfl hrs).capacity
  obtain ⟨-, ⟨hfits, hroom⟩, hcapacity', hlisted⟩ := of_performAll
    (Q := fun c => Keyed c ∧ Fitting c ∧ c.capacity = n ∧ ListedAt id c)
    (fun c c' h hc => ⟨keyed_change h hc.1, fitting_change h hc.1 hc.2.1,
      (frame_change h).2.trans hc.2.2.1, listedAt_change h hc.1 hc.2.2.2⟩)
    ⟨hkeyed, hfitting, hcapacity, listedAt_load rfl rfl hrs id⟩ requests
  refine ⟨hcount, ?_, mem_visibleIds_of_listedAt hlisted, fun honce => ?_⟩
  · rw [visibleIds, List.length_map]
    exact Nat.le_trans hfits (Nat.le_of_eq hcapacity')
  · obtain ⟨hkeyed', hsound⟩ := of_performAll (Q := fun c => Keyed c ∧ SoundAt id c)
      (fun c c' h hc => ⟨keyed_change h hc.1, soundAt_change h hc.1 hc.2⟩)
      ⟨hkeyed, soundAt_load rfl rfl rfl hrs (hcount ▸ honce)⟩ requests
    exact ⟨count_visibleIds hsound hkeyed'.sorted, isDuplicate_iff hsound ⟨hfits, hroom⟩⟩

/-- Two records of one identifier and one of another are taken in. When the oldest is evicted, the
identifier that is listed once is still known as a duplicate. -/
theorem listed_performAll_repeated :
    let a : Address := ⟨"orders"⟩
    let records : List Record := [⟨a, 1, [97]⟩, ⟨a, 2, [97]⟩, ⟨a, 3, [98]⟩]
    let filled := ({ address := a, capacity := 3 } : Cache).load records
    let c := filled.performAll [.stage [99] (.direct 1), .commit ⟨a, [99], 4, .direct 1⟩]
    (records.map (·.sequence)).Nodup ∧ filled.visibleIds.count [98] ≤ 1 ∧
      c.visibleIds = [[97], [98], [99]] ∧
      c.visibleIds.count [98] ≤ 1 ∧ (c.isDuplicate [98] = true ↔ [98] ∈ c.visibleIds) := by
  have hsequences : (([⟨⟨"orders"⟩, 1, [97]⟩, ⟨⟨"orders"⟩, 2, [97]⟩,
      ⟨⟨"orders"⟩, 3, [98]⟩] : List Record).map (·.sequence)).Nodup := by decide
  obtain ⟨-, -, -, hother⟩ := listed_performAll (a := ⟨"orders"⟩) (n := 3) hsequences
    [.stage [99] (.direct 1), .commit ⟨⟨"orders"⟩, [99], 4, .direct 1⟩] [98]
  exact ⟨hsequences, by decide, by decide, hother (by decide)⟩

/-- Of two records of one identifier the older is evicted, and with it the index entry that both
shared: the newer is still listed, and its identifier is not known as a duplicate any more. -/
theorem repeated_forgotten :
    let a : Address := ⟨"orders"⟩
    let filled := ({ address := a, capacity := 2 } : Cache).load [⟨a, 1, [97]⟩, ⟨a, 2, [97]⟩]
    let c := filled.performAll [.stage [98] (.direct 1), .commit ⟨a, [98], 3, .direct 1⟩]
    filled.visibleIds = [[97], [97]] ∧ filled.isDuplicate [97] = true ∧
      c.visible = [(2, [97]), (4, [98])] ∧ c.isDuplicate [97] = false := by
  decide

end MessageRouting.Cache
