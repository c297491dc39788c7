import MessageRouting.Proofs.Cache.Soundness

/-!
# Filled caches

A cache that is filled from the journal takes in the newest records. The journal
gives each record of an address a sequence of its own, but an identifier may
stand at several of them. Each such record becomes a visible entry, and the
index knows one of them.

Results:

* `mem_load`: what a cache shows that has been filled from records.
* `listedAt_load`: what the index of such a cache knows.
* `soundAt_load`: the cache is sound at an identifier unless it has taken it in
  twice.
-/

namespace MessageRouting.Cache

/-- The cache has taken in the records, and numbers everything to come after them. -/
structure Filled (c : Cache) (rs : List Record) (d : Cache) : Prop where
  address : d.address = c.address
  capacity : d.capacity = c.capacity
  pending : d.pending = c.pending
  sorted : Sorted c.visible → Sorted d.visible
  perm : d.visible.Perm (rs.map (fun r => (r.sequence, r.duplicateId)) ++ c.visible)
  next_le : c.nextSequence ≤ d.nextSequence
  sequence_lt : ∀ r ∈ rs, r.sequence < d.nextSequence
  found : ∀ id key, d.index.get? id = some key →
    c.index.get? id = some key ∨ ∃ r ∈ rs, r.sequence = key ∧ r.duplicateId = id
  indexed : ∀ id, (∃ r ∈ rs, r.duplicateId = id) ∨ c.index.get? id ≠ none →
    d.index.get? id ≠ none

theorem filled_remember {rs : List Record} (c : Cache)
    (hrs : rs.Pairwise fun r s => r.sequence ≠ s.sequence)
    (hnew : ∀ r ∈ rs, ∀ e ∈ c.visible, e.1 ≠ r.sequence) : Filled c rs (rs.foldl remember c) := by
  induction rs generalizing c with
  | nil => exact ⟨rfl, rfl, rfl, id, .refl _, Nat.le_refl _, by simp, fun _ _ => .inl, by simp⟩
  | cons r rest ih =>
    obtain ⟨hr, hrest⟩ := List.pairwise_cons.1 hrs
    have hplaced : (c.remember r).visible.Perm ((r.sequence, r.duplicateId) :: c.visible) :=
      placeVisible_perm (hnew r (by simp))
    have hindex : ∀ id, (c.remember r).index.get? id =
        if r.duplicateId = id then some r.sequence else c.index.get? id :=
      fun id => Table.get?_insert ..
    have hfilled : Filled (c.remember r) rest (rest.foldl remember (c.remember r)) := by
      apply ih _ hrest
      intro s hs e he
      rcases List.mem_cons.1 (hplaced.mem_iff.1 he) with rfl | he
      · exact hr s hs
      · exact hnew s (by simp [hs]) e he
    have hnext : c.nextSequence ≤ (c.remember r).nextSequence ∧
        r.sequence < (c.remember r).nextSequence := by
      show c.nextSequence ≤ max c.nextSequence (r.sequence + 1) ∧
        r.sequence < max c.nextSequence (r.sequence + 1)
      omega
    refine ⟨hfilled.address, hfilled.capacity, hfilled.pending,
      fun hsorted => hfilled.sorted (sorted_placeVisible hsorted), ?_, ?_, ?_, ?_, ?_⟩
    · exact (hfilled.perm.trans (hplaced.append_left _)).trans List.perm_middle
    · exact Nat.le_trans hnext.1 hfilled.next_le
    · intro s hs
      rcases List.mem_cons.1 hs with rfl | hs
      · exact Nat.lt_of_lt_of_le hnext.2 hfilled.next_le
      · exact hfilled.sequence_lt s hs
    · intro id key hkey
      rcases hfilled.found id key hkey with hold | ⟨s, hs, hsame⟩
      · rw [hindex] at hold
        split at hold
        · exact Or.inr ⟨r, by simp, Option.some.inj hold, ‹_›⟩
        · exact Or.inl hold
      · exact Or.inr ⟨s, by simp [hs], hsame⟩
    · intro id hid
      apply hfilled.indexed
      rw [hindex]
      rcases hid with ⟨s, hs, rfl⟩ | hold
      · rcases List.mem_cons.1 hs with rfl | hs
        · exact Or.inr (by simp)
        · exact Or.inl ⟨s, hs, rfl⟩
      · refine Or.inr ?_
        split
        · simp
        · exact hold

/-- Numbers passed over leave everything else in the cache. -/
theorem passed_fold (rs : List Record) (c : Cache) :
    ∃ n, c.nextSequence ≤ n ∧ rs.foldl passSequence c = { c with nextSequence := n } := by
  induction rs generalizing c with
  | nil => exact ⟨c.nextSequence, Nat.le_refl _, rfl⟩
  | cons r rest ih =>
    obtain ⟨n, hn, heq⟩ := ih (c.passSequence r)
    exact ⟨n, Nat.le_trans (Nat.le_max_left ..) hn, heq⟩

theorem load_nil (c : Cache) : c.load [] = c := by
  simp [load, surplus, retained, bySequence, sortBy]

theorem bySequence_perm (rs : List Record) : (bySequence rs).Perm rs := sortBy_perm ..

theorem surplus_retained (n : Nat) (rs : List Record) :
    (surplus n rs ++ retained n rs).Perm rs := by
  rw [surplus, retained, List.take_append_drop]
  exact bySequence_perm rs

theorem length_retained_le (n : Nat) (rs : List Record) : (retained n rs).length ≤ n := by
  have hlength := (bySequence_perm rs).length_eq
  rw [retained, List.length_drop]
  omega

/-- What is retained stands at different sequences. -/
theorem sequence_ne_of_retained (n : Nat) {rs : List Record}
    (hrs : rs.Pairwise fun r s => r.sequence ≠ s.sequence) :
    (retained n rs).Pairwise fun r s => r.sequence ≠ s.sequence := by
  have hsorted : (bySequence rs).Pairwise fun r s => r.sequence ≠ s.sequence :=
    (bySequence_perm rs).symm.pairwise hrs fun h => Ne.symm h
  exact hsorted.sublist (List.drop_sublist ..)

/-- A new cache is filled with what it retains. -/
theorem filled_load {c : Cache} {rs : List Record} (hvisible : c.visible = [])
    (hrs : rs.Pairwise fun r s => r.sequence ≠ s.sequence) :
    Filled c (retained c.capacity rs) (c.load rs) := by
  have hfilled := filled_remember c (sequence_ne_of_retained c.capacity hrs) (by simp [hvisible])
  obtain ⟨n, hn, heq⟩ := passed_fold (surplus c.capacity rs)
    ((retained c.capacity rs).foldl remember c)
  rw [load, heq]
  exact ⟨hfilled.address, hfilled.capacity, hfilled.pending, hfilled.sorted, hfilled.perm,
    Nat.le_trans hfilled.next_le hn,
    fun r hr => Nat.lt_of_lt_of_le (hfilled.sequence_lt r hr) hn, hfilled.found, hfilled.indexed⟩

variable {c : Cache} {rs : List Record}

/-- A new cache that is filled shows the records it retains. -/
theorem mem_load (hvisible : c.visible = [])
    (hpending : c.pending = {}) (hrs : rs.Pairwise fun r s => r.sequence ≠ s.sequence) :
    Keyed (c.load rs) ∧ (c.load rs).address = c.address ∧ (c.load rs).pending = {} ∧
      ∀ e, e ∈ (c.load rs).visible ↔
        ∃ r ∈ retained c.capacity rs, e = (r.sequence, r.duplicateId) := by
  have hfilled := filled_load hvisible hrs
  have hmem : ∀ e, e ∈ (c.load rs).visible ↔
      ∃ r ∈ retained c.capacity rs, e = (r.sequence, r.duplicateId) := by
    intro e
    rw [hfilled.perm.mem_iff, hvisible, List.append_nil, List.mem_map]
    constructor
    · rintro ⟨r, hr, rfl⟩
      exact ⟨r, hr, rfl⟩
    · rintro ⟨r, hr, rfl⟩
      exact ⟨r, hr, rfl⟩
  have hnone : ∀ t, (c.load rs).keyOf t = none := by
    intro t
    rw [keyOf, pendingOf?_of_get?_none]
    · rfl
    · rw [hfilled.pending, hpending]
      rfl
  refine ⟨⟨?_, fun e he => ?_, ?_, ?_, ?_⟩, hfilled.address, hfilled.pending.trans hpending, hmem⟩
  · exact hfilled.sorted (by rw [hvisible]; exact List.Pairwise.nil)
  · obtain ⟨r, hr, rfl⟩ := (hmem e).1 he
    exact hfilled.sequence_lt r hr
  · exact fun t key ht => by rw [hnone] at ht; cases ht
  · exact fun t key ht => by rw [hnone] at ht; cases ht
  · exact fun t u key ht => by rw [hnone] at ht; cases ht

/-- A new cache that is filled has room for what it shows. -/
theorem fitting_load (hvisible : c.visible = []) (hpending : c.pending = {})
    (hrs : rs.Pairwise fun r s => r.sequence ≠ s.sequence) : Fitting (c.load rs) := by
  have hfilled := filled_load hvisible hrs
  refine ⟨?_, fun id q hq => ?_⟩
  · rw [hfilled.capacity, hfilled.perm.length_eq, hvisible, List.append_nil, List.length_map]
    exact length_retained_le ..
  · rw [hfilled.pending, hpending] at hq
    cases hq

/-- A new cache that is filled lists an identifier as often as it retains records of it. -/
theorem count_load (hvisible : c.visible = [])
    (hrs : rs.Pairwise fun r s => r.sequence ≠ s.sequence) (id : Bytes) :
    (c.load rs).visibleIds.count id =
      ((retained c.capacity rs).map (·.duplicateId)).count id := by
  have hperm := (filled_load hvisible hrs).perm.map (·.2)
  rw [hvisible, List.append_nil, List.map_map] at hperm
  exact hperm.count_eq id

/-- Records of which an identifier has one at most agree on its sequence. -/
theorem eq_of_count_le_one {rs : List Record} {r s : Record} {id : Bytes}
    (h : (rs.map (·.duplicateId)).count id ≤ 1) (hr : r ∈ rs) (hs : s ∈ rs)
    (hrid : r.duplicateId = id) (hsid : s.duplicateId = id) : r = s := by
  induction rs with
  | nil => cases hr
  | cons t rest ih =>
    rw [List.map_cons, List.count_cons] at h
    have hnone : t.duplicateId = id → ∀ u ∈ rest, u.duplicateId ≠ id := by
      intro ht u hu huid
      have hpos := List.count_pos_iff.2 (List.mem_map_of_mem (f := (·.duplicateId)) hu)
      rw [huid] at hpos
      rw [if_pos (by simpa using ht)] at h
      omega
    rcases List.mem_cons.1 hr with rfl | hr'
    · rcases List.mem_cons.1 hs with rfl | hs'
      · rfl
      · exact absurd hsid (hnone hrid s hs')
    · rcases List.mem_cons.1 hs with rfl | hs'
      · exact absurd hrid (hnone hsid r hr')
      · exact ih (by omega) hr' hs'

/-- What the index of a new cache that is filled knows is visible. -/
theorem listedAt_load (hvisible : c.visible = []) (hindex : c.index = {})
    (hrs : rs.Pairwise fun r s => r.sequence ≠ s.sequence) (id : Bytes) :
    ListedAt id (c.load rs) := by
  intro key hkey
  have hfilled := filled_load hvisible hrs
  rcases hfilled.found id key hkey with hold | ⟨r, hr, rfl, rfl⟩
  · rw [hindex] at hold
    cases hold
  · exact hfilled.perm.mem_iff.2 (List.mem_append_left _ (List.mem_map.2 ⟨r, hr, rfl⟩))

/-- A new cache that is filled is sound at an identifier unless it retains several records of it. -/
theorem soundAt_load (hvisible : c.visible = []) (hindex : c.index = {}) (hpending : c.pending = {})
    (hrs : rs.Pairwise fun r s => r.sequence ≠ s.sequence) {id : Bytes}
    (hid : ((retained c.capacity rs).map (·.duplicateId)).count id ≤ 1) :
    SoundAt id (c.load rs) := by
  have hfilled := filled_load hvisible hrs
  refine ⟨fun key => ⟨listedAt_load hvisible hindex hrs id key, fun hmem => ?_⟩, fun q hq => ?_⟩
  · rw [hfilled.perm.mem_iff, hvisible, List.append_nil] at hmem
    obtain ⟨r, hr, heq⟩ := List.mem_map.1 hmem
    cases heq
    obtain ⟨key, hkey⟩ := Option.ne_none_iff_exists'.1 (hfilled.indexed _ (Or.inl ⟨r, hr, rfl⟩))
    rcases hfilled.found _ _ hkey with hold | ⟨s, hs, rfl, hsid⟩
    · rw [hindex] at hold
      cases hold
    · rw [hkey, eq_of_count_le_one hid hs hr hsid rfl]
  · rw [hfilled.pending, hpending] at hq
    cases hq

/-- A new cache that is filled with records of different identifiers is sound. -/
theorem sound_load (hvisible : c.visible = []) (hindex : c.index = {}) (hpending : c.pending = {})
    (hrs : rs.Pairwise fun r s => r.sequence ≠ s.sequence)
    (hids : (rs.map (·.duplicateId)).Nodup) : Sound (c.load rs) := by
  have hretained : ((retained c.capacity rs).map (·.duplicateId)).Nodup := by
    have hall := ((surplus_retained c.capacity rs).map (·.duplicateId)).nodup_iff.2 hids
    rw [List.map_append, List.nodup_append] at hall
    exact hall.2.1
  have hat : ∀ id, SoundAt id (c.load rs) := fun id =>
    soundAt_load hvisible hindex hpending hrs (List.nodup_iff_count.1 hretained id)
  have hfitting := fitting_load hvisible hpending hrs
  refine ⟨(mem_load hvisible hpending hrs).1, fun id => (hat id).index, hfitting.fits,
    fun id => (hat id).apart, hfitting.room, fun id q hq => ?_⟩
  rw [(filled_load hvisible hrs).pending, hpending] at hq
  cases hq

end MessageRouting.Cache
