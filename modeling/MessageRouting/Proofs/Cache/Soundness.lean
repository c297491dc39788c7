import MessageRouting.Proofs.Broker.BookSteps

/-!
# Sound caches

The visible entries and the index of a cache say the same, no identifier is
both pending and visible, and no number is used twice: what a cache keeps in
three tables and a counter fits together after every operation, whatever stages
the operations are given.

Results:

* `keyed_change`, `sound_change`: operations keep a cache keyed, and keep it sound.
* `nodup_visibleIds`: a sound cache shows no identifier twice.
* `equipped_step`: caches keep their address and their capacity.
-/

namespace MessageRouting

namespace Cache

/-- The visible entries stand in order of their keys, and no number is drawn as a key twice. -/
structure Keyed (c : Cache) : Prop where
  sorted : Sorted c.visible
  visible_lt : ∀ e ∈ c.visible, e.1 < c.nextSequence
  key_lt : ∀ t key, c.keyOf t = some key → key < c.nextSequence
  key_ne : ∀ t key, c.keyOf t = some key → ∀ e ∈ c.visible, e.1 ≠ key
  key_inj : ∀ t u key, c.keyOf t = some key → c.keyOf u = some key →
    t.duplicateId = u.duplicateId

/-- What a cache keeps fits together. A cache filled from a journal need not be sound: there an
identifier may stand twice. -/
structure Sound (c : Cache) : Prop extends Keyed c where
  index : ∀ id key, c.index.get? id = some key ↔ (key, id) ∈ c.visible
  fits : c.visible.length ≤ c.capacity
  /-- No identifier is both pending and visible. -/
  apart : ∀ id q, c.pending.get? id = some q → c.index.get? id = none
  /-- Only a cache with room has pending identifiers. -/
  room : ∀ id q, c.pending.get? id = some q → 0 < c.capacity
  sequence_lt : ∀ id q, c.pending.get? id = some q → q.sequence < c.nextSequence

theorem keyed_empty (a : Address) (n : Nat) : Keyed { address := a, capacity := n } where
  sorted := List.Pairwise.nil
  visible_lt := fun e he => by cases he
  key_lt := fun t key h => by cases h
  key_ne := fun t key h => by cases h
  key_inj := fun t u key h => by cases h

theorem sound_empty (a : Address) (n : Nat) : Sound { address := a, capacity := n } where
  toKeyed := keyed_empty a n
  index := fun id key => by simp [show ({} : Table Bytes Nat).get? id = none from rfl]
  fits := Nat.zero_le _
  apart := fun id q h => by cases h
  room := fun id q h => by cases h
  sequence_lt := fun id q h => by cases h

/-- Entries of one key are one entry. -/
theorem eq_of_key {l : List (Nat × Bytes)} (h : Sorted l) {e f : Nat × Bytes} (he : e ∈ l)
    (hf : f ∈ l) (hkey : e.1 = f.1) : e = f := by
  induction l with
  | nil => cases he
  | cons g rest ih =>
    obtain ⟨hg, hrest⟩ := List.pairwise_cons.1 h
    rcases List.mem_cons.1 he with heg | he
    · rcases List.mem_cons.1 hf with hfg | hf
      · rw [heg, hfg]
      · have := hg f hf
        rw [← heg] at this
        omega
    · rcases List.mem_cons.1 hf with hfg | hf
      · have := hg e he
        rw [← hfg] at this
        omega
      · exact ih hrest he hf

/-! ## Lists with one entry more, and some less -/

theorem placeVisible_perm {key : Nat} {id : Bytes} {l : List (Nat × Bytes)}
    (h : ∀ e ∈ l, e.1 ≠ key) : (placeVisible key id l).Perm ((key, id) :: l) := by
  induction l with
  | nil => exact List.Perm.refl _
  | cons f rest ih =>
    obtain ⟨k, v⟩ := f
    have hk : k ≠ key := h (k, v) (by simp)
    simp only [placeVisible]
    split
    · exact List.Perm.refl _
    · rw [if_neg (Ne.symm hk)]
      exact ((ih fun e he => h e (by simp [he])).cons _).trans (List.Perm.swap ..)

/-- As many entries go as asked for, as long as there are that many at other keys. -/
theorem length_dropOldest {key excess : Nat} {l : List (Nat × Bytes)}
    (h : excess ≤ l.countP fun e => e.1 ≠ key) : (dropOldest key excess l).1.length = excess := by
  induction excess generalizing l with
  | zero => rfl
  | succ excess ih =>
    simp only [dropOldest]
    cases ht : takeOldest key l with
    | none =>
      have hnone : ∀ l : List (Nat × Bytes), takeOldest key l = none →
          l.countP (fun e => e.1 ≠ key) = 0 := by
        intro l ht
        induction l with
        | nil => rfl
        | cons f rest ih =>
          simp only [takeOldest] at ht
          split at ht
          · cases ht
          · rename_i hf
            have hrest : takeOldest key rest = none := by simpa using ht
            simp only [List.countP_cons, ih hrest, Nat.zero_add]
            simpa using hf
      rw [hnone l ht] at h
      omega
    | some q =>
      obtain ⟨e, rest⟩ := q
      obtain ⟨front, back, rfl, rfl, hne⟩ := takeOldest_some ht
      simp only [List.length_cons]
      rw [ih]
      simp only [List.countP_append, List.countP_cons, decide_eq_true hne, if_true] at h ⊢
      omega

theorem get?_eraseAll (evicted : List (Nat × Bytes)) (t : Table Bytes Nat) (id : Bytes) :
    (evicted.foldl (fun t e => t.erase e.2) t).get? id =
      if id ∈ evicted.map (·.2) then none else t.get? id := by
  induction evicted generalizing t with
  | nil => simp
  | cons e rest ih =>
    rw [List.foldl_cons, ih, Table.get?_erase]
    rw [List.map_cons]
    by_cases hid : e.2 = id
    · simp [hid]
    · simp only [List.mem_cons, Ne.symm hid, false_or, if_neg hid]

/-! ## Numbers of an operation -/

/-- A cache whose entries stay, and whose pending stages get no new keys, stays keyed. -/
theorem Keyed.mono {c c' : Cache} (hc : Keyed c) (hvisible : c'.visible = c.visible)
    (hnext : c.nextSequence ≤ c'.nextSequence)
    (hkeys : ∀ t key, c'.keyOf t = some key → c.keyOf t = some key) : Keyed c' := by
  constructor
  case sorted => exact hvisible ▸ hc.sorted
  case visible_lt =>
    intro e he
    exact Nat.lt_of_lt_of_le (hc.visible_lt e (hvisible ▸ he)) hnext
  case key_lt => exact fun t key ht => Nat.lt_of_lt_of_le (hc.key_lt t key (hkeys t key ht)) hnext
  case key_ne => exact fun t key ht e he => hc.key_ne t key (hkeys t key ht) e (hvisible ▸ he)
  case key_inj =>
    exact fun t u key ht hu => hc.key_inj t u key (hkeys t key ht) (hkeys u key hu)

theorem keyed_staged {c c' : Cache} {id : Bytes} {owner : Owner} {s : Staged}
    (h : c.attempt id owner = (some (.staged s), c')) (hc : Keyed c) : Keyed c' := by
  have hkeys := keyOf_staged h
  obtain ⟨-, -, -, rfl, rfl⟩ := attempt_staged h
  exact hc.mono rfl (Nat.le_succ _) fun t key ht => by rw [← hkeys]; exact ht

/-- The key of a commit is that of its stage or a new number; no entry and no other stage has
it. -/
theorem key_fresh {c : Cache} {s : Staged} {key next : Nat} (hc : Keyed c)
    (h : c.KeyDrawn s key next) :
    key < next ∧ c.nextSequence ≤ next ∧ (∀ e ∈ c.visible, e.1 ≠ key) ∧
      ∀ t, t.duplicateId ≠ s.duplicateId → c.keyOf t ≠ some key := by
  rcases h with ⟨hkey, rfl⟩ | ⟨-, rfl, rfl⟩
  · exact ⟨hc.key_lt s key hkey, Nat.le_refl _, hc.key_ne s key hkey,
      fun t hid ht => hid (hc.key_inj t s key ht hkey)⟩
  · exact ⟨Nat.lt_succ_self _, Nat.le_succ _, fun e he => Nat.ne_of_lt (hc.visible_lt e he),
      fun t _ ht => Nat.lt_irrefl _ (hc.key_lt t _ ht)⟩

theorem keyed_drawn {c c' : Cache} {s : Staged} {key : Nat} (h : Drawn c s key c')
    (hc : Keyed c) : Keyed c' := by
  have hkeys := keyOf_drawn h
  obtain ⟨hkey, hnext, hne, hinj⟩ := key_fresh hc h.next
  have hcase : ∀ t k, c'.keyOf t = some k →
      (t.duplicateId = s.duplicateId ∧ k = key) ∨ c.keyOf t = some k := by
    intro t k ht
    rw [hkeys] at ht
    split at ht
    · rename_i hsame
      exact Or.inl ⟨hsame.1, (Option.some.inj ht).symm⟩
    · exact Or.inr ht
  constructor
  case sorted => exact h.visible ▸ hc.sorted
  case visible_lt =>
    intro e he
    rw [h.visible] at he
    exact Nat.lt_of_lt_of_le (hc.visible_lt e he) hnext
  case key_lt =>
    intro t k ht
    rcases hcase t k ht with ⟨-, rfl⟩ | ht
    · exact hkey
    · exact Nat.lt_of_lt_of_le (hc.key_lt t k ht) hnext
  case key_ne =>
    intro t k ht
    rw [h.visible]
    rcases hcase t k ht with ⟨-, rfl⟩ | ht
    · exact hne
    · exact hc.key_ne t k ht
  case key_inj =>
    intro t u k ht hu
    rcases hcase t k ht with ⟨htid, rfl⟩ | ht
    · rcases hcase u k hu with ⟨huid, -⟩ | hu
      · rw [htid, huid]
      · rw [htid]
        exact Decidable.byContradiction fun hid => hinj u (Ne.symm hid) hu
    · rcases hcase u k hu with ⟨huid, rfl⟩ | hu
      · rw [huid]
        exact Decidable.byContradiction fun hid => hinj t hid ht
      · exact hc.key_inj t u k ht hu

/-- Once a pending stage is resolved, what was said of pending stages holds of those left. -/
theorem keyed_resolved {c c' : Cache} {id : Bytes} (hc : Keyed c)
    (hpending : ∀ id', c'.pending.get? id' = if id = id' then none else c.pending.get? id')
    (hvisible : c'.visible = c.visible) (hnext : c'.nextSequence = c.nextSequence) :
    Keyed c' := by
  refine hc.mono hvisible (Nat.le_of_eq hnext.symm) ?_
  intro t k ht
  rw [keyOf_resolved hpending] at ht
  split at ht
  · cases ht
  · exact ht

/-- What a commit evicts and what it leaves visible are the entries from before and the new
one. -/
theorem perm_committed {c c' : Cache} {s : Staged} {p : Promotion} (h : Committed c s p c')
    (hc : Keyed c) : (p.evicted ++ c'.visible).Perm ((p.key, s.duplicateId) :: c.visible) := by
  obtain ⟨-, -, hne, -⟩ := key_fresh hc h.next
  obtain ⟨hevicted, hleft⟩ := Prod.mk.inj h.visible
  rw [hevicted, hleft]
  exact (dropOldest_perm _ _ _).trans (placeVisible_perm hne)

/-- What a commit leaves visible is what was there and the new entry, without what it evicts. -/
theorem mem_visible_iff {c c' : Cache} {s : Staged} {p : Promotion} (h : Committed c s p c')
    (hc : Keyed c) (e : Nat × Bytes) :
    e ∈ c'.visible ↔ (e = (p.key, s.duplicateId) ∨ e ∈ c.visible) ∧
      ∀ f ∈ p.evicted, f.1 ≠ e.1 := by
  obtain ⟨-, -, hne, -⟩ := key_fresh hc h.next
  have hperm := perm_committed h hc
  have hkeys : ((p.evicted ++ c'.visible).map (·.1)).Nodup := by
    refine (hperm.map _).nodup_iff.2 ?_
    rw [List.map_cons, List.nodup_cons]
    refine ⟨fun hmem => ?_, ?_⟩
    · obtain ⟨f, hf, hkey⟩ := List.mem_map.1 hmem
      exact hne f hf hkey
    · exact (List.pairwise_map.2 hc.sorted).imp fun hlt => Nat.ne_of_lt hlt
  rw [List.map_append, List.nodup_append] at hkeys
  rw [← List.mem_cons, ← hperm.mem_iff, List.mem_append]
  constructor
  · intro he
    exact ⟨Or.inr he, fun f hf => hkeys.2.2 f.1 (List.mem_map_of_mem hf) e.1
      (List.mem_map_of_mem he)⟩
  · rintro ⟨he | he, hnot⟩
    · exact absurd rfl (hnot e he)
    · exact he

theorem keyed_committed {c c' : Cache} {s : Staged} {p : Promotion} (h : Committed c s p c')
    (hc : Keyed c) : Keyed c' := by
  obtain ⟨hkey, hnext, -, hfresh⟩ := key_fresh hc h.next
  have hkeys : ∀ t k, c'.keyOf t = some k → s.duplicateId ≠ t.duplicateId ∧ c.keyOf t = some k := by
    intro t k ht
    rw [keyOf_resolved h.pending] at ht
    split at ht
    · cases ht
    · exact ⟨‹_›, ht⟩
  constructor
  case sorted => exact sorted_of_committed h hc.sorted
  case visible_lt =>
    intro e he
    rcases mem_visible_of_committed h he with rfl | he
    · exact hkey
    · exact Nat.lt_of_lt_of_le (hc.visible_lt e he) hnext
  case key_lt => exact fun t k ht => Nat.lt_of_lt_of_le (hc.key_lt t k (hkeys t k ht).2) hnext
  case key_ne =>
    intro t k ht e he heq
    obtain ⟨hid, ht⟩ := hkeys t k ht
    rcases mem_visible_of_committed h he with rfl | he
    · rw [← heq] at ht
      exact hfresh t (Ne.symm hid) ht
    · exact hc.key_ne t k ht e he heq
  case key_inj => exact fun t u k ht hu => hc.key_inj t u k (hkeys t k ht).2 (hkeys u k hu).2

theorem keyed_change {c c' : Cache} (h : Change c c') (hc : Keyed c) : Keyed c' := by
  cases h with
  | staged h => exact keyed_staged h hc
  | drawn h => exact keyed_drawn h hc
  | committed h => exact keyed_committed h hc
  | dropped hq h =>
    subst h
    exact keyed_resolved hc (fun id => Table.get?_erase ..) rfl rfl

/-! ## One identifier -/

theorem index_committed {c c' : Cache} {s : Staged} {p : Promotion} (h : Committed c s p c')
    (id : Bytes) : c'.index.get? id = if id ∈ p.evicted.map (·.2) then none
      else if s.duplicateId = id then some p.key else c.index.get? id := by
  rw [h.index, get?_eraseAll, Table.get?_insert]

/-- Every pending identifier that a change leaves was pending before, or has just been staged. -/
theorem pending_change {c c' : Cache} (h : Change c c') {id : Bytes} {q : Pending}
    (hq : c'.pending.get? id = some q) :
    (∃ q₀, c.pending.get? id = some q₀ ∧ q₀.sequence = q.sequence) ∨
      0 < c.capacity ∧ c.index.get? id = none ∧ c'.visible = c.visible ∧ c'.index = c.index ∧
        q.sequence < c'.nextSequence := by
  cases h with
  | staged h =>
    obtain ⟨henabled, hindex, -, -, rfl⟩ := attempt_staged h
    rw [Table.get?_insert] at hq
    split at hq
    · rename_i hid
      cases hq
      exact Or.inr ⟨by simpa [enabled] using henabled, hid ▸ hindex, rfl, rfl, Nat.lt_succ_self _⟩
    · exact Or.inl ⟨q, hq, rfl⟩
  | drawn h =>
    obtain ⟨q₀, hq₀, hpending⟩ := h.pending
    rw [hpending] at hq
    split at hq
    · rename_i hid
      cases hq
      exact Or.inl ⟨q₀, hid ▸ (pendingOf?_eq_some.1 hq₀).1, rfl⟩
    · exact Or.inl ⟨q, hq, rfl⟩
  | committed h =>
    rw [h.pending] at hq
    split at hq
    · cases hq
    · exact Or.inl ⟨q, hq, rfl⟩
  | dropped _ h =>
    subst h
    rw [Table.get?_erase] at hq
    split at hq
    · cases hq
    · exact Or.inl ⟨q, hq, rfl⟩

/-- A pending identifier is not the one that a commit makes visible. -/
theorem ne_of_pending_committed {c c' : Cache} {s : Staged} {p : Promotion}
    (h : Committed c s p c') {id : Bytes} {q : Pending} (hq : c'.pending.get? id = some q) :
    s.duplicateId ≠ id := by
  rw [h.pending] at hq
  intro hid
  rw [if_pos hid] at hq
  cases hq

/-- What the index knows of the identifier is visible. -/
def ListedAt (id : Bytes) (c : Cache) : Prop :=
  ∀ key, c.index.get? id = some key → (key, id) ∈ c.visible

theorem listedAt_committed {c c' : Cache} {s : Staged} {p : Promotion} {id : Bytes}
    (h : Committed c s p c') (hkeyed : Keyed c) (hc : ListedAt id c) : ListedAt id c' := by
  intro key hkey
  rw [index_committed h] at hkey
  rw [mem_visible_iff h hkeyed]
  split at hkey
  · cases hkey
  · rename_i hkept
    split at hkey
    · rename_i hid
      cases hkey
      exact ⟨Or.inl (by rw [hid]), fun f hf => (mem_visible_of_evicted h hf).2⟩
    · refine ⟨Or.inr (hc key hkey), fun f hf hsame => hkept ?_⟩
      have heq := eq_of_key hkeyed.sorted (mem_visible_of_evicted h hf).1 (hc key hkey) hsame
      exact List.mem_map.2 ⟨f, hf, congrArg Prod.snd heq⟩

/-- Every operation keeps what the index knows of an identifier visible. -/
theorem listedAt_change {c c' : Cache} {id : Bytes} (h : Change c c') (hkeyed : Keyed c)
    (hc : ListedAt id c) : ListedAt id c' := by
  cases h with
  | staged h =>
    obtain ⟨-, -, -, -, rfl⟩ := attempt_staged h
    exact hc
  | drawn h =>
    intro key hkey
    rw [h.visible]
    exact hc key (h.index ▸ hkey)
  | committed h => exact listedAt_committed h hkeyed hc
  | dropped hq h =>
    subst h
    exact hc

/-- The index and the visible entries say the same of the identifier, and it is not both pending
and visible. -/
structure SoundAt (id : Bytes) (c : Cache) : Prop where
  index : ∀ key, c.index.get? id = some key ↔ (key, id) ∈ c.visible
  apart : ∀ q, c.pending.get? id = some q → c.index.get? id = none

theorem soundAt_committed {c c' : Cache} {s : Staged} {p : Promotion} {id : Bytes}
    (h : Committed c s p c') (hkeyed : Keyed c) (hc : SoundAt id c) : SoundAt id c' := by
  obtain ⟨q₀, hq₀⟩ := h.pendingOf
  have hlisted := listedAt_committed h hkeyed fun key => (hc.index key).1
  have hgone : ∀ f ∈ p.evicted, f.2 = id → c.index.get? id = some f.1 := by
    rintro f hf rfl
    exact (hc.index f.1).2 (mem_visible_of_evicted h hf).1
  refine ⟨fun key => ⟨hlisted key, fun hmem => ?_⟩, fun q hq => ?_⟩
  · obtain ⟨hentry, hkept⟩ := (mem_visible_iff h hkeyed _).1 hmem
    rw [index_committed h]
    by_cases hid : s.duplicateId = id
    · -- The identifier was pending, so nothing that is evicted or stays is of that identifier.
      have hnone : c.index.get? id = none := hid ▸ hc.apart q₀ (hid ▸ (pendingOf?_eq_some.1 hq₀).1)
      rw [if_pos hid, if_neg fun hevicted => ?_]
      · rcases hentry with hnew | hold
        · rw [(Prod.mk.inj hnew).1]
        · rw [(hc.index key).2 hold] at hnone
          cases hnone
      · obtain ⟨f, hf, hfid⟩ := List.mem_map.1 hevicted
        rw [hgone f hf hfid] at hnone
        cases hnone
    · have hold : c.index.get? id = some key := (hc.index key).2 <|
        hentry.resolve_left fun hnew => hid (Prod.mk.inj hnew).2.symm
      rw [if_neg hid, if_neg fun hevicted => ?_, hold]
      obtain ⟨f, hf, hfid⟩ := List.mem_map.1 hevicted
      rw [hgone f hf hfid, Option.some.injEq] at hold
      exact hkept f hf hold
  · have hne := ne_of_pending_committed h hq
    rw [h.pending, if_neg hne] at hq
    rw [index_committed h, if_neg hne, hc.apart q hq, ite_self]

/-- Every operation keeps a cache sound at an identifier. -/
theorem soundAt_change {c c' : Cache} {id : Bytes} (h : Change c c') (hkeyed : Keyed c)
    (hc : SoundAt id c) : SoundAt id c' := by
  have hframe : c'.visible = c.visible → c'.index = c.index → SoundAt id c' := by
    intro hvisible hindex
    refine ⟨fun key => ?_, fun q hq => ?_⟩
    · rw [hindex, hvisible]
      exact hc.index key
    · rw [hindex]
      rcases pending_change h hq with ⟨q₀, hq₀, -⟩ | ⟨-, hnone, -⟩
      · exact hc.apart q₀ hq₀
      · exact hnone
  cases h with
  | staged h =>
    obtain ⟨-, -, -, -, rfl⟩ := attempt_staged h
    exact hframe rfl rfl
  | drawn h => exact hframe h.visible h.index
  | committed h => exact soundAt_committed h hkeyed hc
  | dropped hq h =>
    subst h
    exact hframe rfl rfl

/-- An identifier that stands at one key only is listed once. -/
theorem count_le_one {l : List (Nat × Bytes)} {id : Bytes} (hl : Sorted l)
    (h : ∀ k k', (k, id) ∈ l → (k', id) ∈ l → k = k') : (l.map (·.2)).count id ≤ 1 := by
  induction l with
  | nil => simp
  | cons e rest ih =>
    obtain ⟨he, hrest⟩ := List.pairwise_cons.1 hl
    rw [List.map_cons, List.count_cons]
    have hle := ih hrest fun k k' hk hk' => h k k' (by simp [hk]) (by simp [hk'])
    split
    · rename_i hid
      have hid : e.2 = id := by simpa using hid
      have hnone : id ∉ rest.map (·.2) := by
        intro hmem
        obtain ⟨f, hf, hfid⟩ := List.mem_map.1 hmem
        have hkey := h e.1 f.1 (by simp [← hid]) (by simp [← hfid, hf])
        exact absurd (he f hf) (by omega)
      have hzero := List.count_eq_zero_of_not_mem hnone
      omega
    · exact hle

/-- A cache that is sound at an identifier lists it once at most. -/
theorem count_visibleIds {c : Cache} {id : Bytes} (hc : SoundAt id c) (hsorted : Sorted c.visible) :
    c.visibleIds.count id ≤ 1 := by
  refine count_le_one hsorted fun k k' hk hk' => ?_
  have hkey := (hc.index k).2 hk
  rw [(hc.index k').2 hk', Option.some.injEq] at hkey
  exact hkey.symm

/-! ## Room -/

/-- A cache has room for its visible entries, and only a cache with room has pending
identifiers. -/
structure Fitting (c : Cache) : Prop where
  fits : c.visible.length ≤ c.capacity
  room : ∀ id q, c.pending.get? id = some q → 0 < c.capacity

theorem fits_committed {c c' : Cache} {s : Staged} {p : Promotion} (h : Committed c s p c')
    (hkeyed : Keyed c) (hc : Fitting c) : c'.visible.length ≤ c.capacity := by
  obtain ⟨-, -, hne, -⟩ := key_fresh hkeyed h.next
  obtain ⟨q, hq⟩ := h.pendingOf
  have hroom := hc.room _ q (pendingOf?_eq_some.1 hq).1
  have hfits := hc.fits
  have hplaced : (placeVisible p.key s.duplicateId c.visible).Perm _ := placeVisible_perm hne
  have hlen := hplaced.length_eq
  have hcount := hplaced.countP_eq fun e => decide (e.1 ≠ p.key)
  have hothers : c.visible.countP (fun e => decide (e.1 ≠ p.key)) = c.visible.length :=
    List.countP_eq_length.2 fun e he => by simpa using hne e he
  simp only [List.length_cons, List.countP_cons, hothers, ne_eq, not_true_eq_false, decide_false,
    Bool.false_eq_true, if_false] at hlen hcount
  have hexcess : (placeVisible p.key s.duplicateId c.visible).length - c.capacity ≤
      (placeVisible p.key s.duplicateId c.visible).countP fun e => decide (e.1 ≠ p.key) := by
    simp only [ne_eq]
    rw [hcount, hlen]
    omega
  have hdropped := length_dropOldest hexcess
  rw [← congrArg Prod.fst h.visible] at hdropped
  have htotal := (perm_committed h hkeyed).length_eq
  simp only [List.length_append, List.length_cons] at htotal
  dsimp only at hdropped
  omega

theorem fitting_change {c c' : Cache} (h : Change c c') (hkeyed : Keyed c) (hc : Fitting c) :
    Fitting c' := by
  have hcapacity := (frame_change h).2
  refine ⟨?_, fun id q hq => ?_⟩
  · rw [hcapacity]
    cases h with
    | staged h =>
      obtain ⟨-, -, -, -, rfl⟩ := attempt_staged h
      exact hc.fits
    | drawn h => exact h.visible ▸ hc.fits
    | committed h => exact fits_committed h hkeyed hc
    | dropped hq h =>
      subst h
      exact hc.fits
  · rw [hcapacity]
    rcases pending_change h hq with ⟨q₀, hq₀, -⟩ | ⟨hroom, -⟩
    · exact hc.room id q₀ hq₀
    · exact hroom

theorem mem_visibleIds_of_listedAt {c : Cache} {id : Bytes} (hc : ListedAt id c)
    (h : c.isDuplicate id = true) : id ∈ c.visibleIds := by
  simp only [isDuplicate, Bool.and_eq_true, Table.contains] at h
  obtain ⟨key, hkey⟩ := Option.isSome_iff_exists.1 h.2
  exact List.mem_map.2 ⟨_, hc key hkey, rfl⟩

/-- A cache that is sound at an identifier knows it as a duplicate just when it lists it. -/
theorem isDuplicate_iff {c : Cache} {id : Bytes} (hc : SoundAt id c) (hfitting : Fitting c) :
    c.isDuplicate id = true ↔ id ∈ c.visibleIds := by
  refine ⟨mem_visibleIds_of_listedAt fun key => (hc.index key).1, fun hmem => ?_⟩
  obtain ⟨e, he, rfl⟩ := List.mem_map.1 hmem
  have hkey := (hc.index e.1).2 he
  have hroom : 0 < c.capacity := Nat.lt_of_lt_of_le (List.length_pos_of_mem he) hfitting.fits
  simp [isDuplicate, enabled, Table.contains, hkey, hroom]

/-! ## Whole caches -/

theorem Sound.at {c : Cache} (hc : Sound c) (id : Bytes) : SoundAt id c :=
  ⟨hc.index id, hc.apart id⟩

/-- A sound cache shows no identifier twice. -/
theorem nodup_visibleIds {c : Cache} (hc : Sound c) : c.visibleIds.Nodup :=
  List.nodup_iff_count.2 fun id => count_visibleIds (hc.at id) hc.sorted

/-- Every operation keeps a cache sound. -/
theorem sound_change {c c' : Cache} (h : Change c c') (hc : Sound c) : Sound c' := by
  have hat := fun id => soundAt_change h hc.toKeyed (hc.at id)
  have hfitting := fitting_change h hc.toKeyed ⟨hc.fits, hc.room⟩
  refine ⟨keyed_change h hc.toKeyed, fun id => (hat id).index, hfitting.fits,
    fun id => (hat id).apart, hfitting.room, fun id q hq => ?_⟩
  rcases pending_change h hq with ⟨q₀, hq₀, hsequence⟩ | ⟨-, -, -, -, hlt⟩
  · rw [← hsequence]
    exact Nat.lt_of_lt_of_le (hc.sequence_lt id q₀ hq₀) (next_le_of_change h)
  · exact hlt

end Cache

namespace Broker

/-! ## Caches of one capacity -/

theorem stations_step {b b' : Broker} (h : Step b b') : b'.stations = b.stations := by
  cases h with
  | opened a => exact (steady_openOfficeCache ..).stations
  | written => exact (steady_writeNext ..).stations
  | called waiting ready => rfl
  | granted hgrant =>
    exact ((steady_attemptStage ..).of_eq (congrArg Prod.fst hgrant)).stations
  | persisted hh hp => exact ((steady_persistStage ..).of_eq (congrArg Prod.fst hp)).stations
  | promoted hh => exact (steady_commitStage ..).stations
  | dropped hh => exact (steady_rollbackStage ..).stations
  | released hh x => exact (steady_release ..).stations
  | stored hh hs => exact ((steady_storePrepared ..).of_eq (congrArg Prod.fst hs)).stations

theorem station_office {b b' : Broker} (h : b'.stations = b.stations) (n : Nat) :
    (b'.office n).station = (b.office n).station := by
  have hn := congrArg (fun l => l[n]?) h
  simp only [stations, List.getElem?_map] at hn
  simp only [office, List.getD_eq_getElem?_getD]
  cases hb : b.offices[n]? with
  | none =>
    rw [hb] at hn
    simp only [Option.map_none, Option.map_eq_none_iff] at hn
    rw [hn]
  | some o =>
    rw [hb] at hn
    obtain ⟨o', ho', heq⟩ := Option.map_eq_some_iff.1 hn
    rw [ho']
    exact heq

/-- The first post office gives its caches room for `n` identifiers, and they have it. -/
structure Equipped (n : Nat) (b : Broker) : Prop where
  settings : (b.office 0).settings.idCacheCapacity = n
  caches : ∀ a c, b.caches.get? (.office 0 a) = some c → c.address = a ∧ c.capacity = n

theorem Equipped.cache {n : Nat} {b : Broker} (h : Equipped n b) (a : Address) :
    b.cache (.office 0 a) = Cache.absent ∨
      (b.cache (.office 0 a)).address = a ∧ (b.cache (.office 0 a)).capacity = n := by
  cases hget : b.caches.get? (.office 0 a) with
  | none => exact Or.inl (cache_of_get?_none hget)
  | some c =>
    rw [cache_of_get?_some hget]
    exact Or.inr (h.caches a c hget)

theorem equipped_step {n : Nat} {b b' : Broker} (h : Step b b') (hb : Equipped n b) :
    Equipped n b' := by
  have hstation := station_office (stations_step h) 0
  refine ⟨?_, fun a c hc => ?_⟩
  · have hsettings : (b'.office 0).settings = (b.office 0).settings := congrArg Prod.fst hstation
    rw [hsettings]
    exact hb.settings
  · rcases caches_step h (.office 0 a) with heq | ⟨a', ha, -, heq⟩ | ⟨c', heq, hchange⟩
    · exact hb.caches a c (heq ▸ hc)
    · obtain rfl : a = a' := by injection ha
      rw [heq, Option.some.injEq] at hc
      subst hc
      exact ⟨rfl, hb.settings⟩
    · rw [heq, Option.some.injEq] at hc
      subst hc
      rcases hb.cache a with habsent | ⟨haddress, hcapacity⟩
      · rw [habsent] at hchange
        exact absurd hchange Cache.not_change_absent
      · obtain ⟨ha, hc⟩ := Cache.frame_change hchange
        exact ⟨ha.trans haddress, hc.trans hcapacity⟩

/-- A cache that has been opened has room, if the settings give it any. -/
theorem enabled_openOfficeCache {n : Nat} (hn : 0 < n) {b : Broker} (hb : Equipped n b)
    (a : Address) : ((b.openOfficeCache 0 a).cache (.office 0 a)).enabled = true := by
  rcases openOfficeCache_cases b 0 a with ⟨⟨c, hc⟩, heq⟩ | ⟨-, heq⟩
  · rw [heq, cache_of_get?_some hc, Cache.enabled, (hb.caches a c hc).2]
    simpa using hn
  · rw [heq, cache_setCache, if_pos rfl, Cache.enabled]
    simpa [hb.settings] using hn

theorem enabled_step {b b' : Broker} (h : Step b b') {ref : CacheRef}
    (hb : (b.cache ref).enabled = true) : (b'.cache ref).enabled = true := by
  rcases cache_step h ref with heq | ⟨a, -, habsent, -⟩ | hchange
  · rw [heq]
    exact hb
  · rw [habsent] at hb
    cases hb
  · rw [Cache.enabled, (Cache.frame_change hchange).2]
    exact hb

def AllKeyed (b : Broker) : Prop := ∀ ref, (b.cache ref).Keyed

theorem keyed_step {b b' : Broker} (h : Step b b') (hb : AllKeyed b) : AllKeyed b' := by
  intro ref
  rcases cache_step h ref with heq | ⟨a, -, -, heq⟩ | hchange
  · rw [heq]
    exact hb ref
  · rw [heq]
    exact Cache.keyed_empty ..
  · exact Cache.keyed_change hchange (hb ref)

def AllSound (b : Broker) : Prop := ∀ ref, (b.cache ref).Sound

theorem sound_step {b b' : Broker} (h : Step b b') (hb : AllSound b) : AllSound b' := by
  intro ref
  rcases cache_step h ref with heq | ⟨a, -, -, heq⟩ | hchange
  · rw [heq]
    exact hb ref
  · rw [heq]
    exact Cache.sound_empty ..
  · exact Cache.sound_change hchange (hb ref)

end Broker

end MessageRouting
