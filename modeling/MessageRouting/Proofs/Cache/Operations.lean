import MessageRouting.Duplicate.Cache

/-!
# What a cache operation does

Each operation of a cache read as its effect on lookups: which stages are
pending, with which commit keys, which entries are visible and which number
comes next. Everything said later about caches goes through these readings.

Results:

* `attempt_staged`, `drawKey_some`, `commit_some`, `rollback_some`: what an
  operation that does something does.
* `visibleIds_commit_of_lt`: a commit whose key is the largest enters as the
  newest, and the oldest entries go.
* `holds_staged`, `holds_drawn`, `holds_resolved` and `keyOf_staged`,
  `keyOf_drawn`, `keyOf_resolved`: which stages are pending then, with which
  keys.
-/

namespace MessageRouting.Cache

/-! ## Visible entries -/

theorem mem_placeVisible {key : Nat} {id : Bytes} {e : Nat × Bytes} {l : List (Nat × Bytes)}
    (h : e ∈ placeVisible key id l) : e = (key, id) ∨ e ∈ l := by
  induction l with
  | nil => simpa [placeVisible] using h
  | cons f rest ih =>
    obtain ⟨k, v⟩ := f
    simp only [placeVisible] at h
    split at h
    · rcases List.mem_cons.1 h with h | h <;> simp [h]
    · split at h
      · rcases List.mem_cons.1 h with h | h <;> simp [h]
      · rcases List.mem_cons.1 h with h | h
        · simp [h]
        · rcases ih h with h | h <;> simp [h]

/-- The entries stand in order of their keys, no two at the same one. -/
def Sorted (l : List (Nat × Bytes)) : Prop := l.Pairwise fun e f => e.1 < f.1

theorem sorted_placeVisible {key : Nat} {id : Bytes} {l : List (Nat × Bytes)} (h : Sorted l) :
    Sorted (placeVisible key id l) := by
  induction l with
  | nil => simp [placeVisible, Sorted]
  | cons f rest ih =>
    obtain ⟨k, v⟩ := f
    obtain ⟨hf, hrest⟩ := List.pairwise_cons.1 h
    simp only [placeVisible]
    split
    · rename_i hlt
      refine List.pairwise_cons.2 ⟨fun e he => ?_, h⟩
      rcases List.mem_cons.1 he with rfl | he
      · exact hlt
      · have := hf e he
        simp only at this ⊢
        omega
    · split
      · rename_i heq
        subst heq
        exact List.pairwise_cons.2 ⟨hf, hrest⟩
      · refine List.pairwise_cons.2 ⟨fun e he => ?_, ih hrest⟩
        rcases mem_placeVisible he with rfl | he
        · simp only
          omega
        · exact hf e he

/-- An entry whose key comes after all others goes to the end. -/
theorem placeVisible_of_lt {key : Nat} {id : Bytes} {l : List (Nat × Bytes)}
    (h : ∀ e ∈ l, e.1 < key) : placeVisible key id l = l ++ [(key, id)] := by
  induction l with
  | nil => rfl
  | cons f rest ih =>
    obtain ⟨k, v⟩ := f
    have hk : k < key := h (k, v) (by simp)
    simp only [placeVisible]
    rw [if_neg (by omega), if_neg (by omega), ih fun e he => h e (by simp [he])]
    rfl

/-! ## Eviction -/

theorem takeOldest_some {key : Nat} {e : Nat × Bytes} {l rest : List (Nat × Bytes)}
    (h : takeOldest key l = some (e, rest)) :
    ∃ front back, l = front ++ e :: back ∧ rest = front ++ back ∧ e.1 ≠ key := by
  induction l generalizing rest with
  | nil => simp [takeOldest] at h
  | cons f l ih =>
    simp only [takeOldest] at h
    split at h
    · rename_i hf
      cases h
      exact ⟨[], l, rfl, rfl, hf⟩
    · cases ht : takeOldest key l with
      | none => simp [ht] at h
      | some q =>
        obtain ⟨o, more⟩ := q
        simp only [ht, Option.map_some, Option.some.injEq, Prod.mk.injEq] at h
        obtain ⟨rfl, rfl⟩ := h
        obtain ⟨front, back, rfl, rfl, hne⟩ := ih ht
        exact ⟨f :: front, back, rfl, rfl, hne⟩

/-- What eviction does to the visible entries alone: those dropped, and those left. -/
def dropOldest (key : Nat) : Nat → List (Nat × Bytes) → List (Nat × Bytes) × List (Nat × Bytes)
  | 0, l => ([], l)
  | excess + 1, l =>
    match takeOldest key l with
    | none => ([], l)
    | some (e, rest) => (e :: (dropOldest key excess rest).1, (dropOldest key excess rest).2)

theorem evict_eq_dropOldest (key excess : Nat) (c : Cache) :
    evict key excess c = ((dropOldest key excess c.visible).1,
      { c with
        visible := (dropOldest key excess c.visible).2
        index := (dropOldest key excess c.visible).1.foldl (fun t e => t.erase e.2) c.index }) := by
  induction excess generalizing c with
  | zero => rfl
  | succ excess ih =>
    simp only [evict, dropOldest]
    cases takeOldest key c.visible with
    | none => rfl
    | some q =>
      obtain ⟨e, rest⟩ := q
      simp only [ih, List.foldl_cons]

/-- Eviction splits the entries in two. -/
theorem dropOldest_perm (key excess : Nat) (l : List (Nat × Bytes)) :
    ((dropOldest key excess l).1 ++ (dropOldest key excess l).2).Perm l := by
  induction excess generalizing l with
  | zero => exact List.Perm.refl _
  | succ excess ih =>
    simp only [dropOldest]
    cases ht : takeOldest key l with
    | none => exact List.Perm.refl _
    | some q =>
      obtain ⟨e, rest⟩ := q
      obtain ⟨front, back, rfl, rfl, -⟩ := takeOldest_some ht
      exact ((ih _).cons e).trans List.perm_middle.symm

theorem dropOldest_sublist (key excess : Nat) (l : List (Nat × Bytes)) :
    (dropOldest key excess l).2.Sublist l := by
  induction excess generalizing l with
  | zero => exact List.Sublist.refl _
  | succ excess ih =>
    simp only [dropOldest]
    cases ht : takeOldest key l with
    | none => exact List.Sublist.refl _
    | some q =>
      obtain ⟨e, rest⟩ := q
      obtain ⟨front, back, rfl, rfl, -⟩ := takeOldest_some ht
      exact (ih _).trans ((List.sublist_cons_self e back).append_left front)

theorem ne_of_mem_dropOldest {key excess : Nat} {l : List (Nat × Bytes)} {e : Nat × Bytes}
    (h : e ∈ (dropOldest key excess l).1) : e.1 ≠ key := by
  induction excess generalizing l with
  | zero => simp [dropOldest] at h
  | succ excess ih =>
    simp only [dropOldest] at h
    cases ht : takeOldest key l with
    | none => simp [ht] at h
    | some q =>
      obtain ⟨f, rest⟩ := q
      simp only [ht, List.mem_cons] at h
      rcases h with rfl | h
      · exact (takeOldest_some ht).choose_spec.choose_spec.2.2
      · exact ih h

theorem takeOldest_eq_none {key : Nat} {l : List (Nat × Bytes)} (h : ∀ e ∈ l, e.1 = key) :
    takeOldest key l = none := by
  induction l with
  | nil => rfl
  | cons e rest ih =>
    rw [takeOldest, if_neg (by simp [h e (by simp)]), ih fun f hf => h f (by simp [hf])]
    rfl

/-- Entries at other keys go from the front; those at the key stay. -/
theorem dropOldest_append {key excess : Nat} {olds rest : List (Nat × Bytes)}
    (holds : ∀ e ∈ olds, e.1 ≠ key) (hrest : ∀ e ∈ rest, e.1 = key) :
    dropOldest key excess (olds ++ rest) = (olds.take excess, olds.drop excess ++ rest) := by
  induction excess generalizing olds with
  | zero => rfl
  | succ excess ih =>
    cases olds with
    | nil => simp [dropOldest, takeOldest_eq_none hrest]
    | cons e olds =>
      have he : e.1 ≠ key := holds e (by simp)
      have htake : takeOldest key (e :: olds ++ rest) = some (e, olds ++ rest) := by
        rw [List.cons_append, takeOldest, if_pos he]
      rw [dropOldest, htake]
      dsimp only
      rw [ih fun f hf => holds f (by simp [hf])]
      rfl

/-! ## Pending stages -/

/-- The commit key drawn for a stage that is pending; none if none has been drawn. -/
def keyOf (c : Cache) (s : Staged) : Option Nat := (c.pendingOf? s).bind (·.commitKey)

/-- Whether the stage is pending, at its address and for its owner. -/
def Holds (c : Cache) (s : Staged) : Prop :=
  s.address = c.address ∧ ∃ key, c.pending.get? s.duplicateId = some ⟨s.owner, s.sequence, key⟩

instance (c : Cache) (s : Staged) : Decidable (c.Holds s) :=
  decidable_of_iff (s.address = c.address ∧ ∃ p ∈ c.pending.get? s.duplicateId,
      p.owner = s.owner ∧ p.sequence = s.sequence) <| and_congr_right fun _ => by
    constructor
    · rintro ⟨⟨owner, sequence, key⟩, hp, rfl, rfl⟩
      exact ⟨key, hp⟩
    · rintro ⟨key, hp⟩
      exact ⟨_, hp, rfl, rfl⟩

theorem pendingOf?_eq_some {c : Cache} {s : Staged} {q : Pending} :
    c.pendingOf? s = some q ↔ c.pending.get? s.duplicateId = some q ∧ q.sequence = s.sequence := by
  unfold pendingOf?
  split
  · rename_i p hp
    rw [hp, Option.some.injEq]
    constructor
    · intro h
      split at h
      · cases h
        exact ⟨rfl, ‹_›⟩
      · cases h
    · rintro ⟨rfl, hs⟩
      rw [if_pos hs]
  · rename_i hp
    simp [hp]

theorem pendingOf?_of_holds {c : Cache} {s : Staged} (h : c.Holds s) :
    ∃ q, c.pendingOf? s = some q ∧ q.owner = s.owner := by
  obtain ⟨-, key, hp⟩ := h
  exact ⟨_, pendingOf?_eq_some.2 ⟨hp, rfl⟩, rfl⟩

/-- Two stages of one identifier are not both pending. -/
theorem eq_of_holds {c : Cache} {s t : Staged} (hs : c.Holds s) (ht : c.Holds t)
    (hid : s.duplicateId = t.duplicateId) : s = t := by
  obtain ⟨sa, sid, sn, so⟩ := s
  obtain ⟨ta, tid, tn, town⟩ := t
  obtain ⟨hsa, key, hsp⟩ := hs
  obtain ⟨hta, key', htp⟩ := ht
  simp only at hid hsa hsp hta htp
  subst hid
  rw [hsp] at htp
  simp only [Option.some.injEq, Pending.mk.injEq] at htp
  rw [hsa, hta, htp.1, htp.2.1]

/-! ## Staging -/

theorem attempt_staged {c c' : Cache} {id : Bytes} {owner : Owner} {s : Staged}
    (h : c.attempt id owner = (some (.staged s), c')) :
    c.enabled = true ∧ c.index.get? id = none ∧ c.pending.get? id = none ∧
      s = ⟨c.address, id, c.nextSequence, owner⟩ ∧
      c' = { c with
        pending := c.pending.insert id ⟨owner, c.nextSequence, none⟩
        nextSequence := c.nextSequence + 1 } := by
  unfold attempt at h
  split at h
  · simp at h
  · rename_i henabled
    split at h
    · simp at h
    · rename_i hindex
      split at h
      · split at h <;> simp at h
      · rename_i hpending
        simp only [Prod.mk.injEq, Option.some.injEq, StageOutcome.staged.injEq] at h
        refine ⟨by simpa using henabled, ?_, hpending, h.1.symm, h.2.symm⟩
        simpa [Table.contains] using hindex

theorem attempt_alreadyStaged {c c' : Cache} {id : Bytes} {owner : Owner}
    (h : c.attempt id owner = (some .alreadyStaged, c')) :
    ∃ q, c.pending.get? id = some q ∧ q.owner = owner := by
  unfold attempt at h
  split at h
  · simp at h
  · split at h
    · simp at h
    · split at h
      · rename_i q hq
        split at h
        · exact ⟨q, hq, ‹_›⟩
        · simp at h
      · simp at h

/-- A cache with room does not let an identifier through without a stage. -/
theorem attempt_ne_disabled {c c' : Cache} {id : Bytes} {owner : Owner} (hc : c.enabled = true) :
    c.attempt id owner ≠ (some .disabled, c') := by
  unfold attempt
  rw [hc]
  intro h
  simp only [Bool.not_true, Bool.false_eq_true, if_false] at h
  split at h
  · simp at h
  · split at h
    · split at h <;> simp at h
    · simp at h

/-! ## Drawing commit keys -/

/-- The key of a stage, which was drawn before or is the next number. -/
def KeyDrawn (c : Cache) (s : Staged) (key next : Nat) : Prop :=
  c.keyOf s = some key ∧ next = c.nextSequence ∨
    c.keyOf s = none ∧ key = c.nextSequence ∧ next = c.nextSequence + 1

/-- What drawing the key of a pending stage does. -/
structure Drawn (c : Cache) (s : Staged) (key : Nat) (c' : Cache) : Prop where
  address : c'.address = c.address
  capacity : c'.capacity = c.capacity
  visible : c'.visible = c.visible
  index : c'.index = c.index
  next : c.KeyDrawn s key c'.nextSequence
  pending : ∃ q, c.pendingOf? s = some q ∧ ∀ id, c'.pending.get? id =
    if s.duplicateId = id then some { q with commitKey := some key } else c.pending.get? id

theorem drawKey_some {c c' : Cache} {s : Staged} {key : Nat} (h : c.drawKey s = (some key, c')) :
    Drawn c s key c' := by
  unfold drawKey at h
  split at h
  · simp at h
  · rename_i q hq
    split at h
    · rename_i k hk
      simp only [Prod.mk.injEq, Option.some.injEq] at h
      obtain ⟨rfl, rfl⟩ := h
      refine ⟨rfl, rfl, rfl, rfl, Or.inl ⟨by simp [keyOf, hq, hk], rfl⟩, q, hq, fun id => ?_⟩
      split
      · rename_i hid
        rw [← hid, (pendingOf?_eq_some.1 hq).1, ← hk]
      · rfl
    · rename_i hk
      simp only [Prod.mk.injEq, Option.some.injEq] at h
      obtain ⟨rfl, rfl⟩ := h
      refine ⟨rfl, rfl, rfl, rfl, Or.inr ⟨by simp [keyOf, hq, hk], rfl, rfl⟩, q, hq, fun id => ?_⟩
      exact Table.get?_insert ..

theorem drawKey_none {c c' : Cache} {s : Staged} (h : c.drawKey s = (none, c')) :
    c.pendingOf? s = none ∧ c' = c := by
  unfold drawKey at h
  split at h
  · rename_i hq
    simp only [Prod.mk.injEq, true_and] at h
    exact ⟨hq, h.symm⟩
  · split at h <;> simp at h

/-! ## Resolving -/

/-- What committing a pending stage does. -/
structure Committed (c : Cache) (s : Staged) (p : Promotion) (c' : Cache) : Prop where
  address : c'.address = c.address
  capacity : c'.capacity = c.capacity
  next : c.KeyDrawn s p.key c'.nextSequence
  pendingOf : ∃ q, c.pendingOf? s = some q
  pending : ∀ id, c'.pending.get? id =
    if s.duplicateId = id then none else c.pending.get? id
  visible : (p.evicted, c'.visible) =
    dropOldest p.key ((placeVisible p.key s.duplicateId c.visible).length - c.capacity)
      (placeVisible p.key s.duplicateId c.visible)
  index : c'.index =
    p.evicted.foldl (fun t e => t.erase e.2) (c.index.insert s.duplicateId p.key)

theorem commit_some {c c' : Cache} {s : Staged} {p : Promotion}
    (h : c.commit s = (some p, c')) : Committed c s p c' := by
  unfold commit at h
  split at h
  · simp at h
  · rename_i key d hd
    have hdrawn := drawKey_some hd
    simp only [evict_eq_dropOldest, Prod.mk.injEq, Option.some.injEq] at h
    obtain ⟨rfl, rfl⟩ := h
    obtain ⟨q, hq, hpending⟩ := hdrawn.pending
    refine ⟨hdrawn.address, hdrawn.capacity, hdrawn.next, ⟨q, hq⟩, fun id => ?_, ?_, ?_⟩
    · show (d.pending.erase s.duplicateId).get? id = _
      rw [Table.get?_erase, hpending id]
      split <;> rfl
    · show _ = dropOldest key _ _
      rw [hdrawn.visible, hdrawn.capacity]
    · show List.foldl _ (d.index.insert s.duplicateId key) _ = _
      rw [hdrawn.index]

/-- A stage whose key has been drawn is committed under it. -/
theorem key_of_committed {c c' : Cache} {s : Staged} {p : Promotion} {key : Nat}
    (h : Committed c s p c') (hkey : c.keyOf s = some key) : p.key = key := by
  rcases h.next with ⟨hp, -⟩ | ⟨hp, -⟩
  · exact Option.some.inj (hp.symm.trans hkey)
  · rw [hp] at hkey
    cases hkey

/-- Only a stage that is not pending is committed without a promotion. -/
theorem commit_none {c c' : Cache} {s : Staged} (h : c.commit s = (none, c')) :
    c.pendingOf? s = none := by
  unfold commit at h
  split at h
  · rename_i hd
    exact (drawKey_none hd).1
  · simp at h

theorem rollback_some {c c' : Cache} {s : Staged} (h : c.rollback s = some c') :
    (∃ q, c.pendingOf? s = some q) ∧
      c' = { c with pending := c.pending.erase s.duplicateId } := by
  unfold rollback at h
  split at h
  · cases h
  · rename_i q hq
    exact ⟨⟨q, hq⟩, (Option.some.inj h).symm⟩

theorem rollback_none {c : Cache} {s : Staged} (h : c.rollback s = none) :
    c.pendingOf? s = none := by
  unfold rollback at h
  split at h
  · assumption
  · cases h

/-- What is left visible are old entries and the new one. -/
theorem mem_visible_of_committed {c c' : Cache} {s : Staged} {p : Promotion}
    (h : Committed c s p c') {e : Nat × Bytes} (he : e ∈ c'.visible) :
    e = (p.key, s.duplicateId) ∨ e ∈ c.visible := by
  have hv : c'.visible = _ := congrArg Prod.snd h.visible
  rw [hv] at he
  exact mem_placeVisible ((dropOldest_sublist _ _ _).subset he)

/-- What is evicted was visible before. -/
theorem mem_visible_of_evicted {c c' : Cache} {s : Staged} {p : Promotion}
    (h : Committed c s p c') {e : Nat × Bytes} (he : e ∈ p.evicted) :
    e ∈ c.visible ∧ e.1 ≠ p.key := by
  have hv : p.evicted = _ := congrArg Prod.fst h.visible
  rw [hv] at he
  have hne := ne_of_mem_dropOldest he
  have hmem := (dropOldest_perm _ _ _).subset (List.mem_append_left _ he)
  rcases mem_placeVisible hmem with rfl | hmem
  · exact absurd rfl hne
  · exact ⟨hmem, hne⟩

theorem sorted_of_committed {c c' : Cache} {s : Staged} {p : Promotion}
    (h : Committed c s p c') (hc : Sorted c.visible) : Sorted c'.visible := by
  have hv : c'.visible = _ := congrArg Prod.snd h.visible
  rw [hv]
  exact (sorted_placeVisible hc).sublist (dropOldest_sublist _ _ _)

/-- The identifiers once one more has become visible in a cache with room for `capacity`: as many of
the oldest go as there is no room for. -/
def withNewest (capacity : Nat) (ids : List Bytes) (id : Bytes) : List Bytes :=
  ids.drop (ids.length + 1 - capacity) ++ [id]

/-- A commit whose key comes after all visible ones appends its entry, and drops from the front what
there is no room for. -/
theorem visible_commit_of_lt {c c' : Cache} {s : Staged} {p : Promotion}
    (h : Committed c s p c') (hlt : ∀ e ∈ c.visible, e.1 < p.key) :
    c'.visible =
      c.visible.drop (c.visible.length + 1 - c.capacity) ++ [(p.key, s.duplicateId)] := by
  have hv : c'.visible = _ := congrArg Prod.snd h.visible
  have hne : ∀ e ∈ c.visible, e.1 ≠ p.key := fun e he => Nat.ne_of_lt (hlt e he)
  rw [placeVisible_of_lt hlt, dropOldest_append hne (by simp)] at hv
  simpa using hv

/-- Such a commit enters as the newest. -/
theorem visibleIds_commit_of_lt {c c' : Cache} {s : Staged} {p : Promotion}
    (h : Committed c s p c') (hlt : ∀ e ∈ c.visible, e.1 < p.key) :
    c'.visibleIds = withNewest c.capacity c.visibleIds s.duplicateId := by
  simp [visibleIds, withNewest, visible_commit_of_lt h hlt, List.map_drop]

/-! ## Pending stages and their keys after an operation -/

/-- What one operation that does something makes of a cache. -/
inductive Change (c c' : Cache) : Prop where
  | staged {id : Bytes} {owner : Owner} {s : Staged}
    (h : c.attempt id owner = (some (.staged s), c'))
  | drawn {s : Staged} {key : Nat} (h : Drawn c s key c')
  | committed {s : Staged} {p : Promotion} (h : Committed c s p c')
  | dropped {s : Staged} {q : Pending} (hq : c.pendingOf? s = some q)
    (h : c' = { c with pending := c.pending.erase s.duplicateId })

theorem frame_change {c c' : Cache} (h : Change c c') :
    c'.address = c.address ∧ c'.capacity = c.capacity := by
  cases h with
  | staged h =>
    obtain ⟨-, -, -, -, rfl⟩ := attempt_staged h
    exact ⟨rfl, rfl⟩
  | drawn h => exact ⟨h.address, h.capacity⟩
  | committed h => exact ⟨h.address, h.capacity⟩
  | dropped hq h =>
    subst h
    exact ⟨rfl, rfl⟩

theorem next_le_of_change {c c' : Cache} (h : Change c c') :
    c.nextSequence ≤ c'.nextSequence := by
  have hkey : ∀ {s : Staged} {key next : Nat}, c.KeyDrawn s key next → c.nextSequence ≤ next := by
    rintro s key next (⟨-, h⟩ | ⟨-, -, h⟩) <;> omega
  cases h with
  | staged h =>
    obtain ⟨-, -, -, -, rfl⟩ := attempt_staged h
    exact Nat.le_succ _
  | drawn h => exact hkey h.next
  | committed h => exact hkey h.next
  | dropped hq h =>
    subst h
    exact Nat.le_refl _

/-- The cache in place of one that has not been made. -/
def absent : Cache := { address := default, capacity := 0 }

/-- A cache that does nothing yet changes only by being made. -/
theorem not_change_absent {c : Cache} : ¬ Change absent c := by
  intro h
  have hnone : ∀ s, absent.pendingOf? s = none := fun s => rfl
  cases h with
  | staged h =>
    obtain ⟨henabled, -⟩ := attempt_staged h
    cases henabled
  | @drawn s _ h =>
    obtain ⟨q, hq, -⟩ := h.pending
    rw [hnone] at hq
    cases hq
  | committed h =>
    obtain ⟨q, hq⟩ := h.pendingOf
    rw [hnone] at hq
    cases hq
  | dropped hq h =>
    rw [hnone] at hq
    cases hq

theorem pendingOf?_congr {c c' : Cache} {s t : Staged}
    (h : c'.pending.get? t.duplicateId = c.pending.get? s.duplicateId)
    (hn : t.sequence = s.sequence) : c'.pendingOf? t = c.pendingOf? s := by
  simp only [pendingOf?, h, hn]

theorem pendingOf?_of_get?_none {c : Cache} {s : Staged}
    (h : c.pending.get? s.duplicateId = none) : c.pendingOf? s = none := by
  simp only [pendingOf?, h]

/-- A new stage is pending besides the old ones. -/
theorem holds_staged {c c' : Cache} {id : Bytes} {owner : Owner} {s t : Staged}
    (h : c.attempt id owner = (some (.staged s), c')) :
    c'.Holds t ↔ t = s ∨ c.Holds t := by
  obtain ⟨-, -, hpending, rfl, rfl⟩ := attempt_staged h
  obtain ⟨ta, tid, tn, town⟩ := t
  simp only [Holds, Table.get?_insert, Staged.mk.injEq]
  by_cases hid : id = tid
  · subst hid
    rw [hpending]
    simp only [if_true, Option.some.injEq, Pending.mk.injEq]
    constructor
    · rintro ⟨ha, key, ho, hn, -⟩
      exact Or.inl ⟨ha, trivial, hn.symm, ho.symm⟩
    · rintro (⟨ha, -, hn, ho⟩ | ⟨-, key, hk⟩)
      · exact ⟨ha, none, ho.symm, hn.symm, rfl⟩
      · exact absurd hk (by simp)
  · simp only [if_neg hid]
    constructor
    · exact Or.inr
    · rintro (⟨-, hid', -⟩ | h)
      · exact absurd hid'.symm hid
      · exact h

theorem keyOf_staged {c c' : Cache} {id : Bytes} {owner : Owner} {s : Staged}
    (h : c.attempt id owner = (some (.staged s), c')) (t : Staged) :
    c'.keyOf t = c.keyOf t := by
  obtain ⟨-, -, hpending, rfl, rfl⟩ := attempt_staged h
  by_cases hid : id = t.duplicateId
  · have hold : c.pendingOf? t = none := pendingOf?_of_get?_none (hid ▸ hpending)
    have hnew : ∀ c' : Cache, c'.pending.get? t.duplicateId = some ⟨owner, c.nextSequence, none⟩ →
        c'.keyOf t = none := fun c' h => by
      simp only [keyOf, pendingOf?, h]
      split <;> rfl
    rw [hnew _ (by rw [Table.get?_insert, if_pos hid]), keyOf, hold]
    rfl
  · have hsame : pendingOf? { c with
        pending := c.pending.insert id ⟨owner, c.nextSequence, none⟩
        nextSequence := c.nextSequence + 1 } t = c.pendingOf? t :=
      pendingOf?_congr (by simp only [Table.get?_insert, if_neg hid]) rfl
    simp only [keyOf, hsame]

theorem holds_drawn {c c' : Cache} {s t : Staged} {key : Nat} (h : Drawn c s key c') :
    c'.Holds t ↔ c.Holds t := by
  obtain ⟨q, hq, hpending⟩ := h.pending
  have hget := (pendingOf?_eq_some.1 hq).1
  simp only [Holds, h.address, hpending]
  by_cases hid : s.duplicateId = t.duplicateId
  · rw [hid] at hget
    rw [if_pos hid, hget]
    simp only [Option.some.injEq]
    constructor
    · rintro ⟨ha, k, hk⟩
      refine ⟨ha, q.commitKey, ?_⟩
      simp only [Pending.mk.injEq] at hk
      rw [← hk.1, ← hk.2.1]
    · rintro ⟨ha, k, rfl⟩
      exact ⟨ha, some key, rfl⟩
  · rw [if_neg hid]

theorem keyOf_drawn {c c' : Cache} {s : Staged} {key : Nat} (h : Drawn c s key c') (t : Staged) :
    c'.keyOf t = if t.duplicateId = s.duplicateId ∧ t.sequence = s.sequence then some key
      else c.keyOf t := by
  obtain ⟨q, hq, hpending⟩ := h.pending
  obtain ⟨hget, hseq⟩ := pendingOf?_eq_some.1 hq
  by_cases hid : s.duplicateId = t.duplicateId
  · have hnew : c'.pending.get? t.duplicateId = some { q with commitKey := some key } := by
      rw [hpending, if_pos hid]
    by_cases hn : t.sequence = s.sequence
    · rw [if_pos ⟨hid.symm, hn⟩, keyOf,
        pendingOf?_eq_some.2 ⟨hnew, show q.sequence = t.sequence by rw [hseq, hn]⟩]
      rfl
    · have hne : q.sequence ≠ t.sequence := fun e => hn (by rw [← e, hseq])
      rw [if_neg fun e => hn e.2]
      rw [hid] at hget
      simp only [keyOf, pendingOf?, hnew, hget, if_neg hne]
  · rw [if_neg fun e => hid e.1.symm]
    have hsame : c'.pendingOf? t = c.pendingOf? t :=
      pendingOf?_congr (by rw [hpending, if_neg hid]) rfl
    simp only [keyOf, hsame]

/-- A key that has been drawn stays. -/
theorem keyOf_drawn_of_some {c c' : Cache} {s t : Staged} {key k : Nat} (h : Drawn c s key c')
    (ht : c.keyOf t = some k) : c'.keyOf t = some k := by
  rw [keyOf_drawn h]
  split
  · rename_i hsame
    have hkey : c.keyOf s = some k := by
      rw [← ht]
      unfold keyOf
      rw [pendingOf?_congr (by rw [hsame.1]) hsame.2.symm]
    rcases h.next with ⟨hold, -⟩ | ⟨hnone, -⟩
    · rw [← hold, hkey]
    · rw [hnone] at hkey
      cases hkey
  · exact ht

/-- Once its identifier has been resolved a stage is not pending, and the others are. -/
theorem holds_resolved {c c' : Cache} {id : Bytes} {t : Staged} (ha : c'.address = c.address)
    (hpending : ∀ id', c'.pending.get? id' = if id = id' then none else c.pending.get? id') :
    c'.Holds t ↔ c.Holds t ∧ t.duplicateId ≠ id := by
  simp only [Holds, ha, hpending]
  by_cases hid : id = t.duplicateId
  · simp [hid]
  · simp [hid, Ne.symm hid]

theorem keyOf_resolved {c c' : Cache} {id : Bytes}
    (hpending : ∀ id', c'.pending.get? id' = if id = id' then none else c.pending.get? id')
    (t : Staged) : c'.keyOf t = if id = t.duplicateId then none else c.keyOf t := by
  by_cases hid : id = t.duplicateId
  · have hnone : c'.pendingOf? t = none :=
      pendingOf?_of_get?_none (by rw [hpending, if_pos hid])
    simp only [keyOf, hnone, if_pos hid, Option.bind_none]
  · have hsame : c'.pendingOf? t = c.pendingOf? t :=
      pendingOf?_congr (by rw [hpending, if_neg hid]) rfl
    simp only [keyOf, hsame, if_neg hid]

/-- A stage whose number has been given out and that is pending after a change was pending before,
and has kept its key if it had one. -/
theorem pendingOf?_of_change {c c' : Cache} {s : Staged} (h : Change c c')
    (hs : s.sequence < c.nextSequence) {q : Pending} (hq : c'.pendingOf? s = some q) :
    ∃ q₀, c.pendingOf? s = some q₀ ∧ ∀ k, q₀.commitKey = some k → q.commitKey = some k := by
  obtain ⟨hget, hseq⟩ := pendingOf?_eq_some.1 hq
  have hsame : c.pending.get? s.duplicateId = some q →
      ∃ q₀, c.pendingOf? s = some q₀ ∧ ∀ k, q₀.commitKey = some k → q.commitKey = some k :=
    fun h => ⟨q, pendingOf?_eq_some.2 ⟨h, hseq⟩, fun _ hk => hk⟩
  cases h with
  | staged h =>
    obtain ⟨-, -, -, -, rfl⟩ := attempt_staged h
    rw [Table.get?_insert] at hget
    split at hget
    · -- The new stage has a later number.
      rw [← Option.some.inj hget] at hseq
      exact absurd hs (by simp only at hseq; omega)
    · exact hsame hget
  | @drawn t key h =>
    obtain ⟨q₀, hq₀, hpending⟩ := h.pending
    rw [hpending] at hget
    split at hget
    · rename_i hid
      rw [← Option.some.inj hget] at hseq
      have hq₀' : c.pendingOf? s = some q₀ :=
        pendingOf?_eq_some.2 ⟨hid ▸ (pendingOf?_eq_some.1 hq₀).1, hseq⟩
      refine ⟨q₀, hq₀', fun k hk => ?_⟩
      rw [← Option.some.inj hget]
      rcases h.next with ⟨hkey, -⟩ | ⟨hnone, -⟩
      · rw [keyOf, hq₀, Option.bind_some, hk] at hkey
        exact hkey.symm
      · rw [keyOf, hq₀, Option.bind_some, hk] at hnone
        cases hnone
    · exact hsame hget
  | committed h =>
    rw [h.pending] at hget
    split at hget
    · cases hget
    · exact hsame hget
  | dropped _ h =>
    subst h
    rw [Table.get?_erase] at hget
    split at hget
    · cases hget
    · exact hsame hget

end MessageRouting.Cache
