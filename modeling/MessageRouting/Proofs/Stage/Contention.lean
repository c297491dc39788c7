import MessageRouting.Broker.Command
import MessageRouting.Proofs.Cache.Representation

/-!
# Contention for stages

Any number of owners ask one cache for stages, wait for each other, and commit
stages or roll them back, in whatever order that comes about. Whenever a stage
is resolved, all calls that wait for the cache may try again, and any of them
may be the next to do so. Stages may be resolved by whoever has a copy, and more
than once.

Results:

* `contention_run`: a run of the commands for a cache is such an interleaving.
* `contended_of_contention`: what holds of the cache, of the calls and of the
  trace, however the steps are interleaved.
* `stages_exclusive`: an identifier is held by one stage at a time, no call
  waits in vain, and an old stage resolves nothing.
-/

namespace MessageRouting

/-- A call that asks the cache for a stage, and does nothing else with it. -/
structure Call.Asks (ref : CacheRef) (c : Call) : Prop where
  cache : c.cache = ref
  purpose : c.purpose = .stage

/-! ## What becomes of a stage -/

/-- Whether the event tells that the stage is resolved, whatever copy of it that was done with. -/
def Event.Resolves (ref : CacheRef) (s : Staged) : Event → Prop
  | .promoted h _ | .dropped h =>
    h.cache = ref ∧ h.staged.duplicateId = s.duplicateId ∧ h.staged.sequence = s.sequence
  | _ => False

/-- Whether the event tells nothing of stages. -/
def Event.isAside : Event → Bool
  | .granted _ | .promoted _ _ | .dropped _ => false
  | _ => true

/-- The ticket of the call that the event tells to have ended. -/
def Event.ticket? : Event → Option Nat
  | .answered ticket _ => some ticket
  | _ => none

/-- The stage has been rolled back. -/
def RolledBack (ref : CacheRef) (s : Staged) (trace : List Event) : Prop :=
  ∃ h, .dropped h ∈ trace ∧ (Event.dropped h).Resolves ref s

/-- The stage has been committed, under the key `key`, and `later` has happened since. -/
def CommittedAs (ref : CacheRef) (s : Staged) (key : Nat) (trace later : List Event) : Prop :=
  ∃ earlier h p, trace = earlier ++ .promoted h p :: later ∧ p.key = key ∧
    (Event.promoted h p).Resolves ref s

/-- The stage has been committed, and its entry has been evicted since. -/
def Evicted (ref : CacheRef) (s : Staged) (trace : List Event) : Prop :=
  ∃ key later, CommittedAs ref s key trace later ∧
    ∃ h p, .promoted h p ∈ later ∧ h.cache = ref ∧ (key, s.duplicateId) ∈ p.evicted

/-- What has become of a stage since it was granted, told by the trace since then and by its cache
now. -/
inductive Fate (ref : CacheRef) (s : Staged) (trace : List Event) (c : Cache) : Prop where
  | held {q : Pending} (hq : c.pending.get? s.duplicateId = some q)
    (hsequence : q.sequence = s.sequence)
    (hgrants : ∀ t, .granted ⟨ref, t⟩ ∈ trace → t.duplicateId ≠ s.duplicateId)
  | rolledBack (h : RolledBack ref s trace)
  | visible {key : Nat} {later : List Event} (h : CommittedAs ref s key trace later)
    (hvisible : (key, s.duplicateId) ∈ c.visible)
  | evicted (h : Evicted ref s trace)

section

variable {ref : CacheRef} {s : Staged} {trace : List Event}

theorem CommittedAs.append {key : Nat} {later : List Event}
    (h : CommittedAs ref s key trace later) (es : List Event) :
    CommittedAs ref s key (trace ++ es) (later ++ es) := by
  obtain ⟨earlier, g, p, rfl, hkey, hresolves⟩ := h
  exact ⟨earlier, g, p, by simp, hkey, hresolves⟩

theorem RolledBack.append (h : RolledBack ref s trace) (es : List Event) :
    RolledBack ref s (trace ++ es) := by
  obtain ⟨g, hg, hresolves⟩ := h
  exact ⟨g, List.mem_append_left _ hg, hresolves⟩

theorem Evicted.append (h : Evicted ref s trace) (es : List Event) :
    Evicted ref s (trace ++ es) := by
  obtain ⟨key, later, hcommitted, g, p, hg, hrest⟩ := h
  exact ⟨key, later ++ es, hcommitted.append es, g, p, List.mem_append_left _ hg, hrest⟩

variable {c : Cache}

/-- A stage that the trace does not tell to be resolved is held. -/
theorem Fate.held_of_unresolved (h : Fate ref s trace c)
    (hnone : ∀ e ∈ trace, ¬ e.Resolves ref s) :
    (∃ q, c.pending.get? s.duplicateId = some q) ∧
      ∀ t, .granted ⟨ref, t⟩ ∈ trace → t.duplicateId ≠ s.duplicateId := by
  have hcommitted : ∀ {key : Nat} {later : List Event}, ¬ CommittedAs ref s key trace later := by
    rintro key later ⟨earlier, g, p, rfl, -, hresolves⟩
    exact hnone _ (by simp) hresolves
  cases h with
  | held hq hsequence hgrants => exact ⟨⟨_, hq⟩, hgrants⟩
  | rolledBack h =>
    obtain ⟨g, hg, hresolves⟩ := h
    exact absurd hresolves (hnone _ hg)
  | visible h hvisible => exact absurd h hcommitted
  | evicted h =>
    obtain ⟨key, later, h, -⟩ := h
    exact absurd h hcommitted

/-- No stage of an identifier that is neither pending nor visible is held, and the entry of none is
left. -/
theorem Fate.over (h : Fate ref s trace c) (hsound : c.Sound)
    (hpending : c.pending.get? s.duplicateId = none)
    (hindex : c.index.get? s.duplicateId = none) :
    RolledBack ref s trace ∨ Evicted ref s trace := by
  cases h with
  | held hq hsequence hgrants =>
    rw [hpending] at hq
    cases hq
  | rolledBack h => exact .inl h
  | visible h hvisible =>
    rw [(hsound.index _ _).2 hvisible] at hindex
    cases hindex
  | evicted h => exact .inr h

end

/-! ## Turns of a cache -/

/-- What one step makes of a cache and tells of it. -/
inductive Turn (ref : CacheRef) (c : Cache) : List Event → Cache → Prop where
  | aside {es : List Event} (hes : ∀ e ∈ es, e.isAside = true) : Turn ref c es c
  | drawn {s : Staged} {key : Nat} {c' : Cache} {es : List Event} (h : Cache.Drawn c s key c')
    (hes : ∀ e ∈ es, e.isAside = true) : Turn ref c es c'
  | granted {id : Bytes} {owner : Owner} {s : Staged} {c' : Cache}
    (h : c.attempt id owner = (some (.staged s), c')) : Turn ref c [.granted ⟨ref, s⟩] c'
  | promoted {s : Staged} {p : Promotion} {c' : Cache} (h : Cache.Committed c s p c') :
    Turn ref c [.promoted ⟨ref, s⟩ p] c'
  | dropped {s : Staged} {q : Pending} (hq : c.pendingOf? s = some q) :
    Turn ref c [.dropped ⟨ref, s⟩] { c with pending := c.pending.erase s.duplicateId }

section

variable {ref : CacheRef} {s : Staged} {trace es : List Event} {c c' : Cache}

theorem Turn.change (h : Turn ref c es c') : c' = c ∨ Cache.Change c c' := by
  cases h with
  | aside hes => exact .inl rfl
  | drawn h hes => exact .inr (.drawn h)
  | granted h => exact .inr (.staged h)
  | promoted h => exact .inr (.committed h)
  | dropped hq => exact .inr (.dropped hq rfl)

theorem Cache.pendingOf?_unique {t : Staged} {q q₀ : Pending} (h : c.pendingOf? t = some q₀)
    (hq : c.pending.get? t.duplicateId = some q) : q₀ = q :=
  Option.some.inj ((Cache.pendingOf?_eq_some.1 h).1.symm.trans hq)

/-- Whatever is pending stays so when a key is drawn for a stage. -/
theorem Cache.Drawn.pending_get? {t : Staged} {key : Nat} (h : Cache.Drawn c t key c') {id : Bytes}
    {q : Pending} (hq : c.pending.get? id = some q) :
    ∃ q', c'.pending.get? id = some q' ∧ q'.sequence = q.sequence ∧ q'.owner = q.owner := by
  obtain ⟨q₀, hq₀, hpending⟩ := h.pending
  rw [hpending]
  split
  · rename_i hid
    subst hid
    obtain rfl := Cache.pendingOf?_unique hq₀ hq
    exact ⟨_, rfl, rfl, rfl⟩
  · exact ⟨q, hq, rfl, rfl⟩

/-- A stage is still held when a turn leaves it pending and grants nothing of its identifier. -/
theorem Fate.still {q : Pending} (hq : c'.pending.get? s.duplicateId = some q)
    (hsequence : q.sequence = s.sequence)
    (hgrants : ∀ t, .granted ⟨ref, t⟩ ∈ trace → t.duplicateId ≠ s.duplicateId)
    (hnew : ∀ t, .granted ⟨ref, t⟩ ∈ es → t.duplicateId ≠ s.duplicateId) :
    Fate ref s (trace ++ es) c' := by
  refine .held hq hsequence fun t ht => ?_
  rcases List.mem_append.1 ht with ht | ht
  · exact hgrants t ht
  · exact hnew t ht

/-- A turn that tells nothing of stages changes the fate of none. -/
theorem Fate.aside (h : Fate ref s trace c) (hes : ∀ e ∈ es, e.isAside = true)
    (hvisible : c'.visible = c.visible)
    (hpending : ∀ q, c.pending.get? s.duplicateId = some q →
      ∃ q', c'.pending.get? s.duplicateId = some q' ∧ q'.sequence = q.sequence) :
    Fate ref s (trace ++ es) c' := by
  cases h with
  | held hq hsequence hgrants =>
    obtain ⟨q', hq', hsame⟩ := hpending _ hq
    exact .still hq' (hsame.trans hsequence) hgrants fun t ht => by cases hes _ ht
  | rolledBack h => exact .rolledBack (h.append es)
  | visible h hmem => exact .visible (h.append es) (hvisible ▸ hmem)
  | evicted h => exact .evicted (h.append es)

theorem Fate.drawn (h : Fate ref s trace c) {t : Staged} {key : Nat}
    (hdrawn : Cache.Drawn c t key c') (hes : ∀ e ∈ es, e.isAside = true) :
    Fate ref s (trace ++ es) c' := by
  refine h.aside hes hdrawn.visible fun q hq => ?_
  obtain ⟨q', hq', hsequence, -⟩ := hdrawn.pending_get? hq
  exact ⟨q', hq', hsequence⟩

/-- A stage that is granted leaves all earlier ones their fate. -/
theorem Fate.granted (h : Fate ref s trace c) {id : Bytes} {owner : Owner} {t : Staged}
    (hattempt : c.attempt id owner = (some (.staged t), c')) :
    Fate ref s (trace ++ [.granted ⟨ref, t⟩]) c' := by
  obtain ⟨-, -, hnone, rfl, rfl⟩ := Cache.attempt_staged hattempt
  cases h with
  | held hq hsequence hgrants =>
    have hid : id ≠ s.duplicateId := by
      rintro rfl
      rw [hnone] at hq
      cases hq
    refine .still (by rw [Table.get?_insert, if_neg hid]; exact hq) hsequence hgrants fun u hu => ?_
    cases List.mem_singleton.1 hu
    exact hid
  | rolledBack h => exact .rolledBack (h.append _)
  | visible h hmem => exact .visible (h.append _) hmem
  | evicted h => exact .evicted (h.append _)

/-- A commit makes the stage visible that it is given, and may evict what is visible. -/
theorem Fate.promoted (h : Fate ref s trace c) {t : Staged} {p : Promotion}
    (hcommitted : Cache.Committed c t p c') (hkeyed : c.Keyed) :
    Fate ref s (trace ++ [.promoted ⟨ref, t⟩ p]) c' := by
  have hmem := Cache.mem_visible_iff hcommitted hkeyed
  obtain ⟨q₀, hq₀⟩ := hcommitted.pendingOf
  have hseq₀ := (Cache.pendingOf?_eq_some.1 hq₀).2
  cases h with
  | @held q hq hsequence hgrants =>
    by_cases hid : t.duplicateId = s.duplicateId
    · have hsame : q₀ = q := Cache.pendingOf?_unique hq₀ (hid ▸ hq)
      have hresolves : (Event.promoted ⟨ref, t⟩ p).Resolves ref s :=
        ⟨rfl, hid, by rw [← hseq₀, hsame, hsequence]⟩
      refine .visible ⟨trace, _, p, rfl, rfl, hresolves⟩ ((hmem _).2 ⟨.inl (by rw [hid]), ?_⟩)
      exact fun f hf => (Cache.mem_visible_of_evicted hcommitted hf).2
    · exact .still (by rw [hcommitted.pending, if_neg hid]; exact hq) hsequence hgrants
        fun u hu => by cases List.mem_singleton.1 hu
  | rolledBack h => exact .rolledBack (h.append _)
  | @visible key later h hvisible =>
    by_cases hgone : ∃ f ∈ p.evicted, f.1 = key
    · obtain ⟨f, hf, hkey⟩ := hgone
      have heq : f = (key, s.duplicateId) :=
        Cache.eq_of_key hkeyed.sorted (Cache.mem_visible_of_evicted hcommitted hf).1 hvisible hkey
      exact .evicted ⟨key, _, h.append _, ⟨ref, t⟩, p, by simp, rfl, heq ▸ hf⟩
    · refine .visible (h.append _) ((hmem _).2 ⟨.inr hvisible, fun f hf hkey => ?_⟩)
      exact hgone ⟨f, hf, hkey⟩
  | evicted h => exact .evicted (h.append _)

/-- A rollback drops the stage that it is given, and no other. -/
theorem Fate.dropped (h : Fate ref s trace c) {t : Staged} {q₀ : Pending}
    (hq₀ : c.pendingOf? t = some q₀) :
    Fate ref s (trace ++ [.dropped ⟨ref, t⟩])
      { c with pending := c.pending.erase t.duplicateId } := by
  have hseq₀ := (Cache.pendingOf?_eq_some.1 hq₀).2
  cases h with
  | @held q hq hsequence hgrants =>
    by_cases hid : t.duplicateId = s.duplicateId
    · have hsame : q₀ = q := Cache.pendingOf?_unique hq₀ (hid ▸ hq)
      exact .rolledBack ⟨⟨ref, t⟩, by simp, rfl, hid, by rw [← hseq₀, hsame, hsequence]⟩
    · exact .still (by rw [Table.get?_erase, if_neg hid]; exact hq) hsequence hgrants
        fun u hu => by cases List.mem_singleton.1 hu
  | rolledBack h => exact .rolledBack (h.append _)
  | visible h hmem => exact .visible (h.append _) hmem
  | evicted h => exact .evicted (h.append _)

theorem Fate.turn (h : Fate ref s trace c) (hturn : Turn ref c es c') (hkeyed : c.Keyed) :
    Fate ref s (trace ++ es) c' := by
  cases hturn with
  | aside hes => exact h.aside hes rfl fun q hq => ⟨q, hq, rfl⟩
  | drawn hdrawn hes => exact h.drawn hdrawn hes
  | granted hattempt => exact h.granted hattempt
  | promoted hcommitted => exact h.promoted hcommitted hkeyed
  | dropped hq => exact h.dropped hq

end

/-! ## The trace of a cache -/

/-- What the trace tells of the stages of a cache, and the cache itself, fit together. -/
structure Told (ref : CacheRef) (trace : List Event) (c : Cache) : Prop where
  sound : c.Sound
  /-- Whatever is granted has a fate since then, and a number that is not used again. -/
  granted : ∀ t₁ s t₂, trace = t₁ ++ .granted ⟨ref, s⟩ :: t₂ →
    Fate ref s t₂ c ∧ s.sequence < c.nextSequence
  /-- Of two grants of an identifier, the first is over before the second. -/
  regranted : ∀ t₁ s t₂ s' t₃, trace = t₁ ++ .granted ⟨ref, s⟩ :: t₂ ++ .granted ⟨ref, s'⟩ :: t₃ →
    s.duplicateId = s'.duplicateId →
    s.sequence < s'.sequence ∧ (RolledBack ref s t₂ ∨ Evicted ref s t₂)
  /-- What is resolved is not pending, and never will be. -/
  resolved : ∀ e ∈ trace, ∀ s, e.Resolves ref s →
    s.sequence < c.nextSequence ∧ c.pendingOf? s = none

/-- Where an event stands in a list that has got longer. -/
theorem split_append {l t₁ t₂ es : List Event} {e : Event} (h : l ++ es = t₁ ++ e :: t₂) :
    (∃ t, l = t₁ ++ e :: t ∧ t₂ = t ++ es) ∨ ∃ t, t₁ = l ++ t ∧ es = t ++ e :: t₂ := by
  rcases List.append_eq_append_iff.1 h with ⟨t, rfl, hes⟩ | ⟨t, rfl, ht⟩
  · exact .inr ⟨t, rfl, hes⟩
  · cases t with
    | nil => exact .inr ⟨[], by simp, by simpa using ht.symm⟩
    | cons f t =>
      obtain ⟨rfl, rfl⟩ := List.cons.inj ht
      exact .inl ⟨t, rfl, rfl⟩

section

variable {ref : CacheRef} {s : Staged} {trace es : List Event} {c c' : Cache}

/-- A turn that tells of a grant tells of nothing else. -/
theorem Turn.grant (h : Turn ref c es c') {t₁ t₂ : List Event}
    (hes : es = t₁ ++ .granted ⟨ref, s⟩ :: t₂) :
    t₁ = [] ∧ t₂ = [] ∧ ∃ owner, c.attempt s.duplicateId owner = (some (.staged s), c') := by
  have hmem : .granted ⟨ref, s⟩ ∈ es := by simp [hes]
  cases h with
  | aside haside => cases haside _ hmem
  | drawn hdrawn haside => cases haside _ hmem
  | @granted id owner s' _ hattempt =>
    cases List.mem_singleton.1 hmem
    obtain ⟨-, -, -, rfl, -⟩ := Cache.attempt_staged hattempt
    rcases List.append_eq_singleton_iff.1 hes.symm with ⟨rfl, htail⟩ | ⟨-, hnil⟩
    · exact ⟨rfl, (List.cons.inj htail).2, owner, hattempt⟩
    · cases hnil
  | promoted hcommitted => cases List.mem_singleton.1 hmem
  | dropped hq => cases List.mem_singleton.1 hmem

/-- A turn that tells that a stage is resolved finds it pending, and leaves nothing pending of its
identifier. -/
theorem Turn.resolve (h : Turn ref c es c') {e : Event} (he : e ∈ es)
    (hresolves : e.Resolves ref s) :
    (∃ q, c.pendingOf? s = some q) ∧ c'.pending.get? s.duplicateId = none := by
  have hnot : e.isAside = true → False := by
    intro haside
    cases e <;> first | exact hresolves | cases haside
  cases h with
  | aside haside => exact (hnot (haside e he)).elim
  | drawn hdrawn haside => exact (hnot (haside e he)).elim
  | granted hattempt =>
    cases List.mem_singleton.1 he
    exact hresolves.elim
  | promoted hcommitted =>
    cases List.mem_singleton.1 he
    obtain ⟨-, hid, hsequence⟩ := hresolves
    obtain ⟨q, hq⟩ := hcommitted.pendingOf
    refine ⟨⟨q, ?_⟩, by rw [hcommitted.pending, if_pos hid]⟩
    rw [← hq]
    exact Cache.pendingOf?_congr (by rw [hid]) hsequence.symm
  | @dropped t q hq =>
    cases List.mem_singleton.1 he
    obtain ⟨-, hid, hsequence⟩ := hresolves
    refine ⟨⟨q, ?_⟩, by rw [Table.get?_erase, if_pos hid]⟩
    rw [← hq]
    exact Cache.pendingOf?_congr (by rw [hid]) hsequence.symm

/-- A stage that has a number and is not pending never is again. -/
theorem Cache.pendingOf?_change (h : Cache.Change c c') (hlt : s.sequence < c.nextSequence)
    (hnone : c.pendingOf? s = none) : c'.pendingOf? s = none := by
  refine Option.eq_none_iff_forall_not_mem.2 fun q hq => ?_
  obtain ⟨q₀, hq₀, -⟩ := Cache.pendingOf?_of_change h hlt hq
  rw [hnone] at hq₀
  cases hq₀

/-- What fits together goes on doing so, whatever turn the cache takes. -/
theorem Told.turn (h : Told ref trace c) (hturn : Turn ref c es c') :
    Told ref (trace ++ es) c' := by
  have hnext : c.nextSequence ≤ c'.nextSequence := by
    rcases hturn.change with rfl | hchange
    · exact Nat.le_refl _
    · exact Cache.next_le_of_change hchange
  have hpending : ∀ s, s.sequence < c.nextSequence → c.pendingOf? s = none →
      c'.pendingOf? s = none := by
    intro s hlt hnone
    rcases hturn.change with rfl | hchange
    · exact hnone
    · exact Cache.pendingOf?_change hchange hlt hnone
  constructor
  case sound =>
    rcases hturn.change with rfl | hchange
    · exact h.sound
    · exact Cache.sound_change hchange h.sound
  case granted =>
    intro t₁ s t₂ htrace
    rcases split_append htrace with ⟨t, hold, rfl⟩ | ⟨t, rfl, hes⟩
    · obtain ⟨hfate, hlt⟩ := h.granted t₁ s t hold
      exact ⟨hfate.turn hturn h.sound.toKeyed, Nat.lt_of_lt_of_le hlt hnext⟩
    · obtain ⟨rfl, rfl, owner, hattempt⟩ := hturn.grant hes
      obtain ⟨-, -, -, hs, rfl⟩ := Cache.attempt_staged hattempt
      have hsequence : s.sequence = c.nextSequence := by rw [hs]
      refine ⟨.held (by rw [Table.get?_insert, if_pos rfl]) hsequence.symm (by simp), ?_⟩
      rw [hsequence]
      exact Nat.lt_succ_self _
  case regranted =>
    intro t₁ s t₂ s' t₃ htrace hid
    rcases split_append htrace with ⟨t, hold, -⟩ | ⟨t, hfront, hes⟩
    · exact h.regranted t₁ s t₂ s' t hold hid
    · obtain ⟨rfl, -, owner, hattempt⟩ := hturn.grant hes
      -- What is granted is neither pending nor visible, so the stage before is over.
      obtain ⟨-, hindex, hnone, hs', -⟩ := Cache.attempt_staged hattempt
      obtain ⟨hfate, hlt⟩ := h.granted t₁ s t₂ (by rw [hfront, List.append_nil])
      rw [← hid] at hindex hnone
      exact ⟨by rw [hs']; exact hlt, hfate.over h.sound hnone hindex⟩
  case resolved =>
    intro e he s hresolves
    rcases List.mem_append.1 he with he | he
    · obtain ⟨hlt, hnone⟩ := h.resolved e he s hresolves
      exact ⟨Nat.lt_of_lt_of_le hlt hnext, hpending s hlt hnone⟩
    · obtain ⟨⟨q, hq⟩, hnone⟩ := hturn.resolve he hresolves
      obtain ⟨hget, hsequence⟩ := Cache.pendingOf?_eq_some.1 hq
      refine ⟨?_, Cache.pendingOf?_of_get?_none hnone⟩
      rw [← hsequence]
      exact Nat.lt_of_lt_of_le (h.sound.sequence_lt _ q hget) hnext

end

/-! ## What a step of the broker does -/

/-- A call waits for an identifier that another owner holds. -/
theorem Cache.attempt_none {c c' : Cache} {id : Bytes} {owner : Owner}
    (h : c.attempt id owner = (none, c')) :
    ∃ q, c.pending.get? id = some q ∧ q.owner ≠ owner := by
  unfold attempt at h
  split at h
  · cases h
  · split at h
    · cases h
    · split at h
      · rename_i q hq
        split at h
        · cases h
        · exact ⟨q, hq, ‹_›⟩
      · cases h

/-- An owner need not wait for what it holds. -/
theorem Cache.attempt_of_owner {c : Cache} {id : Bytes} {q : Pending} (hc : c.Sound)
    (hq : c.pending.get? id = some q) : c.attempt id q.owner = (some .alreadyStaged, c) := by
  have hroom := hc.room id q hq
  simp [attempt, enabled, hroom, Table.contains, hc.apart id q hq, hq]

namespace Broker

variable {ref : CacheRef} {b : Broker} {c : Call}

/-- A call for a stage is granted one, or has another answer at once, or waits for an identifier
that another owner holds. -/
theorem submitCall_cases (b : Broker) (hc : c.Asks ref) :
    (∃ s d, (b.cache ref).attempt c.duplicateId c.owner = (some (.staged s), d) ∧
        b.submitCall c =
          ((b.setCache ref d).log (.granted ⟨ref, s⟩), some (.stage (.staged s)))) ∨
      (∃ o, b.submitCall c = (b, some (.stage o))) ∨
      (∃ q, (b.cache ref).pending.get? c.duplicateId = some q ∧ q.owner ≠ c.owner) ∧
        b.submitCall c = ({ b with waiting := b.waiting ++ [c] }, none) := by
  unfold submitCall attempt attemptStage
  rw [hc.cache, hc.purpose]
  rcases hattempt : (b.cache ref).attempt c.duplicateId c.owner with ⟨o, d⟩
  cases o with
  | none => exact .inr (.inr ⟨Cache.attempt_none hattempt, rfl⟩)
  | some o =>
    cases o with
    | staged s => exact .inl ⟨s, d, rfl, rfl⟩
    | alreadyStaged => exact .inr (.inl ⟨_, rfl⟩)
    | duplicate => exact .inr (.inl ⟨_, rfl⟩)
    | disabled => exact .inr (.inl ⟨_, rfl⟩)

theorem submitCall_of_owner (hc : c.Asks ref) (hsound : (b.cache ref).Sound) {q : Pending}
    (hq : (b.cache ref).pending.get? c.duplicateId = some q) (howner : q.owner = c.owner) :
    b.submitCall c = (b, some (.stage .alreadyStaged)) := by
  unfold submitCall attempt attemptStage
  rw [hc.cache, hc.purpose, ← howner, Cache.attempt_of_owner hsound hq]

theorem persistStage_told {s : Staged} (b : Broker) :
    ∃ es, (∀ e ∈ es, e.isAside = true ∧ e.ticket? = none) ∧
      (b.persistStage ⟨ref, s⟩).1.trace = b.trace ++ es ∧
      (b.persistStage ⟨ref, s⟩).1.waiting = b.waiting ∧
      (b.persistStage ⟨ref, s⟩).1.ready = b.ready ∧
      ((b.persistStage ⟨ref, s⟩).1.cache ref = b.cache ref ∨
        ∃ key, Cache.Drawn (b.cache ref) s key ((b.persistStage ⟨ref, s⟩).1.cache ref)) := by
  rcases hp : b.persistStage ⟨ref, s⟩ with ⟨b', result⟩
  rcases persistStage_cases hp with ⟨-, rfl, -⟩ | ⟨key, d, hdrawn, ⟨-, hwrite⟩ | ⟨-, rfl, -⟩⟩
  · exact ⟨[], by simp, by simp, rfl, rfl, .inl rfl⟩
  · obtain rfl := congrArg Prod.fst hwrite
    refine ⟨_, ?_, rfl, rfl, rfl, .inr ⟨key, ?_⟩⟩
    · intro e he
      obtain rfl := List.mem_singleton.1 he
      exact ⟨rfl, rfl⟩
    · rw [cache_write, cache_setCache, if_pos rfl]
      exact hdrawn
  · refine ⟨[], by simp, by simp [setCache], rfl, rfl, .inr ⟨key, ?_⟩⟩
    rw [cache_setCache, if_pos rfl]
    exact hdrawn

/-- When all waiting calls ask the same cache, waking them leaves none waiting. -/
theorem wake_eq (hb : ∀ c ∈ b.waiting, c.Asks ref) :
    b.wake ref = { b with waiting := [], ready := b.ready ++ b.waiting } := by
  have hall : ∀ c ∈ b.waiting, c.cache = ref := fun c hc => (hb c hc).cache
  have hnone : b.waiting.filter (fun c => c.cache ≠ ref) = [] :=
    List.filter_eq_nil_iff.2 fun c hc => by simp [hall c hc]
  have hsome : b.waiting.filter (fun c => c.cache = ref) = b.waiting :=
    List.filter_eq_self.2 fun c hc => by simp [hall c hc]
  rw [wake, hnone, hsome]

end Broker

/-! ## Contention -/

open Broker in
/-- Owners contend for one cache. `calls` are those that have had to wait, in order. -/
inductive Contention (ref : CacheRef) (b₀ : Broker) : List Call → Broker → Prop where
  | begin : Contention ref b₀ [] b₀
  | asked {calls : List Call} {b : Broker} (h : Contention ref b₀ calls b) {c : Call}
    (hc : c.Asks ref) :
    Contention ref b₀ (if (b.submitCall c).2 = none then calls ++ [c] else calls)
      (b.submitCall c).1
  /-- Any of the calls that may try again does so. -/
  | retried {calls : List Call} {b : Broker} (h : Contention ref b₀ calls b)
    {front back : List Call} {c : Call} (hready : b.ready = front ++ c :: back) :
    Contention ref b₀ calls { b with ready := c :: (front ++ back) }.resume
  /-- A call lets those behind it go first. -/
  | deferred {calls : List Call} {b : Broker} (h : Contention ref b₀ calls b) :
    Contention ref b₀ calls b.defer
  /-- A commit begins. -/
  | persisted {calls : List Call} {b : Broker} (h : Contention ref b₀ calls b) (s : Staged) :
    Contention ref b₀ calls (b.persistStage ⟨ref, s⟩).1
  | committed {calls : List Call} {b : Broker} (h : Contention ref b₀ calls b) (s : Staged) :
    Contention ref b₀ calls (b.commitStage ⟨ref, s⟩)
  | rolledBack {calls : List Call} {b : Broker} (h : Contention ref b₀ calls b) (s : Staged) :
    Contention ref b₀ calls (b.rollbackStage ⟨ref, s⟩)

/-- Whether the command is one of those that contend for a cache. -/
def Command.Contends (ref : CacheRef) : Command → Prop
  | .stage _ cache _ _ => cache = ref
  | .commitStage held | .rollbackStage held => held.cache = ref
  | .resume | .defer | .settle => True
  | _ => False

section

open Broker

variable {ref : CacheRef} {b₀ b : Broker} {calls : List Call}

theorem Contention.resume (h : Contention ref b₀ calls b) : Contention ref b₀ calls b.resume := by
  cases hready : b.ready with
  | nil =>
    have heq : b.resume = b := by rw [Broker.resume, hready]
    rw [heq]
    exact h
  | cons c rest =>
    have heq : b = { b with ready := c :: ([] ++ rest) } := by rw [List.nil_append, ← hready]
    rw [heq]
    exact h.retried (show b.ready = [] ++ c :: rest from hready)

theorem Contention.resumeSome (h : Contention ref b₀ calls b) (k : Nat) :
    Contention ref b₀ calls (b.resumeSome k) := by
  induction k generalizing b with
  | zero => exact h
  | succ k ih =>
    rw [Broker.resumeSome]
    split
    · exact h
    · exact ih h.resume

theorem Contention.perform (h : Contention ref b₀ calls b) {command : Command}
    (hcommand : command.Contends ref) :
    ∃ calls', Contention ref b₀ calls' (b.perform command).1 := by
  cases command with
  | stage ticket cache id owner =>
    obtain rfl : cache = ref := hcommand
    exact ⟨_, h.asked (c := ⟨ticket, cache, id, owner, .stage⟩) ⟨rfl, rfl⟩⟩
  | commitStage held =>
    obtain ⟨cache, s⟩ := held
    obtain rfl : cache = ref := hcommand
    exact ⟨calls, h.committed s⟩
  | rollbackStage held =>
    obtain ⟨cache, s⟩ := held
    obtain rfl : cache = ref := hcommand
    exact ⟨calls, h.rolledBack s⟩
  | resume => exact ⟨calls, h.resume⟩
  | defer => exact ⟨calls, h.deferred⟩
  | settle => exact ⟨calls, h.resumeSome _⟩
  | _ => exact hcommand.elim

/-- A run of such commands is a contention. -/
theorem contention_run {commands : List Command} (hcommands : ∀ c ∈ commands, c.Contends ref) :
    ∃ calls, Contention ref b₀ calls (b₀.run commands) := by
  have hall : ∀ (l : List Command) {b : Broker} {calls : List Call}, Contention ref b₀ calls b →
      (∀ c ∈ l, c.Contends ref) → ∃ calls, Contention ref b₀ calls (b.run l) := by
    intro l
    induction l with
    | nil => exact fun h _ => ⟨_, h⟩
    | cons c rest ih =>
      intro b calls h hl
      obtain ⟨calls', h'⟩ := h.perform (hl c (by simp))
      exact ih h' fun d hd => hl d (by simp [hd])
  exact hall commands .begin hcommands

end

/-- What holds of a broker that owners contend at; `trace` is what has happened since they began. -/
structure Contended (ref : CacheRef) (calls : List Call) (trace : List Event) (b : Broker) : Prop
    where
  told : Told ref trace (b.cache ref)
  asks : ∀ c ∈ b.ready ++ b.waiting, c.Asks ref
  blocked : ∀ c ∈ b.waiting, ∃ q, (b.cache ref).pending.get? c.duplicateId = some q ∧
    q.owner ≠ c.owner
  kept : (calls.map (·.ticket)).Perm
    (trace.filterMap Event.ticket? ++ (b.ready ++ b.waiting).map (·.ticket))

section

open Broker

variable {ref : CacheRef} {calls : List Call} {trace : List Event} {b : Broker} {c : Call}

/-- One attempt of a call. If it has no answer, the call waits behind the others. -/
theorem told_submitCall (hc : c.Asks ref) (htold : Told ref trace (b.cache ref))
    (hblocked : ∀ d ∈ b.waiting, ∃ q, (b.cache ref).pending.get? d.duplicateId = some q ∧
      q.owner ≠ d.owner) :
    let b' := (b.submitCall c).1
    ∃ es, b'.trace = b.trace ++ es ∧ es.filterMap Event.ticket? = [] ∧
      Told ref (trace ++ es) (b'.cache ref) ∧
      (∀ d ∈ b'.waiting, ∃ q, (b'.cache ref).pending.get? d.duplicateId = some q ∧
        q.owner ≠ d.owner) ∧
      b'.ready = b.ready ∧
      b'.waiting = b.waiting ++ if (b.submitCall c).2 = none then [c] else [] := by
  intro b'
  rcases submitCall_cases b hc with ⟨s, d, hattempt, heq⟩ | ⟨o, heq⟩ | ⟨hwaits, heq⟩
  · have hb' : b' = (b.setCache ref d).log (.granted ⟨ref, s⟩) := congrArg Prod.fst heq
    have hcache : b'.cache ref = d := by rw [hb', cache_log, cache_setCache, if_pos rfl]
    refine ⟨_, by rw [hb']; rfl, rfl, ?_, ?_, by rw [hb']; rfl, by rw [hb', heq]; simp; rfl⟩
    · rw [hcache]
      exact htold.turn (.granted hattempt)
    · rw [hcache, hb']
      intro e he
      obtain ⟨q, hq, howner⟩ := hblocked e he
      obtain ⟨-, -, hnone, -, rfl⟩ := Cache.attempt_staged hattempt
      refine ⟨q, ?_, howner⟩
      rw [Table.get?_insert, if_neg, hq]
      intro hid
      rw [← hid, hnone] at hq
      cases hq
  · have hb' : b' = b := congrArg Prod.fst heq
    exact ⟨[], by simp [hb'], rfl, by simpa [hb'] using htold, by rw [hb']; exact hblocked,
      by rw [hb'], by rw [hb', heq]; simp⟩
  · have hb' : b' = { b with waiting := b.waiting ++ [c] } := congrArg Prod.fst heq
    refine ⟨[], by simp [hb'], rfl, ?_, ?_, by rw [hb'], by rw [hb', heq]; simp⟩
    · rw [hb', List.append_nil]
      exact htold
    · rw [hb']
      intro d hd
      rcases List.mem_append.1 hd with hd | hd
      · exact hblocked d hd
      · obtain rfl := List.mem_singleton.1 hd
        exact hwaits

theorem Contended.asked (h : Contended ref calls trace b) (hc : c.Asks ref) :
    ∃ es, (b.submitCall c).1.trace = b.trace ++ es ∧
      Contended ref (if (b.submitCall c).2 = none then calls ++ [c] else calls) (trace ++ es)
        (b.submitCall c).1 := by
  obtain ⟨es, htrace, htickets, htold, hblocked, hready, hwaiting⟩ :=
    told_submitCall hc h.told h.blocked
  refine ⟨es, htrace, htold, ?_, hblocked, ?_⟩
  · rw [hready, hwaiting]
    intro d hd
    simp only [List.mem_append] at hd
    rcases hd with hd | hd | hd
    · exact h.asks d (List.mem_append_left _ hd)
    · exact h.asks d (List.mem_append_right _ hd)
    · split at hd
      · obtain rfl := List.mem_singleton.1 hd
        exact hc
      · cases hd
  · rw [hready, hwaiting, List.filterMap_append, htickets, List.append_nil]
    split
    · simpa [List.append_assoc] using h.kept.append_right [c.ticket]
    · simpa using h.kept

theorem Contended.retried (h : Contended ref calls trace b) {front back : List Call}
    (hready : b.ready = front ++ c :: back) :
    let b' := { b with ready := c :: (front ++ back) }.resume
    ∃ es, b'.trace = b.trace ++ es ∧ Contended ref calls (trace ++ es) b' := by
  intro b'
  have hc : c.Asks ref := h.asks c (by simp [hready])
  obtain ⟨es, htrace, htickets, htold, hblocked, hready', hwaiting⟩ :=
    told_submitCall (b := { b with ready := front ++ back }) hc h.told h.blocked
  have hkept := h.kept
  rw [hready] at hkept
  have hasks : ∀ d ∈ front ++ back ++ (b.waiting ++ [c]), d.Asks ref := by
    intro d hd
    refine h.asks d ?_
    simp only [hready, List.mem_append, List.mem_cons, List.not_mem_nil, or_false] at hd ⊢
    rcases hd with (hd | hd) | hd | hd <;> simp [hd]
  rcases hsubmit : { b with ready := front ++ back }.submitCall c with ⟨b₁, answer⟩
  rw [hsubmit] at htrace htold hblocked hready' hwaiting
  cases answer with
  | none =>
    have hb' : b' = b₁ := by
      simp only [b', resume, hsubmit]
    rw [hb']
    refine ⟨es, htrace, htold, ?_, hblocked, ?_⟩
    · rw [hready', hwaiting]
      simpa using hasks
    · rw [hready', hwaiting, List.filterMap_append, htickets]
      refine hkept.trans (List.perm_iff_count.2 fun n => ?_)
      simp only [List.map_append, List.map_cons, List.map_nil, List.count_append, List.count_cons,
        List.count_nil, if_true]
      omega
  | some answer =>
    have hb' : b' = b₁.log (.answered c.ticket answer) := by
      simp only [b', resume, hsubmit]
    have haside : Turn ref (b₁.cache ref) [.answered c.ticket answer] (b₁.cache ref) :=
      .aside (by simp [Event.isAside])
    have hwaiting' : b₁.waiting = b.waiting := by simpa using hwaiting
    rw [hb']
    refine ⟨es ++ [.answered c.ticket answer], ?_, ?_, ?_, hblocked, ?_⟩
    · simp only [log]
      rw [htrace, List.append_assoc]
    · rw [← List.append_assoc]
      exact htold.turn haside
    · show ∀ d ∈ b₁.ready ++ b₁.waiting, _
      rw [hready', hwaiting']
      intro d hd
      exact hasks d (by rw [← List.append_assoc]; exact List.mem_append_left _ hd)
    · show List.Perm _ (_ ++ (b₁.ready ++ b₁.waiting).map _)
      rw [hready', hwaiting', List.filterMap_append, List.filterMap_append, htickets]
      refine hkept.trans (List.perm_iff_count.2 fun n => ?_)
      simp only [List.filterMap_cons, Event.ticket?, List.filterMap_nil, List.map_append,
        List.map_cons, List.count_append, List.count_cons, List.count_nil]
      omega

theorem Contended.deferred (h : Contended ref calls trace b) :
    Contended ref calls trace b.defer := by
  obtain ⟨ready, hready, hdefer⟩ := defer_perm b
  have hperm := hready.append_right b.waiting
  rw [hdefer]
  exact ⟨h.told, fun d hd => h.asks d (hperm.mem_iff.1 hd), h.blocked,
    h.kept.trans ((hperm.map _).symm.append_left _)⟩

theorem Contended.persisted (h : Contended ref calls trace b) (s : Staged) :
    ∃ es, (b.persistStage ⟨ref, s⟩).1.trace = b.trace ++ es ∧
      Contended ref calls (trace ++ es) (b.persistStage ⟨ref, s⟩).1 := by
  obtain ⟨es, hes, htrace, hwaiting, hready, hcache⟩ := persistStage_told (s := s) b
  have haside : ∀ e ∈ es, e.isAside = true := fun e he => (hes e he).1
  have htickets : es.filterMap Event.ticket? = [] :=
    List.filterMap_eq_nil_iff.2 fun e he => (hes e he).2
  have hkept := h.kept
  refine ⟨es, htrace, ?_, by rw [hwaiting, hready]; exact h.asks, ?_, ?_⟩
  · rcases hcache with hsame | ⟨key, hdrawn⟩
    · rw [hsame]
      exact h.told.turn (.aside haside)
    · exact h.told.turn (.drawn hdrawn haside)
  · rw [hwaiting]
    intro d hd
    obtain ⟨q, hq, howner⟩ := h.blocked d hd
    rcases hcache with hsame | ⟨key, hdrawn⟩
    · exact ⟨q, by rw [hsame]; exact hq, howner⟩
    · obtain ⟨q', hq', -, hsame⟩ := hdrawn.pending_get? hq
      exact ⟨q', hq', fun heq => howner (hsame.symm.trans heq)⟩
  · rw [hwaiting, hready, List.filterMap_append, htickets, List.append_nil]
    exact hkept

/-- When a stage is resolved, every call that waits may try again. -/
theorem Contended.resolved {b' : Broker} {e : Event} (h : Contended ref calls trace b)
    (hturn : Turn ref (b.cache ref) [e] (b'.cache ref)) (hticket : e.ticket? = none)
    (hwaiting : b'.waiting = []) (hready : b'.ready = b.ready ++ b.waiting) :
    Contended ref calls (trace ++ [e]) b' where
  told := h.told.turn hturn
  asks := by
    rw [hwaiting, hready, List.append_nil]
    exact h.asks
  blocked := by
    rw [hwaiting]
    simp
  kept := by
    rw [hwaiting, hready, List.filterMap_append]
    simpa [hticket] using h.kept

theorem Contended.committed (h : Contended ref calls trace b) (s : Staged) :
    ∃ es, (b.commitStage ⟨ref, s⟩).trace = b.trace ++ es ∧
      Contended ref calls (trace ++ es) (b.commitStage ⟨ref, s⟩) := by
  rcases commitStage_eq b ⟨ref, s⟩ with ⟨-, heq⟩ | ⟨p, d, os, hcommitted, heq⟩
  · rw [heq]
    exact ⟨[], by simp, by simpa using h⟩
  · have hasks : ∀ c ∈ b.waiting, c.Asks ref := fun c hc => h.asks c (List.mem_append_right _ hc)
    rw [heq, wake_eq (b := (b.setCache ref d).log _) hasks]
    have hturn : Turn ref (b.cache ref) [.promoted ⟨ref, s⟩ p] ((b.setCache ref d).cache ref) := by
      rw [cache_setCache, if_pos rfl]
      exact .promoted hcommitted
    exact ⟨[.promoted ⟨ref, s⟩ p], rfl, h.resolved hturn rfl rfl rfl⟩

theorem Contended.rolledBack (h : Contended ref calls trace b) (s : Staged) :
    ∃ es, (b.rollbackStage ⟨ref, s⟩).trace = b.trace ++ es ∧
      Contended ref calls (trace ++ es) (b.rollbackStage ⟨ref, s⟩) := by
  rcases rollbackStage_cases b ⟨ref, s⟩ with ⟨-, heq⟩ | ⟨q, d, hq, rfl, heq⟩
  · rw [heq]
    exact ⟨[], by simp, by simpa using h⟩
  · have hasks : ∀ c ∈ b.waiting, c.Asks ref := fun c hc => h.asks c (List.mem_append_right _ hc)
    rw [heq, wake_eq (b := (b.setCache ref _).log _) hasks]
    refine ⟨[.dropped ⟨ref, s⟩], rfl, h.resolved ?_ rfl rfl rfl⟩
    show Turn ref _ _ ((b.setCache ref _).cache ref)
    rw [cache_setCache, if_pos rfl]
    exact .dropped hq

end

section

variable {ref : CacheRef} {n : Nat} {calls : List Call} {b₀ b : Broker}

/-- However owners contend for a cache, what they are told and what the cache says fit together, and
no call is lost. -/
theorem contended_of_contention (hfresh : Cache.Fresh n (b₀.cache ref)) (hwaiting : b₀.waiting = [])
    (hready : b₀.ready = []) (h : Contention ref b₀ calls b) :
    ∃ trace, b.trace = b₀.trace ++ trace ∧ Contended ref calls trace b := by
  have hstep : ∀ {calls : List Call} {trace es : List Event} {b b' : Broker},
      b.trace = b₀.trace ++ trace → b'.trace = b.trace ++ es →
      Contended ref calls (trace ++ es) b' →
      ∃ trace, b'.trace = b₀.trace ++ trace ∧ Contended ref calls trace b' := by
    intro calls trace es b b' hb hb' hcontended
    exact ⟨trace ++ es, by rw [hb', hb, List.append_assoc], hcontended⟩
  induction h with
  | begin =>
    refine ⟨[], by simp, ⟨hfresh.sound.1, by simp, by simp, by simp⟩, ?_, ?_, ?_⟩
    · simp [hwaiting, hready]
    · simp [hwaiting]
    · simp [hwaiting, hready]
  | asked h hc ih =>
    obtain ⟨trace, htrace, hcontended⟩ := ih
    obtain ⟨es, hes, hnew⟩ := hcontended.asked hc
    exact hstep htrace hes hnew
  | retried h hready ih =>
    obtain ⟨trace, htrace, hcontended⟩ := ih
    obtain ⟨es, hes, hnew⟩ := hcontended.retried hready
    exact hstep htrace hes hnew
  | @deferred calls b h ih =>
    obtain ⟨trace, htrace, hcontended⟩ := ih
    have hsame : b.defer.trace = b.trace := by
      unfold Broker.defer
      split <;> rfl
    exact ⟨trace, hsame.trans htrace, hcontended.deferred⟩
  | persisted h s ih =>
    obtain ⟨trace, htrace, hcontended⟩ := ih
    obtain ⟨es, hes, hnew⟩ := hcontended.persisted s
    exact hstep htrace hes hnew
  | committed h s ih =>
    obtain ⟨trace, htrace, hcontended⟩ := ih
    obtain ⟨es, hes, hnew⟩ := hcontended.committed s
    exact hstep htrace hes hnew
  | rolledBack h s ih =>
    obtain ⟨trace, htrace, hcontended⟩ := ih
    obtain ⟨es, hes, hnew⟩ := hcontended.rolledBack s
    exact hstep htrace hes hnew

/-- What the owners that contend for a cache can rely on. -/
structure Exclusive (ref : CacheRef) (calls : List Call) (trace : List Event) (b : Broker) : Prop
    where
  /-- From the grant of a stage until it is resolved no other is granted for its identifier, which
  stays invisible. -/
  alone : ∀ t₁ s t₂, trace = t₁ ++ .granted ⟨ref, s⟩ :: t₂ → (∀ e ∈ t₂, ¬ e.Resolves ref s) →
    (∀ s', .granted ⟨ref, s'⟩ ∈ t₂ → s'.duplicateId ≠ s.duplicateId) ∧
      s.duplicateId ∉ (b.cache ref).visibleIds ∧
      (b.cache ref).isDuplicate s.duplicateId = false
  /-- Every call that had to wait has ended, or may try again, or waits still; -/
  kept : (calls.map (·.ticket)).Perm
    (trace.filterMap Event.ticket? ++ (b.ready ++ b.waiting).map (·.ticket))
  /-- it waits for an identifier that another owner holds. -/
  blocked : ∀ c ∈ b.waiting, ∃ q, (b.cache ref).pending.get? c.duplicateId = some q ∧
    q.owner ≠ c.owner
  /-- An identifier is granted again, under a later number, only when the stage granted before has
  been rolled back or its entry has been evicted. -/
  regranted : ∀ t₁ s t₂ s' t₃, trace = t₁ ++ .granted ⟨ref, s⟩ :: t₂ ++ .granted ⟨ref, s'⟩ :: t₃ →
    s.duplicateId = s'.duplicateId →
    s.sequence < s'.sequence ∧ (RolledBack ref s t₂ ∨ Evicted ref s t₂)
  /-- Who holds an identifier need not wait for it. -/
  held : ∀ c q, c.Asks ref → (b.cache ref).pending.get? c.duplicateId = some q →
    q.owner = c.owner → b.submitCall c = (b, some (.stage .alreadyStaged))
  /-- A stage that has been resolved resolves nothing more. -/
  stale : ∀ e ∈ trace, ∀ s, e.Resolves ref s →
    b.commitStage ⟨ref, s⟩ = b ∧ b.rollbackStage ⟨ref, s⟩ = b

theorem Contended.exclusive {trace : List Event} (h : Contended ref calls trace b) :
    Exclusive ref calls trace b where
  alone := by
    intro t₁ s t₂ htrace hnone
    obtain ⟨hfate, -⟩ := h.told.granted t₁ s t₂ htrace
    obtain ⟨⟨q, hq⟩, hgrants⟩ := hfate.held_of_unresolved hnone
    have hsound := h.told.sound
    have hindex := hsound.apart _ q hq
    have hnot : (b.cache ref).isDuplicate s.duplicateId = false := by
      simp [Cache.isDuplicate, Table.contains, hindex]
    refine ⟨hgrants, fun hmem => ?_, hnot⟩
    rw [(Cache.isDuplicate_iff (hsound.at _) ⟨hsound.fits, hsound.room⟩).2 hmem] at hnot
    cases hnot
  kept := h.kept
  blocked := h.blocked
  regranted := h.told.regranted
  held := fun c q hc hq howner => Broker.submitCall_of_owner hc h.told.sound hq howner
  stale := by
    intro e he s hresolves
    obtain ⟨-, hnone⟩ := h.told.resolved e he s hresolves
    constructor
    · rcases Broker.commitStage_cases b ⟨ref, s⟩ with ⟨-, heq⟩ | ⟨p, d, -, hcommitted, -⟩
      · exact heq
      · obtain ⟨q, hq⟩ := hcommitted.pendingOf
        rw [hnone] at hq
        cases hq
    · rcases Broker.rollbackStage_cases b ⟨ref, s⟩ with ⟨-, heq⟩ | ⟨q, d, hq, -⟩
      · exact heq
      · rw [hnone] at hq
        cases hq

/-- However owners contend for a cache that has just been made, each has what it is granted to
itself, none waits in vain, and old stages do no harm. -/
theorem stages_exclusive (hfresh : Cache.Fresh n (b₀.cache ref)) (hwaiting : b₀.waiting = [])
    (hready : b₀.ready = []) (h : Contention ref b₀ calls b) :
    ∃ trace, b.trace = b₀.trace ++ trace ∧ Exclusive ref calls trace b := by
  obtain ⟨trace, htrace, hcontended⟩ := contended_of_contention hfresh hwaiting hready h
  exact ⟨trace, htrace, hcontended.exclusive⟩

/-- Two sends ask for one identifier. The first is rolled back, the second has waited and is granted
it; then the first is committed all the same. -/
theorem stages_exclusive_rivals :
    let ref : CacheRef := .standalone 0
    let b₀ : Broker := ({} : Broker).openCache ref ⟨"orders"⟩ 1
    let call (k : Nat) : Call := ⟨k, ref, [1], .direct k, .stage⟩
    let stage (k : Nat) : Staged := ⟨⟨"orders"⟩, [1], k, .direct k⟩
    let b := ((((b₀.submitCall (call 1)).1.submitCall (call 2)).1.rollbackStage
      ⟨ref, stage 1⟩).resume).commitStage ⟨ref, stage 1⟩
    Cache.Fresh 1 (b₀.cache ref) ∧ Contention ref b₀ [call 2] b ∧
      b.trace = [.granted ⟨ref, stage 1⟩, .dropped ⟨ref, stage 1⟩, .granted ⟨ref, stage 2⟩,
        .answered 2 (.stage (.staged (stage 2)))] ∧
      ∃ trace, b.trace = b₀.trace ++ trace ∧ Exclusive ref [call 2] trace b := by
  intro ref b₀ call stage b
  have hfresh : Cache.Fresh 1 (b₀.cache ref) := .empty ⟨"orders"⟩
  have hfirst : Contention ref b₀ [] (b₀.submitCall (call 1)).1 :=
    Contention.asked .begin (c := call 1) ⟨rfl, rfl⟩
  have hsecond : Contention ref b₀ [call 2] ((b₀.submitCall (call 1)).1.submitCall (call 2)).1 :=
    Contention.asked hfirst (c := call 2) ⟨rfl, rfl⟩
  have hcontention : Contention ref b₀ [call 2] b :=
    ((hsecond.rolledBack (stage 1)).resume).committed (stage 1)
  exact ⟨hfresh, hcontention, by decide, stages_exclusive hfresh rfl rfl hcontention⟩

end

end MessageRouting
