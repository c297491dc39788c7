import Mathlib.Data.List.DropRight
import MessageRouting.Proofs.Cache.Calmness
import MessageRouting.Proofs.Cache.Representation

/-!
# The window of a cache

Seen from outside, a cache grants stages and is asked to commit them or to roll
them back. A tally kept of that, of the stages granted and not resolved since
and of the identifiers committed, tells which commits take effect, and what is
visible: the identifiers committed last, as many as there is room for, in the
order of their commits. Keys that are drawn ahead of commits change the order,
and with it which entry is the oldest; it is still one that was there before.

Results:

* `dropOldest_placeVisible`: a new entry does not matter for which entries go.
* `agrees_performAll`: the tally knows which stages are pending.
* `window_performAll`: what is visible after any requests, and after one more.
-/

namespace MessageRouting.Cache

/-! ## One entry more -/

/-- The oldest entry besides a new one is the oldest of those that were there. -/
theorem takeOldest_placeVisible {key : Nat} {id : Bytes} {e : Nat × Bytes}
    {rest : List (Nat × Bytes)} (hsorted : Sorted (e :: rest)) (he : e.1 ≠ key) :
    takeOldest key (placeVisible key id (e :: rest)) = some (e, placeVisible key id rest) := by
  obtain ⟨k, v⟩ := e
  obtain ⟨hfirst, -⟩ := List.pairwise_cons.1 hsorted
  simp only at he hfirst
  rcases Nat.lt_or_gt_of_ne he with hlt | hgt
  · rw [placeVisible, if_neg (by omega), if_neg (Ne.symm he), takeOldest, if_pos he]
  · -- The new entry is the oldest of all, and is left where it is.
    have hrest : placeVisible key id rest = (key, id) :: rest := by
      cases rest with
      | nil => rfl
      | cons f rest =>
        have hf : k < f.1 := hfirst f List.mem_cons_self
        rw [placeVisible, if_pos (by omega)]
    rw [placeVisible, if_pos hgt, hrest, takeOldest, if_neg (fun h => h rfl), takeOldest, if_pos he]
    rfl

/-- A new entry does not matter for which entries go: the oldest of those that were there. -/
theorem dropOldest_placeVisible {key : Nat} {id : Bytes} {l : List (Nat × Bytes)}
    (hsorted : Sorted l) (hne : ∀ e ∈ l, e.1 ≠ key) {k : Nat} (hk : k ≤ l.length) :
    dropOldest key k (placeVisible key id l) = (l.take k, placeVisible key id (l.drop k)) := by
  induction k generalizing l with
  | zero => rfl
  | succ k ih =>
    cases l with
    | nil => exact absurd hk (Nat.not_succ_le_zero k)
    | cons e rest =>
      have hrest : Sorted rest := (List.pairwise_cons.1 hsorted).2
      rw [dropOldest, takeOldest_placeVisible hsorted (hne e List.mem_cons_self)]
      dsimp only
      rw [ih hrest (fun f hf => hne f (List.mem_cons_of_mem e hf)) (Nat.le_of_succ_le_succ hk)]
      rfl

/-- A commit evicts the oldest of the entries before it, as far as there is no room for them beside
the new one. -/
theorem visible_commit {c c' : Cache} {s : Staged} {p : Promotion} (h : Committed c s p c')
    (hc : Keyed c) (hfits : c.visible.length ≤ c.capacity) (hroom : 0 < c.capacity) :
    p.evicted = c.visible.take (c.visible.length - (c.capacity - 1)) ∧
      c'.visible = placeVisible p.key s.duplicateId (c.visible.rtake (c.capacity - 1)) := by
  obtain ⟨-, -, hne, -⟩ := key_fresh hc h.next
  have hexcess : (placeVisible p.key s.duplicateId c.visible).length - c.capacity =
      c.visible.length - (c.capacity - 1) := by
    rw [(placeVisible_perm hne).length_eq, List.length_cons]
    omega
  have hdrop := h.visible
  rw [hexcess, dropOldest_placeVisible hc.sorted hne (Nat.sub_le _ _)] at hdrop
  exact Prod.mk.inj hdrop

/-! ## Tallies -/

/-- Whether two stages are the same for a cache: it looks at the identifier and the number. -/
def sameStage (s u : Staged) : Bool :=
  s.duplicateId = u.duplicateId && s.sequence = u.sequence

theorem sameStage_iff {s u : Staged} :
    sameStage s u = true ↔ s.duplicateId = u.duplicateId ∧ s.sequence = u.sequence := by
  rw [sameStage, Bool.and_eq_true, decide_eq_true_eq, decide_eq_true_eq]

/-- What is known of a cache from its answers. -/
structure Tally where
  /-- The stages granted and neither committed nor rolled back since. -/
  unresolved : List Staged := []
  /-- The identifiers of the commits that took effect, the first one first. -/
  committed : List Bytes := []
  deriving DecidableEq, Repr

namespace Tally

/-- Whether the stage has been granted and not been resolved. -/
def isOpen (t : Tally) (s : Staged) : Bool := t.unresolved.any (sameStage s)

/-- The tally once the stage is resolved. -/
def resolve (t : Tally) (s : Staged) : Tally :=
  { t with unresolved := t.unresolved.filter fun u => !sameStage s u }

/-- The tally after one more request and, for a stage, its outcome. -/
def note (t : Tally) : Request → Option StageOutcome → Tally
  | .stage _ _, some (.staged s) => { t with unresolved := t.unresolved ++ [s] }
  | .stage _ _, _ => t
  | .persist _, _ => t
  | .commit s, _ =>
    if t.isOpen s then { t.resolve s with committed := t.committed ++ [s.duplicateId] } else t
  | .rollback s, _ => t.resolve s

theorem isOpen_resolve {t : Tally} {s x : Staged} :
    (t.resolve s).isOpen x = true ↔ t.isOpen x = true ∧ sameStage s x = false := by
  simp only [isOpen, resolve, List.any_eq_true, List.mem_filter, Bool.not_eq_true']
  constructor
  · rintro ⟨u, ⟨hu, hs⟩, hx⟩
    refine ⟨⟨u, hu, hx⟩, Bool.eq_false_iff.2 fun hsx => ?_⟩
    obtain ⟨hid, hn⟩ := sameStage_iff.1 hsx
    obtain ⟨hid', hn'⟩ := sameStage_iff.1 hx
    rw [sameStage_iff.2 ⟨hid.trans hid', hn.trans hn'⟩] at hs
    cases hs
  · rintro ⟨⟨u, hu, hx⟩, hs⟩
    refine ⟨u, ⟨hu, Bool.eq_false_iff.2 fun hsu => ?_⟩, hx⟩
    obtain ⟨hid, hn⟩ := sameStage_iff.1 hsu
    obtain ⟨hid', hn'⟩ := sameStage_iff.1 hx
    rw [sameStage_iff.2 ⟨hid.trans hid'.symm, hn.trans hn'.symm⟩] at hs
    cases hs

end Tally

/-- How an attempt to stage ends; other requests have no outcome. -/
def outcome (c : Cache) : Request → Option StageOutcome
  | .stage id owner => (c.attempt id owner).1
  | _ => none

/-- The tally kept of a cache and its requests, begun with `t`. -/
def tallyAll (c : Cache) (t : Tally) : List Request → Tally
  | [] => t
  | r :: rest => (c.perform r).tallyAll (t.note r (c.outcome r)) rest

/-- The tally knows which stages are pending. -/
def Agrees (c : Cache) (t : Tally) : Prop :=
  ∀ s, (∃ q, c.pendingOf? s = some q) ↔ t.isOpen s = true

theorem agrees_staged {c c' : Cache} {t : Tally} {id : Bytes} {owner : Owner} {s : Staged}
    (h : c.attempt id owner = (some (.staged s), c')) (hagrees : Agrees c t) :
    Agrees c' { t with unresolved := t.unresolved ++ [s] } := by
  obtain ⟨-, -, hnone, rfl, rfl⟩ := attempt_staged h
  intro x
  have hopen : Tally.isOpen { t with unresolved :=
      t.unresolved ++ [⟨c.address, id, c.nextSequence, owner⟩] } x = true ↔
      t.isOpen x = true ∨ x.duplicateId = id ∧ x.sequence = c.nextSequence := by
    rw [Tally.isOpen, List.any_append, Bool.or_eq_true, ← Tally.isOpen, List.any_cons, List.any_nil,
      Bool.or_false, sameStage_iff]
  rw [hopen, ← hagrees x]
  by_cases hid : id = x.duplicateId
  · subst hid
    have hold : ¬ ∃ q, c.pendingOf? x = some q := by
      rintro ⟨q, hq⟩
      rw [pendingOf?_of_get?_none hnone] at hq
      cases hq
    simp only [pendingOf?_eq_some, Table.get?_insert, if_true]
    constructor
    · rintro ⟨q, hq, hn⟩
      rw [← Option.some.inj hq] at hn
      exact .inr ⟨trivial, hn.symm⟩
    · rintro (hq | ⟨-, hn⟩)
      · simp only [pendingOf?_eq_some] at hold
        exact absurd hq hold
      · exact ⟨_, rfl, hn.symm⟩
  · simp only [pendingOf?_eq_some, Table.get?_insert, if_neg hid]
    constructor
    · exact .inl
    · rintro (hq | ⟨heq, -⟩)
      · exact hq
      · exact absurd heq.symm hid

theorem agrees_drawn {c c' : Cache} {t : Tally} {s : Staged} {key : Nat} (h : Drawn c s key c')
    (hagrees : Agrees c t) : Agrees c' t := by
  obtain ⟨q, hq, hpending⟩ := h.pending
  intro x
  rw [← hagrees x]
  simp only [pendingOf?_eq_some, hpending]
  split
  · rename_i hid
    rw [← hid, (pendingOf?_eq_some.1 hq).1]
    simp only [Option.some.injEq, exists_eq_left']
  · exact Iff.rfl

/-- Once a pending stage is resolved, it is the only one that is not pending any more. -/
theorem agrees_resolved {c c' : Cache} {t : Tally} {s : Staged} {q : Pending}
    (hq : c.pendingOf? s = some q)
    (hpending : ∀ id, c'.pending.get? id = if s.duplicateId = id then none else c.pending.get? id)
    (hagrees : Agrees c t) : Agrees c' (t.resolve s) := by
  obtain ⟨hget, hn⟩ := pendingOf?_eq_some.1 hq
  intro x
  rw [Tally.isOpen_resolve, ← hagrees x]
  simp only [pendingOf?_eq_some, hpending]
  by_cases hid : s.duplicateId = x.duplicateId
  · simp only [if_pos hid]
    constructor
    · rintro ⟨q', hq', -⟩
      cases hq'
    · -- Another stage of the identifier was not pending, since this one was.
      rintro ⟨⟨q', hq', hn'⟩, hsame⟩
      rw [← hid, hget] at hq'
      obtain rfl := Option.some.inj hq'
      rw [sameStage_iff.2 ⟨hid, hn.symm.trans hn'⟩] at hsame
      cases hsame
  · have hsame : sameStage s x = false :=
      Bool.eq_false_iff.2 fun h => hid (sameStage_iff.1 h).1
    simp only [if_neg hid, hsame, and_true]

theorem isOpen_eq_false {c : Cache} {t : Tally} {s : Staged} (hagrees : Agrees c t)
    (h : c.pendingOf? s = none) : t.isOpen s = false := by
  refine Bool.eq_false_iff.2 fun hopen => ?_
  obtain ⟨q, hq⟩ := (hagrees s).2 hopen
  rw [h] at hq
  cases hq

/-- What is not open need not be resolved. -/
theorem agrees_resolve {c : Cache} {t : Tally} {s : Staged} (hagrees : Agrees c t)
    (h : c.pendingOf? s = none) : Agrees c (t.resolve s) := by
  intro x
  rw [Tally.isOpen_resolve, hagrees x]
  refine ⟨fun hx => ⟨hx, Bool.eq_false_iff.2 fun hsame => ?_⟩, fun hx => hx.1⟩
  obtain ⟨hid, hn⟩ := sameStage_iff.1 hsame
  obtain ⟨q, hq⟩ := (hagrees x).2 hx
  rw [pendingOf?_congr (by rw [hid]) hn, hq] at h
  cases h

theorem agrees_perform {c : Cache} {t : Tally} (r : Request) (hagrees : Agrees c t) :
    Agrees (c.perform r) (t.note r (c.outcome r)) := by
  cases r with
  | stage id owner =>
    rcases hattempt : c.attempt id owner with ⟨o, c'⟩
    simp only [perform, outcome, hattempt]
    have hsame : (∀ s, o ≠ some (.staged s)) → c' = c := fun hno => by
      rcases attempt_cases c id owner with heq | ⟨s, hs⟩
      · rwa [hattempt] at heq
      · rw [hattempt] at hs
        exact absurd (Prod.mk.inj hs).1 (hno s)
    rcases o with _ | s | _ | _ | _
    case some.staged => exact agrees_staged hattempt hagrees
    all_goals
      rw [hsame fun s h => by cases h]
      exact hagrees
  | persist s =>
    rcases hdraw : c.drawKey s with ⟨key, c'⟩
    simp only [perform, hdraw]
    cases key with
    | none =>
      rw [(drawKey_none hdraw).2]
      exact hagrees
    | some key => exact agrees_drawn (drawKey_some hdraw) hagrees
  | commit s =>
    rcases hcommit : c.commit s with ⟨p, c'⟩
    simp only [perform, hcommit, Tally.note]
    cases p with
    | none =>
      have hnone := commit_none hcommit
      rw [commit_of_drawKey_none (by rw [drawKey, hnone])] at hcommit
      rw [if_neg (by rw [isOpen_eq_false hagrees hnone]; decide), ← (Prod.mk.inj hcommit).2]
      exact hagrees
    | some p =>
      have hcommitted := commit_some hcommit
      obtain ⟨q, hq⟩ := hcommitted.pendingOf
      rw [if_pos ((hagrees s).1 ⟨q, hq⟩)]
      exact agrees_resolved hq hcommitted.pending hagrees
  | rollback s =>
    simp only [perform, Tally.note]
    cases hrollback : c.rollback s with
    | none => exact agrees_resolve hagrees (rollback_none hrollback)
    | some c' =>
      obtain ⟨⟨q, hq⟩, rfl⟩ := rollback_some hrollback
      exact agrees_resolved hq (fun id => Table.get?_erase ..) hagrees

/-- Whatever a cache is asked, the tally knows which stages are pending. -/
theorem agrees_performAll {c : Cache} {t : Tally} (hagrees : Agrees c t)
    (requests : List Request) : Agrees (c.performAll requests) (c.tallyAll t requests) := by
  induction requests generalizing c t with
  | nil => exact hagrees
  | cons r rest ih => exact ih (agrees_perform r hagrees)

theorem agrees_empty (a : Address) (n : Nat) : Agrees { address := a, capacity := n } {} := fun _ =>
  ⟨fun ⟨_, hq⟩ => (nomatch hq), fun h => (nomatch h)⟩

/-! ## The window -/

/-- Only a commit of an open stage changes what is visible. -/
theorem visible_perform {c : Cache} {t : Tally} {r : Request} (hagrees : Agrees c t)
    (hr : ∀ s, r = .commit s → t.isOpen s = false) : (c.perform r).visible = c.visible := by
  cases r with
  | stage id owner =>
    change (c.attempt id owner).2.visible = c.visible
    rcases attempt_cases c id owner with heq | ⟨s, hs⟩
    · rw [heq]
    · obtain ⟨-, -, -, -, heq⟩ := attempt_staged hs
      rw [heq]
  | persist s =>
    rcases hdraw : c.drawKey s with ⟨key, c'⟩
    simp only [perform, hdraw]
    cases key with
    | none => rw [(drawKey_none hdraw).2]
    | some key => exact (drawKey_some hdraw).visible
  | commit s =>
    rcases hcommit : c.commit s with ⟨p, c'⟩
    simp only [perform, hcommit]
    cases p with
    | none =>
      rw [commit_of_drawKey_none (by rw [drawKey, commit_none hcommit])] at hcommit
      rw [← (Prod.mk.inj hcommit).2]
    | some p =>
      have hopen := (hagrees s).1 (commit_some hcommit).pendingOf
      rw [hr s rfl] at hopen
      cases hopen
  | rollback s =>
    simp only [perform]
    cases hrollback : c.rollback s with
    | none => rfl
    | some c' =>
      obtain ⟨-, rfl⟩ := rollback_some hrollback
      rfl

/-- A commit of an open stage takes effect. -/
theorem committed_of_open {c : Cache} {t : Tally} {s : Staged} (hagrees : Agrees c t)
    (hopen : t.isOpen s = true) : ∃ p c', c.commit s = (some p, c') ∧ Committed c s p c' := by
  obtain ⟨q, hq⟩ := (hagrees s).2 hopen
  rcases hcommit : c.commit s with ⟨_ | p, c'⟩
  · rw [commit_none hcommit] at hq
    cases hq
  · exact ⟨p, c', rfl, commit_some hcommit⟩

theorem room_of_open {c : Cache} {t : Tally} {s : Staged} (hsound : Sound c) (hagrees : Agrees c t)
    (hopen : t.isOpen s = true) : 0 < c.capacity := by
  obtain ⟨q, hq⟩ := (hagrees s).2 hopen
  exact hsound.room _ q (pendingOf?_eq_some.1 hq).1

theorem calm_committed {c c' : Cache} {s : Staged} {p : Promotion} (hc : Calm c)
    (h : Committed c s p c') : Calm c' := by
  refine ⟨keyed_change (.committed h) hc.toKeyed, fun t => ?_⟩
  rw [keyOf_resolved h.pending]
  split
  · rfl
  · exact hc.unkeyed t

/-- As long as no key is drawn ahead of a commit, a cache stays calm. -/
theorem calm_perform {c : Cache} {r : Request} (hc : Calm c) (hr : ∀ s, r ≠ .persist s) :
    Calm (c.perform r) := by
  cases r with
  | stage id owner =>
    change Calm (c.attempt id owner).2
    rcases attempt_cases c id owner with heq | ⟨s, hs⟩
    · rwa [heq]
    · exact calm_staged hc hs
  | persist s => exact absurd rfl (hr s)
  | commit s =>
    rcases hcommit : c.commit s with ⟨p, c'⟩
    simp only [perform, hcommit]
    cases p with
    | none =>
      rw [commit_of_drawKey_none (by rw [drawKey, commit_none hcommit])] at hcommit
      exact (Prod.mk.inj hcommit).2 ▸ hc
    | some p => exact calm_committed hc (commit_some hcommit)
  | rollback s =>
    simp only [perform]
    cases hrollback : c.rollback s with
    | none => exact hc
    | some c' =>
      obtain ⟨⟨q, hq⟩, heq⟩ := rollback_some hrollback
      refine ⟨keyed_change (.dropped hq heq) hc.toKeyed, fun t => ?_⟩
      subst heq
      have hpending : ∀ id, (c.pending.erase s.duplicateId).get? id =
          if s.duplicateId = id then none else c.pending.get? id := fun id => Table.get?_erase ..
      rw [keyOf_resolved hpending]
      split
      · rfl
      · exact hc.unkeyed t

/-- The cache shows the identifiers of the last commits, as many as it has room for. -/
structure Windowed (c : Cache) (t : Tally) : Prop where
  sound : Sound c
  calm : Calm c
  agrees : Agrees c t
  visible : c.visibleIds = t.committed.rtake c.capacity

theorem sound_perform {c : Cache} (hc : Sound c) (r : Request) : Sound (c.perform r) := by
  rcases change_perform c r with heq | hchange
  · rwa [heq]
  · exact sound_change hchange hc

theorem capacity_perform (c : Cache) (r : Request) : (c.perform r).capacity = c.capacity := by
  rcases change_perform c r with heq | hchange
  · rw [heq]
  · exact (frame_change hchange).2

theorem windowed_perform {c : Cache} {t : Tally} {r : Request} (h : Windowed c t)
    (hr : ∀ s, r ≠ .persist s) : Windowed (c.perform r) (t.note r (c.outcome r)) := by
  refine ⟨sound_perform h.sound r, calm_perform h.calm hr, agrees_perform r h.agrees, ?_⟩
  rw [capacity_perform]
  have hquiet : (∀ s, r = .commit s → t.isOpen s = false) →
      (t.note r (c.outcome r)).committed = t.committed →
      (c.perform r).visibleIds = (t.note r (c.outcome r)).committed.rtake c.capacity :=
    fun hclosed hsame => by
      rw [hsame, visibleIds, visible_perform h.agrees hclosed]
      exact h.visible
  cases r with
  | stage id owner =>
    refine hquiet (fun s heq => by cases heq) ?_
    rcases c.outcome (.stage id owner) with _ | s | _ | _ | _ <;> rfl
  | persist s => exact absurd rfl (hr s)
  | rollback s => exact hquiet (fun s heq => by cases heq) rfl
  | commit s =>
    cases hopen : t.isOpen s with
    | false =>
      refine hquiet (fun s' heq => ?_) ?_
      · cases heq
        exact hopen
      · rw [Tally.note, hopen]
        rfl
    | true =>
      obtain ⟨p, c', hcommit, hcommitted⟩ := committed_of_open h.agrees hopen
      -- Without a key drawn ahead the commit takes the next number, which comes after all others.
      have hkey : p.key = c.nextSequence := by
        rcases hcommitted.next with ⟨hdrawn, -⟩ | ⟨-, hkey, -⟩
        · rw [h.calm.unkeyed] at hdrawn
          cases hdrawn
        · exact hkey
      have hnewest := visibleIds_commit_of_lt hcommitted
        (fun e he => hkey ▸ h.calm.visible_lt e he)
      have hroom := room_of_open h.sound h.agrees hopen
      rw [perform, hcommit, Tally.note, if_pos hopen, hnewest, h.visible]
      exact withNewest_drop hroom t.committed s.duplicateId

theorem windowed_performAll {c : Cache} {t : Tally} (h : Windowed c t) {requests : List Request}
    (hpersist : ∀ s, .persist s ∉ requests) :
    Windowed (c.performAll requests) (c.tallyAll t requests) := by
  induction requests generalizing c t with
  | nil => exact h
  | cons r rest ih =>
    refine ih (windowed_perform h fun s heq => ?_) fun s hs =>
      hpersist s (List.mem_cons_of_mem r hs)
    exact hpersist s (heq ▸ List.mem_cons_self)

theorem windowed_empty (a : Address) (n : Nat) : Windowed { address := a, capacity := n } {} where
  sound := sound_empty a n
  calm := calm_empty a n
  agrees := agrees_empty a n
  visible := (List.rtake_nil n).symm

/-- A new cache with room for `n` identifiers has been asked anything, with stages of whatever
origin. If no key was drawn ahead, it shows the last `n` of the identifiers whose commits took
effect, in the order of the commits. It never shows one twice, and shows the same after anything
but a commit of an open stage. Such a commit, under the key drawn ahead or the next number, leaves
in order of key its own entry and the `n - 1` of highest key among those before, and evicts the
others. -/
theorem window_performAll (a : Address) (n : Nat) (requests : List Request) :
    let new : Cache := { address := a, capacity := n }
    let c := new.performAll requests
    let t := new.tallyAll {} requests
    ((∀ s, .persist s ∉ requests) → c.visibleIds = t.committed.rtake n) ∧
    c.visibleIds.Nodup ∧
    (∀ r, (∀ s, r = .commit s → t.isOpen s = false) → (c.perform r).visible = c.visible) ∧
    (∀ s, t.isOpen s = true → ∃ p c', c.commit s = (some p, c') ∧
      c.KeyDrawn s p.key c'.nextSequence ∧ Sorted c.visible ∧ Sorted c'.visible ∧
      c'.visible.Perm ((p.key, s.duplicateId) :: c.visible.rtake (n - 1)) ∧
      p.evicted = c.visible.take (c.visible.length - (n - 1)) ∧ p.evicted.length ≤ 1) := by
  intro new c t
  have hagrees : Agrees c t := agrees_performAll (agrees_empty a n) requests
  obtain ⟨hsound, hcapacity⟩ : Sound c ∧ c.capacity = n :=
    of_performAll (Q := fun c => Sound c ∧ c.capacity = n)
      (fun c c' h hc => ⟨sound_change h hc.1, (frame_change h).2.trans hc.2⟩)
      ⟨sound_empty a n, rfl⟩ requests
  refine ⟨fun hpersist => ?_, nodup_visibleIds hsound, fun r => visible_perform hagrees,
    fun s hopen => ?_⟩
  · have hwindow := (windowed_performAll (windowed_empty a n) hpersist).visible
    rwa [show (performAll _ requests).capacity = n from hcapacity] at hwindow
  · obtain ⟨p, c', hcommit, hcommitted⟩ := committed_of_open hagrees hopen
    have hroom := room_of_open hsound hagrees hopen
    obtain ⟨-, -, hne, -⟩ := key_fresh hsound.toKeyed hcommitted.next
    obtain ⟨hevicted, hvisible⟩ :=
      visible_commit hcommitted hsound.toKeyed hsound.fits hroom
    rw [hcapacity] at hevicted hvisible hroom
    refine ⟨p, c', hcommit, hcommitted.next, hsound.sorted,
      sorted_of_committed hcommitted hsound.sorted, ?_, hevicted, ?_⟩
    · rw [hvisible]
      exact placeVisible_perm fun e he => hne e (List.mem_of_mem_drop he)
    · have hfits := hsound.fits
      rw [hcapacity] at hfits
      rw [hevicted, List.length_take]
      omega

/-- The key of the first stage is drawn, and then the two others are committed. Its commit takes it
back to the front of a full cache: not its entry goes but that of the second stage. -/
theorem window_performAll_late :
    let a : Address := ⟨"orders"⟩
    let first : Staged := ⟨a, [1], 1, .direct 1⟩
    let requests : List Request :=
      [.stage [1] (.direct 1), .stage [2] (.direct 2), .stage [3] (.direct 3), .persist first,
        .commit ⟨a, [2], 2, .direct 2⟩, .commit ⟨a, [3], 3, .direct 3⟩,
        .commit ⟨a, [2], 2, .direct 2⟩, .rollback ⟨a, [3], 3, .direct 3⟩]
    let new : Cache := { address := a, capacity := 2 }
    let c := new.performAll requests
    (new.tallyAll {} requests).isOpen first = true ∧ c.visible = [(5, [2]), (6, [3])] ∧
      ∃ p c', c.commit first = (some p, c') ∧
        c'.visible.Perm ((p.key, [1]) :: [(6, [3])]) ∧ p.evicted = [(5, [2])] := by
  intro a first requests new c
  have hopen : (new.tallyAll {} requests).isOpen first = true := by decide
  have hvisible : c.visible = [(5, [2]), (6, [3])] := by decide
  obtain ⟨-, -, -, hcommit⟩ := window_performAll a 2 requests
  obtain ⟨p, c', hdone, -, -, -, hperm, hevicted, -⟩ := hcommit first hopen
  rw [show (performAll _ requests).visible = _ from hvisible] at hperm hevicted
  exact ⟨hopen, hvisible, p, c', hdone, hperm, hevicted⟩

end MessageRouting.Cache
