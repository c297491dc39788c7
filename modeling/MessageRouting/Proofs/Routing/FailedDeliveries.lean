import MessageRouting.Proofs.Broker.BookSteps
import MessageRouting.Proofs.Routing.WaitingCalls

/-!
# Deliveries that come to nothing

A delivery fails because a queue refuses its message, because its identifier
cannot be written to the journal, or because its transaction takes nothing any
more. Until then queues may have taken the message, a commit key may have been
drawn, and a stage may have been granted; all of this is undone, and in reverse.

Results:

* `Cache.rollback_granted`, `Cache.rollback_drawn`: a stage that is dropped again
  leaves nothing in its cache but the numbers that have been given out.
* `balked_dispatch`: all that a failing delivery has done when it drops its
  stage.
-/

namespace MessageRouting

/-! ## Tables and caches -/

namespace Table

variable {κ α : Type} [DecidableEq κ]

theorem filter_place (l : List (κ × α)) (k : κ) (v : α) :
    (place l k v).filter (fun e => e.1 ≠ k) = l.filter fun e => e.1 ≠ k := by
  induction l with
  | nil => simp [place]
  | cons e rest ih =>
    obtain ⟨k', v'⟩ := e
    simp only [place]
    split
    · subst_vars
      simp
    · rename_i hne
      simp only [List.filter_cons, hne, ne_eq, not_false_eq_true, decide_true, if_true]
      exact congrArg _ ih

/-- What has been put at a key goes with it. -/
theorem erase_insert (t : Table κ α) (k : κ) (v : α) : (t.insert k v).erase k = t.erase k :=
  congrArg Table.mk (filter_place t.entries k v)

theorem erase_of_get?_none {t : Table κ α} {k : κ} (h : t.get? k = none) : t.erase k = t := by
  obtain ⟨l⟩ := t
  refine congrArg Table.mk (List.filter_eq_self.2 fun e he => decide_eq_true fun hk => ?_)
  obtain ⟨v, hv⟩ := mem_keys.1 (List.mem_map.2 ⟨e, he, hk⟩)
  rw [h] at hv
  cases hv

end Table

namespace Cache

variable {c c₁ c₂ : Cache} {id : Bytes} {owner : Owner} {s : Staged}

/-- A stage that is dropped as soon as it has been granted leaves its number behind. -/
theorem rollback_granted (h : c.attempt id owner = (some (.staged s), c₁)) :
    c.nextSequence ≤ c₁.nextSequence ∧
      c₁.rollback s = some { c with nextSequence := c₁.nextSequence } := by
  obtain ⟨-, -, hnone, rfl, rfl⟩ := attempt_staged h
  refine ⟨Nat.le_succ _, ?_⟩
  simp [rollback, pendingOf?, Table.get?_insert_self, Table.erase_insert,
    Table.erase_of_get?_none hnone]

/-- So does one whose commit key has been drawn in the meantime. -/
theorem rollback_drawn (h : c.attempt id owner = (some (.staged s), c₁)) {key : Nat}
    (hdraw : c₁.drawKey s = (some key, c₂)) :
    c.nextSequence ≤ c₂.nextSequence ∧
      c₂.rollback s = some { c with nextSequence := c₂.nextSequence } := by
  obtain ⟨-, -, hnone, rfl, rfl⟩ := attempt_staged h
  simp only [drawKey, pendingOf?, Table.get?_insert_self, if_true, Prod.mk.injEq] at hdraw
  obtain ⟨-, rfl⟩ := hdraw
  refine ⟨by dsimp only; omega, ?_⟩
  simp [rollback, pendingOf?, Table.get?_insert_self, Table.erase_insert,
    Table.erase_of_get?_none hnone]

end Cache

/-! ## What is undone -/

/-- What a routing call has done when it comes to nothing. -/
structure Retraction where
  /-- The stage that it has been granted. -/
  staged : Option HeldStage
  /-- The queues that have taken its message, in order. -/
  accepted : List String
  /-- What tells of the failure. -/
  failure : List Event
  /-- The queues asked to give the message back, in order, with their refusals. -/
  asked : List (String × Option QueueRefusal)

namespace Retraction

/-- What it tells between the grant of its stage and the drop. -/
def calls (u : Retraction) (message : Nat) : List Event :=
  u.accepted.map (fun q => .enqueued q message none) ++ u.failure ++
    u.asked.map fun p => .withdrawn p.1 message p.2

/-- All that it tells. -/
def events (u : Retraction) (message : Nat) : List Event :=
  u.staged.toList.map .granted ++ u.calls message ++ u.staged.toList.map .dropped

/-- What tells of the failure: the queue that refuses the message, the record that is not written,
or nothing, and then no queue has been asked before. -/
def Tells (u : Retraction) (message : Nat) : RoutingError → Prop
  | .queueRefused q refusal => u.failure = [.enqueued q message (some refusal)]
  | .persistence _ => ∃ h key, u.staged = some h ∧
      u.failure = [.journal .inline (.write (.add (h.staged.recordAt key))) false]
  | _ => u.accepted = [] ∧ u.failure = []

end Retraction

namespace Broker

/-- The queues that have taken message `m` have given it back if they give messages back, and all
others hold what they held. -/
structure GivenBack (b : Broker) (m : Nat) (accepted : List String) (b' : Broker) : Prop where
  modes : ∀ q, (b'.mailbox q).mode = (b.mailbox q).mode
  untouched : ∀ q, q ∉ accepted → (b'.mailbox q).stored = (b.mailbox q).stored
  returned : ∀ q ∈ accepted, (b.mailbox q).mode ≠ .sticky →
    (b'.mailbox q).stored = (b.mailbox q).stored.filter (· ≠ m)

variable {b b' c : Broker} {m n : Nat} {d : Delivery} {e : RoutingError}

/-! ## Queues -/

theorem mailbox_setMailbox (b : Broker) (queue q : String) (box : Mailbox) :
    (b.setMailbox queue box).mailbox q = if queue = q then box else b.mailbox q := by
  simp only [mailbox, setMailbox, Table.get?_insert]
  split <;> rfl

theorem enqueue_mailbox (b : Broker) (queue : String) (m : Nat) (q : String) :
    ((b.enqueue queue m).1.mailbox q).mode = (b.mailbox q).mode ∧
      ((b.enqueue queue m).1.mailbox q).stored = (b.mailbox q).stored ++
        if queue = q ∧ (b.enqueue queue m).2 = none then [m] else [] := by
  have hmailbox : (b.enqueue queue m).1.mailbox q =
      if queue = q then ((b.mailbox queue).enqueue m).1 else b.mailbox q := mailbox_setMailbox ..
  have hrefusal : (b.enqueue queue m).2 = ((b.mailbox queue).enqueue m).2 := rfl
  rw [hmailbox, hrefusal]
  split
  · subst_vars
    refine ⟨?_, ?_⟩
    · unfold Mailbox.enqueue
      split <;> rfl
    · rw [Mailbox.stored_enqueue]
      simp
  · simp_all

/-- Placing a message: those that take it, one after the other, and the one that refuses it. -/
theorem enqueueFrom_cases {before accepted queues : List String}
    {result : Except RoutingError Unit}
    (h : b.enqueueFrom m before queues = (c, accepted, result)) :
    ∃ taken failure,
      accepted = before ++ taken ∧
      c = { b with
        mailboxes := c.mailboxes
        trace := b.trace ++ (taken.map (fun q => .enqueued q m none) ++ failure) } ∧
      (∀ q, (c.mailbox q).mode = (b.mailbox q).mode ∧
        (c.mailbox q).stored = (b.mailbox q).stored ++ (taken.filter (· = q)).map fun _ => m) ∧
      (result = .ok () ∧ failure = [] ∨
        ∃ q refusal, result = .error (.queueRefused q refusal) ∧
          failure = [.enqueued q m (some refusal)]) := by
  induction queues generalizing b before with
  | nil =>
    cases h
    exact ⟨[], [], by simp, by simp, fun q => by simp, Or.inl ⟨rfl, rfl⟩⟩
  | cons queue rest ih =>
    have hbox := enqueue_mailbox b queue m
    have hframe : (b.enqueue queue m).1 = { b with
        mailboxes := (b.enqueue queue m).1.mailboxes
        trace := b.trace ++ [.enqueued queue m (b.enqueue queue m).2] } := rfl
    unfold enqueueFrom at h
    rcases henqueue : b.enqueue queue m with ⟨b₁, refusal⟩
    simp only [henqueue] at h hbox hframe
    cases refusal with
    | some refusal =>
      cases h
      exact ⟨[], _, by simp, hframe, fun q => by simpa using hbox q,
        Or.inr ⟨queue, refusal, rfl, rfl⟩⟩
    | none =>
      obtain ⟨taken, failure, rfl, hc, hboxes, hresult⟩ := ih h
      refine ⟨queue :: taken, failure, by simp, ?_, fun q => ?_, hresult⟩
      · rw [hc, hframe]
        simp
      · obtain ⟨hmode, hstored⟩ := hboxes q
        obtain ⟨hmode₁, hstored₁⟩ := hbox q
        refine ⟨hmode.trans hmode₁, ?_⟩
        rw [hstored, hstored₁]
        by_cases hq : queue = q <;> simp [hq]

theorem withdraw_mailbox (b : Broker) (queue : String) (m : Nat) (q : String) :
    ((b.withdraw m queue).mailbox q).mode = (b.mailbox q).mode ∧
      ((b.withdraw m queue).mailbox q).stored =
        if queue = q ∧ (b.mailbox q).mode ≠ .sticky then (b.mailbox q).stored.filter (· ≠ m)
        else (b.mailbox q).stored := by
  have hmailbox : (b.withdraw m queue).mailbox q =
      if queue = q then ((b.mailbox queue).withdraw m).1 else b.mailbox q := mailbox_setMailbox ..
  rw [hmailbox]
  by_cases hq : queue = q
  · subst hq
    unfold Mailbox.withdraw
    cases hmode : (b.mailbox queue).mode <;> simp [hmode]
  · simp [hq]

/-- Taking a message back: each queue is asked once, in order. -/
theorem withdraw_cases (b : Broker) (m : Nat) (queues : List String) :
    ∃ asked : List (String × Option QueueRefusal),
      asked.map Prod.fst = queues ∧
      queues.foldl (fun b q => b.withdraw m q) b = { b with
        mailboxes := (queues.foldl (fun b q => b.withdraw m q) b).mailboxes
        trace := b.trace ++ asked.map fun p => .withdrawn p.1 m p.2 } ∧
      ∀ q, ((queues.foldl (fun b q => b.withdraw m q) b).mailbox q).mode = (b.mailbox q).mode ∧
        ((queues.foldl (fun b q => b.withdraw m q) b).mailbox q).stored =
          if q ∈ queues ∧ (b.mailbox q).mode ≠ .sticky then
            (b.mailbox q).stored.filter (· ≠ m)
          else (b.mailbox q).stored := by
  induction queues generalizing b with
  | nil => exact ⟨[], rfl, by simp, fun q => by simp⟩
  | cons queue rest ih =>
    obtain ⟨asked, hasked, hframe, hboxes⟩ := ih (b.withdraw m queue)
    refine ⟨(queue, ((b.mailbox queue).withdraw m).2) :: asked, by simp [hasked], ?_, fun q => ?_⟩
    · rw [List.foldl_cons, hframe]
      simp [withdraw, log, setMailbox]
    · obtain ⟨hmode, hstored⟩ := hboxes q
      obtain ⟨hmode₁, hstored₁⟩ := withdraw_mailbox b queue m q
      refine ⟨hmode.trans hmode₁, ?_⟩
      rw [List.foldl_cons, hstored, hmode₁, hstored₁]
      by_cases hsticky : (b.mailbox q).mode = .sticky
      · simp [hsticky]
      · by_cases hq : queue = q
        · by_cases hmem : q ∈ rest <;> simp [hsticky, hq, hmem]
        · simp [hsticky, hq, Ne.symm hq]

/-! ## Deliveries -/

/-- A failing delivery just before it drops its stage. -/
structure Balked (b : Broker) (d : Delivery) (e : RoutingError) (u : Retraction) (c : Broker) :
    Prop where
  frame : c = { b with
    mailboxes := c.mailboxes
    storage := c.storage
    caches := c.caches
    trace := b.trace ++ u.calls d.message.id }
  staged : u.staged = d.stage
  tells : u.Tells d.message.id e
  asked : u.asked.map Prod.fst = u.accepted.reverse
  mail : b.GivenBack d.message.id u.accepted c
  storage : { c.storage with lapses := [] } = { b.storage with lapses := [] }
  /-- At most the commit key of its stage has been drawn. -/
  caches : c.caches = b.caches ∨ ∃ h key k, d.stage = some h ∧
    (b.cache h.cache).drawKey h.staged = (some key, k) ∧ c.caches = b.caches.insert h.cache k

/-- A write that fails leaves the journal as it is. -/
theorem write_failed {s s' : Storage} {entry : Entry} {err : JournalError}
    (h : s.write entry = (s', .error err)) : s' = { s with lapses := s.lapses.tail } := by
  unfold Storage.write at h
  dsimp only at h
  split at h
  · cases h
    rfl
  · split at h <;> cases h

/-- An identifier that is not persisted: its key has been drawn, and its record is not written. -/
theorem persist_error (h : b.persist d = (c, .error e)) :
    ∃ g key k err, d.stage = some g ∧ e = .persistence err ∧
      (b.cache g.cache).drawKey g.staged = (some key, k) ∧
      c = { b with
        storage := { b.storage with lapses := b.storage.lapses.tail }
        caches := b.caches.insert g.cache k
        trace := b.trace ++ [.journal .inline (.write (.add (g.staged.recordAt key))) false] } := by
  unfold persist at h
  cases hd : d.stage with
  | none =>
    rw [hd] at h
    cases h
  | some g =>
    rw [hd] at h
    dsimp only at h
    rcases hp : b.persistStage g with ⟨b₁, _ | _⟩
    · rw [hp] at h
      cases h
      unfold persistStage at hp
      split at hp
      · cases hp
      · rename_i key k hdraw
        refine ⟨g, key, k, _, rfl, rfl, hdraw, ?_⟩
        dsimp only at hp
        split at hp
        · unfold write at hp
          rcases hwrite : (b.setCache g.cache k).storage.write (.add (g.staged.recordAt key)) with
            ⟨s, result⟩
          rw [hwrite] at hp
          cases hp
          rw [write_failed hwrite]
          rfl
        · cases hp
    · rw [hp] at h
      cases h

/-- What the queues that have taken a message hold once it has been taken back. -/
theorem givenBack_withdrawAll {taken : List String}
    (hboxes : ∀ q, (c.mailbox q).mode = (b.mailbox q).mode ∧
      (c.mailbox q).stored = (b.mailbox q).stored ++ (taken.filter (· = q)).map fun _ => m) :
    b.GivenBack m taken (c.withdrawAll m taken) := by
  obtain ⟨-, -, -, hback⟩ := withdraw_cases c m taken.reverse
  refine ⟨fun q => (hback q).1.trans (hboxes q).1, fun q hq => ?_, fun q hq hmode => ?_⟩
  · refine (hback q).2.trans ?_
    have hnone : taken.filter (· = q) = [] :=
      List.filter_eq_nil_iff.2 fun p hp => by
        simp only [decide_eq_true_eq]
        rintro rfl
        exact hq hp
    rw [if_neg fun h => hq (List.mem_reverse.1 h.1), (hboxes q).2, hnone]
    simp
  · refine (hback q).2.trans ?_
    rw [if_pos ⟨List.mem_reverse.2 hq, (hboxes q).1 ▸ hmode⟩, (hboxes q).2]
    simp

/-- A failing send outside any transaction has had its message taken back when it drops its
stage. -/
theorem balked_deliver (h : b.deliver d = (b', .error e)) :
    ∃ u c, Balked b d e u c ∧ b' = c.rollbackDelivery d := by
  unfold deliver tryDelivery enqueueTargets at h
  rcases henqueue : b.enqueueFrom d.message.id [] d.routedQueues with ⟨c, accepted, result⟩
  obtain ⟨taken, failure, haccepted, hframe, hboxes, hresult⟩ := enqueueFrom_cases henqueue
  rw [List.nil_append] at haccepted
  subst haccepted
  rw [henqueue] at h
  rcases hresult with ⟨rfl, rfl⟩ | ⟨q, refusal, rfl, rfl⟩
  · -- Every queue has taken the message, and its identifier is not persisted.
    dsimp only at h
    rcases hpersist : c.persist d with ⟨c₁, result⟩
    rw [hpersist] at h
    cases result with
    | ok _ => cases h
    | error err =>
      cases h
      obtain ⟨g, key, k, err, hd, rfl, hdraw, hc₁⟩ := persist_error hpersist
      obtain ⟨asked, hasked, hback, -⟩ := withdraw_cases c₁ d.message.id accepted.reverse
      have hcache : c.cache g.cache = b.cache g.cache := by rw [hframe]; rfl
      have hc₁boxes : c₁.mailboxes = c.mailboxes := by rw [hc₁]
      refine ⟨⟨d.stage, accepted, [.journal .inline (.write (.add (g.staged.recordAt key))) false],
        asked⟩, c₁.withdrawAll d.message.id accepted, ?_, rfl⟩
      have hframe₁ : c₁.withdrawAll d.message.id accepted = { b with
          mailboxes := (c₁.withdrawAll d.message.id accepted).mailboxes
          storage := { b.storage with lapses := b.storage.lapses.tail }
          caches := b.caches.insert g.cache k
          trace := b.trace ++ (Retraction.calls ⟨d.stage, accepted,
            [.journal .inline (.write (.add (g.staged.recordAt key))) false], asked⟩
              d.message.id) } := by
        refine Eq.trans hback ?_
        rw [hc₁, hframe]
        simp [Retraction.calls, withdrawAll]
      refine ⟨?_, rfl, ⟨g, key, hd, rfl⟩, hasked, givenBack_withdrawAll fun q => ?_, ?_, ?_⟩
      · rw [hframe₁]
      · rw [mailbox, hc₁boxes]
        exact hboxes q
      · rw [hframe₁]
      · refine Or.inr ⟨g, key, k, hd, hcache ▸ hdraw, ?_⟩
        rw [hframe₁]
  · -- A queue has refused the message.
    cases h
    obtain ⟨asked, hasked, hback, -⟩ := withdraw_cases c d.message.id accepted.reverse
    refine ⟨⟨d.stage, accepted, [.enqueued q d.message.id (some refusal)], asked⟩,
      c.withdrawAll d.message.id accepted, ?_, rfl⟩
    have hframe₁ : c.withdrawAll d.message.id accepted = { b with
        mailboxes := (c.withdrawAll d.message.id accepted).mailboxes
        trace := b.trace ++ (Retraction.calls ⟨d.stage, accepted,
          [.enqueued q d.message.id (some refusal)], asked⟩ d.message.id) } := by
      refine Eq.trans hback ?_
      rw [hframe]
      simp [Retraction.calls, withdrawAll]
    refine ⟨?_, rfl, rfl, hasked, givenBack_withdrawAll hboxes, ?_, Or.inl ?_⟩
    · rw [hframe₁]
    · rw [hframe₁]
    · rw [hframe₁]

/-- A failing delivery has told all that it has to tell, and taken back what it has placed, when it
drops its stage. -/
theorem balked_dispatch {transaction : Option Nat}
    (h : b.dispatch d transaction = (b', .error e)) :
    ∃ u c, Balked b d e u c ∧ b' = c.rollbackDelivery d := by
  cases transaction with
  | none => exact balked_deliver h
  | some n =>
    simp only [dispatch] at h
    rcases hadd : b.addOperation n (.delivery { delivery := d }) with ⟨c, _ | _⟩
    · rw [hadd] at h
      cases h
      obtain rfl := addOperation_error hadd
      refine ⟨⟨d.stage, [], [], []⟩, c, ?_, rfl⟩
      exact ⟨by simp [Retraction.calls], rfl, ⟨rfl, rfl⟩, rfl,
        ⟨fun _ => rfl, fun _ _ => rfl, fun q hq => by cases hq⟩, rfl, Or.inl rfl⟩
    · rw [hadd] at h
      cases h

end Broker

end MessageRouting
