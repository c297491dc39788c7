import MessageRouting.Broker.Command
import MessageRouting.Proofs.Broker.BookSteps
import MessageRouting.Proofs.Transaction.Deliveries

/-!
# Which operations are called

Read off the trace alone: an operation that is registered before a transaction
is completed is called in each phase of the completion, once. So is, in a
rollback, an operation that a hook registers while the transaction is being
completed; a commit under way passes over it.

Results:

* `calls_callUntilFailure`, `calls_callAll`: the calls of one phase.
* `calls_prepare`, `calls_commit`, `calls_rollback`: those of a completion.
* `registered_called`: whatever is asked of a transaction, what becomes of an
  operation that is registered between two requests.
* `late_uncalled`: what a hook registers during a commit may never be called.
-/

namespace MessageRouting

open Relation (ReflTransGen)

/-- The operation of the transaction that the event tells to be called, and the phase. -/
def Event.call? (n : Nat) : Event → Option (Nat × Phase)
  | .called m i phase => if m = n then some (i, phase) else none
  | _ => none

/-- The calls of the first `k` operations in a phase. -/
def callsOf (phase : Phase) (k : Nat) : List (Nat × Phase) := (List.range k).map (·, phase)

theorem callsOf_succ (phase : Phase) (k : Nat) :
    callsOf phase (k + 1) = callsOf phase k ++ [(k, phase)] := by
  rw [callsOf, List.range_succ, List.map_append]
  rfl

theorem count_callsOf (p q : Phase) (k i : Nat) :
    (callsOf p k).count (i, q) = if p = q ∧ i < k then 1 else 0 := by
  induction k with
  | zero => simp [callsOf]
  | succ k ih =>
    rw [callsOf_succ, List.count_append, ih, List.count_singleton]
    simp only [beq_iff_eq, Prod.mk.injEq]
    grind

namespace Broker

/-- The calls of a transaction's operations, in order. -/
def calls (b : Broker) (n : Nat) : List (Nat × Phase) := b.trace.filterMap (Event.call? n)

variable {b b' : Broker} {n : Nat}

/-! ## What calls no operation -/

theorem calls_log {e : Event} (h : e.call? n = none) : (b.log e).calls n = b.calls n := by
  simp [calls, log, h]

theorem calls_modifyTransaction (b : Broker) (m : Nat) (f : Transaction → Transaction) (n : Nat) :
    (b.modifyTransaction m f).calls n = b.calls n := by
  cases m <;> rfl

theorem calls_submitFor (b : Broker) (ref : CacheRef) (e : Entry) (n : Nat) :
    (b.submitFor ref e).calls n = b.calls n := by
  cases ref <;> rfl

/-! ## One operation called -/

/-- The operations of a transaction are called as told, and others may be registered with it as long
as it is active. -/
structure Calls (n : Nat) (cs : List (Nat × Phase)) (b b' : Broker) : Prop where
  calls : b'.calls n = b.calls n ++ cs
  state : (b'.transaction n).state = (b.transaction n).state
  length_le : (b.transaction n).operations.length ≤ (b'.transaction n).operations.length
  length_eq : (b.transaction n).state ≠ .active →
    (b'.transaction n).operations.length = (b.transaction n).operations.length

theorem Calls.trans {cs ds : List (Nat × Phase)} {b₁ b₂ b₃ : Broker} (h : Calls n cs b₁ b₂)
    (h' : Calls n ds b₂ b₃) : Calls n (cs ++ ds) b₁ b₃ where
  calls := by rw [h'.calls, h.calls, List.append_assoc]
  state := h'.state.trans h.state
  length_le := Nat.le_trans h.length_le h'.length_le
  length_eq := fun hs => (h'.length_eq (h.state ▸ hs)).trans (h.length_eq hs)

theorem calls_of_transactions (htransactions : b'.transactions = b.transactions)
    (hcalls : b'.calls n = b.calls n) : Calls n [] b b' := by
  have hsame := transaction_of_transactions htransactions n
  exact ⟨by rw [hcalls, List.append_nil], by rw [hsame], Nat.le_of_eq (by rw [hsame]),
    fun _ => by rw [hsame]⟩

/-- A transaction that is changed, and keeps its state. -/
theorem calls_modified {f : Transaction → Transaction}
    (hstate : (f (b.transaction n)).state = (b.transaction n).state)
    (hle : (b.transaction n).operations.length ≤ (f (b.transaction n)).operations.length)
    (heq : (b.transaction n).state ≠ .active →
      (f (b.transaction n)).operations.length = (b.transaction n).operations.length) :
    Calls n [] b (b.modifyTransaction n f) := by
  have hcalls : (b.modifyTransaction n f).calls n = b.calls n ++ [] := by
    rw [calls_modifyTransaction, List.append_nil]
  rcases modifyTransaction_cases b n f n with h | ⟨-, h⟩
  · exact ⟨hcalls, by rw [h], Nat.le_of_eq (by rw [h]), fun _ => by rw [h]⟩
  · exact ⟨hcalls, by rw [h, hstate], by rw [h]; exact hle, fun hs => by rw [h, heq hs]⟩

theorem calls_modifyOperation (b : Broker) (n i : Nat) (f : PendingDelivery → PendingDelivery) :
    Calls n [] b (b.modifyOperation n i f) :=
  calls_modified rfl (Nat.le_of_eq (List.length_modify ..).symm) fun _ => List.length_modify ..

/-- An operation is registered with an active transaction only. -/
theorem calls_addOperation (b : Broker) (n : Nat) (op : Operation) :
    Calls n [] b (b.addOperation n op).1 := by
  unfold addOperation Transaction.addOperation
  cases hrequire : (b.transaction n).require n [.active] .addOperation with
  | error refusal => exact calls_of_transactions rfl rfl
  | ok _ =>
    have hactive : (b.transaction n).state = .active := by
      simpa using state_of_require hrequire
    exact calls_modified rfl (by simp) fun hs => absurd hactive hs

/-- Hooks do not call operations. -/
theorem hooksKeep_calls (n : Nat) : HooksKeep n (Calls n []) where
  refl _ := calls_of_transactions rfl rfl
  trans := .trans
  hears _ _ _ := calls_of_transactions rfl (calls_log rfl)
  acts _ _ _ _ _ := calls_of_transactions rfl (calls_log rfl)
  marks _ _ := calls_modified rfl (Nat.le_refl _) fun _ => rfl
  registers _ _ := calls_addOperation ..

/-- Neither do deliveries. -/
theorem phaseKeeps_calls (n : Nat) (phase : Phase) : PhaseKeeps n phase (Calls n []) where
  refl _ := calls_of_transactions rfl rfl
  trans := .trans
  caches _ _ _ := calls_of_transactions rfl rfl
  grants _ _ := calls_of_transactions rfl (calls_log rfl)
  promotes _ _ _ := calls_of_transactions rfl (calls_log rfl)
  drops _ _ := calls_of_transactions rfl (calls_log rfl)
  wakes _ _ := calls_of_transactions rfl rfl
  submits _ _ _ := calls_of_transactions (transactions_submitFor ..) (calls_submitFor ..)
  writes _ _ _ := calls_of_transactions rfl (calls_log rfl)
  withdraws _ _ _ := calls_of_transactions rfl (calls_log rfl)
  enqueues _ _ _ _ := calls_of_transactions rfl (calls_log rfl)
  records b i := calls_modifyOperation b n i _
  notes _ b i _ := calls_modifyOperation b n i _

/-- Calling an operation that is registered is one call. -/
theorem calls_callOperation {i : Nat} (hi : i < (b.transaction n).operations.length)
    (phase : Phase) : Calls n [(i, phase)] b (b.callOperation n phase i).1 := by
  have hlog : Calls n [(i, phase)] b (b.log (.called n i phase)) := by
    refine ⟨?_, rfl, Nat.le_refl _, fun _ => rfl⟩
    simp [calls, log, Event.call?]
  unfold callOperation
  rw [List.getElem?_eq_getElem hi]
  dsimp only
  split
  · exact hlog.trans ((phaseKeeps_calls n phase).callDelivery ..)
  · exact hlog.trans ((hooksKeep_calls n).callHook ..)

/-! ## One phase -/

/-- Operations are called in order, all of them unless one fails. -/
theorem calls_callUntilFailure (phase : Phase) (is : List Nat)
    (his : ∀ i ∈ is, i < (b.transaction n).operations.length) :
    ∃ cs, Calls n cs b (b.callUntilFailure n phase is).1 ∧ (∀ c ∈ cs, c.2 = phase) ∧
      ((b.callUntilFailure n phase is).2 = .ok () → cs = is.map (·, phase)) := by
  induction is generalizing b with
  | nil => exact ⟨[], calls_of_transactions rfl rfl, by simp, fun _ => rfl⟩
  | cons i rest ih =>
    have hfirst := calls_callOperation (his i (by simp)) phase
    unfold callUntilFailure
    split
    · rename_i c heq
      rw [heq] at hfirst
      obtain ⟨cs, hcs, hphase, hok⟩ := ih fun j hj =>
        Nat.lt_of_lt_of_le (his j (by simp [hj])) hfirst.length_le
      refine ⟨_, hfirst.trans hcs, ?_, fun h => ?_⟩
      · simpa using hphase
      · rw [hok h]
        rfl
    · rename_i c e heq
      rw [heq] at hfirst
      exact ⟨_, hfirst, by simp, fun h => by cases h⟩

theorem calls_callAll (phase : Phase) (is : List Nat)
    (his : ∀ i ∈ is, i < (b.transaction n).operations.length) :
    Calls n (is.map (·, phase)) b (b.callAll n phase is) := by
  induction is generalizing b with
  | nil => exact calls_of_transactions rfl rfl
  | cons i rest ih =>
    have hfirst := calls_callOperation (his i (by simp)) phase
    exact hfirst.trans (ih fun j hj =>
      Nat.lt_of_lt_of_le (his j (by simp [hj])) hfirst.length_le)

/-! ## Completions -/

theorem transaction_setState_self (hn : b.Has n) (s : TransactionState) :
    (b.setState n s).transaction n = { b.transaction n with state := s } := by
  rw [setState, transaction_modifyTransaction b n _ hn.1 hn.2, if_pos rfl]

/-- The transaction has been rolled back, after calls of its operations: each of them has been told
so then. -/
structure Undone (n : Nat) (cs : List (Nat × Phase)) (b b' : Broker) : Prop where
  state : (b'.transaction n).state = .rolledBack
  calls : b'.calls n =
    b.calls n ++ cs ++ callsOf .afterRollback (b'.transaction n).operations.length
  length_le : (b.transaction n).operations.length ≤ (b'.transaction n).operations.length

/-- The transaction has been committed: the operations registered before that have been called one
by one, all of them have succeeded, and each has been told so then. -/
structure Executed (n : Nat) (b b' : Broker) : Prop where
  live : (b.transaction n).state = .active ∨ (b.transaction n).state = .prepared
  state : (b'.transaction n).state = .committed
  calls : ∃ c, b.callUntilFailure n .beforeCommit (b.operationIndexes n) = (c, .ok ()) ∧
    (c.transaction n).state = (b.transaction n).state ∧
    c.calls n = b.calls n ++ callsOf .beforeCommit (b.transaction n).operations.length ∧
    b'.calls n = c.calls n ++ callsOf .afterCommit (b.transaction n).operations.length
  length_le : (b.transaction n).operations.length ≤ (b'.transaction n).operations.length

theorem undone_undo {cs : List (Nat × Phase)} {c : Broker} (h : Calls n cs b c) (hn : c.Has n) :
    Undone n cs b (c.undo n) := by
  have hset := transaction_setState_self hn .rolledBack
  have hindexes : (c.setState n .rolledBack).operationIndexes n =
      List.range (c.transaction n).operations.length := by
    rw [operationIndexes, hset]
  have hall : Calls n _ _ (c.undo n) := calls_callAll (b := c.setState n .rolledBack)
    .afterRollback ((c.setState n .rolledBack).operationIndexes n)
    fun i hi => List.mem_range.1 hi
  have hcalls := hall.calls
  have hstate := hall.state
  have hlength := hall.length_eq (by rw [hset]; simp)
  rw [hset] at hstate hlength
  rw [hindexes, setState, calls_modifyTransaction, h.calls] at hcalls
  refine ⟨hstate, ?_, ?_⟩
  · rw [hlength]
    exact hcalls
  · rw [hlength]
    exact h.length_le

theorem undone_undoDoomed {e : TransactionError} (hn : b.Has n)
    (h : b.undoDoomed? n = some (b', e)) : Undone n [] b b' := by
  obtain ⟨reason, -, heq⟩ := Option.map_eq_some_iff.1 h
  obtain rfl := (Prod.mk.inj heq).1
  exact undone_undo (calls_of_transactions rfl rfl) hn

theorem has_of_active_or_prepared
    (h : (b.transaction n).state = .active ∨ (b.transaction n).state = .prepared) : b.Has n :=
  has_of_state (by rcases h with h | h <;> rw [h] <;> simp)

/-- Preparing is refused, or calls every operation registered before, or ends in a rollback. -/
theorem calls_prepare (b : Broker) (n : Nat) :
    (b.prepare n).1 = b ∨ (b.transaction n).state = .active ∧
      ((∃ cs, (∀ c ∈ cs, c.2 = .beforePrepare) ∧ Undone n cs b (b.prepare n).1) ∨
        ((b.prepare n).1.transaction n).state = .prepared ∧
          (b.prepare n).1.calls n =
            b.calls n ++ callsOf .beforePrepare (b.transaction n).operations.length ∧
          (b.transaction n).operations.length ≤
            ((b.prepare n).1.transaction n).operations.length) := by
  unfold prepare
  split
  · exact .inl rfl
  · split
    · exact .inl rfl
    · rename_i hrequire
      have hactive : (b.transaction n).state = .active := by
        simpa using state_of_require hrequire
      have hn := has_of_active_or_prepared (.inl hactive)
      refine .inr ⟨hactive, ?_⟩
      split
      · rename_i hdoomed
        exact .inl ⟨[], by simp, undone_undoDoomed hn hdoomed⟩
      · obtain ⟨cs, hcs, hphase, hok⟩ := calls_callUntilFailure (b := b) (n := n) .beforePrepare
          (b.operationIndexes n) fun i hi => List.mem_range.1 hi
        split
        · rename_i c e heq
          rw [heq] at hcs
          have hc : c.Has n := has_of_active_or_prepared (.inl (hcs.state.trans hactive))
          exact .inl ⟨cs, hphase, undone_undo hcs hc⟩
        · rename_i c heq
          rw [heq] at hcs hok
          have hc : c.Has n := has_of_active_or_prepared (.inl (hcs.state.trans hactive))
          have hset := transaction_setState_self hc .prepared
          refine .inr ⟨by rw [hset], ?_, ?_⟩
          · rw [setState, calls_modifyTransaction, hcs.calls, hok rfl]
            rfl
          · rw [hset]
            exact hcs.length_le

/-- A commit is refused, or ends in a rollback, or calls every operation registered before. -/
theorem calls_commit (b : Broker) (n : Nat) :
    (b.commit n).1 = b ∨
      ((b.transaction n).state = .active ∨ (b.transaction n).state = .prepared) ∧
      ((∃ cs, (∀ c ∈ cs, c.2 = .beforeCommit) ∧ Undone n cs b (b.commit n).1) ∨
        Executed n b (b.commit n).1) := by
  unfold commit
  split
  · exact .inl rfl
  · rename_i hrequire
    have hlive : (b.transaction n).state = .active ∨ (b.transaction n).state = .prepared := by
      simpa using state_of_require hrequire
    have hn := has_of_active_or_prepared hlive
    refine .inr ⟨hlive, ?_⟩
    split
    · rename_i hdoomed
      exact .inl ⟨[], by simp, undone_undoDoomed hn hdoomed⟩
    · obtain ⟨cs, hcs, hphase, hok⟩ := calls_callUntilFailure (b := b) (n := n) .beforeCommit
        (b.operationIndexes n) fun i hi => List.mem_range.1 hi
      dsimp only
      split
      · rename_i c e heq
        rw [heq] at hcs
        have hc : c.Has n := has_of_active_or_prepared (hcs.state ▸ hlive)
        exact .inl ⟨cs, hphase, undone_undo hcs hc⟩
      · rename_i c heq
        rw [heq] at hcs hok
        have hc : c.Has n := has_of_active_or_prepared (hcs.state ▸ hlive)
        have hset := transaction_setState_self hc .committed
        -- Hooks may have registered further operations; those called are the ones from before.
        have hall := calls_callAll (b := c.setState n .committed) (n := n) .afterCommit
          (b.operationIndexes n) fun i hi => by
            rw [hset]
            exact Nat.lt_of_lt_of_le (List.mem_range.1 hi) hcs.length_le
        refine .inr ⟨hlive, ?_, ⟨c, heq, hcs.state, ?_, ?_⟩, ?_⟩
        · rw [hall.state, hset]
        · rw [hcs.calls, hok rfl]
          rfl
        · rw [hall.calls, setState, calls_modifyTransaction]
          rfl
        · have hle := hall.length_le
          rw [hset] at hle
          exact Nat.le_trans hcs.length_le hle

/-- A rollback is refused, or tells every operation. -/
theorem calls_rollback (b : Broker) (n : Nat) :
    (b.rollback n).1 = b ∨
      ((b.transaction n).state = .active ∨ (b.transaction n).state = .prepared) ∧
        Undone n [] b (b.rollback n).1 := by
  unfold rollback
  split
  · exact .inl rfl
  · rename_i hrequire
    have hlive : (b.transaction n).state = .active ∨ (b.transaction n).state = .prepared := by
      simpa using state_of_require hrequire
    exact .inr ⟨hlive, undone_undo (calls_of_transactions rfl rfl)
      (has_of_active_or_prepared hlive)⟩

/-! ## Courses of a transaction -/

/-- Something is asked of the transaction, or something happens that does not concern it. -/
inductive Asked (n : Nat) (b : Broker) : Broker → Prop where
  | added (op : Operation) : Asked n b (b.addOperation n op).1
  | marked (reason : String) : Asked n b (b.markRollbackOnly n reason)
  | prepared : Asked n b (b.prepare n).1
  | committed : Asked n b (b.commit n).1
  | rolledBack : Asked n b (b.rollback n).1
  | elsewhere {b' : Broker} (htransaction : b'.transaction n = b.transaction n)
    (hcalls : b'.calls n = b.calls n) : Asked n b b'

/-- Requests to the transaction, one after the other. -/
abbrev Course (n : Nat) : Broker → Broker → Prop := ReflTransGen (Asked n)

/-- How far a transaction has come, as its operations know it. -/
inductive Progress (n : Nat) (b b' : Broker) : Prop where
  | active (hstate : (b'.transaction n).state = .active)
    (hwas : (b.transaction n).state = .active) (hcalls : b'.calls n = b.calls n)
    (hle : (b.transaction n).operations.length ≤ (b'.transaction n).operations.length)
  | prepared (hstate : (b'.transaction n).state = .prepared) {k : Nat}
    (hk : (b.transaction n).state = .active → (b.transaction n).operations.length ≤ k)
    (hcalls : b'.calls n = b.calls n ++ callsOf .beforePrepare k)
    (hle : (b.transaction n).operations.length ≤ (b'.transaction n).operations.length)
  | committed {c : Broker} {k : Nat} (hc : Course n b c)
    (hcalls : c.calls n = b.calls n ++ callsOf .beforePrepare k)
    (hle : (b.transaction n).operations.length ≤ (c.transaction n).operations.length)
    (h : Executed n c b')
  | rolledBack {cs : List (Nat × Phase)}
    (hcs : ∀ c ∈ cs, c.2 = .beforePrepare ∨ c.2 = .beforeCommit) (h : Undone n cs b b')

theorem Undone.calls_after {cs : List (Nat × Phase)} {b'' : Broker} (h : Undone n cs b b')
    (h' : Calls n [] b' b'') : Undone n cs b b'' := by
  have hlength := h'.length_eq (by rw [h.state]; simp)
  refine ⟨h'.state.trans h.state, ?_, Nat.le_trans h.length_le h'.length_le⟩
  rw [h'.calls, List.append_nil, h.calls, hlength]

theorem Executed.calls_after {b'' : Broker} (h : Executed n b b') (h' : Calls n [] b' b'') :
    Executed n b b'' := by
  obtain ⟨c, hcalled, hstate, hbefore, hafter⟩ := h.calls
  refine ⟨h.live, h'.state.trans h.state, ⟨c, hcalled, hstate, hbefore, ?_⟩,
    Nat.le_trans h.length_le h'.length_le⟩
  rw [h'.calls, List.append_nil, hafter]

theorem Progress.calls_after {b'' : Broker} (h : Progress n b b') (h' : Calls n [] b' b'') :
    Progress n b b'' := by
  have hsame : b''.calls n = b'.calls n := by rw [h'.calls, List.append_nil]
  cases h with
  | active hstate hwas hcalls hle =>
    exact .active (h'.state.trans hstate) hwas (hsame.trans hcalls) (Nat.le_trans hle h'.length_le)
  | prepared hstate hk hcalls hle =>
    exact .prepared (h'.state.trans hstate) hk (hsame.trans hcalls)
      (Nat.le_trans hle h'.length_le)
  | committed hc hcalls hle h => exact .committed hc hcalls hle (h.calls_after h')
  | rolledBack hcs h => exact .rolledBack hcs (h.calls_after h')

/-- The calls and the operations of a transaction that may still be completed. -/
theorem Progress.live (h : Progress n b b')
    (hlive : (b'.transaction n).state = .active ∨ (b'.transaction n).state = .prepared) :
    ∃ k, b'.calls n = b.calls n ++ callsOf .beforePrepare k ∧
      (b.transaction n).operations.length ≤ (b'.transaction n).operations.length := by
  cases h with
  | active hstate hwas hcalls hle => exact ⟨0, by rw [hcalls]; simp [callsOf], hle⟩
  | prepared hstate hk hcalls hle => exact ⟨_, hcalls, hle⟩
  | committed hc hcalls hle h =>
    rw [h.state] at hlive
    simp at hlive
  | rolledBack hcs h =>
    rw [h.state] at hlive
    simp at hlive

theorem Progress.undone {cs : List (Nat × Phase)} {b'' : Broker} (h : Progress n b b')
    (hlive : (b'.transaction n).state = .active ∨ (b'.transaction n).state = .prepared)
    (hcs : ∀ c ∈ cs, c.2 = .beforePrepare ∨ c.2 = .beforeCommit) (h' : Undone n cs b' b'') :
    Progress n b b'' := by
  obtain ⟨k, hcalls, hle⟩ := h.live hlive
  refine @Progress.rolledBack n b _ (callsOf .beforePrepare k ++ cs) (fun c hc => ?_)
    ⟨h'.state, ?_, Nat.le_trans hle h'.length_le⟩
  · rcases List.mem_append.1 hc with hc | hc
    · obtain ⟨i, -, rfl⟩ := List.mem_map.1 hc
      exact .inl rfl
    · exact hcs c hc
  · rw [h'.calls, hcalls]
    simp only [List.append_assoc]

theorem progress_asked {b'' : Broker} (hcourse : Course n b b') (h : Progress n b b')
    (h' : Asked n b' b'') : Progress n b b'' := by
  cases h' with
  | added op => exact h.calls_after (calls_addOperation ..)
  | marked reason => exact h.calls_after (calls_modified rfl (Nat.le_refl _) fun _ => rfl)
  | prepared =>
    rcases calls_prepare b' n with heq | ⟨hactive, ⟨cs, hcs, hundone⟩ | ⟨hstate, hcalls, hle'⟩⟩
    · rw [heq]
      exact h
    · exact h.undone (.inl hactive) (fun c hc => .inl (hcs c hc)) hundone
    · cases h with
      | active _ hwas hcalls' hle =>
        rw [hcalls'] at hcalls
        exact .prepared hstate (fun _ => hle) hcalls (Nat.le_trans hle hle')
      | prepared hprepared =>
        rw [hactive] at hprepared
        cases hprepared
      | committed _ _ _ h => exact absurd h.state (by simp [hactive])
      | rolledBack hcs h => exact absurd h.state (by simp [hactive])
  | committed =>
    rcases calls_commit b' n with heq | ⟨hlive, ⟨cs, hcs, hundone⟩ | hexecuted⟩
    · rw [heq]
      exact h
    · exact h.undone hlive (fun c hc => .inr (hcs c hc)) hundone
    · obtain ⟨k, hcalls, hle⟩ := h.live hlive
      exact .committed hcourse hcalls hle hexecuted
  | rolledBack =>
    rcases calls_rollback b' n with heq | ⟨hlive, hundone⟩
    · rw [heq]
      exact h
    · exact h.undone hlive (by simp) hundone
  | elsewhere htransaction hcalls =>
    refine h.calls_after ⟨by rw [hcalls, List.append_nil], by rw [htransaction], ?_, fun _ => by
      rw [htransaction]⟩
    exact Nat.le_of_eq (by rw [htransaction])

/-- Whatever is asked of a transaction that may still be completed, its operations are called in
the phases of one completion. -/
theorem progress_course
    (hlive : (b.transaction n).state = .active ∨ (b.transaction n).state = .prepared)
    (h : Course n b b') : Progress n b b' := by
  induction h with
  | refl =>
    rcases hlive with hactive | hprepared
    · exact .active hactive hactive rfl (Nat.le_refl _)
    · refine .prepared hprepared (k := 0) (fun hactive => ?_) (by simp [callsOf]) (Nat.le_refl _)
      rw [hprepared] at hactive
      cases hactive
  | tail hcourse hasked ih => exact progress_asked hcourse ih hasked

/-- The operation has been called before the commit, with success, and after it, each once. -/
structure Completed (n i : Nat) (b b' : Broker) : Prop where
  before : (b'.calls n).count (i, .beforeCommit) = 1
  after : (b'.calls n).count (i, .afterCommit) = 1
  /-- The operations registered when the commit began had been called with success when the
  transaction became committed; those registered later have not been called. -/
  success : ∃ c d, Course n b c ∧
    c.callUntilFailure n .beforeCommit (c.operationIndexes n) = (d, .ok ()) ∧
    (d.transaction n).state ≠ .committed ∧ (d.calls n).count (i, .beforeCommit) = 1 ∧
    (d.calls n).count (i, .afterCommit) = 0 ∧
    ∀ j ≥ (c.transaction n).operations.length,
      (b'.calls n).count (j, .beforeCommit) = 0 ∧ (b'.calls n).count (j, .afterCommit) = 0

theorem Progress.completed {i k : Nat} (h : Progress n b b')
    (hcalls : b.calls n = callsOf .beforePrepare k)
    (hi : i < (b.transaction n).operations.length)
    (hstate : (b'.transaction n).state = .committed) : Completed n i b b' := by
  cases h with
  | active hs =>
    rw [hstate] at hs
    cases hs
  | prepared hs =>
    rw [hstate] at hs
    cases hs
  | rolledBack _ hundone => exact absurd (hstate.symm.trans hundone.state) (by simp)
  | @committed c j hc hcallsc hle hexecuted =>
    obtain ⟨d, hcalled, hsame, hbefore, hafter⟩ := hexecuted.calls
    have hilt : i < (c.transaction n).operations.length := Nat.lt_of_lt_of_le hi hle
    rw [hcallsc, hcalls] at hbefore
    have hnot : (d.transaction n).state ≠ .committed := by
      rw [hsame]
      rcases hexecuted.live with hlive | hlive <;> simp [hlive]
    refine ⟨?_, ?_, c, d, hc, hcalled, hnot, ?_, ?_, fun j hj => ?_⟩
    · rw [hafter, hbefore]
      simp [List.count_append, count_callsOf, hilt]
    · rw [hafter, hbefore]
      simp [List.count_append, count_callsOf, hilt]
    · rw [hbefore]
      simp [List.count_append, count_callsOf, hilt]
    · rw [hbefore]
      simp [List.count_append, count_callsOf]
    · rw [hafter, hbefore]
      simp [List.count_append, count_callsOf, Nat.not_lt.2 hj]

theorem Progress.told {j k : Nat} (h : Progress n b b')
    (hcalls : b.calls n = callsOf .beforePrepare k)
    (hstate : (b'.transaction n).state = .rolledBack)
    (hj : j < (b'.transaction n).operations.length) :
    (b'.calls n).count (j, .afterRollback) = 1 ∧ (b'.calls n).count (j, .afterCommit) = 0 := by
  cases h with
  | active hs =>
    rw [hstate] at hs
    cases hs
  | prepared hs =>
    rw [hstate] at hs
    cases hs
  | committed _ _ _ hexecuted => exact absurd (hstate.symm.trans hexecuted.state) (by simp)
  | @rolledBack cs hcs hundone =>
    have hnone : ∀ phase, phase ≠ .beforePrepare → phase ≠ .beforeCommit →
        cs.count (j, phase) = 0 := by
      intro phase hprepare hcommit
      refine List.count_eq_zero.2 fun hmem => ?_
      rcases hcs _ hmem with h | h
      · exact hprepare h
      · exact hcommit h
    rw [hundone.calls, hcalls]
    constructor
    · simp [List.count_append, count_callsOf, hnone, hj]
    · simp [List.count_append, count_callsOf, hnone]

theorem Progress.preparedOnce {i : Nat} (h : Progress n b b') (hcalls : b.calls n = [])
    (hi : i < (b.transaction n).operations.length) (hactive : (b.transaction n).state = .active)
    (hstate : (b'.transaction n).state = .prepared) :
    (b'.calls n).count (i, .beforePrepare) = 1 := by
  cases h with
  | active hs =>
    rw [hstate] at hs
    cases hs
  | prepared _ hk hcalls' =>
    have hilt := Nat.lt_of_lt_of_le hi (hk hactive)
    rw [hcalls', hcalls, List.nil_append, count_callsOf, if_pos ⟨rfl, hilt⟩]
  | committed _ _ _ hexecuted => exact absurd (hstate.symm.trans hexecuted.state) (by simp)
  | rolledBack _ hundone => exact absurd (hstate.symm.trans hundone.state) (by simp)

/-- Whatever is asked of a transaction, an operation that is registered between two requests is
called before the commit, with success, and after it if the transaction commits, and before it is
prepared if it is; each once. If the transaction is rolled back, every operation that it has by then
is told so, once, and none has been told of a commit. -/
theorem registered_called {b₀ : Broker} {i : Nat}
    (hlive₀ : (b₀.transaction n).state = .active ∨ (b₀.transaction n).state = .prepared)
    (hnone : b₀.calls n = []) (h : Course n b₀ b)
    (hlive : (b.transaction n).state = .active ∨ (b.transaction n).state = .prepared)
    (hi : i < (b.transaction n).operations.length) (h' : Course n b b') :
    ((b'.transaction n).state = .committed → Completed n i b b') ∧
    ((b'.transaction n).state = .rolledBack → ∀ j < (b'.transaction n).operations.length,
      (b'.calls n).count (j, .afterRollback) = 1 ∧ (b'.calls n).count (j, .afterCommit) = 0) ∧
    ((b.transaction n).state = .active → (b'.transaction n).state = .prepared →
      (b'.calls n).count (i, .beforePrepare) = 1) := by
  have hearlier := progress_course hlive₀ h
  have hlater := progress_course hlive h'
  obtain ⟨k, hcalls, -⟩ := hearlier.live hlive
  rw [hnone, List.nil_append] at hcalls
  refine ⟨fun hstate => hlater.completed hcalls hi hstate,
    fun hstate j hj => hlater.told hcalls hstate hj, fun hactive hstate => ?_⟩
  have hfirst : b.calls n = [] := by
    cases hearlier with
    | active _ _ hcalls => rw [hcalls, hnone]
    | prepared hs =>
      rw [hactive] at hs
      cases hs
    | committed _ _ _ hexecuted => exact absurd (hactive.symm.trans hexecuted.state) (by simp)
    | rolledBack _ hundone => exact absurd (hactive.symm.trans hundone.state) (by simp)
  exact hlater.preparedOnce hfirst hi hactive hstate

/-- A hook that registers another one when it is called before the commit. -/
def eager : Hook := { name := "eager", script := [(.beforeCommit, [.add "late"])] }

/-- The hook is called in both phases. -/
theorem registered_called_eager :
    let b := ({} : Broker).run [.begin none, .addHook 1 eager]
    let b' := (b.commit 1).1
    (b'.transaction 1).state = .committed ∧
      b'.calls 1 = [(0, .beforeCommit), (0, .afterCommit)] ∧ Completed 1 0 b b' := by
  intro b b'
  have hlive : (b.transaction 1).state = .active ∨ (b.transaction 1).state = .prepared :=
    .inl (by decide)
  have hcourse : Course 1 b b' := .single .committed
  obtain ⟨hcommitted, -⟩ := registered_called (i := 0) hlive (by decide) .refl hlive (by decide)
    hcourse
  have hstate : (b'.transaction 1).state = .committed := by decide
  exact ⟨hstate, by decide, hcommitted hstate⟩

/-- The operation that is registered in the course of a commit is accepted, and then passed over: it
is called in no phase. -/
theorem late_uncalled :
    let b := ({} : Broker).run [.begin none, .addHook 1 eager, .commit 1]
    (b.transaction 1).state = .committed ∧
      .acted "eager" .beforeCommit (.add "late") (.operations 2) ∈ b.trace ∧
      (b.transaction 1).operations = [.hook eager, .hook { name := "late" }] ∧
      ∀ phase, (1, phase) ∉ b.calls 1 := by
  refine ⟨by decide, by decide, by decide, fun phase => ?_⟩
  cases phase <;> decide

end Broker

end MessageRouting
