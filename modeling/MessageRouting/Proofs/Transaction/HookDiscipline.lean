import MessageRouting.Proofs.Transaction.OperationCalls

/-!
# The discipline of completions

What a transaction does with a demand depends on its state, on its mark and on
how its operations answer; from that follows which operations it calls, in which
order, and where it goes. The hooks considered here only look at the transaction
when they are called, so that every demand comes from outside.

Results:

* `given_callOperation`: calling an operation changes the notes of deliveries at
  most.
* `callUntilFailure_range`: operations are called in order, up to the first one
  that fails.
* `complies_ask`: what a single demand does.
* `hooks_disciplined`: the same in any course of demands, and what the operations
  have been told by then.
-/

namespace MessageRouting

open Relation (ReflTransGen)

/-! ## Operations that make no demands -/

/-- Whether the hook only looks at the transaction when it is called. -/
def Hook.Passive (h : Hook) : Prop := ∀ e ∈ h.script, ∀ a ∈ e.2, a = .inspect

/-- Whether the operation makes no demand on its transaction; deliveries never do. -/
def Operation.Passive : Operation → Prop
  | .delivery _ => True
  | .hook h => h.Passive

/-- The operation as it was registered, without what a delivery has noted since. -/
def Operation.asGiven : Operation → Operation
  | .delivery d => .delivery { delivery := d.delivery }
  | .hook h => .hook h

theorem Operation.passive_asGiven (op : Operation) : op.asGiven.Passive ↔ op.Passive := by
  cases op <;> exact Iff.rfl

namespace Transaction

/-- Whether all operations are passive. -/
def Passive (t : Transaction) : Prop := ∀ op ∈ t.operations, op.Passive

/-- The transaction with its operations as they were registered. -/
def asGiven (t : Transaction) : Transaction :=
  { t with operations := t.operations.map Operation.asGiven }

@[simp] theorem asGiven_state (t : Transaction) : t.asGiven.state = t.state := rfl

@[simp] theorem asGiven_rollbackOnly (t : Transaction) :
    t.asGiven.rollbackOnly = t.rollbackOnly := rfl

theorem length_operations {t t' : Transaction}
    (h : t'.asGiven.operations = t.asGiven.operations) :
    t'.operations.length = t.operations.length := by
  simpa [asGiven] using congrArg List.length h

theorem passive_of_asGiven {t t' : Transaction}
    (h : t'.asGiven.operations = t.asGiven.operations) (ht : t.Passive) : t'.Passive := by
  intro op hop
  have hmem : op.asGiven ∈ t.asGiven.operations := h ▸ List.mem_map_of_mem hop
  obtain ⟨op', hop', heq⟩ := List.mem_map.1 hmem
  rw [← op.passive_asGiven, ← heq, op'.passive_asGiven]
  exact ht op' hop'

theorem mem_actions {h : Hook} {phase : Phase} {a : HookAction} (ha : a ∈ h.actions phase) :
    ∃ e ∈ h.script, a ∈ e.2 := by
  unfold Hook.actions at ha
  cases hfind : h.script.find? fun e => e.1 = phase with
  | none => simp [hfind] at ha
  | some e => exact ⟨e, List.mem_of_find?_eq_some hfind, by simpa [hfind] using ha⟩

end Transaction

namespace Broker

variable {b b' : Broker} {n : Nat}

/-! ## What a call changes of the transaction -/

theorem given_of_transactions (h : b'.transactions = b.transactions) :
    (b'.transaction n).asGiven = (b.transaction n).asGiven := by
  rw [transaction_of_transactions h]

theorem given_modifyOperation (b : Broker) (n i : Nat) {f : PendingDelivery → PendingDelivery}
    (hf : ∀ d, (f d).delivery = d.delivery) :
    ((b.modifyOperation n i f).transaction n).asGiven = (b.transaction n).asGiven := by
  rcases modifyTransaction_cases b n _ n with h | ⟨-, h⟩
  · rw [modifyOperation, h]
  · rw [modifyOperation, h]
    simp only [Transaction.asGiven, Transaction.mk.injEq, true_and]
    refine List.ext_getElem? fun j => ?_
    simp only [List.getElem?_map, List.getElem?_modify]
    cases (b.transaction n).operations[j]? with
    | none => rfl
    | some op =>
      split
      · cases op with
        | delivery d => exact congrArg some (by simp only [Operation.asGiven, hf])
        | hook h => rfl
      · rfl

/-- A hook that only looks at the transaction leaves all transactions alone. -/
theorem transactions_callHook {h : Hook} (hpassive : h.Passive) (b : Broker) (n : Nat)
    (phase : Phase) : (b.callHook n h phase).1.transactions = b.transactions := by
  have hactAll : ∀ (actions : List HookAction), (∀ a ∈ actions, a = .inspect) →
      ∀ b : Broker, (b.actAll n h.name phase actions).transactions = b.transactions := by
    intro actions
    induction actions with
    | nil => intro _ b; rfl
    | cons a rest ih =>
      intro hall b
      obtain rfl := hall a (by simp)
      exact ih (fun a' ha' => hall a' (by simp [ha'])) _
  unfold callHook
  split
  · rfl
  · refine hactAll _ (fun a ha => ?_) _
    obtain ⟨e, he, hmem⟩ := Transaction.mem_actions ha
    exact hpassive e he a hmem

theorem phaseKeeps_given (n : Nat) (phase : Phase) :
    PhaseKeeps n phase fun b b' => (b'.transaction n).asGiven = (b.transaction n).asGiven :=
  phaseKeeps_of_transactions given_of_transactions (fun h h' => h'.trans h)
    (fun b i => given_modifyOperation b n i fun _ => rfl)
    fun _ b i _ => given_modifyOperation b n i fun _ => rfl

/-- Calling a passive operation changes what its delivery has noted, and nothing else of the
transaction. -/
theorem given_callOperation (hpassive : (b.transaction n).Passive) (phase : Phase) (i : Nat) :
    ((b.callOperation n phase i).1.transaction n).asGiven = (b.transaction n).asGiven := by
  unfold callOperation
  cases hop : (b.transaction n).operations[i]? with
  | none => rfl
  | some op =>
    have hlog : ((b.log (.called n i phase)).transaction n).asGiven = (b.transaction n).asGiven :=
      given_of_transactions (transactions_log ..)
    refine Eq.trans ?_ hlog
    cases op with
    | hook h =>
      exact given_of_transactions
        (transactions_callHook (hpassive _ (List.mem_of_getElem? hop)) ..)
    | delivery d => exact (phaseKeeps_given n phase).callDelivery ..

theorem passive_of_given (h : (b'.transaction n).asGiven = (b.transaction n).asGiven)
    (hpassive : (b.transaction n).Passive) : (b'.transaction n).Passive :=
  Transaction.passive_of_asGiven (congrArg (·.operations) h) hpassive

theorem length_of_given (h : (b'.transaction n).asGiven = (b.transaction n).asGiven) :
    (b'.transaction n).operations.length = (b.transaction n).operations.length :=
  Transaction.length_operations (congrArg (·.operations) h)

theorem given_callAll (hpassive : (b.transaction n).Passive) (phase : Phase) (is : List Nat) :
    ((b.callAll n phase is).transaction n).asGiven = (b.transaction n).asGiven := by
  induction is generalizing b with
  | nil => rfl
  | cons i rest ih =>
    have hfirst := given_callOperation hpassive phase i
    exact (ih (passive_of_given hfirst hpassive)).trans hfirst

/-! ## One phase -/

/-- The first operations of a transaction, `j` of them, are called in order, and all succeed. -/
inductive Succeed (n : Nat) (phase : Phase) (b : Broker) : Nat → Broker → Prop where
  | none : Succeed n phase b 0 b
  | next {j : Nat} {c d : Broker} (h : Succeed n phase b j c)
    (hcall : c.callOperation n phase j = (d, .ok ())) : Succeed n phase b (j + 1) d

theorem Succeed.given {phase : Phase} {j : Nat} (h : Succeed n phase b j b')
    (hpassive : (b.transaction n).Passive) :
    (b'.transaction n).asGiven = (b.transaction n).asGiven := by
  induction h with
  | none => rfl
  | @next j c d _ hcall ih =>
    have hlast := given_callOperation (passive_of_given ih hpassive) phase j
    rw [hcall] at hlast
    exact hlast.trans ih

theorem Succeed.calls {phase : Phase} {j : Nat} (h : Succeed n phase b j b')
    (hpassive : (b.transaction n).Passive) (hj : j ≤ (b.transaction n).operations.length) :
    b'.calls n = b.calls n ++ callsOf phase j := by
  induction h with
  | none => simp [callsOf]
  | @next j c d h hcall ih =>
    have hlt : j < (c.transaction n).operations.length := by
      rw [length_of_given (h.given hpassive)]
      omega
    have hlast := (calls_callOperation hlt phase).calls
    rw [hcall, ih (by omega), List.append_assoc, ← callsOf_succ] at hlast
    exact hlast

theorem Succeed.has {phase : Phase} {j : Nat} (h : Succeed n phase b j b') (hn : b.Has n) :
    b'.Has n := by
  induction h with
  | none => exact hn
  | @next j c d _ hcall ih =>
    have hlast := ((touches_delivery n phase).callOperation c j).has ih
    rwa [hcall] at hlast

/-- How a phase ends: all `k` operations succeed, or one of them is the first to fail. -/
inductive PhaseEnd (n : Nat) (phase : Phase) (k : Nat) (b : Broker) :
    Broker × Except RoutingError Unit → Prop where
  | done {c : Broker} (h : Succeed n phase b k c) : PhaseEnd n phase k b (c, .ok ())
  | failed {j : Nat} {c d : Broker} {e : RoutingError} (hj : j < k) (h : Succeed n phase b j c)
    (hcall : c.callOperation n phase j = (d, .error e)) : PhaseEnd n phase k b (d, .error e)

theorem callUntilFailure_range' (phase : Phase) (m : Nat) {j : Nat} {c : Broker}
    (h : Succeed n phase b j c) :
    PhaseEnd n phase (j + m) b (c.callUntilFailure n phase (List.range' j m)) := by
  induction m generalizing j c with
  | zero => exact .done h
  | succ m ih =>
    rw [List.range'_succ]
    unfold callUntilFailure
    split
    · rename_i d heq
      have hrest := ih (h.next heq)
      rwa [show j + 1 + m = j + (m + 1) by omega] at hrest
    · rename_i d e heq
      exact .failed (by omega) h heq

/-- The operations are called in the order in which they were registered, up to the first one that
fails. -/
theorem callUntilFailure_range (b : Broker) (n : Nat) (phase : Phase) :
    PhaseEnd n phase (b.transaction n).operations.length b
      (b.callUntilFailure n phase (b.operationIndexes n)) := by
  have hnone : Succeed n phase b 0 b := .none
  have h := callUntilFailure_range' phase (b.transaction n).operations.length hnone
  rwa [Nat.zero_add, ← List.range_eq_range'] at h

/-! ## Demands -/

/-- What can be demanded of a transaction. -/
inductive Demand where
  | add (op : Operation)
  | mark (reason : String)
  | prepare
  | commit
  | rollback

/-- How a refusal calls the demand; a mark is never refused. -/
def Demand.request? : Demand → Option TransactionRequest
  | .add _ => some .addOperation
  | .mark _ => none
  | .prepare => some .prepare
  | .commit => some .commit
  | .rollback => some .rollback

/-- The states in which the demand is met. -/
def Demand.allowed : Demand → List TransactionState
  | .add _ | .prepare => [.active]
  | .mark _ => [.active, .prepared, .committed, .rolledBack]
  | .commit | .rollback => [.active, .prepared]

/-- Whether the demand brings in nobody who makes demands from inside. -/
def Demand.Passive : Demand → Prop
  | .add op => op.Passive
  | _ => True

/-- Does what is demanded of the transaction; how that ends. -/
def ask (b : Broker) (n : Nat) : Demand → Broker × Except TransactionError Unit
  | .add op =>
    match b.addOperation n op with
    | (b, .ok ()) => (b, .ok ())
    | (b, .error refusal) => (b, .error (.refused refusal))
  | .mark reason => (b.markRollbackOnly n reason, .ok ())
  | .prepare => b.prepare n
  | .commit => b.commit n
  | .rollback => b.rollback n

/-- From `b` to `b'` the operations of the transaction are called as told, and of the transaction
itself only the state has changed. -/
structure Turns (n : Nat) (s : TransactionState) (cs : List (Nat × Phase)) (b b' : Broker) :
    Prop where
  calls : b'.calls n = b.calls n ++ cs
  given : (b'.transaction n).asGiven = { (b.transaction n).asGiven with state := s }

/-- What becomes of a demand on a transaction: how it ends, and what has happened then. -/
inductive Complies (n : Nat) (b : Broker) :
    Demand → Broker × Except TransactionError Unit → Prop where
  /-- Only a branch can be prepared. -/
  | notXa (hxid : (b.transaction n).xid = none) :
    Complies n b .prepare (b, .error (.refused (.notXa n)))
  /-- A demand in the wrong state is refused, and nothing happens. -/
  | refused {demand : Demand} {request : TransactionRequest}
    (hrequest : demand.request? = some request)
    (hstate : (b.transaction n).state ∉ demand.allowed) :
    Complies n b demand (b, .error (.refused (.invalidState n (b.transaction n).state request)))
  | added {b' : Broker} (op : Operation) (hstate : (b.transaction n).state = .active)
    (hcalls : b'.calls n = b.calls n)
    (htransaction : b'.transaction n =
      { b.transaction n with operations := (b.transaction n).operations ++ [op] }) :
    Complies n b (.add op) (b', .ok ())
  /-- The first reason stays. -/
  | marked {b' : Broker} (reason : String) (hcalls : b'.calls n = b.calls n)
    (hstate : (b'.transaction n).state = (b.transaction n).state)
    (hoperations : (b'.transaction n).operations = (b.transaction n).operations)
    (hdoomed : (b.transaction n).state ≠ .rolledBack → (b'.transaction n).rollbackOnly =
      some ((b.transaction n).rollbackOnly.getD reason)) :
    Complies n b (.mark reason) (b', .ok ())
  /-- A doomed transaction is rolled back instead, without being asked. -/
  | doomed {demand : Demand} {b' : Broker} {reason : String}
    (hdemand : demand = .prepare ∨ demand = .commit)
    (hstate : (b.transaction n).state ∈ demand.allowed)
    (hreason : (b.transaction n).rollbackOnly = some reason)
    (h : Turns n .rolledBack (callsOf .afterRollback (b.transaction n).operations.length) b b') :
    Complies n b demand (b', .error (.refused (.rollbackOnly n reason)))
  | prepared {b' c : Broker} (hstate : (b.transaction n).state = .active)
    (hclean : (b.transaction n).rollbackOnly = none)
    (hsucceed : Succeed n .beforePrepare b (b.transaction n).operations.length c)
    (h : Turns n .prepared (callsOf .beforePrepare (b.transaction n).operations.length) b b') :
    Complies n b .prepare (b', .ok ())
  /-- Every operation is told after its commit has been agreed to by all. -/
  | committed {b' c : Broker}
    (hstate : (b.transaction n).state = .active ∨ (b.transaction n).state = .prepared)
    (hclean : (b.transaction n).rollbackOnly = none)
    (hsucceed : Succeed n .beforeCommit b (b.transaction n).operations.length c)
    (h : Turns n .committed (callsOf .beforeCommit (b.transaction n).operations.length ++
      callsOf .afterCommit (b.transaction n).operations.length) b b') :
    Complies n b .commit (b', .ok ())
  /-- The first failure ends the phase, and all are told of the rollback. -/
  | failed {demand : Demand} {phase : Phase} {b' c d : Broker} {j : Nat} {e : RoutingError}
    (hphase : demand = .prepare ∧ phase = .beforePrepare ∨
      demand = .commit ∧ phase = .beforeCommit)
    (hstate : (b.transaction n).state ∈ demand.allowed)
    (hclean : (b.transaction n).rollbackOnly = none)
    (hj : j < (b.transaction n).operations.length) (hsucceed : Succeed n phase b j c)
    (hcall : c.callOperation n phase j = (d, .error e))
    (h : Turns n .rolledBack (callsOf phase (j + 1) ++
      callsOf .afterRollback (b.transaction n).operations.length) b b') :
    Complies n b demand (b', .error (.operation e))
  | rolledBack {b' : Broker}
    (hstate : (b.transaction n).state = .active ∨ (b.transaction n).state = .prepared)
    (h : Turns n .rolledBack (callsOf .afterRollback (b.transaction n).operations.length) b b') :
    Complies n b .rollback (b', .ok ())

/-! ## What a demand does -/

theorem require_cases (t : Transaction) (n : Nat) (allowed : List TransactionState)
    (request : TransactionRequest) :
    t.state ∉ allowed ∧
        t.require n allowed request = .error (.invalidState n t.state request) ∨
      t.state ∈ allowed ∧ t.require n allowed request = .ok () := by
  unfold Transaction.require
  split
  · exact .inr ⟨‹_›, rfl⟩
  · exact .inl ⟨‹_›, rfl⟩

/-- Told of the rollback, after calls that leave it as it was given. -/
theorem turns_undo (cs : List (Nat × Phase)) {c : Broker} (hn : c.Has n)
    (hcalls : c.calls n = b.calls n ++ cs)
    (hgiven : (c.transaction n).asGiven = (b.transaction n).asGiven)
    (hpassive : (b.transaction n).Passive) :
    Turns n .rolledBack (cs ++ callsOf .afterRollback (b.transaction n).operations.length) b
      (c.undo n) := by
  have hset := transaction_setState_self hn .rolledBack
  have hpassive' : ((c.setState n .rolledBack).transaction n).Passive := by
    rw [hset]
    exact passive_of_given hgiven hpassive
  have hindexes : (c.setState n .rolledBack).operationIndexes n =
      List.range (b.transaction n).operations.length := by
    rw [operationIndexes, hset, ← length_of_given hgiven]
  have htold := calls_callAll (b := c.setState n .rolledBack) (n := n) .afterRollback
    (List.range (b.transaction n).operations.length) fun i hi => by
      rw [hset, length_of_given hgiven]
      exact List.mem_range.1 hi
  constructor
  · rw [undo, hindexes, htold.calls, setState, calls_modifyTransaction, hcalls, List.append_assoc]
    rfl
  · rw [undo, hindexes, given_callAll hpassive' .afterRollback, hset, ← hgiven]
    rfl

theorem turns_undoDoomed {e : TransactionError} (hn : b.Has n)
    (hpassive : (b.transaction n).Passive) (h : b.undoDoomed? n = some (b', e)) :
    ∃ reason, (b.transaction n).rollbackOnly = some reason ∧
      e = .refused (.rollbackOnly n reason) ∧
      Turns n .rolledBack (callsOf .afterRollback (b.transaction n).operations.length) b b' := by
  obtain ⟨reason, hreason, heq⟩ := Option.map_eq_some_iff.1 h
  obtain ⟨rfl, rfl⟩ := Prod.mk.inj heq
  exact ⟨reason, hreason, rfl, turns_undo [] hn (by simp) rfl hpassive⟩

theorem clean_of_undoDoomed (h : b.undoDoomed? n = none) :
    (b.transaction n).rollbackOnly = none := Option.map_eq_none_iff.1 h

/-- The phase has failed, and the transaction is rolled back. -/
theorem turns_failed {phase : Phase} {j : Nat} {c d : Broker} {e : RoutingError}
    (hn : b.Has n) (hpassive : (b.transaction n).Passive)
    (hj : j < (b.transaction n).operations.length) (hsucceed : Succeed n phase b j c)
    (hcall : c.callOperation n phase j = (d, .error e)) :
    Turns n .rolledBack (callsOf phase (j + 1) ++
      callsOf .afterRollback (b.transaction n).operations.length) b (d.undo n) := by
  have hgiven := hsucceed.given hpassive
  have hlast := given_callOperation (passive_of_given hgiven hpassive) phase j
  have hcalled := (calls_callOperation (b := c) (n := n) (i := j)
    (by rw [length_of_given hgiven]; exact hj) phase).calls
  rw [hcall] at hlast hcalled
  rw [hsucceed.calls hpassive (by omega), List.append_assoc, ← callsOf_succ] at hcalled
  have hd : d.Has n := by
    have hfailed := ((touches_delivery n phase).callOperation c j).has (hsucceed.has hn)
    rwa [hcall] at hfailed
  exact turns_undo _ hd hcalled (hlast.trans hgiven) hpassive

theorem complies_add (b : Broker) (n : Nat) (op : Operation) :
    Complies n b (.add op) (b.ask n (.add op)) := by
  unfold ask addOperation Transaction.addOperation
  rcases require_cases (b.transaction n) n [.active] .addOperation with ⟨hstate, h⟩ | ⟨hstate, h⟩
  · rw [h]
    exact .refused rfl hstate
  · rw [h]
    have hactive : (b.transaction n).state = .active := List.mem_singleton.1 hstate
    have hn := has_of_active_or_prepared (.inl hactive)
    refine .added op hactive (calls_modifyTransaction ..) ?_
    rw [transaction_modifyTransaction b n _ hn.1 hn.2, if_pos rfl]

theorem complies_mark (b : Broker) (n : Nat) (reason : String) :
    Complies n b (.mark reason) (b.ask n (.mark reason)) := by
  rcases modifyTransaction_cases b n (·.mark reason) n with h | ⟨-, h⟩
  · refine .marked reason (calls_modifyTransaction ..) ?_ ?_ fun hstate => ?_
    · rw [markRollbackOnly, h]
    · rw [markRollbackOnly, h]
    · have hn := has_of_state hstate
      rw [markRollbackOnly, transaction_modifyTransaction b n _ hn.1 hn.2, if_pos rfl]
      rfl
  · refine .marked reason (calls_modifyTransaction ..) ?_ ?_ fun _ => ?_
    · rw [markRollbackOnly, h]
      rfl
    · rw [markRollbackOnly, h]
      rfl
    · rw [markRollbackOnly, h]
      rfl

theorem complies_prepare (hpassive : (b.transaction n).Passive) :
    Complies n b .prepare (b.prepare n) := by
  unfold prepare
  split
  · rename_i hxid
    exact .notXa (Option.isNone_iff_eq_none.1 hxid)
  · rcases require_cases (b.transaction n) n [.active] .prepare with ⟨hstate, h⟩ | ⟨hstate, h⟩
    · rw [h]
      exact .refused rfl hstate
    · rw [h]
      have hactive : (b.transaction n).state = .active := List.mem_singleton.1 hstate
      have hn := has_of_active_or_prepared (.inl hactive)
      dsimp only
      split
      · rename_i c e hdoomed
        obtain ⟨reason, hreason, rfl, hturns⟩ := turns_undoDoomed hn hpassive hdoomed
        exact .doomed (.inl rfl) hstate hreason hturns
      · rename_i hclean
        have hphase := callUntilFailure_range b n .beforePrepare
        split
        · rename_i d e heq
          rw [heq] at hphase
          cases hphase with
          | failed hj hsucceed hcall =>
            exact .failed (.inl ⟨rfl, rfl⟩) hstate (clean_of_undoDoomed hclean) hj hsucceed hcall
              (turns_failed hn hpassive hj hsucceed hcall)
        · rename_i c heq
          rw [heq] at hphase
          cases hphase with
          | done hsucceed =>
            have hgiven := hsucceed.given hpassive
            refine .prepared hactive (clean_of_undoDoomed hclean) hsucceed ⟨?_, ?_⟩
            · rw [setState, calls_modifyTransaction, hsucceed.calls hpassive (Nat.le_refl _)]
            · rw [transaction_setState_self (hsucceed.has hn), ← hgiven]
              rfl

theorem complies_commit (hpassive : (b.transaction n).Passive) :
    Complies n b .commit (b.commit n) := by
  unfold commit
  rcases require_cases (b.transaction n) n [.active, .prepared] .commit with
    ⟨hstate, h⟩ | ⟨hstate, h⟩
  · rw [h]
    exact .refused rfl hstate
  · rw [h]
    have hlive : (b.transaction n).state = .active ∨ (b.transaction n).state = .prepared := by
      simpa using hstate
    have hn := has_of_active_or_prepared hlive
    dsimp only
    split
    · rename_i c e hdoomed
      obtain ⟨reason, hreason, rfl, hturns⟩ := turns_undoDoomed hn hpassive hdoomed
      exact .doomed (.inr rfl) hstate hreason hturns
    · rename_i hclean
      have hphase := callUntilFailure_range b n .beforeCommit
      split
      · rename_i d e heq
        rw [heq] at hphase
        cases hphase with
        | failed hj hsucceed hcall =>
          exact .failed (.inr ⟨rfl, rfl⟩) hstate (clean_of_undoDoomed hclean) hj hsucceed hcall
            (turns_failed hn hpassive hj hsucceed hcall)
      · rename_i c heq
        rw [heq] at hphase
        cases hphase with
        | done hsucceed =>
          have hgiven := hsucceed.given hpassive
          have hset := transaction_setState_self (hsucceed.has hn) .committed
          have hpassive' : ((c.setState n .committed).transaction n).Passive := by
            rw [hset]
            exact passive_of_given hgiven hpassive
          have htold := calls_callAll (b := c.setState n .committed) (n := n) .afterCommit
            (b.operationIndexes n) fun i hi => by
              rw [hset, length_of_given hgiven]
              exact List.mem_range.1 hi
          refine .committed hlive (clean_of_undoDoomed hclean) hsucceed ⟨?_, ?_⟩
          · rw [htold.calls, setState, calls_modifyTransaction,
              hsucceed.calls hpassive (Nat.le_refl _), List.append_assoc]
            rfl
          · rw [given_callAll hpassive', hset, ← hgiven]
            rfl

theorem complies_rollback (hpassive : (b.transaction n).Passive) :
    Complies n b .rollback (b.rollback n) := by
  unfold rollback
  rcases require_cases (b.transaction n) n [.active, .prepared] .rollback with
    ⟨hstate, h⟩ | ⟨hstate, h⟩
  · rw [h]
    exact .refused rfl hstate
  · rw [h]
    have hlive : (b.transaction n).state = .active ∨ (b.transaction n).state = .prepared := by
      simpa using hstate
    exact .rolledBack hlive
      (turns_undo [] (has_of_active_or_prepared hlive) (by simp) rfl hpassive)

/-- What is demanded of a transaction whose hooks are passive is done in one of these ways. -/
theorem complies_ask (hpassive : (b.transaction n).Passive) (demand : Demand) :
    Complies n b demand (b.ask n demand) := by
  cases demand with
  | add op => exact complies_add b n op
  | mark reason => exact complies_mark b n reason
  | prepare => exact complies_prepare hpassive
  | commit => exact complies_commit hpassive
  | rollback => exact complies_rollback hpassive

/-! ## Courses of demands -/

/-- Where the state of a transaction may go. There is no way on from a completion. -/
inductive Leads : TransactionState → TransactionState → Prop where
  | prepared : Leads .active .prepared
  | committed {s : TransactionState} (hs : s = .active ∨ s = .prepared) : Leads s .committed
  | rolledBack {s : TransactionState} (hs : s = .active ∨ s = .prepared) : Leads s .rolledBack

/-- Something is demanded of the transaction from outside, or something happens that does not
concern it. -/
inductive Demanded (n : Nat) (b : Broker) : Broker → Prop where
  | asked (demand : Demand) (h : demand.Passive) : Demanded n b (b.ask n demand).1
  | elsewhere {b' : Broker} (htransaction : b'.transaction n = b.transaction n)
    (hcalls : b'.calls n = b.calls n) : Demanded n b b'

/-- What the operations of a transaction have been told since it was in the state `s`, in order. -/
inductive Told (n : Nat) (s : TransactionState) (b : Broker) : Prop where
  | active (hstate : (b.transaction n).state = .active) (hs : s = .active)
    (hcalls : b.calls n = [])
  | prepared {k : Nat} (hstate : (b.transaction n).state = .prepared)
    (hk : k = 0 ∧ s = .prepared ∨ k = (b.transaction n).operations.length)
    (hcalls : b.calls n = callsOf .beforePrepare k)
  | committed {k : Nat} (hstate : (b.transaction n).state = .committed)
    (hk : k = 0 ∨ k = (b.transaction n).operations.length)
    (hcalls : b.calls n = callsOf .beforePrepare k ++
      callsOf .beforeCommit (b.transaction n).operations.length ++
      callsOf .afterCommit (b.transaction n).operations.length)
  /-- Of the phases before, as many operations have been called as it took to fail. -/
  | rolledBack {j k : Nat} (hstate : (b.transaction n).state = .rolledBack)
    (hk : k ≤ (b.transaction n).operations.length) (hj : j ≤ (b.transaction n).operations.length)
    (hcalls : b.calls n = callsOf .beforePrepare k ++ callsOf .beforeCommit j ++
      callsOf .afterRollback (b.transaction n).operations.length)

theorem Turns.state {s : TransactionState} {cs : List (Nat × Phase)} (h : Turns n s cs b b') :
    (b'.transaction n).state = s := by
  rw [← Transaction.asGiven_state, h.given]

theorem Turns.length {s : TransactionState} {cs : List (Nat × Phase)} (h : Turns n s cs b b') :
    (b'.transaction n).operations.length = (b.transaction n).operations.length :=
  Transaction.length_operations (by rw [h.given])

theorem Turns.passive {s : TransactionState} {cs : List (Nat × Phase)} (h : Turns n s cs b b')
    (hpassive : (b.transaction n).Passive) : (b'.transaction n).Passive :=
  Transaction.passive_of_asGiven (by rw [h.given]) hpassive

theorem live_of_allowed {demand : Demand} (hdemand : demand = .prepare ∨ demand = .commit)
    (hstate : (b.transaction n).state ∈ demand.allowed) :
    (b.transaction n).state = .active ∨ (b.transaction n).state = .prepared := by
  rcases hdemand with rfl | rfl
  · exact .inl (by simpa [Demand.allowed] using hstate)
  · simpa [Demand.allowed] using hstate

/-- The state stays, or goes where it may. -/
theorem Complies.leads {demand : Demand} {result : Broker × Except TransactionError Unit}
    (h : Complies n b demand result) :
    (result.1.transaction n).state = (b.transaction n).state ∨
      Leads (b.transaction n).state (result.1.transaction n).state := by
  cases h with
  | notXa => exact .inl rfl
  | refused => exact .inl rfl
  | added op hstate hcalls htransaction => exact .inl (by rw [htransaction])
  | marked reason hcalls hstate => exact .inl hstate
  | doomed hdemand hstate hreason hturns =>
    exact .inr (hturns.state ▸ .rolledBack (live_of_allowed hdemand hstate))
  | prepared hstate hclean hsucceed hturns =>
    refine .inr ?_
    rw [hstate, hturns.state]
    exact .prepared
  | committed hstate hclean hsucceed hturns => exact .inr (hturns.state ▸ .committed hstate)
  | failed hphase hstate hclean hj hsucceed hcall hturns =>
    exact .inr (hturns.state ▸
      .rolledBack (live_of_allowed (hphase.imp And.left And.left) hstate))
  | rolledBack hstate hturns => exact .inr (hturns.state ▸ .rolledBack hstate)

theorem Complies.passive {demand : Demand} {result : Broker × Except TransactionError Unit}
    (h : Complies n b demand result) (hdemand : demand.Passive)
    (hpassive : (b.transaction n).Passive) : (result.1.transaction n).Passive := by
  cases h with
  | notXa => exact hpassive
  | refused => exact hpassive
  | added op hstate hcalls htransaction =>
    intro op' hop'
    rw [htransaction] at hop'
    rcases List.mem_append.1 hop' with hop' | hop'
    · exact hpassive op' hop'
    · rw [List.mem_singleton.1 hop']
      exact hdemand
  | marked reason hcalls hstate hoperations =>
    intro op' hop'
    rw [hoperations] at hop'
    exact hpassive op' hop'
  | doomed _ _ _ hturns => exact hturns.passive hpassive
  | prepared _ _ _ hturns => exact hturns.passive hpassive
  | committed _ _ _ hturns => exact hturns.passive hpassive
  | failed _ _ _ _ _ _ hturns => exact hturns.passive hpassive
  | rolledBack _ hturns => exact hturns.passive hpassive

variable {s : TransactionState}

theorem Told.of_same (h : Told n s b) (hstate : (b'.transaction n).state = (b.transaction n).state)
    (hlength : (b'.transaction n).operations.length = (b.transaction n).operations.length)
    (hcalls : b'.calls n = b.calls n) : Told n s b' := by
  cases h with
  | active hs₁ hs hc => exact .active (hstate.trans hs₁) hs (hcalls.trans hc)
  | prepared hs₁ hk hc => exact .prepared (hstate.trans hs₁) (hlength ▸ hk) (hcalls.trans hc)
  | committed hs₁ hk hc =>
    exact .committed (hstate.trans hs₁) (hlength ▸ hk) (by rw [hcalls, hc, hlength])
  | rolledBack hs₁ hk hj hc =>
    exact .rolledBack (hstate.trans hs₁) (hlength ▸ hk) (hlength ▸ hj)
      (by rw [hcalls, hc, hlength])

/-- What has been told to the operations of a transaction that is not completed. -/
theorem Told.live (h : Told n s b)
    (hlive : (b.transaction n).state = .active ∨ (b.transaction n).state = .prepared) :
    ∃ k, (k = 0 ∨ k = (b.transaction n).operations.length) ∧
      b.calls n = callsOf .beforePrepare k := by
  cases h with
  | active _ _ hcalls => exact ⟨0, .inl rfl, by rw [hcalls]; rfl⟩
  | prepared _ hk hcalls => exact ⟨_, hk.imp_left And.left, hcalls⟩
  | committed hstate => simp [hstate] at hlive
  | rolledBack hstate => simp [hstate] at hlive

/-- Nothing has been told to the operations of an active transaction. -/
theorem Told.calls_active (h : Told n s b) (hactive : (b.transaction n).state = .active) :
    s = .active ∧ b.calls n = [] := by
  cases h with
  | active _ hs hcalls => exact ⟨hs, hcalls⟩
  | prepared hstate => simp [hstate] at hactive
  | committed hstate => simp [hstate] at hactive
  | rolledBack hstate => simp [hstate] at hactive

theorem Told.undone (h : Told n s b)
    (hlive : (b.transaction n).state = .active ∨ (b.transaction n).state = .prepared) {j : Nat}
    (hj : j ≤ (b.transaction n).operations.length)
    (hturns : Turns n .rolledBack (callsOf .beforeCommit j ++
      callsOf .afterRollback (b.transaction n).operations.length) b b') : Told n s b' := by
  obtain ⟨k, hk, hcalls⟩ := h.live hlive
  have hlength := hturns.length
  refine .rolledBack (j := j) (k := k) hturns.state ?_ (by omega) ?_
  · rcases hk with rfl | rfl <;> omega
  · rw [hturns.calls, hcalls, hlength, List.append_assoc]

theorem told_complies {demand : Demand} {result : Broker × Except TransactionError Unit}
    (h : Told n s b) (hcomplies : Complies n b demand result) : Told n s result.1 := by
  cases hcomplies with
  | notXa => exact h
  | refused => exact h
  | added op hstate hcalls htransaction =>
    obtain ⟨hs, hnone⟩ := h.calls_active hstate
    exact .active (by rw [htransaction, hstate]) hs (hcalls.trans hnone)
  | marked reason hcalls hstate hoperations => exact h.of_same hstate (by rw [hoperations]) hcalls
  | doomed hdemand hstate hreason hturns =>
    exact h.undone (live_of_allowed hdemand hstate) (j := 0) (Nat.zero_le _) hturns
  | rolledBack hstate hturns => exact h.undone hstate (j := 0) (Nat.zero_le _) hturns
  | prepared hstate hclean hsucceed hturns =>
    obtain ⟨hs, hnone⟩ := h.calls_active hstate
    refine .prepared hturns.state (.inr rfl) ?_
    rw [hturns.calls, hnone, hturns.length, List.nil_append]
  | committed hstate hclean hsucceed hturns =>
    obtain ⟨k, hk, hcalls⟩ := h.live hstate
    refine .committed (k := k) hturns.state (hturns.length ▸ hk) ?_
    rw [hturns.calls, hcalls, hturns.length, List.append_assoc]
  | @failed _ _ _ _ _ j _ hphase hstate hclean hj hsucceed hcall hturns =>
    rcases hphase with ⟨rfl, rfl⟩ | ⟨rfl, rfl⟩
    · have hactive : (b.transaction n).state = .active := by simpa [Demand.allowed] using hstate
      have hnone := (h.calls_active hactive).2
      have hlength := hturns.length
      refine .rolledBack (j := 0) (k := j + 1) hturns.state
        (Nat.le_trans hj (Nat.le_of_eq hlength.symm)) (Nat.zero_le _) ?_
      rw [hturns.calls, hnone, hlength]
      simp [callsOf]
    · exact h.undone (live_of_allowed (.inr rfl) hstate) (j := j + 1) (by omega) hturns

/-- What every operation has been told once the transaction is completed. -/
theorem Told.counts (h : Told n s b) {i : Nat} (hi : i < (b.transaction n).operations.length) :
    (b.calls n).count (i, .afterCommit) =
        (if (b.transaction n).state = .committed then 1 else 0) ∧
      (b.calls n).count (i, .afterRollback) =
        if (b.transaction n).state = .rolledBack then 1 else 0 := by
  cases h with
  | active hstate _ hcalls => simp [hcalls, hstate]
  | prepared hstate _ hcalls => simp [hcalls, hstate, count_callsOf]
  | committed hstate _ hcalls => simp [hcalls, hstate, count_callsOf, List.count_append, hi]
  | rolledBack hstate _ _ hcalls => simp [hcalls, hstate, count_callsOf, List.count_append, hi]

/-- Whatever is demanded of a transaction from outside, in any order: each demand is met or refused
as told by `Complies`, and the state goes no way but forward. What the operations have been told by
then is told by `Told`: all of them once that the transaction has been committed, or all of them
once that it has been rolled back, and never both. -/
theorem hooks_disciplined {b₀ : Broker}
    (hlive : (b₀.transaction n).state = .active ∨ (b₀.transaction n).state = .prepared)
    (hnone : b₀.calls n = []) (hpassive : (b₀.transaction n).Passive)
    (h : ReflTransGen (Demanded n) b₀ b) :
    (∀ demand, Complies n b demand (b.ask n demand) ∧
      (((b.ask n demand).1.transaction n).state = (b.transaction n).state ∨
        Leads (b.transaction n).state ((b.ask n demand).1.transaction n).state)) ∧
    Told n (b₀.transaction n).state b ∧
    ∀ i < (b.transaction n).operations.length,
      (b.calls n).count (i, .afterCommit) =
          (if (b.transaction n).state = .committed then 1 else 0) ∧
        (b.calls n).count (i, .afterRollback) =
          if (b.transaction n).state = .rolledBack then 1 else 0 := by
  have hcourse : (b.transaction n).Passive ∧ Told n (b₀.transaction n).state b := by
    induction h with
    | refl =>
      refine ⟨hpassive, ?_⟩
      rcases hlive with hactive | hprepared
      · exact .active hactive hactive hnone
      · exact .prepared (k := 0) hprepared (.inl ⟨rfl, hprepared⟩) (by rw [hnone]; rfl)
    | tail _ hdemanded ih =>
      cases hdemanded with
      | asked demand hdemand =>
        have hcomplies := complies_ask ih.1 demand
        exact ⟨hcomplies.passive hdemand ih.1, told_complies ih.2 hcomplies⟩
      | elsewhere htransaction hcalls =>
        refine ⟨?_, ih.2.of_same (by rw [htransaction]) (by rw [htransaction]) hcalls⟩
        rw [htransaction]
        exact ih.1
  obtain ⟨hpassive', htold⟩ := hcourse
  refine ⟨fun demand => ?_, htold, fun i hi => htold.counts hi⟩
  have hcomplies := complies_ask hpassive' demand
  exact ⟨hcomplies, hcomplies.leads⟩

/-- A hook agrees to be prepared and then fails the commit, so both hooks are told of a rollback. -/
theorem hooks_disciplined_failing :
    let b₀ := ({} : Broker).run [.begin (some ⟨1, [103], [98]⟩)]
    let b₁ := (b₀.ask 1 (.add (.hook { name := "first" }))).1
    let b₂ := (b₁.ask 1 (.add (.hook { name := "second", failing := [.beforeCommit] }))).1
    let b₃ := (b₂.ask 1 .prepare).1
    let b₄ := (b₃.ask 1 .commit).1
    Complies 1 b₃ .commit (b₃.ask 1 .commit) ∧ Told 1 .active b₄ ∧
      b₄.calls 1 = [(0, .beforePrepare), (1, .beforePrepare), (0, .beforeCommit),
        (1, .beforeCommit), (0, .afterRollback), (1, .afterRollback)] := by
  intro b₀ b₁ b₂ b₃ b₄
  have hlive : (b₀.transaction 1).state = .active ∨ (b₀.transaction 1).state = .prepared :=
    .inl (by decide)
  have hpassive : (b₀.transaction 1).Passive := by
    intro op hop
    simp [b₀, run, perform, begin, addTransaction, transaction] at hop
  have hplain : ∀ (name : String) (failing : List Phase),
      Demand.Passive (.add (.hook { name, failing })) := fun _ _ e he => by simp at he
  have h₃ : ReflTransGen (Demanded 1) b₀ b₃ :=
    ((ReflTransGen.single (.asked (.add _) (hplain _ _))).tail
      (.asked (.add _) (hplain _ _))).tail (.asked .prepare trivial)
  obtain ⟨hcomplies, -⟩ := hooks_disciplined hlive (by decide) hpassive h₃
  obtain ⟨-, htold, -⟩ :=
    hooks_disciplined hlive (by decide) hpassive (h₃.tail (.asked .commit trivial))
  have hstate : (b₀.transaction 1).state = .active := by decide
  rw [hstate] at htold
  exact ⟨(hcomplies .commit).1, htold, by decide⟩

end Broker

end MessageRouting
