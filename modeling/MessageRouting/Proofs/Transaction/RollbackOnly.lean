import MessageRouting.Proofs.Transaction.HookDiscipline

/-!
# Doomed transactions

A mark dooms a transaction, whether somebody sets it between two requests or a
hook while the transaction is being prepared: from then on it can only be rolled
back. The mark is looked at when a completion begins. A hook that sets it when
the commit is already asking the operations is too late, and the transaction is
committed nevertheless.

Results:

* `doomed_callUntilFailure`: a hook that sets the mark is heard.
* `foredoomed_asked`: a doomed transaction stays doomed, or is rolled back.
* `doomed_uncommitted`: it is never committed, and all its operations are told of
  the rollback.
* `marked_committed`: a mark set in the course of a commit does not stop it.
-/

namespace MessageRouting

open Relation (ReflTransGen)

namespace Broker

variable {b b' : Broker} {n : Nat}

/-! ## Hooks that set the mark -/

/-- The operations of the transaction are still there, others may have been registered, and a mark
stays. -/
structure Bears (n : Nat) (b b' : Broker) : Prop where
  operations : (b.transaction n).asGiven.operations <+: (b'.transaction n).asGiven.operations
  doomed : (b.transaction n).rollbackOnly.isSome → (b'.transaction n).rollbackOnly.isSome

theorem Bears.refl (b : Broker) : Bears n b b := ⟨List.prefix_refl _, id⟩

theorem Bears.trans {b₁ b₂ b₃ : Broker} (h : Bears n b₁ b₂) (h' : Bears n b₂ b₃) :
    Bears n b₁ b₃ :=
  ⟨h.operations.trans h'.operations, fun hb => h'.doomed (h.doomed hb)⟩

theorem bears_of_given (h : (b'.transaction n).asGiven = (b.transaction n).asGiven) :
    Bears n b b' := by
  refine ⟨h ▸ List.prefix_refl _, fun hb => ?_⟩
  rwa [← Transaction.asGiven_rollbackOnly, h]

theorem bears_addOperation (b : Broker) (n : Nat) (op : Operation) :
    Bears n b (b.addOperation n op).1 := by
  unfold addOperation Transaction.addOperation
  rcases require_cases (b.transaction n) n [.active] .addOperation with ⟨-, h⟩ | ⟨hstate, h⟩
  · rw [h]
    exact .refl b
  · rw [h]
    have hn := has_of_active_or_prepared (.inl (List.mem_singleton.1 hstate))
    refine ⟨⟨[op.asGiven], ?_⟩, fun hb => ?_⟩
    · simp [transaction_modifyTransaction b n _ hn.1 hn.2, Transaction.asGiven]
    · rwa [transaction_modifyTransaction b n _ hn.1 hn.2, if_pos rfl]

theorem bears_mark (b : Broker) (n : Nat) (reason : String) :
    Bears n b (b.markRollbackOnly n reason) := by
  rcases modifyTransaction_cases b n (·.mark reason) n with h | ⟨-, h⟩
  · exact bears_of_given (by rw [markRollbackOnly, h])
  · refine ⟨?_, fun _ => ?_⟩
    · rw [markRollbackOnly, h]
      exact List.prefix_refl _
    · rw [markRollbackOnly, h]
      rfl

/-- Whoever is there is doomed by a mark. -/
theorem doomed_mark (hn : b.Has n) (reason : String) :
    ((b.markRollbackOnly n reason).transaction n).rollbackOnly.isSome := by
  rw [markRollbackOnly, transaction_modifyTransaction b n _ hn.1 hn.2, if_pos rfl]
  rfl

theorem callsKeep_bears (n : Nat) (phase : Phase) : CallsKeep n phase (Bears n) :=
  callsKeep_of_transactions (fun h => bears_of_given (given_of_transactions h)) .trans
    (fun b i => bears_of_given (given_modifyOperation b n i fun _ => rfl))
    (fun _ b i _ => bears_of_given (given_modifyOperation b n i fun _ => rfl))
    (fun b reason => bears_mark b n reason) fun b h => bears_addOperation b n (.hook h)

/-- A hook with that action sets the mark. -/
theorem doomed_actAll (hn : b.Has n) (name : String) (phase : Phase) {actions : List HookAction}
    {reason : String} (hmark : .mark reason ∈ actions) :
    ((b.actAll n name phase actions).transaction n).rollbackOnly.isSome := by
  induction actions generalizing b with
  | nil => simp at hmark
  | cons a rest ih =>
    rcases List.mem_cons.1 hmark with rfl | hmark
    · exact ((callsKeep_bears n phase).actAll _ name phase rest).doomed (doomed_mark hn reason)
    · refine ih (b := ((b.act n a).1.log (.acted name phase a (b.act n a).2))) ?_ hmark
      have hlength := ((touches_delivery n phase).act b a).length
      exact ⟨hn.1, Nat.le_trans hn.2 (Nat.le_of_eq hlength.symm)⟩

/-- A hook stands at that place among the operations and sets the mark in the phase. -/
def Dooms (t : Transaction) (i : Nat) (phase : Phase) : Prop :=
  ∃ h : Hook, ∃ reason, t.operations[i]? = some (.hook h) ∧ h.plain = false ∧
    .mark reason ∈ h.actions phase

theorem Dooms.bears {i : Nat} {phase : Phase} (h : Dooms (b.transaction n) i phase)
    (hbears : Bears n b b') : Dooms (b'.transaction n) i phase := by
  obtain ⟨hook, reason, hop, hplain, hmark⟩ := h
  have hgiven : (b.transaction n).asGiven.operations[i]? = some (.hook hook) := by
    simp [Transaction.asGiven, hop, Operation.asGiven]
  have hgiven' := (List.prefix_iff_getElem?.1 hbears.operations) i
    (List.getElem?_eq_some_iff.1 hgiven).1
  rw [(List.getElem?_eq_some_iff.1 hgiven).2] at hgiven'
  refine ⟨hook, reason, ?_, hplain, hmark⟩
  simp only [Transaction.asGiven, List.getElem?_map, Option.map_eq_some_iff] at hgiven'
  obtain ⟨op, hop', heq⟩ := hgiven'
  cases op with
  | delivery d => cases heq
  | hook h => rwa [show h = hook by simpa [Operation.asGiven] using heq] at hop'

theorem has_of_operation {i : Nat} {op : Operation}
    (h : (b.transaction n).operations[i]? = some op) : b.Has n := by
  cases n with
  | zero => cases h
  | succ m =>
    rcases Nat.lt_or_ge m b.transactions.length with hlt | hge
    · exact ⟨Nat.succ_pos m, hlt⟩
    · rw [transaction, List.getD_eq_getElem?_getD, List.getElem?_eq_none hge] at h
      cases h

theorem Dooms.doomed {i : Nat} {phase : Phase} (h : Dooms (b.transaction n) i phase) :
    ((b.callOperation n phase i).1.transaction n).rollbackOnly.isSome := by
  obtain ⟨hook, reason, hop, hplain, hmark⟩ := h
  have hn := has_of_operation hop
  unfold callOperation callHook
  rw [hop]
  simp only [hplain, Bool.false_eq_true, false_and, if_false]
  exact doomed_actAll (b := (b.log _).log _) hn hook.name phase hmark

/-- A hook that sets the mark is heard, whatever the other operations do. -/
theorem doomed_callUntilFailure {phase : Phase} {is : List Nat} {i : Nat} {c : Broker}
    (h : Dooms (b.transaction n) i phase) (hi : i ∈ is)
    (hcalled : b.callUntilFailure n phase is = (c, .ok ())) :
    (c.transaction n).rollbackOnly.isSome := by
  induction is generalizing b with
  | nil => simp at hi
  | cons j rest ih =>
    have hfirst := (callsKeep_bears n phase).callOperation b j
    unfold callUntilFailure at hcalled
    split at hcalled
    · rename_i d heq
      rw [heq] at hfirst
      rcases List.mem_cons.1 hi with rfl | hi
      · have hdoomed := h.doomed
        rw [heq] at hdoomed
        have hlast := ((callsKeep_bears n phase).callUntilFailure d rest).doomed hdoomed
        rwa [hcalled] at hlast
      · exact ih (h.bears hfirst) hi hcalled
    · cases hcalled

/-! ## The fate of a doomed transaction -/

/-- The transaction has been rolled back, or it is doomed and has not been completed. -/
def Foredoomed (n : Nat) (b : Broker) : Prop :=
  (b.transaction n).state = .rolledBack ∨
    ((b.transaction n).state = .active ∨ (b.transaction n).state = .prepared) ∧
      (b.transaction n).rollbackOnly.isSome

theorem Foredoomed.uncommitted (h : Foredoomed n b) : (b.transaction n).state ≠ .committed := by
  rcases h with h | ⟨h | h, -⟩ <;> simp [h]

theorem Foredoomed.of_same (h : Foredoomed n b)
    (hstate : (b'.transaction n).state = (b.transaction n).state)
    (hdoomed : (b.transaction n).rollbackOnly.isSome → (b'.transaction n).rollbackOnly.isSome) :
    Foredoomed n b' := by
  rcases h with h | ⟨hlive, h⟩
  · exact .inl (hstate.trans h)
  · exact .inr ⟨by rwa [hstate], hdoomed h⟩

/-- A doomed transaction that is asked to complete is rolled back and says so. -/
theorem undoDoomed_of_isSome (h : (b.transaction n).rollbackOnly.isSome) :
    ∃ reason, b.undoDoomed? n = some (b.undo n, .refused (.rollbackOnly n reason)) := by
  obtain ⟨reason, hreason⟩ := Option.isSome_iff_exists.1 h
  exact ⟨reason, by rw [undoDoomed?, hreason]; rfl⟩

theorem state_undo (hn : b.Has n) : ((b.undo n).transaction n).state = .rolledBack :=
  (undone_undo (calls_of_transactions rfl rfl) hn).state

theorem has_callUntilFailure (hn : b.Has n) (phase : Phase) (is : List Nat) :
    (b.callUntilFailure n phase is).1.Has n :=
  ((touches_delivery n phase).callUntilFailure b is).has hn

/-- A transaction that has been prepared was not doomed, and all its operations have agreed. -/
theorem prepare_prepared (hactive : (b.transaction n).state = .active)
    (h : ((b.prepare n).1.transaction n).state = .prepared) :
    (b.transaction n).rollbackOnly = none ∧
      ∃ c, b.callUntilFailure n .beforePrepare (b.operationIndexes n) = (c, .ok ()) ∧
        (b.prepare n).1 = c.setState n .prepared := by
  have hn := has_of_active_or_prepared (.inl hactive)
  unfold prepare at h ⊢
  split at h
  · simp [hactive] at h
  · rename_i hxid
    rw [if_neg hxid]
    split at h
    · simp [hactive] at h
    · split at h
      · rename_i c e hundo
        obtain ⟨reason, -, heq⟩ := Option.map_eq_some_iff.1 hundo
        obtain rfl := (Prod.mk.inj heq).1
        simp [state_undo hn] at h
      · rename_i hundo
        have hcalled := has_callUntilFailure hn .beforePrepare (b.operationIndexes n)
        split at h
        · rename_i c e heq
          rw [heq] at hcalled
          simp [state_undo hcalled] at h
        · rename_i c heq
          exact ⟨clean_of_undoDoomed hundo, c, heq, rfl⟩

theorem foredoomed_prepare (h : Foredoomed n b) : Foredoomed n (b.prepare n).1 := by
  rcases calls_prepare b n with heq | ⟨hactive, ⟨cs, -, hundone⟩ | ⟨hprepared, -⟩⟩
  · rwa [heq]
  · exact .inl hundone.state
  · -- The mark is looked at first.
    have hclean := (prepare_prepared hactive hprepared).1
    rcases h with h | ⟨-, h⟩
    · simp [hactive] at h
    · simp [hclean] at h

/-- A doomed transaction is not committed: the commit fails, and has rolled it back. -/
theorem foredoomed_commit (h : Foredoomed n b) :
    Foredoomed n (b.commit n).1 ∧ ∃ e, (b.commit n).2 = .error e := by
  unfold commit
  rcases require_cases (b.transaction n) n [.active, .prepared] .commit with
    ⟨-, hrequire⟩ | ⟨hstate, hrequire⟩
  · rw [hrequire]
    exact ⟨h, _, rfl⟩
  · have hlive : (b.transaction n).state = .active ∨ (b.transaction n).state = .prepared := by
      simpa using hstate
    have hdoomed : (b.transaction n).rollbackOnly.isSome := by
      rcases h with h | ⟨-, h⟩
      · simp [h] at hlive
      · exact h
    obtain ⟨reason, hundo⟩ := undoDoomed_of_isSome hdoomed
    rw [hrequire]
    dsimp only
    rw [hundo]
    exact ⟨.inl (state_undo (has_of_active_or_prepared hlive)), _, rfl⟩

/-- Whatever is asked of it, a doomed transaction stays doomed or is rolled back. -/
theorem foredoomed_asked (h : Foredoomed n b) (hasked : Asked n b b') : Foredoomed n b' := by
  cases hasked with
  | added op => exact h.of_same (calls_addOperation b n op).state (bears_addOperation b n op).doomed
  | marked reason =>
    have hmark := calls_modified (b := b) (n := n) (f := (·.mark reason)) rfl (Nat.le_refl _)
      fun _ => rfl
    exact h.of_same hmark.state (bears_mark b n reason).doomed
  | prepared => exact foredoomed_prepare h
  | committed => exact (foredoomed_commit h).1
  | rolledBack =>
    rcases calls_rollback b n with heq | ⟨-, hundone⟩
    · rwa [heq]
    · exact .inl hundone.state
  | elsewhere htransaction hcalls =>
    exact h.of_same (by rw [htransaction]) fun hb => by rwa [htransaction]

/-- As long as a transaction is not committed, none of its operations is told that it is. -/
theorem Progress.untold (h : Progress n b b') (hnone : b.calls n = [])
    (hstate : (b'.transaction n).state ≠ .committed) (i : Nat) :
    (b'.calls n).count (i, .afterCommit) = 0 := by
  cases h with
  | active _ _ hcalls => simp [hcalls, hnone]
  | prepared _ _ hcalls => simp [hcalls, hnone, count_callsOf]
  | committed _ _ _ h => exact absurd h.state hstate
  | @rolledBack cs hcs h =>
    have hcount : cs.count (i, .afterCommit) = 0 := by
      refine List.count_eq_zero.2 fun hmem => ?_
      rcases hcs _ hmem with h | h <;> cases h
    simp [h.calls, hnone, List.count_append, hcount, count_callsOf]

/-- The transaction is marked, by whoever asks for it or by a hook that is called when the
transaction is being prepared. -/
inductive Condemned (n : Nat) (b : Broker) : Broker → Prop where
  | asked (reason : String) : Condemned n b (b.markRollbackOnly n reason)
  | hooked {i : Nat} (h : Dooms (b.transaction n) i .beforePrepare)
    (hcalled : (b.prepare n).1.calls n ≠ b.calls n) : Condemned n b (b.prepare n).1

/-- A mark that is set before the commit begins is final. -/
theorem foredoomed_marked
    (hlive : (b.transaction n).state = .active ∨ (b.transaction n).state = .prepared)
    (h : Condemned n b b') : Foredoomed n b' := by
  cases h with
  | asked reason =>
    have hmark := calls_modified (b := b) (n := n) (f := (·.mark reason)) rfl (Nat.le_refl _)
      fun _ => rfl
    refine .inr ⟨?_, doomed_mark (has_of_active_or_prepared hlive) reason⟩
    exact hmark.state ▸ hlive
  | @hooked i hdooms hcalled =>
    rcases calls_prepare b n with heq | ⟨hactive, ⟨cs, -, hundone⟩ | ⟨hprepared, -⟩⟩
    · exact absurd (by rw [heq]) hcalled
    · exact .inl hundone.state
    · obtain ⟨-, c, heq, hset⟩ := prepare_prepared hactive hprepared
      have hi : i ∈ b.operationIndexes n := by
        obtain ⟨hook, reason, hop, -⟩ := hdooms
        exact List.mem_range.2 (List.getElem?_eq_some_iff.1 hop).1
      have hc := has_callUntilFailure (has_of_active_or_prepared (.inl hactive)) .beforePrepare
        (b.operationIndexes n)
      rw [heq] at hc
      refine .inr ⟨.inr hprepared, ?_⟩
      rw [hset, transaction_setState_self hc]
      exact doomed_callUntilFailure hdooms hi heq

/-- A transaction that has been marked before its commit began, between two requests or by a hook
that was called when it was being prepared, is never committed, whatever else is asked of it: every
commit fails, no operation is told of a commit, and once the transaction is rolled back all of them
have been told so, once. -/
theorem doomed_uncommitted {b₀ c : Broker}
    (hlive₀ : (b₀.transaction n).state = .active ∨ (b₀.transaction n).state = .prepared)
    (hnone : b₀.calls n = []) (h : Course n b₀ b)
    (hlive : (b.transaction n).state = .active ∨ (b.transaction n).state = .prepared)
    (hmark : Condemned n b c) (h' : Course n c b') :
    (b'.transaction n).state ≠ .committed ∧ (∃ e, (b'.commit n).2 = .error e) ∧
      (∀ i, (i, .afterCommit) ∉ b'.calls n) ∧
      ((b'.transaction n).state = .rolledBack → ∀ j < (b'.transaction n).operations.length,
        (b'.calls n).count (j, .afterRollback) = 1) := by
  have hfate : Foredoomed n b' := by
    induction h' with
    | refl => exact foredoomed_marked hlive hmark
    | tail _ hasked ih => exact foredoomed_asked ih hasked
  have hasked : Asked n b c := by
    cases hmark with
    | asked reason => exact .marked reason
    | hooked => exact .prepared
  have hprogress := progress_course hlive₀ ((h.tail hasked).trans h')
  refine ⟨hfate.uncommitted, (foredoomed_commit hfate).2, fun i hi => ?_, fun hstate j hj => ?_⟩
  · have hpositive := List.count_pos_iff.2 hi
    have hzero := hprogress.untold hnone hfate.uncommitted i
    omega
  · exact (hprogress.told (k := 0) hnone hstate hj).1

/-- A hook that sets the mark when it is called before the phase is over. -/
def doubter (phase : Phase) : Hook := { name := "doubter", script := [(phase, [.mark "late"])] }

/-- The transaction is prepared with a mark, and its commit rolls it back. -/
theorem doomed_uncommitted_doubter :
    let b₀ := ({} : Broker).run [.begin (some ⟨1, [103], [98]⟩)]
    let b := (b₀.addOperation 1 (.hook (doubter .beforePrepare))).1
    let c := (b.prepare 1).1
    let b' := (c.commit 1).1
    (c.transaction 1).state = .prepared ∧ (b'.transaction 1).state ≠ .committed ∧
      (c.commit 1).2 = .error (.refused (.rollbackOnly 1 "late")) ∧
      (0, .afterCommit) ∉ b'.calls 1 ∧ (b'.calls 1).count (0, .afterRollback) = 1 := by
  intro b₀ b c b'
  have hlive : (b.transaction 1).state = .active ∨ (b.transaction 1).state = .prepared :=
    .inl (by decide)
  have hmark : Condemned 1 b c :=
    .hooked (i := 0) ⟨doubter .beforePrepare, "late", rfl, rfl, by decide⟩ (by decide)
  have hcommit : Course 1 c b' := .single .committed
  obtain ⟨hstate, -, huntold, htold⟩ := doomed_uncommitted (.inl (by decide)) (by decide)
    (.single (.added _)) hlive hmark hcommit
  exact ⟨by decide, hstate, rfl, huntold 0, htold (by decide) 0 (by decide)⟩

/-- A mark that a hook sets in the course of a commit does not stop it: the transaction is marked
while it is active, and is committed all the same. -/
theorem marked_committed :
    let b := ({} : Broker).run [.begin none, .addHook 1 (doubter .beforeCommit)]
    let b' := (b.commit 1).1
    (b.commit 1).2 = .ok () ∧
      .acted "doubter" .beforeCommit (.mark "late") (.rollbackOnly true) ∈ b'.trace ∧
      (b'.transaction 1).rollbackOnly = some "late" ∧
      (b'.transaction 1).state = .committed ∧
      b'.calls 1 = [(0, .beforeCommit), (0, .afterCommit)] :=
  ⟨rfl, by decide, by decide, by decide, by decide⟩

end Broker

end MessageRouting
