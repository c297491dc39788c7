import MessageRouting.Proofs.Transaction.Outline

/-!
# Phases of a completion, in the books

A phase calls the operations of a transaction in order. In the books it does
one thing to each stage of the transaction, in order: draws its key, makes it
visible, drops it, or stores it as prepared. What else the operations do
(placing messages, acting for hooks) does not show there.

Results:

* `callOperation_afterCommit`, `callOperation_afterRollback`: a stage is made
  visible, or dropped, and then released; `callAll_kept` says so of all stages.
* `callUntilFailure_beforeCommit`, `callUntilFailure_beforePrepare`: a phase that
  fails has dealt with some of the stages, the first ones.
-/

namespace MessageRouting.Broker

/-! ## What a phase does to stages -/

/-- Has the prepared records of a branch deleted, if a stage stands in the journal as prepared. -/
def release (b : Broker) (x : Option Xid) (h : HeldStage × Bool) : Broker :=
  match x with
  | some x => if h.2 then b.submitFor h.1.cache (.resolve x) else b
  | none => b

/-- Makes the stages visible, one by one. -/
def promoteAll (b : Broker) (x : Option Xid) (hs : List (HeldStage × Bool)) : Broker :=
  hs.foldl (fun b h => (b.commitStage h.1).release x h) b

/-- Drops the stages, one by one. -/
def dropAll (b : Broker) (x : Option Xid) (hs : List (HeldStage × Bool)) : Broker :=
  hs.foldl (fun b h => (b.rollbackStage h.1).release x h) b

/-- Draws the keys of the stages, one by one, up to one whose record cannot be written. -/
def persistAll (b : Broker) : List (HeldStage × Bool) → Broker × Except JournalError Unit
  | [] => (b, .ok ())
  | h :: rest =>
    match b.persistStage h.1 with
    | (b, .ok ()) => b.persistAll rest
    | (b, .error e) => (b, .error e)

/-- Stores the stages as prepared, one by one, up to one whose record cannot be written; the
stages with what stands in the journal then. -/
def storeAll (b : Broker) (x : Xid) : List (HeldStage × Bool) →
    Broker × List (HeldStage × Bool) × Except JournalError Unit
  | [] => (b, [], .ok ())
  | h :: rest =>
    match b.storePrepared x h.1 with
    | (b, .ok ()) =>
      let (b, rest, result) := b.storeAll x rest
      (b, (h.1, true) :: rest, result)
    | (b, .error e) => (b, h :: rest, .error e)

theorem books_release (b : Broker) (x : Option Xid) (h : HeldStage × Bool) :
    (b.release x h).books = b.books.release x h := by
  unfold release
  split
  · split
    · exact books_submitFor ..
    · rfl
  · rfl

@[simp] theorem transactions_release (b : Broker) (x : Option Xid) (h : HeldStage × Bool) :
    (b.release x h).transactions = b.transactions := by
  unfold release
  split
  · split
    · exact transactions_submitFor ..
    · rfl
  · rfl

section
variable {R : Broker → Broker → Prop} (hrefl : ∀ b, R b b)
  (htrans : ∀ {b₁ b₂ b₃}, R b₁ b₂ → R b₂ b₃ → R b₁ b₃) {hs : List (HeldStage × Bool)}
include hrefl htrans

/-- What persisting each of the stages keeps, persisting them all keeps. -/
theorem persistAll_keeps (hstep : ∀ h ∈ hs, ∀ b, R b (b.persistStage h.1).1) (b : Broker) :
    R b (b.persistAll hs).1 := by
  induction hs generalizing b with
  | nil => exact hrefl b
  | cons h rest ih =>
    have hfirst := hstep h (by simp) b
    have hrest := ih fun g hg => hstep g (by simp [hg])
    unfold persistAll
    split
    · rename_i heq
      rw [heq] at hfirst
      exact htrans hfirst (hrest _)
    · rename_i heq
      rwa [heq] at hfirst

/-- What storing each of the stages keeps, storing them all keeps. -/
theorem storeAll_keeps {x : Xid} (hstep : ∀ h ∈ hs, ∀ b, R b (b.storePrepared x h.1).1)
    (b : Broker) : R b (b.storeAll x hs).1 := by
  induction hs generalizing b with
  | nil => exact hrefl b
  | cons h rest ih =>
    have hfirst := hstep h (by simp) b
    have hrest := ih fun g hg => hstep g (by simp [hg])
    unfold storeAll
    split
    · rename_i heq
      rw [heq] at hfirst
      exact htrans hfirst (hrest _)
    · rename_i heq
      rwa [heq] at hfirst

end

/-! ## What operations leave as it is -/

/-- Whether there is a transaction of that number. -/
def Has (b : Broker) (n : Nat) : Prop := 0 < n ∧ n ≤ b.transactions.length

/-- No outline has changed, and the transaction has new operations without a stage at most. -/
structure Kept (n : Nat) (b b' : Broker) : Prop where
  outlines : b'.outlines = b.outlines
  slots : ∃ k, (b'.transaction n).slots = (b.transaction n).slots ++ List.replicate k none

theorem Kept.of_transactions {b b' : Broker} (n : Nat) (h : b'.transactions = b.transactions) :
    Kept n b b' :=
  ⟨outlines_of_transactions h, 0, by simp [transaction_of_transactions h]⟩

theorem Kept.trans {n : Nat} {b₁ b₂ b₃ : Broker} (h : Kept n b₁ b₂) (h' : Kept n b₂ b₃) :
    Kept n b₁ b₃ := by
  obtain ⟨k, hk⟩ := h.slots
  obtain ⟨k', hk'⟩ := h'.slots
  refine ⟨h'.outlines.trans h.outlines, k + k', ?_⟩
  rw [hk', hk, List.append_assoc, List.replicate_append_replicate]

theorem length_of_outlines {b b' : Broker} (h : b'.outlines = b.outlines) :
    b'.transactions.length = b.transactions.length := by
  simpa [outlines] using congrArg List.length h

theorem Has.of_outlines {n : Nat} {b b' : Broker} (hn : b.Has n) (h : b'.outlines = b.outlines) :
    b'.Has n := by rwa [Has, length_of_outlines h]

theorem outline_of_outlines {n : Nat} {b b' : Broker} (hn : b.Has n)
    (h : b'.outlines = b.outlines) : (b'.transaction n).outline = (b.transaction n).outline := by
  obtain ⟨i, rfl⟩ := Nat.exists_eq_add_one.2 hn.1
  have hi := congrArg (fun os => os[i]?) h
  simp only [outline_transaction, length_of_outlines h] at hi
  rw [if_pos (by have := hn.2; omega), if_pos (by have := hn.2; omega)] at hi
  exact Option.some.inj hi

/-- A change that the outline does not show. -/
theorem kept_modifyTransaction {n : Nat} {b : Broker} (hn : b.Has n)
    {f : Transaction → Transaction} (k : Nat)
    (hx : (f (b.transaction n)).xid = (b.transaction n).xid)
    (hs : (f (b.transaction n)).state = (b.transaction n).state)
    (hslots : (f (b.transaction n)).slots = (b.transaction n).slots ++ List.replicate k none) :
    Kept n b (b.modifyTransaction n f) := by
  have houtline : (f (b.transaction n)).outline = (b.transaction n).outline := by
    simp [Transaction.outline, hx, hs, hslots]
  refine ⟨?_, k, ?_⟩
  · obtain ⟨i, rfl⟩ := Nat.exists_eq_add_one.2 hn.1
    rw [outlines_modifyTransaction, houtline]
    refine List.ext_getElem? fun j => ?_
    rw [List.getElem?_set]
    split
    · subst_vars
      rw [outline_transaction]
      simp [outlines]
    · rfl
  · rw [transaction_modifyTransaction b n f hn.1 hn.2, if_pos rfl, hslots]

/-- A changed delivery with the same stage, as much prepared. -/
theorem kept_modifyOperation {n i : Nat} {b : Broker} (hn : b.Has n)
    {f : PendingDelivery → PendingDelivery}
    (hf : ∀ d, (f d).delivery.stage = d.delivery.stage ∧ (f d).recorded = d.recorded) :
    Kept n b (b.modifyOperation n i f) := by
  refine kept_modifyTransaction hn 0 rfl rfl ?_
  simp only [Transaction.slots, List.replicate_zero, List.append_nil]
  refine List.ext_getElem? fun j => ?_
  simp only [List.getElem?_map, List.getElem?_modify]
  cases (b.transaction n).operations[j]? with
  | none => rfl
  | some op =>
    split
    · cases op with
      | delivery d => exact congrArg some (by simp only [Operation.held?, hf d])
      | hook h => rfl
    · rfl

/-! ## Hooks -/

theorem addOperation_hook {n : Nat} {b : Broker} (hn : b.Has n) (h : Hook) :
    (b.addOperation n (.hook h)).1.books = b.books ∧
      Kept n b (b.addOperation n (.hook h)).1 := by
  unfold addOperation Transaction.addOperation
  cases (b.transaction n).require n [.active] .addOperation with
  | error refusal => exact ⟨rfl, .of_transactions n rfl⟩
  | ok _ =>
    refine ⟨books_modifyTransaction .., kept_modifyTransaction hn 1 rfl rfl ?_⟩
    simp [Transaction.slots, Operation.held?]

/-- Hooks take no part in what becomes of stages. -/
theorem hooksKeep_kept (n : Nat) :
    HooksKeep n fun b b' => b.Has n → b'.books = b.books ∧ Kept n b b' where
  refl _ _ := ⟨rfl, .of_transactions n rfl⟩
  trans h h' hn :=
    have hkept := (h hn).2
    have hlast := h' (hn.of_outlines hkept.outlines)
    ⟨hlast.1.trans (h hn).1, hkept.trans hlast.2⟩
  hears _ _ _ _ := ⟨books_log_of_not rfl, .of_transactions n rfl⟩
  acts _ _ _ _ _ _ := ⟨books_log_of_not rfl, .of_transactions n rfl⟩
  marks _ _ hn := ⟨books_modifyTransaction ..,
    kept_modifyTransaction hn 0 rfl rfl (by simp [Transaction.mark, Transaction.slots])⟩
  registers _ h hn := addOperation_hook hn h

theorem callHook_kept {n : Nat} {b : Broker} (hn : b.Has n) (h : Hook) (phase : Phase) :
    (b.callHook n h phase).1.books = b.books ∧ Kept n b (b.callHook n h phase).1 :=
  (hooksKeep_kept n).callHook b h phase hn

/-! ## Phases after the decision -/

theorem operation_of_slot {t : Transaction} {i : Nat} {slot : Option (HeldStage × Bool)}
    (h : t.slots[i]? = some slot) : ∃ op, t.operations[i]? = some op ∧ op.held? = slot := by
  simpa [Transaction.slots] using h

theorem forgetPrepared_of_none (b : Broker) (n : Nat) {d : PendingDelivery}
    (hd : d.delivery.stage = none) : b.forgetPrepared n d = b := by
  unfold forgetPrepared
  rw [hd]
  split
  · cases (b.transaction n).xid <;> rfl
  · rfl

theorem forgetPrepared_eq_release (b : Broker) (n : Nat) {d : PendingDelivery} {h : HeldStage}
    (hd : d.delivery.stage = some h) :
    b.forgetPrepared n d = b.release (b.transaction n).xid (h, d.recorded) := by
  unfold forgetPrepared release
  rw [hd]
  cases (b.transaction n).xid with
  | none => split <;> rfl
  | some x => rfl

/-- Calling an operation after a commit makes its stage visible and releases it. -/
theorem callOperation_afterCommit {n i : Nat} {b : Broker} {slot : Option (HeldStage × Bool)}
    (hn : b.Has n) (hslot : (b.transaction n).slots[i]? = some slot) :
    (b.callOperation n .afterCommit i).1.books =
        b.books.promoteAll (b.transaction n).xid slot.toList ∧
      Kept n b (b.callOperation n .afterCommit i).1 := by
  obtain ⟨op, hop, rfl⟩ := operation_of_slot hslot
  have hlog : Kept n b (b.log (.called n i .afterCommit)) := .of_transactions n rfl
  simp only [callOperation, hop]
  cases op with
  | hook h =>
    obtain ⟨hbooks, hkept⟩ := callHook_kept (hn.of_outlines hlog.outlines) h .afterCommit
    exact ⟨hbooks.trans (books_log_of_not rfl), hlog.trans hkept⟩
  | delivery d =>
    have hbooks : (b.log (.called n i .afterCommit)).books = b.books := books_log_of_not rfl
    have hx : ∀ h, ((b.log (.called n i .afterCommit)).commitStage h).transaction n
        = b.transaction n := fun h => transaction_of_transactions (by simp) n
    simp only [callDelivery, commitDelivery, Operation.held?]
    cases hd : d.delivery.stage with
    | none =>
      rw [forgetPrepared_of_none _ _ hd]
      exact ⟨hbooks, hlog⟩
    | some h =>
      simp only [forgetPrepared_eq_release _ _ hd]
      refine ⟨?_, .of_transactions n (by simp)⟩
      show (Broker.release _ _ _).books = Broker.release _ _ _
      rw [books_release, books_commitStage, hbooks]
      exact congrArg (fun t : Transaction => Broker.release _ t.xid _) (hx h)

/-- Calling an operation after a rollback drops its stage and releases it. -/
theorem callOperation_afterRollback {n i : Nat} {b : Broker} {slot : Option (HeldStage × Bool)}
    (hn : b.Has n) (hslot : (b.transaction n).slots[i]? = some slot) :
    (b.callOperation n .afterRollback i).1.books =
        b.books.dropAll (b.transaction n).xid slot.toList ∧
      Kept n b (b.callOperation n .afterRollback i).1 := by
  obtain ⟨op, hop, rfl⟩ := operation_of_slot hslot
  have hlog : Kept n b (b.log (.called n i .afterRollback)) := .of_transactions n rfl
  simp only [callOperation, hop]
  cases op with
  | hook h =>
    obtain ⟨hbooks, hkept⟩ := callHook_kept (hn.of_outlines hlog.outlines) h .afterRollback
    exact ⟨hbooks.trans (books_log_of_not rfl), hlog.trans hkept⟩
  | delivery d =>
    simp only [callDelivery, undoDelivery]
    -- The broker once the delivery has forgotten the queues and they have forgotten the message.
    generalize hc : (((b.log (.called n i .afterRollback)).modifyOperation n i
      fun d => { d with accepted := [] }).withdrawAll d.delivery.message.id d.accepted) = c
    have hbooks : c.books = b.books := by
      rw [← hc, books_withdrawAll, modifyOperation, books_modifyTransaction]
      exact books_log_of_not rfl
    have hkept : Kept n b c := by
      have hmodify := kept_modifyOperation (i := i) (f := fun d => { d with accepted := [] })
        (hn.of_outlines hlog.outlines) fun _ => ⟨rfl, rfl⟩
      rw [← hc]
      exact (hlog.trans hmodify).trans (.of_transactions n (by simp))
    have hx : (c.transaction n).xid = (b.transaction n).xid :=
      congrArg Outline.xid (outline_of_outlines hn hkept.outlines)
    simp only [rollbackDelivery, Operation.held?]
    cases hd : d.delivery.stage with
    | none =>
      rw [forgetPrepared_of_none _ _ hd]
      exact ⟨hbooks, hkept⟩
    | some h =>
      simp only [forgetPrepared_eq_release _ _ hd]
      refine ⟨?_, hkept.trans (.of_transactions n (by simp))⟩
      show (Broker.release _ _ _).books = Broker.release _ _ _
      have ht : (c.rollbackStage h).transaction n = c.transaction n :=
        transaction_of_transactions (by simp) n
      rw [books_release, books_rollbackStage, hbooks, ht, hx]

/-- A phase that calls every operation does the same to each stage, in order. -/
theorem callAll_kept {n : Nat} {phase : Phase} {x : Option Xid}
    {f : Broker → HeldStage × Bool → Broker}
    (hcall : ∀ (b : Broker) (i : Nat) (slot : Option (HeldStage × Bool)), b.Has n →
      (b.transaction n).xid = x → (b.transaction n).slots[i]? = some slot →
      (b.callOperation n phase i).1.books = slot.toList.foldl f b.books ∧
        Kept n b (b.callOperation n phase i).1)
    {b : Broker} (hn : b.Has n) (hx : (b.transaction n).xid = x)
    {done rest extra : List (Option (HeldStage × Bool))}
    (hslots : (b.transaction n).slots = done ++ rest ++ extra) :
    (b.callAll n phase (List.range' done.length rest.length)).books =
        (rest.filterMap id).foldl f b.books ∧
      Kept n b (b.callAll n phase (List.range' done.length rest.length)) := by
  -- Induction on the operations still to be called; hooks may add to `extra` on the way.
  induction rest generalizing b done extra with
  | nil => exact ⟨rfl, .of_transactions n rfl⟩
  | cons slot rest ih =>
    have hslot : (b.transaction n).slots[done.length]? = some slot := by simp [hslots]
    obtain ⟨hbooks, hkept⟩ := hcall b done.length slot hn hx hslot
    obtain ⟨k, hk⟩ := hkept.slots
    have hx' : ((b.callOperation n phase done.length).1.transaction n).xid = x :=
      (congrArg Outline.xid (outline_of_outlines hn hkept.outlines)).trans hx
    have hslots' : ((b.callOperation n phase done.length).1.transaction n).slots =
        (done ++ [slot]) ++ rest ++ (extra ++ List.replicate k none) := by
      rw [hk, hslots]
      simp
    obtain ⟨ihbooks, ihkept⟩ := ih (hn.of_outlines hkept.outlines) hx' hslots'
    simp only [List.length_append, List.length_singleton] at ihbooks ihkept
    simp only [List.length_cons, List.range'_succ, callAll]
    refine ⟨ihbooks.trans ?_, hkept.trans ihkept⟩
    rw [hbooks]
    cases slot <;> simp

/-! ## Drawing keys -/

/-- What a run of persisting calls comes to in the books: all the keys if it succeeds, and those
of the first stages in any case. -/
def Persists {ε : Type} (b : Broker) (hs : List (HeldStage × Bool)) (b' : Broker)
    (result : Except ε Unit) : Prop :=
  (result = .ok () → b.persistAll hs = (b', .ok ())) ∧ ∃ m, b' = (b.persistAll (hs.take m)).1

theorem persistAll_append_ok {b b' : Broker} {hs : List (HeldStage × Bool)}
    (h : b.persistAll hs = (b', .ok ())) (more : List (HeldStage × Bool)) :
    b.persistAll (hs ++ more) = b'.persistAll more := by
  induction hs generalizing b with
  | nil =>
    cases h
    rfl
  | cons g rest ih =>
    simp only [persistAll, List.cons_append] at h ⊢
    split at h
    · exact ih h
    · simp at h

theorem persist_persists (b : Broker) (d : PendingDelivery) :
    b.books.Persists (Operation.delivery d).held?.toList (b.persist d.delivery).1.books
      (b.persist d.delivery).2 := by
  simp only [persist, Operation.held?]
  cases d.delivery.stage with
  | none => exact ⟨fun _ => rfl, 0, rfl⟩
  | some h =>
    obtain ⟨hbooks, hresult⟩ := books_persistStage b h
    dsimp only
    rcases hres : b.persistStage h with ⟨c, result⟩
    rw [hres] at hbooks hresult
    have hp : b.books.persistStage h = (c.books, result) := Prod.ext hbooks.symm hresult.symm
    cases result with
    | ok _ =>
      have hall : b.books.persistAll [(h, d.recorded)] = (c.books, .ok ()) := by
        simp only [persistAll, hp]
      exact ⟨fun _ => hall, 1, (congrArg Prod.fst hall).symm⟩
    | error e =>
      have hall : (b.books.persistAll [(h, d.recorded)]).1 = c.books := by
        simp only [persistAll, hp]
      exact ⟨fun h => (by cases h), 1, hall.symm⟩

/-- Calling an operation before a commit draws the key of its stage, if it comes to that. -/
theorem callOperation_beforeCommit {n i : Nat} {b : Broker} {slot : Option (HeldStage × Bool)}
    (hn : b.Has n) (hslot : (b.transaction n).slots[i]? = some slot) :
    b.books.Persists slot.toList (b.callOperation n .beforeCommit i).1.books
        (b.callOperation n .beforeCommit i).2 ∧
      Kept n b (b.callOperation n .beforeCommit i).1 := by
  obtain ⟨op, hop, rfl⟩ := operation_of_slot hslot
  have hlog : Kept n b (b.log (.called n i .beforeCommit)) := .of_transactions n rfl
  simp only [callOperation, hop]
  cases op with
  | hook h =>
    obtain ⟨hbooks, hkept⟩ := callHook_kept (hn.of_outlines hlog.outlines) h .beforeCommit
    rw [books_log_of_not rfl] at hbooks
    exact ⟨⟨fun _ => by rw [hbooks]; rfl, 0, hbooks⟩, hlog.trans hkept⟩
  | delivery d =>
    have henqueue := books_enqueueTargets (b.log (.called n i .beforeCommit)) d.delivery
    have htransactions :
        ((b.log (.called n i .beforeCommit)).enqueueTargets d.delivery).1.transactions
          = b.transactions := transactions_enqueueFrom ..
    rw [books_log_of_not rfl] at henqueue
    simp only [callDelivery, placeDelivery]
    rcases hres : (b.log (.called n i .beforeCommit)).enqueueTargets d.delivery with
      ⟨b₁, accepted, result⟩
    rw [hres] at henqueue htransactions
    dsimp only
    -- The broker once the delivery has noted the queues that have taken its message.
    generalize hc : b₁.modifyOperation n i (fun d => { d with accepted }) = c
    have hbooks : c.books = b.books := by
      rw [← hc, modifyOperation, books_modifyTransaction, henqueue]
    have hplaced : Kept n b b₁ := .of_transactions n htransactions
    have hkept : Kept n b c := by
      rw [← hc]
      exact hplaced.trans (kept_modifyOperation (hn.of_outlines hplaced.outlines)
        fun _ => ⟨rfl, rfl⟩)
    cases result with
    | error e => exact ⟨⟨fun h => (by cases h), 0, hbooks⟩, hkept⟩
    | ok _ =>
      have hpersists := persist_persists c d
      rw [hbooks] at hpersists
      exact ⟨hpersists, hkept.trans (.of_transactions n (transactions_persist ..))⟩

/-- A phase that persists draws keys in order, up to the operation that fails. -/
theorem callUntilFailure_beforeCommit {n : Nat} {b : Broker} (hn : b.Has n)
    {done rest extra : List (Option (HeldStage × Bool))}
    (hslots : (b.transaction n).slots = done ++ rest ++ extra) :
    b.books.Persists (rest.filterMap id)
        (b.callUntilFailure n .beforeCommit (List.range' done.length rest.length)).1.books
        (b.callUntilFailure n .beforeCommit (List.range' done.length rest.length)).2 ∧
      Kept n b (b.callUntilFailure n .beforeCommit (List.range' done.length rest.length)).1 := by
  induction rest generalizing b done extra with
  | nil => exact ⟨⟨fun _ => rfl, 0, rfl⟩, .of_transactions n rfl⟩
  | cons slot rest ih =>
    have hslot : (b.transaction n).slots[done.length]? = some slot := by simp [hslots]
    obtain ⟨⟨hok, m, hm⟩, hkept⟩ := callOperation_beforeCommit hn hslot
    obtain ⟨k, hk⟩ := hkept.slots
    have hall : (slot :: rest).filterMap id = slot.toList ++ rest.filterMap id := by
      cases slot <;> simp
    simp only [List.length_cons, List.range'_succ, callUntilFailure, hall]
    rcases hcall : b.callOperation n .beforeCommit done.length with ⟨b₁, result⟩
    rw [hcall] at hok hm hkept hk
    cases result with
    | error e =>
      refine ⟨⟨fun h => (by cases h), min m slot.toList.length, ?_⟩, hkept⟩
      rw [List.take_append_of_le_length (Nat.min_le_right ..), ← List.take_take,
        List.take_length]
      exact hm
    | ok _ =>
      have hslots' : (b₁.transaction n).slots =
          (done ++ [slot]) ++ rest ++ (extra ++ List.replicate k none) := by
        rw [hk, hslots]
        simp
      obtain ⟨⟨ihok, m', ihm⟩, ihkept⟩ := ih (hn.of_outlines hkept.outlines) hslots'
      simp only [List.length_append, List.length_singleton] at ihok ihm ihkept
      refine ⟨⟨fun h => ?_, slot.toList.length + m', ?_⟩, hkept.trans ihkept⟩
      · rw [persistAll_append_ok (hok rfl)]
        exact ihok h
      · rw [List.take_length_add_append, persistAll_append_ok (hok rfl)]
        exact ihm

/-! ## Storing stages as prepared -/

/-- At most the outline of one transaction has changed, and that in its stages only. -/
structure Beside (n : Nat) (b b' : Broker) : Prop where
  outlines : b'.outlines = b.outlines.set (n - 1) (b'.transaction n).outline
  xid : (b'.transaction n).xid = (b.transaction n).xid
  state : (b'.transaction n).state = (b.transaction n).state

theorem set_outline {n : Nat} {b : Broker} (hn : b.Has n) :
    b.outlines.set (n - 1) (b.transaction n).outline = b.outlines := by
  obtain ⟨i, rfl⟩ := Nat.exists_eq_add_one.2 hn.1
  refine List.ext_getElem? fun j => ?_
  rw [List.getElem?_set]
  split
  · subst_vars
    rw [outline_transaction]
    simp [outlines]
  · rfl

theorem Kept.beside {n : Nat} {b b' : Broker} (hn : b.Has n) (h : Kept n b b') :
    Beside n b b' := by
  have houtline := outline_of_outlines hn h.outlines
  refine ⟨?_, congrArg Outline.xid houtline, congrArg Outline.state houtline⟩
  rw [houtline, set_outline hn, h.outlines]

theorem Beside.trans {n : Nat} {b₁ b₂ b₃ : Broker} (h : Beside n b₁ b₂) (h' : Beside n b₂ b₃) :
    Beside n b₁ b₃ := by
  refine ⟨?_, h'.xid.trans h.xid, h'.state.trans h.state⟩
  rw [h'.outlines, h.outlines, List.set_set]

theorem Has.of_beside {n : Nat} {b b' : Broker} (hn : b.Has n) (h : Beside n b b') :
    b'.Has n := by
  have hlen := congrArg List.length h.outlines
  simp only [Broker.outlines, List.length_map, List.length_set] at hlen
  exact ⟨hn.1, hlen ▸ hn.2⟩

theorem beside_modifyOperation {n i : Nat} {b : Broker} (hn : b.Has n)
    (f : PendingDelivery → PendingDelivery) : Beside n b (b.modifyOperation n i f) := by
  have hself : ∀ g : Transaction → Transaction,
      (b.modifyTransaction n g).transaction n = g (b.transaction n) := fun g => by
    rw [transaction_modifyTransaction b n g hn.1 hn.2, if_pos rfl]
  obtain ⟨k, rfl⟩ := Nat.exists_eq_add_one.2 hn.1
  refine ⟨?_, by rw [modifyOperation, hself], by rw [modifyOperation, hself]⟩
  rw [modifyOperation, outlines_modifyTransaction, hself]
  rfl

theorem slots_markRecorded {n i : Nat} {b : Broker} {d : PendingDelivery} (hn : b.Has n)
    (hop : (b.transaction n).operations[i]? = some (.delivery d)) :
    ((b.modifyOperation n i fun d => { d with recorded := true }).transaction n).slots =
      (b.transaction n).slots.set i (d.delivery.stage.map (·, true)) := by
  rw [modifyOperation, transaction_modifyTransaction b n _ hn.1 hn.2, if_pos rfl]
  refine List.ext_getElem? fun j => ?_
  simp only [Transaction.slots, List.getElem?_map, List.getElem?_modify, List.getElem?_set,
    List.length_map]
  by_cases hij : i = j
  · subst hij
    have hi : i < (b.transaction n).operations.length := by
      rcases Nat.lt_or_ge i (b.transaction n).operations.length with hlt | hge
      · exact hlt
      · rw [List.getElem?_eq_none hge] at hop
        cases hop
    rw [hop]
    simp [hi, Operation.held?]
  · cases (b.transaction n).operations[j]? <;> simp [hij]

/-- Calling an operation of a branch that is being prepared stores its stage, if it has one. -/
theorem callOperation_beforePrepare {n i : Nat} {b b' : Broker} {x : Xid}
    {result : Except RoutingError Unit} {slot : Option (HeldStage × Bool)} (hn : b.Has n)
    (hx : (b.transaction n).xid = some x) (hslot : (b.transaction n).slots[i]? = some slot)
    (hcall : b.callOperation n .beforePrepare i = (b', result)) :
    (slot = none ∧ b'.books = b.books ∧ Kept n b b') ∨
      (∃ h, slot = some h ∧ result = .ok () ∧
        b.books.storePrepared x h.1 = (b'.books, .ok ()) ∧
        (b'.transaction n).slots = (b.transaction n).slots.set i (some (h.1, true)) ∧
        Beside n b b') ∨
      ∃ h e, slot = some h ∧ result = .error (.persistence e) ∧
        b.books.storePrepared x h.1 = (b'.books, .error e) ∧ Kept n b b' := by
  obtain ⟨op, hop, rfl⟩ := operation_of_slot hslot
  have hlog : Kept n b (b.log (.called n i .beforePrepare)) := .of_transactions n rfl
  have hbooks : (b.log (.called n i .beforePrepare)).books = b.books := books_log_of_not rfl
  have hxlog : ((b.log (.called n i .beforePrepare)).transaction n).xid = some x := hx
  clear hslot
  simp only [callOperation, hop] at hcall
  cases op with
  | hook h =>
    obtain ⟨hhook, hkept⟩ := callHook_kept (hn.of_outlines hlog.outlines) h .beforePrepare
    simp only [hcall] at hhook hkept
    exact Or.inl ⟨rfl, hhook.trans hbooks, hlog.trans hkept⟩
  | delivery d =>
    simp only [callDelivery, prepareDelivery, hxlog] at hcall
    cases hd : d.delivery.stage with
    | none =>
      rw [hd] at hcall
      cases hcall
      exact Or.inl ⟨by rw [Operation.held?, hd]; rfl, hbooks, hlog⟩
    | some h =>
      have hheld : (Operation.delivery d).held? = some (h, d.recorded) := by
        rw [Operation.held?, hd]
        rfl
      obtain ⟨hstore, hresult⟩ := books_storePrepared (b.log (.called n i .beforePrepare)) x h
      have htransactions := transactions_storePrepared (b.log (.called n i .beforePrepare)) x h
      rw [hd] at hcall
      dsimp only at hcall
      rcases hres : (b.log (.called n i .beforePrepare)).storePrepared x h with ⟨c, r⟩
      rw [hres] at hstore hresult htransactions hcall
      rw [hbooks] at hstore hresult
      have hp : b.books.storePrepared x h = (c.books, r) := Prod.ext hstore.symm hresult.symm
      have hkept : Kept n b c := .of_transactions n htransactions
      have hnc : c.Has n := hn.of_outlines hkept.outlines
      cases r with
      | error e =>
        cases hcall
        exact Or.inr (Or.inr ⟨_, e, hheld, rfl, hp, hkept⟩)
      | ok _ =>
        cases hcall
        have hopc : (c.transaction n).operations[i]? = some (.delivery d) := by
          rw [transaction_of_transactions htransactions]
          exact hop
        refine Or.inr (Or.inl ⟨_, hheld, rfl, ?_, ?_,
          (hkept.beside hn).trans (beside_modifyOperation hnc _)⟩)
        · rw [hp, modifyOperation, books_modifyTransaction]
        · rw [slots_markRecorded hnc hopc, hd, transaction_of_transactions htransactions]
          rfl

theorem storeAll_cons_ok {b b' : Broker} {x : Xid} {h : HeldStage × Bool}
    (hstore : b.storePrepared x h.1 = (b', .ok ())) (rest : List (HeldStage × Bool)) :
    b.storeAll x (h :: rest) =
      ((b'.storeAll x rest).1, (h.1, true) :: (b'.storeAll x rest).2.1,
        (b'.storeAll x rest).2.2) := by
  simp only [storeAll, hstore]

theorem storeAll_cons_error {b b' : Broker} {x : Xid} {h : HeldStage × Bool} {e : JournalError}
    (hstore : b.storePrepared x h.1 = (b', .error e)) (rest : List (HeldStage × Bool)) :
    b.storeAll x (h :: rest) = (b', h :: rest, .error e) := by
  simp only [storeAll, hstore]

/-- A phase that prepares stores stages in order, up to the operation that fails. -/
theorem callUntilFailure_beforePrepare {n : Nat} {b b' : Broker} {x : Xid}
    {result : Except RoutingError Unit} (hn : b.Has n) (hx : (b.transaction n).xid = some x)
    {done rest extra : List (Option (HeldStage × Bool))}
    (hslots : (b.transaction n).slots = done ++ rest ++ extra)
    (hcall : b.callUntilFailure n .beforePrepare (List.range' done.length rest.length) =
      (b', result)) :
    Beside n b b' ∧ ∃ m stored marks r,
      b.books.storeAll x ((rest.filterMap id).take m) = (stored, marks, r) ∧
      b'.books = stored ∧
      (b'.transaction n).slots.filterMap id =
        done.filterMap id ++ marks ++ (rest.filterMap id).drop m ++ extra.filterMap id ∧
      (result = .ok () → r = .ok () ∧ (rest.filterMap id).length ≤ m) := by
  induction rest generalizing b done extra with
  | nil =>
    cases hcall
    refine ⟨(Kept.of_transactions n rfl).beside hn, 0, _, [], .ok (), rfl, rfl, ?_,
      fun _ => ⟨rfl, by simp⟩⟩
    simp [hslots]
  | cons slot rest ih =>
    have hslot : (b.transaction n).slots[done.length]? = some slot := by simp [hslots]
    simp only [List.length_cons, List.range'_succ, callUntilFailure] at hcall
    rcases hop : b.callOperation n .beforePrepare done.length with ⟨c, r⟩
    rw [hop] at hcall
    rcases callOperation_beforePrepare hn hx hslot hop with ⟨rfl, hbooks, hkept⟩ |
      ⟨h, rfl, rfl, hstore, hset, hbeside⟩ | ⟨h, e, rfl, rfl, hstore, hkept⟩
    · obtain ⟨k, hk⟩ := hkept.slots
      have hcx : (c.transaction n).xid = some x := by
        rw [(hkept.beside hn).xid, hx]
      have hcslots : (c.transaction n).slots =
          (done ++ [none]) ++ rest ++ (extra ++ List.replicate k none) := by
        rw [hk, hslots]
        simp
      cases r with
      | error e =>
        cases hcall
        refine ⟨hkept.beside hn, 0, b.books, [], .ok (), rfl, hbooks, ?_, fun h => (by cases h)⟩
        rw [hcslots]
        simp
      | ok _ =>
        have hlen : done.length + 1 = (done ++ [(none : Option (HeldStage × Bool))]).length := by
          simp
        rw [hlen] at hcall
        obtain ⟨hbeside', m, stored, marks, r', hall, hb', hheld, hok⟩ :=
          ih (hn.of_outlines hkept.outlines) hcx hcslots hcall
        refine ⟨(hkept.beside hn).trans hbeside', m, stored, marks, r', ?_, hb', ?_, ?_⟩
        · rw [← hbooks]
          simpa using hall
        · simpa using hheld
        · simpa using hok
    · have hcx : (c.transaction n).xid = some x := by rw [hbeside.xid, hx]
      have hcslots : (c.transaction n).slots = (done ++ [some (h.1, true)]) ++ rest ++ extra := by
        rw [hset, hslots]
        simp
      have hlen : done.length + 1 = (done ++ [some (h.1, true)]).length := by simp
      dsimp only at hcall
      rw [hlen] at hcall
      obtain ⟨hbeside', m, stored, marks, r', hall, hb', hheld, hok⟩ :=
        ih (hn.of_beside hbeside) hcx hcslots hcall
      refine ⟨hbeside.trans hbeside', m + 1, stored, (h.1, true) :: marks, r', ?_, hb', ?_, ?_⟩
      · show b.books.storeAll x (h :: (rest.filterMap id).take m) = _
        rw [storeAll_cons_ok hstore, hall]
      · simpa using hheld
      · simpa using hok
    · cases hcall
      obtain ⟨k, hk⟩ := hkept.slots
      refine ⟨hkept.beside hn, 1, _, [h], .error e, ?_, rfl, ?_, fun h => (by cases h)⟩
      · exact storeAll_cons_error hstore _
      · rw [hk, hslots]
        simp

end MessageRouting.Broker
