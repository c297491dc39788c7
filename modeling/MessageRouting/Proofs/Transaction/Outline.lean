import MessageRouting.Proofs.Broker.Books
import MessageRouting.Proofs.Broker.StepInvariants

/-!
# The outline of a transaction

Of a transaction, stages and the journal notice its xid, its state and the
stages of its deliveries, each with whether it stands in the journal as
prepared. Operations come and go in other respects (hooks register others, a
delivery notes which queues have taken its message) without changing that.

Results:

* `outlines_of_transactions`: what leaves the transactions alone leaves the
  outlines alone; `transactions_commitStage` and its like say what does.
* `outlines_modifyTransaction`: a changed transaction has its outline replaced.
-/

namespace MessageRouting

/-- The stage that completes with an operation, and whether it stands in the journal as prepared. -/
def Operation.held? : Operation → Option (HeldStage × Bool)
  | .delivery d => d.delivery.stage.map (·, d.recorded)
  | .hook _ => none

/-- What stages and the journal notice of a transaction. -/
structure Outline where
  xid : Option Xid
  state : TransactionState
  held : List (HeldStage × Bool)
  deriving DecidableEq, Repr

/-- The stages that complete with a transaction's operations, place by place. -/
def Transaction.slots (t : Transaction) : List (Option (HeldStage × Bool)) :=
  t.operations.map Operation.held?

def Transaction.outline (t : Transaction) : Outline := ⟨t.xid, t.state, t.slots.filterMap id⟩

namespace Outline

/-- Whether the transaction has not been completed. -/
def isLive (o : Outline) : Bool := o.state = .active || o.state = .prepared

/-- The stages of the transaction. -/
def stages (o : Outline) : List HeldStage := o.held.map (·.1)

end Outline

namespace Broker

def outlines (b : Broker) : List Outline := b.transactions.map Transaction.outline

/-! ## What leaves transactions alone -/

theorem outlines_of_transactions {b b' : Broker} (h : b'.transactions = b.transactions) :
    b'.outlines = b.outlines := by rw [outlines, h, outlines]

theorem transaction_of_transactions {b b' : Broker} (h : b'.transactions = b.transactions)
    (n : Nat) : b'.transaction n = b.transaction n := by
  cases n with
  | zero => rfl
  | succ i => simp only [transaction, h]

@[simp] theorem transactions_log (b : Broker) (e : Event) :
    (b.log e).transactions = b.transactions := rfl

@[simp] theorem transactions_setDesk (b : Broker) (n : Option Nat) (d : Desk) :
    (b.setDesk n d).transactions = b.transactions := by
  cases n <;> rfl

@[simp] theorem transactions_submitFor (b : Broker) (ref : CacheRef) (e : Entry) :
    (b.submitFor ref e).transactions = b.transactions := by
  cases ref <;> rfl

@[simp] theorem transactions_enqueue (b : Broker) (queue : String) (message : Nat) :
    (b.enqueue queue message).1.transactions = b.transactions := rfl

theorem deliveringKeeps_transactions :
    DeliveringKeeps fun b b' => b'.transactions = b.transactions where
  refl _ := rfl
  trans h h' := h'.trans h
  caches _ _ _ := rfl
  grants _ _ := rfl
  promotes _ _ _ := rfl
  drops _ _ := rfl
  wakes _ _ := rfl
  submits := transactions_submitFor
  writes _ _ _ := rfl
  withdraws _ _ _ := rfl
  enqueues := transactions_enqueue

@[simp] theorem transactions_enqueueFrom (b : Broker) (message : Nat)
    (accepted queues : List String) :
    (b.enqueueFrom message accepted queues).1.transactions = b.transactions :=
  deliveringKeeps_transactions |>.enqueueFrom ..

@[simp] theorem transactions_withdrawAll (b : Broker) (message : Nat) (accepted : List String) :
    (b.withdrawAll message accepted).transactions = b.transactions :=
  deliveringKeeps_transactions |>.withdrawAll ..

@[simp] theorem transactions_openOfficeCache (b : Broker) (n : Nat) (a : Address) :
    (b.openOfficeCache n a).transactions = b.transactions := by
  unfold openOfficeCache openCache
  split <;> rfl

@[simp] theorem transactions_attemptStage (b : Broker) (ref : CacheRef) (id : Bytes)
    (owner : Owner) : (b.attemptStage ref id owner).1.transactions = b.transactions :=
  deliveringKeeps_transactions |>.attemptStage ..

@[simp] theorem transactions_commitStage (b : Broker) (h : HeldStage) :
    (b.commitStage h).transactions = b.transactions :=
  deliveringKeeps_transactions |>.commitStage ..

@[simp] theorem transactions_rollbackStage (b : Broker) (h : HeldStage) :
    (b.rollbackStage h).transactions = b.transactions :=
  deliveringKeeps_transactions |>.rollbackStage ..

@[simp] theorem transactions_storePrepared (b : Broker) (x : Xid) (h : HeldStage) :
    (b.storePrepared x h).1.transactions = b.transactions :=
  deliveringKeeps_transactions |>.storePrepared ..

theorem transactions_persist (b : Broker) (d : Delivery) :
    (b.persist d).1.transactions = b.transactions := deliveringKeeps_transactions |>.persist ..

theorem transactions_commitDelivery (b : Broker) (d : Delivery) :
    (b.commitDelivery d).transactions = b.transactions :=
  deliveringKeeps_transactions |>.commitDelivery ..

theorem transactions_rollbackDelivery (b : Broker) (d : Delivery) :
    (b.rollbackDelivery d).transactions = b.transactions :=
  deliveringKeeps_transactions |>.rollbackDelivery ..

theorem transactions_deliver (b : Broker) (d : Delivery) :
    (b.deliver d).1.transactions = b.transactions := deliveringKeeps_transactions |>.deliver ..

theorem transactions_forgetPrepared (b : Broker) (n : Nat) (d : PendingDelivery) :
    (b.forgetPrepared n d).transactions = b.transactions :=
  deliveringKeeps_transactions |>.forgetPrepared ..

@[simp] theorem transactions_writeNext (b : Broker) (n : Nat) :
    (b.writeNext n).transactions = b.transactions := by
  unfold writeNext
  split <;> rfl

@[simp] theorem transactions_flush (b : Broker) (n : Nat) :
    (b.flush n).transactions = b.transactions := by
  have hsome : ∀ k (b : Broker), (b.writeSome n k).transactions = b.transactions := by
    intro k
    induction k with
    | zero => intro b; rfl
    | succ k ih => intro b; exact (ih _).trans (transactions_writeNext ..)
  exact hsome ..

/-! ## What only looks at transactions -/

section
variable {R : Broker → Broker → Prop} {n : Nat} {phase : Phase}

/-- Of what a delivery does in a phase, a relation that only looks at transactions sees what the
delivery notes. -/
theorem phaseKeeps_of_transactions
    (hsame : ∀ {b b' : Broker}, b'.transactions = b.transactions → R b b')
    (htrans : ∀ {b₁ b₂ b₃}, R b₁ b₂ → R b₂ b₃ → R b₁ b₃)
    (hrecords : ∀ b i, R b (b.modifyOperation n i fun d => { d with recorded := true }))
    (hnotes : phase ≠ .beforePrepare → ∀ b i accepted,
      R b (b.modifyOperation n i fun d => { d with accepted })) : PhaseKeeps n phase R where
  refl _ := hsame rfl
  trans := htrans
  caches _ _ _ := hsame rfl
  grants _ _ := hsame rfl
  promotes _ _ _ := hsame rfl
  drops _ _ := hsame rfl
  wakes _ _ := hsame rfl
  submits _ _ _ := hsame (transactions_submitFor ..)
  writes _ _ _ := hsame rfl
  withdraws _ _ _ := hsame rfl
  enqueues _ _ _ _ := hsame rfl
  records := hrecords
  notes := hnotes

/-- Of what hooks do it sees marks, and operations that they register. -/
theorem callsKeep_of_transactions
    (hsame : ∀ {b b' : Broker}, b'.transactions = b.transactions → R b b')
    (htrans : ∀ {b₁ b₂ b₃}, R b₁ b₂ → R b₂ b₃ → R b₁ b₃)
    (hrecords : ∀ b i, R b (b.modifyOperation n i fun d => { d with recorded := true }))
    (hnotes : phase ≠ .beforePrepare → ∀ b i accepted,
      R b (b.modifyOperation n i fun d => { d with accepted }))
    (hmarks : ∀ b reason, R b (b.markRollbackOnly n reason))
    (hregisters : ∀ b h, R b (b.addOperation n (.hook h)).1) : CallsKeep n phase R :=
  { phaseKeeps_of_transactions hsame htrans hrecords hnotes with
    hears := fun _ _ _ => hsame rfl
    acts := fun _ _ _ _ _ => hsame rfl
    marks := hmarks
    registers := hregisters
    calls := fun _ _ => hsame rfl }

end

/-! ## Changed transactions -/

theorem outline_transaction (b : Broker) (i : Nat) :
    b.outlines[i]? = if i < b.transactions.length then some (b.transaction (i + 1)).outline
      else none := by
  simp only [outlines, transaction, List.getElem?_map, List.getD_eq_getElem?_getD]
  split
  · rename_i h
    simp [h]
  · rename_i h
    simp [h]

theorem eq_of_outline {b : Broker} {i : Nat} {o : Outline} (h : b.outlines[i]? = some o) :
    o = (b.transaction (i + 1)).outline := by
  rw [outline_transaction] at h
  split at h
  · exact (Option.some.inj h).symm
  · cases h

/-- A changed transaction has its outline replaced, and every other one keeps it. -/
theorem outlines_modifyTransaction (b : Broker) (i : Nat) (f : Transaction → Transaction) :
    (b.modifyTransaction (i + 1) f).outlines =
      b.outlines.set i (f (b.transaction (i + 1))).outline := by
  simp only [outlines, modifyTransaction, transaction]
  refine List.ext_getElem? fun j => ?_
  simp only [List.getElem?_map, List.getElem?_modify, List.getElem?_set, List.length_map,
    List.getD_eq_getElem?_getD]
  by_cases hij : i = j
  · subst hij
    by_cases hi : i < b.transactions.length
    · simp [hi]
    · simp [hi]
  · simp [hij]

end Broker

end MessageRouting
