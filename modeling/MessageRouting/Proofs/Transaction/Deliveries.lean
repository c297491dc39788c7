import MessageRouting.Proofs.Broker.TrafficMoves

/-!
# Deliveries of a transaction

What a transaction has been given to deliver stands among its operations, and
each delivery notes there how far it has come: whether its stage has been
recorded, and which queues have taken its message. Completing the transaction
changes these notes and nothing else.

Results:

* `callsKeep_touches`: what calling an operation changes of deliveries.
* `touches_delivery`: operations that are called leave deliveries as they were
  given.
* `completionsKeep_others`: completing a transaction leaves every other one as it
  is.
-/

namespace MessageRouting

/-- The delivery that an operation is, if it is one. -/
def Operation.delivery? : Operation → Option PendingDelivery
  | .delivery d => some d
  | .hook _ => none

namespace Transaction

/-- The deliveries among the operations, in order, with what they have noted. -/
def pending (t : Transaction) : List PendingDelivery := t.operations.filterMap Operation.delivery?

/-- What the transaction has been given to deliver, in order. -/
def deliveries (t : Transaction) : List Delivery := t.pending.map (·.delivery)

/-- Whether the transaction may still be completed. -/
def isLive (t : Transaction) : Bool := t.state = .active || t.state = .prepared

/-- As long as the transaction may be completed, none of its messages has been placed. -/
def Unplaced (t : Transaction) : Prop := t.isLive = true → ∀ d ∈ t.pending, d.accepted = []

end Transaction

namespace Broker

variable {b b' : Broker} {n : Nat}

/-! ## One transaction changed -/

/-- A changed transaction, or one that is not there, and the others. -/
theorem modifyTransaction_cases (b : Broker) (n : Nat) (f : Transaction → Transaction) (m : Nat) :
    (b.modifyTransaction n f).transaction m = b.transaction m ∨
      m = n ∧ (b.modifyTransaction n f).transaction m = f (b.transaction n) := by
  by_cases hn : b.Has n
  · rw [transaction_modifyTransaction b m f hn.1 hn.2]
    split
    · subst_vars
      exact Or.inr ⟨rfl, rfl⟩
    · exact Or.inl rfl
  · rw [view_modifyTransaction_of_not_has hn]
    exact Or.inl rfl

/-! ## Phases of a completion -/

/-- Of the transactions at most one has been changed, which has kept its state, and whose deliveries
look the same through `g`. -/
structure Touches {α : Type} (g : PendingDelivery → α) (n : Nat) (b b' : Broker) : Prop where
  length : b'.transactions.length = b.transactions.length
  others : ∀ m, m ≠ n → b'.transaction m = b.transaction m
  state : (b'.transaction n).state = (b.transaction n).state
  same : (b'.transaction n).pending.map g = (b.transaction n).pending.map g

section
variable {α : Type} {g : PendingDelivery → α}

theorem Touches.trans {b₁ b₂ b₃ : Broker} (h : Touches g n b₁ b₂) (h' : Touches g n b₂ b₃) :
    Touches g n b₁ b₃ :=
  ⟨h'.length.trans h.length, fun m hm => (h'.others m hm).trans (h.others m hm),
    h'.state.trans h.state, h'.same.trans h.same⟩

theorem Touches.has (h : Touches g n b b') (hn : b.Has n) : b'.Has n := by
  rwa [Has, h.length]

theorem Touches.comp {β : Type} (h : Touches g n b b') (f : α → β) :
    Touches (fun d => f (g d)) n b b' := by
  have hsame := congrArg (List.map f) h.same
  rw [List.map_map, List.map_map] at hsame
  exact ⟨h.length, h.others, h.state, hsame⟩

theorem touches_of_transactions (h : b'.transactions = b.transactions) : Touches g n b b' :=
  ⟨by rw [h], fun m _ => transaction_of_transactions h m, by rw [transaction_of_transactions h],
    by rw [transaction_of_transactions h]⟩

theorem touches_modifyTransaction {f : Transaction → Transaction}
    (hstate : (f (b.transaction n)).state = (b.transaction n).state)
    (hsame : (f (b.transaction n)).pending.map g = (b.transaction n).pending.map g) :
    Touches g n b (b.modifyTransaction n f) := by
  refine ⟨?_, fun m hm => ?_, ?_, ?_⟩
  · cases n with
    | zero => rfl
    | succ i => exact List.length_modify ..
  · rcases modifyTransaction_cases b n f m with h | ⟨h, -⟩
    · exact h
    · exact absurd h hm
  · rcases modifyTransaction_cases b n f n with h | ⟨-, h⟩ <;> rw [h]
    exact hstate
  · rcases modifyTransaction_cases b n f n with h | ⟨-, h⟩ <;> rw [h]
    exact hsame

theorem touches_modifyOperation (b : Broker) (n i : Nat) {f : PendingDelivery → PendingDelivery}
    (hf : ∀ d, g (f d) = g d) : Touches g n b (b.modifyOperation n i f) := by
  refine touches_modifyTransaction rfl ?_
  have hview : ∀ ops : List Operation, (ops.filterMap Operation.delivery?).map g =
      (ops.map fun op => op.delivery?.map g).filterMap id := fun ops => by
    rw [List.filterMap_map, List.map_filterMap]
    rfl
  rw [Transaction.pending, Transaction.pending, hview, hview]
  congr 1
  refine List.ext_getElem? fun j => ?_
  simp only [List.getElem?_map, List.getElem?_modify]
  cases (b.transaction n).operations[j]? with
  | none => rfl
  | some op =>
    split
    · cases op with
      | delivery d => exact congrArg (fun a => some (some a)) (hf d)
      | hook h => rfl
    · rfl

theorem touches_addHook (b : Broker) (n : Nat) (h : Hook) :
    Touches g n b (b.addOperation n (.hook h)).1 := by
  unfold addOperation Transaction.addOperation
  cases (b.transaction n).require n [.active] .addOperation with
  | error refusal => exact touches_of_transactions rfl
  | ok _ =>
    refine touches_modifyTransaction rfl ?_
    simp [Transaction.pending, Operation.delivery?]

/-- Calling an operation changes what its delivery has noted, and no other transaction. Before the
transaction is prepared it notes that its stage has been recorded, and later which queues have taken
its message. -/
theorem callsKeep_touches (n : Nat) (phase : Phase)
    (hrecorded : ∀ d : PendingDelivery, g { d with recorded := true } = g d)
    (haccepted : phase ≠ .beforePrepare →
      ∀ (d : PendingDelivery) accepted, g { d with accepted } = g d) :
    CallsKeep n phase (Touches g n) :=
  callsKeep_of_transactions touches_of_transactions .trans
    (fun b i => touches_modifyOperation b n i hrecorded)
    (fun hphase b i accepted => touches_modifyOperation b n i fun d => haccepted hphase d accepted)
    (fun _ _ => touches_modifyTransaction rfl rfl) fun _ _ => touches_addHook ..

end

theorem has_of_isLive (hlive : (b.transaction n).isLive = true) : b.Has n :=
  has_of_state fun hstate => by simp [Transaction.isLive, hstate] at hlive

/-- Operations that are called leave the deliveries as they were given. -/
theorem touches_delivery (n : Nat) (phase : Phase) :
    CallsKeep n phase (Touches (·.delivery) n) :=
  callsKeep_touches n phase (fun _ => rfl) fun _ _ _ => rfl

theorem transaction_modifyTransaction_of_ne (b : Broker) {m n : Nat} (h : m ≠ n)
    (f : Transaction → Transaction) : (b.modifyTransaction n f).transaction m = b.transaction m :=
  (modifyTransaction_cases b n f m).resolve_right fun hmn => h hmn.1

theorem callsKeep_others (n : Nat) (phase : Phase) :
    CallsKeep n phase fun b b' => ∀ m, m ≠ n → b'.transaction m = b.transaction m :=
  callsKeep_of_transactions (fun h m _ => transaction_of_transactions h m)
    (fun h h' m hm => (h' m hm).trans (h m hm))
    (fun b _ _ hm => transaction_modifyTransaction_of_ne b hm _)
    (fun _ b _ _ _ hm => transaction_modifyTransaction_of_ne b hm _)
    (fun b _ _ hm => transaction_modifyTransaction_of_ne b hm _)
    fun b h => (touches_addHook (g := id) b n h).others

/-- Completing a transaction leaves every other one as it is. -/
theorem completionsKeep_others (n : Nat) :
    CompletionsKeep n fun b b' => ∀ m, m ≠ n → b'.transaction m = b.transaction m where
  phases phase _ := callsKeep_others n phase
  states b _ _ hm := transaction_modifyTransaction_of_ne b hm _

theorem transaction_prepare_of_ne (b : Broker) {m n : Nat} (h : m ≠ n) :
    (b.prepare n).1.transaction m = b.transaction m := (completionsKeep_others n).prepare b m h

theorem transaction_commit_of_ne (b : Broker) {m n : Nat} (h : m ≠ n) :
    (b.commit n).1.transaction m = b.transaction m :=
  (completionsKeep_others n).commit (callsKeep_others n _) b m h

theorem transaction_rollback_of_ne (b : Broker) {m n : Nat} (h : m ≠ n) :
    (b.rollback n).1.transaction m = b.transaction m := (completionsKeep_others n).rollback b m h

end Broker

end MessageRouting
