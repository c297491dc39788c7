import MessageRouting.Proofs.Broker.BetweenRequests
import MessageRouting.Proofs.District.ExcerptParts
import MessageRouting.Proofs.Transaction.HookDiscipline
import MessageRouting.Proofs.Transaction.SingleMessages

/-!
# Operations keep their places

An operation that is registered with a transaction keeps its place there, and
stays as it was registered but for what a delivery notes. Whatever is asked of a
broker, operations are only added behind those that are there.

Results:

* `operation_of_given`: what has been registered is found at its place.
* `callsKeep_lengthens`, `completionsKeep_lengthens`: completing a transaction does
  not displace operations.
* `lengthens_perform`, `lengthens_run`: nor does any request, or any run.
-/

namespace MessageRouting.Broker

variable {b b' : Broker} {n : Nat}

/-- The operations of a transaction as they were registered. -/
def given (b : Broker) (n : Nat) : List Operation := (b.transaction n).operations.map .asGiven

/-- Operations are at most added, each behind those of its transaction. -/
structure Lengthens (b b' : Broker) : Prop where
  kept : ∀ n, b.given n <+: b'.given n

theorem Lengthens.refl (b : Broker) : Lengthens b b := ⟨fun _ => List.prefix_refl _⟩

theorem Lengthens.trans {b₁ b₂ b₃ : Broker} (h : Lengthens b₁ b₂) (h' : Lengthens b₂ b₃) :
    Lengthens b₁ b₃ := ⟨fun n => (h.kept n).trans (h'.kept n)⟩

theorem prefix_of_given (h : b'.given n = b.given n) : b.given n <+: b'.given n :=
  h ▸ List.prefix_refl _

theorem lengthens_of_transactions (h : b'.transactions = b.transactions) : Lengthens b b' :=
  ⟨fun n => prefix_of_given (by rw [given, given, transaction_of_transactions h])⟩

/-- An operation that has been registered is still there, as it was registered. -/
theorem operation_of_given {l : List Operation} (hl : l <+: b.given n) {i : Nat} {op : Operation}
    (hop : l[i]? = some op) :
    ∃ op', (b.transaction n).operations[i]? = some op' ∧ op'.asGiven = op := by
  have hgiven : (b.given n)[i]? = some op := by
    obtain ⟨more, hmore⟩ := hl
    rw [← hmore, List.getElem?_append_left (List.getElem?_eq_some_iff.1 hop).1, hop]
  rw [given, List.getElem?_map] at hgiven
  exact Option.map_eq_some_iff.1 hgiven

/-! ## One transaction changed -/

theorem lengthens_modifyTransaction {f : Transaction → Transaction}
    (hf : (b.transaction n).operations.map Operation.asGiven <+:
      (f (b.transaction n)).operations.map Operation.asGiven) :
    Lengthens b (b.modifyTransaction n f) := by
  refine ⟨fun m => ?_⟩
  rcases modifyTransaction_cases b n f m with h | ⟨rfl, h⟩
  · exact prefix_of_given (by rw [given, given, h])
  · rw [given, given, h]
    exact hf

theorem lengthens_append (b : Broker) (n : Nat) (op : Operation) :
    Lengthens b (b.modifyTransaction n fun t => { t with operations := t.operations ++ [op] }) :=
  lengthens_modifyTransaction (by rw [List.map_append]; exact List.prefix_append ..)

theorem lengthens_modifyOperation (b : Broker) (n i : Nat) {f : PendingDelivery → PendingDelivery}
    (hf : ∀ d, (f d).delivery = d.delivery) : Lengthens b (b.modifyOperation n i f) := by
  refine ⟨fun m => ?_⟩
  rcases modifyTransaction_cases b n _ m with h | ⟨rfl, -⟩
  · exact prefix_of_given (by rw [given, given, modifyOperation, h])
  · exact prefix_of_given (congrArg Transaction.operations (given_modifyOperation b m i hf))

theorem lengthens_setState (b : Broker) (n : Nat) (s : TransactionState) :
    Lengthens b (b.setState n s) := lengthens_modifyTransaction (List.prefix_refl _)

theorem lengthens_mark (b : Broker) (n : Nat) (reason : String) :
    Lengthens b (b.markRollbackOnly n reason) := lengthens_modifyTransaction (List.prefix_refl _)

theorem lengthens_addOperation (b : Broker) (n : Nat) (op : Operation) :
    Lengthens b (b.addOperation n op).1 := by
  unfold addOperation Transaction.addOperation
  cases (b.transaction n).require n [.active] .addOperation with
  | error refusal => exact .refl b
  | ok _ => exact lengthens_modifyTransaction (by rw [List.map_append]; exact List.prefix_append ..)

theorem lengthens_addTransaction (b : Broker) (t : Transaction) :
    Lengthens b (b.addTransaction t) := by
  refine ⟨fun m => ?_⟩
  rw [given, given, transaction_addTransaction]
  split
  · subst m
    have hnew : b.transaction (b.transactions.length + 1) = default := by
      simp [transaction, List.getD_eq_getElem?_getD]
    rw [hnew]
    exact List.nil_prefix
  · exact List.prefix_refl _

/-! ## Completions -/

theorem callsKeep_lengthens (n : Nat) (phase : Phase) : CallsKeep n phase Lengthens :=
  callsKeep_of_transactions lengthens_of_transactions .trans
    (fun b i => lengthens_modifyOperation b n i fun _ => rfl)
    (fun _ b i _ => lengthens_modifyOperation b n i fun _ => rfl)
    (fun _ _ => lengthens_mark ..) fun _ _ => lengthens_addOperation ..

theorem completionsKeep_lengthens (n : Nat) : CompletionsKeep n Lengthens where
  phases phase _ := callsKeep_lengthens n phase
  states _ _ := lengthens_setState ..

/-! ## Runs -/

theorem requestsKeep_lengthens : RequestsKeep Lengthens where
  refl := .refl
  trans := .trans
  still htransactions _ _ := lengthens_of_transactions htransactions
  asks _ _ _ := lengthens_of_transactions (transactions_setDesk ..)
  branches _ _ _ := lengthens_of_transactions (transactions_setDesk ..)
  begins b t _ := lengthens_addTransaction b t
  registers b n op _ := lengthens_append b n op
  marks := lengthens_mark
  prepares b n := (completionsKeep_lengthens n).prepare b
  commits b n := (completionsKeep_lengthens n).commit (callsKeep_lengthens n _) b
  rollsBack b n := (completionsKeep_lengthens n).rollback b
  draws _ _ := lengthens_of_transactions rfl
  answers _ _ _ := lengthens_of_transactions rfl
  opens _ _ _ _ := lengthens_of_transactions rfl

/-- Whatever is asked, operations keep their places. -/
theorem lengthens_perform (b : Broker) (c : Command) : Lengthens b (b.perform c).1 :=
  requestsKeep_lengthens.perform b c

theorem lengthens_run (b : Broker) (cs : List Command) : Lengthens b (b.run cs) :=
  requestsKeep_lengthens.run b cs

end MessageRouting.Broker
