import MessageRouting.Proofs.Broker.RequestInvariants

/-!
# Between requests

Whatever is asked of a broker, at however many post offices, no commit is under
way between two requests: the caches are calm, and no transaction that may still
be completed has placed a message. What a transaction has been given to deliver
stays as it was given.

Results:

* `proceeds_perform`: every request leaves the broker so, if it found it so.
* `quiescent_run`, `deliveries_run`: so does every run, and it keeps the
  deliveries of every transaction.
-/

namespace MessageRouting

namespace Transaction

/-- The transaction keeps what it has been given to deliver, and places nothing unless it is
completed. -/
structure Proceeds (t t' : Transaction) : Prop where
  deliveries : t.deliveries <+: t'.deliveries
  unplaced : t.Unplaced → t'.Unplaced

theorem Proceeds.refl (t : Transaction) : Proceeds t t := ⟨List.prefix_refl _, id⟩

theorem Proceeds.trans {t₁ t₂ t₃ : Transaction} (h : Proceeds t₁ t₂) (h' : Proceeds t₂ t₃) :
    Proceeds t₁ t₃ :=
  ⟨h.deliveries.trans h'.deliveries, fun ht => h'.unplaced (h.unplaced ht)⟩

/-- A transaction that is given one more operation, which has placed nothing. -/
theorem proceeds_append (t : Transaction) {op : Operation}
    (hop : ∀ d ∈ op.delivery?, d.accepted = []) :
    Proceeds t { t with operations := t.operations ++ [op] } := by
  have hpending : ({ t with operations := t.operations ++ [op] } : Transaction).pending =
      t.pending ++ op.delivery?.toList := by
    simp only [pending, List.filterMap_append, List.filterMap_cons, List.filterMap_nil]
    cases op.delivery? <;> rfl
  refine ⟨⟨op.delivery?.toList.map (·.delivery), ?_⟩, fun ht hlive d hd => ?_⟩
  · rw [deliveries, deliveries, hpending, List.map_append]
  · rw [hpending] at hd
    rcases List.mem_append.1 hd with hd | hd
    · exact ht hlive d hd
    · exact hop d (Option.mem_toList.1 hd)

end Transaction

namespace Broker

variable {b b' : Broker} {n : Nat}

/-- What a request may do: transactions proceed, and calm caches are calm again. -/
structure Proceeds (b b' : Broker) : Prop where
  transactions : ∀ n, (b.transaction n).Proceeds (b'.transaction n)
  calm : Calm b → Calm b'

theorem Proceeds.refl (b : Broker) : Proceeds b b := ⟨fun _ => .refl _, id⟩

theorem Proceeds.trans {b₁ b₂ b₃ : Broker} (h : Proceeds b₁ b₂) (h' : Proceeds b₂ b₃) :
    Proceeds b₁ b₃ :=
  ⟨fun n => (h.transactions n).trans (h'.transactions n), fun hb => h'.calm (h.calm hb)⟩

/-- Transactions that have not been touched proceed. -/
theorem proceeds_of_calm (htransactions : b'.transactions = b.transactions)
    (hcalm : Calm b → Calm b') : Proceeds b b' :=
  ⟨fun n => by rw [transaction_of_transactions htransactions]; exact .refl _, hcalm⟩

theorem proceeds_of_caches (htransactions : b'.transactions = b.transactions)
    (hcaches : b'.caches = b.caches) : Proceeds b b' :=
  proceeds_of_calm htransactions fun hb => hb.of_cache fun ref => cache_of_caches hcaches ref

@[simp] theorem caches_setDesk (b : Broker) (n : Option Nat) (d : Desk) :
    (b.setDesk n d).caches = b.caches := by
  cases n <;> rfl

/-! ## One transaction changed -/

theorem caches_modifyTransaction (b : Broker) (n : Nat) (f : Transaction → Transaction) :
    (b.modifyTransaction n f).caches = b.caches := by
  cases n <;> rfl

theorem proceeds_modifyTransaction {f : Transaction → Transaction}
    (hf : (b.transaction n).Proceeds (f (b.transaction n))) :
    Proceeds b (b.modifyTransaction n f) := by
  refine ⟨fun m => ?_, fun hb => hb.of_cache fun ref =>
    cache_of_caches (caches_modifyTransaction ..) ref⟩
  rcases modifyTransaction_cases b n f m with h | ⟨rfl, h⟩
  · rw [h]
    exact .refl _
  · rw [h]
    exact hf

theorem proceeds_append (b : Broker) (n : Nat) {op : Operation}
    (hop : ∀ d ∈ op.delivery?, d.accepted = []) :
    Proceeds b (b.modifyTransaction n fun t => { t with operations := t.operations ++ [op] }) :=
  proceeds_modifyTransaction (Transaction.proceeds_append _ hop)

theorem proceeds_mark (b : Broker) (n : Nat) (reason : String) :
    Proceeds b (b.markRollbackOnly n reason) :=
  proceeds_modifyTransaction ⟨List.prefix_refl _, id⟩

theorem proceeds_addTransaction (b : Broker) {t : Transaction} (ht : t.operations = []) :
    Proceeds b (b.addTransaction t) := by
  refine ⟨fun n => ?_, id⟩
  cases n with
  | zero => exact .refl _
  | succ i =>
    simp only [transaction, addTransaction, List.getD_eq_getElem?_getD, List.getElem?_append]
    split
    · exact .refl _
    · -- There was no transaction of that number, and one that is new has nothing to deliver.
      have hnone : b.transactions[i]? = none := List.getElem?_eq_none (by omega)
      rw [hnone]
      refine ⟨List.nil_prefix, fun _ _ d hd => ?_⟩
      cases hnew : [t][i - b.transactions.length]? with
      | none =>
        rw [hnew] at hd
        cases hd
      | some u =>
        rw [hnew] at hd
        obtain rfl := List.mem_singleton.1 (List.mem_of_getElem? hnew)
        rw [Option.getD_some, Transaction.pending, ht] at hd
        cases hd

/-! ## Completions -/

/-- A transaction whose phases have been called and whose state has been set. -/
theorem transaction_setState (b : Broker) (hn : b.Has n) (s : TransactionState) (m : Nat) :
    (b.setState n s).transaction m =
      if n = m then { b.transaction n with state := s } else b.transaction m := by
  rw [setState, transaction_modifyTransaction b m _ hn.1 hn.2]
  split
  · subst_vars
    rfl
  · rfl

theorem prefix_of_same {t t' : Transaction}
    (h : t'.pending.map (·.delivery) = t.pending.map (·.delivery)) :
    t.deliveries <+: t'.deliveries := ⟨[], by rw [List.append_nil]; exact h.symm⟩

/-- A transaction that has come to its end may have placed messages. -/
theorem proceeds_ended {b₁ : Broker} {s : TransactionState}
    (hs : s ≠ .active ∧ s ≠ .prepared) (hlive : (b.transaction n).isLive = true)
    (hbefore : Touches (·.delivery) n b b₁)
    (hafter : Touches (·.delivery) n (b₁.setState n s) b') (m : Nat) :
    (b.transaction m).Proceeds (b'.transaction m) := by
  have hset := transaction_setState b₁ (hbefore.has (has_of_isLive hlive)) s
  by_cases hm : m = n
  · subst hm
    have hn := hset m
    rw [if_pos rfl] at hn
    have hstate : (b'.transaction m).state = s := by rw [hafter.state, hn]
    refine ⟨?_, fun _ hlive' => ?_⟩
    · have hsame := hafter.same
      rw [hn] at hsame
      exact prefix_of_same (hsame.trans hbefore.same)
    · simp [Transaction.isLive, hstate, hs] at hlive'
  · rw [hafter.others m hm, hset m, if_neg (Ne.symm hm), hbefore.others m hm]
    exact .refl _

theorem proceeds_undo {b₁ : Broker} (hlive : (b.transaction n).isLive = true)
    (hbefore : Touches (·.delivery) n b b₁) (m : Nat) :
    (b.transaction m).Proceeds ((b₁.undo n).transaction m) :=
  proceeds_ended ⟨by decide, by decide⟩ hlive hbefore
    ((touches_delivery n .afterRollback).callAll ..) m

theorem isLive_of_require {request : TransactionRequest} {allowed : List TransactionState}
    (hallowed : ∀ s ∈ allowed, s = .active ∨ s = .prepared)
    (h : (b.transaction n).require n allowed request = .ok ()) :
    (b.transaction n).isLive = true := by
  rcases hallowed _ (state_of_require h) with h | h <;> simp [Transaction.isLive, h]

theorem proceeds_commit (b : Broker) (n : Nat) : Proceeds b (b.commit n).1 := by
  refine ⟨fun m => ?_, fun hb => ?_⟩
  · unfold commit
    split
    · exact .refl _
    · rename_i hrequire
      have hlive := isLive_of_require (by simp) hrequire
      have hnone : Touches (·.delivery) n b b := touches_of_transactions rfl
      unfold undoDoomed?
      cases (b.transaction n).rollbackOnly with
      | some reason => exact proceeds_undo hlive hnone m
      | none =>
        have hcalled :=
          (touches_delivery n .beforeCommit).callUntilFailure b (b.operationIndexes n)
        dsimp only [Option.map_none]
        split
        · rename_i heq
          rw [heq] at hcalled
          exact proceeds_undo hlive hcalled m
        · rename_i heq
          rw [heq] at hcalled
          exact proceeds_ended ⟨by decide, by decide⟩ hlive hcalled
            ((touches_delivery n .afterCommit).callAll ..) m
  · exact calm_reflGen (move_commit (fun _ => True) b n) hb

theorem proceeds_rollback (b : Broker) (n : Nat) : Proceeds b (b.rollback n).1 := by
  refine ⟨fun m => ?_, calm_reflGen (move_rollback (fun _ => True) b n)⟩
  unfold rollback
  split
  · exact .refl _
  · rename_i hrequire
    exact proceeds_undo (isLive_of_require (by simp) hrequire) (touches_of_transactions rfl) m

theorem proceeds_prepare (b : Broker) (n : Nat) : Proceeds b (b.prepare n).1 := by
  refine ⟨fun m => ?_, calm_reflGen (move_prepare (fun _ => True) b n)⟩
  unfold prepare
  split
  · exact .refl _
  · split
    · exact .refl _
    · rename_i hrequire
      have hlive := isLive_of_require (by simp) hrequire
      unfold undoDoomed?
      cases (b.transaction n).rollbackOnly with
      | some reason => exact proceeds_undo hlive (touches_of_transactions rfl) m
      | none =>
        -- Recording the stages leaves what the deliveries have noted of queues.
        have hnoted := callsKeep_touches (g := fun d => (d.delivery, d.accepted)) n
          .beforePrepare (fun _ => rfl) fun h => absurd rfl h
        have hcalled := hnoted.callUntilFailure b (b.operationIndexes n)
        dsimp only [Option.map_none]
        split
        · rename_i heq
          rw [heq] at hcalled
          exact proceeds_undo hlive (hcalled.comp Prod.fst) m
        · rename_i c heq
          rw [heq] at hcalled
          rw [transaction_setState c (hcalled.has (has_of_isLive hlive)) .prepared m]
          split
          · rename_i hm
            subst hm
            refine ⟨prefix_of_same (hcalled.comp Prod.fst).same, fun hunplaced _ d hd => ?_⟩
            obtain ⟨d', hd', heq'⟩ : ∃ d' ∈ (b.transaction n).pending,
                (d'.delivery, d'.accepted) = (d.delivery, d.accepted) :=
              List.mem_map.1 (hcalled.same ▸ List.mem_map_of_mem hd)
            exact (congrArg Prod.snd heq').symm.trans (hunplaced hlive d' hd')
          · rename_i hm
            rw [hcalled.others m (Ne.symm hm)]
            exact .refl _

theorem proceeds_setBranches (b : Broker) (desk : Option Nat) (t : Table Xid Nat) :
    Proceeds b (b.setBranches desk t) :=
  proceeds_of_caches (transactions_setDesk ..) (caches_setDesk ..)

/-! ## Runs -/

theorem requestsKeep_proceeds : RequestsKeep Proceeds where
  refl := .refl
  trans := .trans
  still htransactions _ hcalm := proceeds_of_calm htransactions hcalm
  asks _ _ _ := proceeds_of_caches (transactions_setDesk ..) (caches_setDesk ..)
  branches := proceeds_setBranches
  begins b _ ht := proceeds_addTransaction b ht
  registers b n _ hop := proceeds_append b n hop
  marks := proceeds_mark
  prepares := proceeds_prepare
  commits := proceeds_commit
  rollsBack := proceeds_rollback
  draws _ _ := proceeds_of_caches rfl rfl
  answers _ _ _ := proceeds_of_caches rfl rfl
  opens _ _ _ _ := proceeds_of_caches rfl rfl

/-- Whatever is asked, transactions proceed and calm caches are calm again. -/
theorem proceeds_perform (b : Broker) (c : Command) : Proceeds b (b.perform c).1 :=
  requestsKeep_proceeds.perform b c

theorem proceeds_run (b : Broker) (cs : List Command) : Proceeds b (b.run cs) :=
  requestsKeep_proceeds.run b cs

/-- No commit is under way: the caches are calm, and transactions that may be completed have placed
nothing. -/
structure Quiescent (b : Broker) : Prop where
  calm : Calm b
  unplaced : ∀ n, (b.transaction n).Unplaced

/-- A broker is quiescent between any two requests, whatever queues and journal it began with. -/
theorem quiescent_run (mailboxes : Table String Mailbox) (storage : Storage)
    (cs : List Command) : Quiescent (({ mailboxes, storage } : Broker).run cs) := by
  have hproceeds := proceeds_run { mailboxes, storage } cs
  have hcalm : Calm { mailboxes, storage } := fun _ => Cache.calm_empty ..
  refine ⟨hproceeds.calm hcalm, fun n => (hproceeds.transactions n).unplaced fun _ d hd => ?_⟩
  cases n <;> cases hd

/-- What a transaction has been given to deliver stays as it was given, whatever is asked later. -/
theorem deliveries_run (b : Broker) (cs : List Command) (n : Nat) :
    (b.transaction n).deliveries <+: ((b.run cs).transaction n).deliveries :=
  ((proceeds_run b cs).transactions n).deliveries

end Broker

end MessageRouting
