import MessageRouting.Broker.Routing

/-!
# What is kept throughout

Staging an identifier, delivering a message, calling the operations of a
transaction, completing it and attempting a call are all made of a few steps. A
relation of a broker to what becomes of it that is reflexive and transitive, and
that each of these steps keeps, is kept throughout. Which steps there are in a
completion depends on the phase, and a relation may be kept in one phase and not
in another.

Results:

* `StagingKeeps.commitStage` and its like: what becomes of a stage.
* `DeliveringKeeps.deliver`: a delivery at once.
* `PhaseKeeps.callDelivery`, `HooksKeep.callHook`: one operation in a phase.
* `CallsKeep.callUntilFailure`, `CallsKeep.callAll`: a phase.
* `CompletionsKeep.prepare`, `CompletionsKeep.commit`,
  `CompletionsKeep.rollback`: completions.
* `AttemptsKeep.attempt`: an attempt of a call.
-/

namespace MessageRouting.Broker

variable {R : Broker → Broker → Prop} {b' : Broker} {n : Nat} {phase : Phase}

/-! ## Stages -/

/-- A relation that is kept by the writes that staging is made of. -/
structure StagingKeeps (R : Broker → Broker → Prop) : Prop where
  refl : ∀ b, R b b
  trans : ∀ {b₁ b₂ b₃}, R b₁ b₂ → R b₂ b₃ → R b₁ b₃
  caches : ∀ b ref c, R b (b.setCache ref c)
  grants : ∀ b h, R b (b.log (.granted h))
  promotes : ∀ b h p, R b (b.log (.promoted h p))
  drops : ∀ b h, R b (b.log (.dropped h))
  wakes : ∀ b ref, R b (b.wake ref)
  submits : ∀ b ref e, R b (b.submitFor ref e)
  writes : ∀ b caller e, R b (b.write caller e).1

namespace StagingKeeps

theorem attemptStage (h : StagingKeeps R) (b : Broker) (ref : CacheRef) (id : Bytes)
    (owner : Owner) : R b (b.attemptStage ref id owner).1 := by
  unfold Broker.attemptStage
  split
  · exact h.trans (h.caches ..) (h.grants ..)
  · exact h.refl b

theorem persistStage (h : StagingKeeps R) (b : Broker) (held : HeldStage) :
    R b (b.persistStage held).1 := by
  unfold Broker.persistStage
  split
  · exact h.refl b
  · rename_i key c _
    have hdrawn := h.caches b held.cache c
    dsimp only
    split
    · exact h.trans hdrawn (h.writes ..)
    · exact hdrawn

theorem commitStage (h : StagingKeeps R) (b : Broker) (held : HeldStage) :
    R b (b.commitStage held) := by
  unfold Broker.commitStage
  split
  · exact h.refl b
  · rename_i p c _
    have hpromoted := h.trans (h.trans (h.caches b held.cache c) (h.promotes _ held p))
      (h.wakes _ held.cache)
    refine List.foldlRecOn (motive := R b) p.evicted _ ?_ fun _ hc _ _ => h.trans hc (h.submits ..)
    split
    · exact h.trans hpromoted (h.submits ..)
    · exact hpromoted

theorem rollbackStage (h : StagingKeeps R) (b : Broker) (held : HeldStage) :
    R b (b.rollbackStage held) := by
  unfold Broker.rollbackStage
  split
  · exact h.refl b
  · exact h.trans (h.trans (h.caches ..) (h.drops ..)) (h.wakes ..)

theorem storePrepared (h : StagingKeeps R) (b : Broker) (x : Xid) (held : HeldStage) :
    R b (b.storePrepared x held).1 := by
  unfold Broker.storePrepared
  split
  · exact h.writes ..
  · exact h.refl b

theorem persist (h : StagingKeeps R) (b : Broker) (d : Delivery) : R b (b.persist d).1 := by
  unfold Broker.persist
  cases d.stage with
  | none => exact h.refl b
  | some held =>
    have hpersisted := h.persistStage b held
    dsimp only
    split
    · rename_i heq
      rwa [heq] at hpersisted
    · rename_i heq
      rwa [heq] at hpersisted

theorem commitDelivery (h : StagingKeeps R) (b : Broker) (d : Delivery) :
    R b (b.commitDelivery d) := by
  unfold Broker.commitDelivery
  split
  · exact h.commitStage ..
  · exact h.refl b

theorem rollbackDelivery (h : StagingKeeps R) (b : Broker) (d : Delivery) :
    R b (b.rollbackDelivery d) := by
  unfold Broker.rollbackDelivery
  split
  · exact h.rollbackStage ..
  · exact h.refl b

theorem forgetPrepared (h : StagingKeeps R) (b : Broker) (n : Nat) (d : PendingDelivery) :
    R b (b.forgetPrepared n d) := by
  unfold Broker.forgetPrepared
  split
  · split
    · exact h.submits ..
    · exact h.refl b
  · exact h.refl b

end StagingKeeps

/-! ## Deliveries -/

/-- A relation that is kept by what queues are asked to give back as well. -/
structure ReturningKeeps (R : Broker → Broker → Prop) : Prop extends StagingKeeps R where
  withdraws : ∀ b message queue, R b (b.withdraw message queue)

/-- A relation that is kept by all that a delivery at once is made of. -/
structure DeliveringKeeps (R : Broker → Broker → Prop) : Prop extends ReturningKeeps R where
  enqueues : ∀ b queue message, R b (b.enqueue queue message).1

theorem ReturningKeeps.withdrawAll (h : ReturningKeeps R) (b : Broker) (message : Nat)
    (accepted : List String) : R b (b.withdrawAll message accepted) :=
  List.foldlRecOn (motive := R b) accepted.reverse _ (h.refl b)
    fun _ hc _ _ => h.trans hc (h.withdraws ..)

namespace DeliveringKeeps

theorem enqueueFrom (h : DeliveringKeeps R) (b : Broker) (message : Nat)
    (accepted queues : List String) : R b (b.enqueueFrom message accepted queues).1 := by
  induction queues generalizing b accepted with
  | nil => exact h.refl b
  | cons q rest ih =>
    have hfirst := h.enqueues b q message
    unfold Broker.enqueueFrom
    split
    · rename_i heq
      rwa [heq] at hfirst
    · rename_i heq
      rw [heq] at hfirst
      exact h.trans hfirst (ih ..)

theorem enqueueTargets (h : DeliveringKeeps R) (b : Broker) (d : Delivery) :
    R b (b.enqueueTargets d).1 := h.enqueueFrom ..

theorem tryDelivery (h : DeliveringKeeps R) (b : Broker) (d : Delivery) :
    R b (b.tryDelivery d).1 := by
  have hplaced := h.enqueueTargets b d
  unfold Broker.tryDelivery
  split
  · rename_i heq
    rwa [heq] at hplaced
  · rename_i heq
    rw [heq] at hplaced
    exact h.trans hplaced (h.persist ..)

theorem deliver (h : DeliveringKeeps R) (b : Broker) (d : Delivery) : R b (b.deliver d).1 := by
  have htried := h.tryDelivery b d
  unfold Broker.deliver
  split
  · rename_i heq
    rw [heq] at htried
    exact h.trans htried (h.trans (h.withdrawAll ..) (h.rollbackDelivery ..))
  · rename_i heq
    rw [heq] at htried
    exact h.trans htried (h.commitDelivery ..)

end DeliveringKeeps

/-! ## Operations called -/

/-- A relation that is kept by what a delivery of the transaction does in a phase. -/
structure PhaseKeeps (n : Nat) (phase : Phase) (R : Broker → Broker → Prop) : Prop
    extends ReturningKeeps R where
  /-- Messages are placed before a commit only. -/
  enqueues : phase = .beforeCommit → ∀ b queue message, R b (b.enqueue queue message).1
  records : ∀ b i, R b (b.modifyOperation n i fun d => { d with recorded := true })
  /-- Preparing a delivery does not change which queues have taken its message. -/
  notes : phase ≠ .beforePrepare → ∀ b i accepted,
    R b (b.modifyOperation n i fun d => { d with accepted })

/-- A relation that is kept by what a hook does to the transaction that calls it. -/
structure HooksKeep (n : Nat) (R : Broker → Broker → Prop) : Prop where
  refl : ∀ b, R b b
  trans : ∀ {b₁ b₂ b₃}, R b₁ b₂ → R b₂ b₃ → R b₁ b₃
  hears : ∀ b name phase, R b (b.log (.hook name phase))
  acts : ∀ b name phase a result, R b (b.log (.acted name phase a result))
  marks : ∀ b reason, R b (b.markRollbackOnly n reason)
  registers : ∀ b h, R b (b.addOperation n (.hook h)).1

namespace PhaseKeeps

theorem prepareDelivery (h : PhaseKeeps n phase R) (b : Broker) (i : Nat) (d : PendingDelivery) :
    R b (b.prepareDelivery n i d).1 := by
  unfold Broker.prepareDelivery
  split
  · rename_i x held _ _
    have hstored := h.storePrepared b x held
    split
    · rename_i heq
      rw [heq] at hstored
      exact h.trans hstored (h.records ..)
    · rename_i heq
      rwa [heq] at hstored
  · exact h.refl b

theorem placeDelivery (h : PhaseKeeps n .beforeCommit R) (b : Broker) (i : Nat)
    (d : PendingDelivery) : R b (b.placeDelivery n i d).1 := by
  have hdelivering : DeliveringKeeps R := { h with enqueues := h.enqueues rfl }
  have hplaced := hdelivering.enqueueTargets b d.delivery
  unfold Broker.placeDelivery
  split
  rename_i c accepted result heq
  rw [heq] at hplaced
  have hnoted := h.trans hplaced (h.notes (by decide) c i accepted)
  dsimp only
  split
  · exact hnoted
  · exact h.trans hnoted (h.persist ..)

theorem undoDelivery (h : PhaseKeeps n .afterRollback R) (b : Broker) (i : Nat)
    (d : PendingDelivery) : R b (b.undoDelivery n i d) := by
  have hnoted := h.notes (by decide) b i []
  exact h.trans (h.trans (h.trans hnoted (h.withdrawAll ..)) (h.rollbackDelivery ..))
    (h.forgetPrepared ..)

theorem callDelivery (h : PhaseKeeps n phase R) (b : Broker) (i : Nat) (d : PendingDelivery) :
    R b (b.callDelivery n i d phase).1 := by
  cases phase with
  | beforePrepare => exact h.prepareDelivery ..
  | beforeCommit => exact h.placeDelivery ..
  | afterCommit => exact h.trans (h.commitDelivery b d.delivery) (h.forgetPrepared ..)
  | afterRollback => exact h.undoDelivery ..

end PhaseKeeps

namespace HooksKeep

theorem act (h : HooksKeep n R) (b : Broker) (a : HookAction) : R b (b.act n a).1 := by
  cases a with
  | mark reason => exact h.marks ..
  | add name =>
    have hadded := h.registers b { name }
    simp only [Broker.act]
    split
    · rename_i heq
      rwa [heq] at hadded
    · rename_i heq
      rwa [heq] at hadded
  | inspect => exact h.refl b

theorem actAll (h : HooksKeep n R) (b : Broker) (name : String) (phase : Phase)
    (actions : List HookAction) : R b (b.actAll n name phase actions) := by
  induction actions generalizing b with
  | nil => exact h.refl b
  | cons a rest ih => exact h.trans (h.trans (h.act b a) (h.acts ..)) (ih _)

theorem callHook (h : HooksKeep n R) (b : Broker) (hook : Hook) (phase : Phase) :
    R b (b.callHook n hook phase).1 := by
  unfold Broker.callHook
  split
  · exact h.refl b
  · exact h.trans (h.hears ..) (h.actAll ..)

end HooksKeep

/-! ## One phase -/

/-- A relation that is kept by whatever operation of the transaction is called in a phase. -/
structure CallsKeep (n : Nat) (phase : Phase) (R : Broker → Broker → Prop) : Prop
    extends PhaseKeeps n phase R, HooksKeep n R where
  calls : ∀ b i, R b (b.log (.called n i phase))

namespace CallsKeep

theorem callOperation (h : CallsKeep n phase R) (b : Broker) (i : Nat) :
    R b (b.callOperation n phase i).1 := by
  unfold Broker.callOperation
  split
  · exact h.refl b
  · rename_i op _
    refine h.trans (h.calls b i) ?_
    cases op with
    | delivery d => exact h.callDelivery ..
    | hook hook => exact h.callHook ..

theorem callUntilFailure (h : CallsKeep n phase R) (b : Broker) (is : List Nat) :
    R b (b.callUntilFailure n phase is).1 := by
  induction is generalizing b with
  | nil => exact h.refl b
  | cons i rest ih =>
    have hfirst := h.callOperation b i
    unfold Broker.callUntilFailure
    split
    · rename_i heq
      rw [heq] at hfirst
      exact h.trans hfirst (ih _)
    · rename_i heq
      rwa [heq] at hfirst

theorem callAll (h : CallsKeep n phase R) (b : Broker) (is : List Nat) :
    R b (b.callAll n phase is) := by
  induction is generalizing b with
  | nil => exact h.refl b
  | cons i rest ih => exact h.trans (h.callOperation b i) (ih _)

end CallsKeep

/-! ## Completions -/

/-- A relation that is kept by a state that is set and by whatever is called, unless it is called
before a commit. -/
structure CompletionsKeep (n : Nat) (R : Broker → Broker → Prop) : Prop where
  phases : ∀ phase, phase ≠ .beforeCommit → CallsKeep n phase R
  states : ∀ b s, R b (b.setState n s)

namespace CompletionsKeep

theorem undo (h : CompletionsKeep n R) (b : Broker) : R b (b.undo n) :=
  have hphase := h.phases .afterRollback (by decide)
  hphase.trans (h.states b .rolledBack) (hphase.callAll ..)

theorem undoDoomed (h : CompletionsKeep n R) {b : Broker} {e : TransactionError}
    (hundone : b.undoDoomed? n = some (b', e)) : R b b' := by
  obtain ⟨reason, -, heq⟩ := Option.map_eq_some_iff.1 hundone
  obtain rfl := (Prod.mk.inj heq).1
  exact h.undo b

theorem prepare (h : CompletionsKeep n R) (b : Broker) : R b (b.prepare n).1 := by
  have hphase := h.phases .beforePrepare (by decide)
  unfold Broker.prepare
  split
  · exact hphase.refl b
  · split
    · exact hphase.refl b
    · split
      · rename_i heq
        exact h.undoDoomed heq
      · have hcalled := hphase.callUntilFailure b (b.operationIndexes n)
        split
        · rename_i heq
          rw [heq] at hcalled
          exact hphase.trans hcalled (h.undo _)
        · rename_i heq
          rw [heq] at hcalled
          exact hphase.trans hcalled (h.states ..)

/-- Committing is what calls operations before a commit. -/
theorem commit (h : CompletionsKeep n R) (hbefore : CallsKeep n .beforeCommit R) (b : Broker) :
    R b (b.commit n).1 := by
  have hafter := h.phases .afterCommit (by decide)
  unfold Broker.commit
  split
  · exact hbefore.refl b
  · split
    · rename_i heq
      exact h.undoDoomed heq
    · have hcalled := hbefore.callUntilFailure b (b.operationIndexes n)
      dsimp only
      split
      · rename_i heq
        rw [heq] at hcalled
        exact hbefore.trans hcalled (h.undo _)
      · rename_i heq
        rw [heq] at hcalled
        exact hbefore.trans hcalled (hbefore.trans (h.states ..) (hafter.callAll ..))

theorem rollback (h : CompletionsKeep n R) (b : Broker) : R b (b.rollback n).1 := by
  unfold Broker.rollback
  split
  · exact (h.phases .afterRollback (by decide)).refl b
  · exact h.undo b

end CompletionsKeep

/-! ## Attempts -/

/-- A relation that is kept by what an attempt of a call is made of. -/
structure AttemptsKeep (R : Broker → Broker → Prop) : Prop where
  trans : ∀ {b₁ b₂ b₃}, R b₁ b₂ → R b₂ b₃ → R b₁ b₃
  stages : ∀ b ref id owner, R b (b.attemptStage ref id owner).1
  notifies : ∀ b n what, R b (b.notify n what)
  dispatches : ∀ b d transaction, R b (b.dispatch d transaction).1

namespace AttemptsKeep

theorem finish (h : AttemptsKeep R) (b : Broker) (r : Routing) (staged acceptedDuplicate : Bool) :
    R b (b.finish r staged acceptedDuplicate).1 := by
  have hdispatched := h.dispatches b r.delivery r.transaction
  unfold Broker.finish
  split
  · rename_i heq
    rwa [heq] at hdispatched
  · rename_i heq
    rwa [heq] at hdispatched

theorem continueRouting (h : AttemptsKeep R) (b : Broker) (r : Routing) (ref : CacheRef)
    (id : Bytes) (o : StageOutcome) : R b (b.continueRouting r ref id o).1 := by
  cases o with
  | staged s => exact h.finish ..
  | duplicate =>
    simp only [Broker.continueRouting]
    split
    · exact h.notifies ..
    · exact h.finish ..
  | alreadyStaged => exact h.finish ..
  | disabled => exact h.finish ..

theorem attempt (h : AttemptsKeep R) (b : Broker) (call : Call) : R b (b.attempt call).1 := by
  have hstaged := h.stages b call.cache call.duplicateId call.owner
  unfold Broker.attempt
  split
  · rename_i heq
    rwa [heq] at hstaged
  · rename_i heq
    rw [heq] at hstaged
    split
    · exact hstaged
    · exact h.trans hstaged (h.continueRouting ..)

end AttemptsKeep

end MessageRouting.Broker
