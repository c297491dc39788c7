import MessageRouting.Proofs.Broker.StepInvariants

/-!
# What completions leave alone

Completing a transaction, an attempt to stage, and delivering a message are no
business of callers that wait, of desks, or of sends that have still to be
numbered. Only resuming a call writes an answer, only bindings and branches
change a desk, and only a send outside any transaction draws a number.

Results:

* `fixtures_commit`, `fixtures_rollback`, `fixtures_prepare`,
  `fixtures_submitCall`: completions and attempts leave all this as it is.
-/

namespace MessageRouting

/-- Whether the event is the answer of a call. -/
def Event.isAnswer : Event → Bool
  | .answered _ _ => true
  | _ => false

namespace Broker

/-- The answers of calls that had to wait, the desks, and the next numbers of sends. -/
def fixtures (b : Broker) : List Event × Desk × List (Nat × Desk) :=
  (b.trace.filter Event.isAnswer, b.desk, b.offices.map fun o => (o.nextOwner, o.desk))

theorem deskAt_of_fixtures {b b' : Broker} (h : b'.fixtures = b.fixtures) (n : Option Nat) :
    b'.deskAt n = b.deskAt n := by
  obtain ⟨-, h⟩ := Prod.mk.inj h
  obtain ⟨hdesk, hoffices⟩ := Prod.mk.inj h
  cases n with
  | none => exact hdesk
  | some n =>
    have hoffice := congrArg (fun l => l[n]?) hoffices
    simp only [List.getElem?_map] at hoffice
    simp only [deskAt, office, List.getD_eq_getElem?_getD]
    cases hb' : b'.offices[n]? <;> cases hb : b.offices[n]? <;> simp_all

/-! ## Single changes -/

theorem fixtures_log {b : Broker} {e : Event} (h : e.isAnswer = false) :
    (b.log e).fixtures = b.fixtures := by
  simp [log, fixtures, h]

theorem fixtures_modifyOffice (b : Broker) (n : Nat) {f : Office → Office}
    (h : ∀ o, (f o).nextOwner = o.nextOwner ∧ (f o).desk = o.desk) :
    (b.modifyOffice n f).fixtures = b.fixtures := by
  have hsame : (b.offices.modify n f).map (fun o => (o.nextOwner, o.desk)) =
      b.offices.map fun o => (o.nextOwner, o.desk) := by
    refine List.ext_getElem? fun i => ?_
    simp only [List.getElem?_map, List.getElem?_modify]
    cases b.offices[i]? with
    | none => rfl
    | some o =>
      split
      · exact congrArg some (Prod.ext (h o).1 (h o).2)
      · rfl
  simp only [modifyOffice, fixtures, hsame]

theorem fixtures_notify (b : Broker) (n : Nat) (what : Notification) :
    (b.notify n what).fixtures = b.fixtures := fixtures_modifyOffice b n fun _ => ⟨rfl, rfl⟩

theorem fixtures_modifyTransaction (b : Broker) (n : Nat) (f : Transaction → Transaction) :
    (b.modifyTransaction n f).fixtures = b.fixtures := by
  cases n <;> rfl

theorem fixtures_openOfficeCache (b : Broker) (n : Nat) (a : Address) :
    (b.openOfficeCache n a).fixtures = b.fixtures := by
  unfold openOfficeCache openCache
  split <;> rfl

theorem fixtures_write (b : Broker) (caller : JournalCaller) (e : Entry) :
    (b.write caller e).1.fixtures = b.fixtures := by
  simp only [write]
  rw [fixtures_log rfl]
  rfl

theorem fixtures_submitFor (b : Broker) (ref : CacheRef) (e : Entry) :
    (b.submitFor ref e).fixtures = b.fixtures := by
  cases ref with
  | standalone n => rfl
  | office n a => exact fixtures_modifyOffice b n fun _ => ⟨rfl, rfl⟩

theorem fixtures_writeNext (b : Broker) (n : Nat) : (b.writeNext n).fixtures = b.fixtures := by
  unfold writeNext
  split
  · rfl
  · exact (fixtures_write ..).trans (fixtures_modifyOffice b n fun _ => ⟨rfl, rfl⟩)

/-! ## Deliveries -/

theorem deliveringKeeps_fixtures : DeliveringKeeps fun b b' => b'.fixtures = b.fixtures where
  refl _ := rfl
  trans h h' := h'.trans h
  caches _ _ _ := rfl
  grants _ _ := fixtures_log rfl
  promotes _ _ _ := fixtures_log rfl
  drops _ _ := fixtures_log rfl
  wakes _ _ := rfl
  submits := fixtures_submitFor
  writes := fixtures_write
  withdraws _ _ _ := fixtures_log rfl
  enqueues _ _ _ := fixtures_log rfl

theorem fixtures_deliver (b : Broker) (d : Delivery) : (b.deliver d).1.fixtures = b.fixtures :=
  deliveringKeeps_fixtures.deliver b d

theorem fixtures_addOperation (b : Broker) (n : Nat) (op : Operation) :
    (b.addOperation n op).1.fixtures = b.fixtures := by
  unfold addOperation
  split
  · exact fixtures_modifyTransaction ..
  · rfl

/-! ## Completions -/

theorem callsKeep_fixtures (n : Nat) (phase : Phase) :
    CallsKeep n phase fun b b' => b'.fixtures = b.fixtures :=
  { deliveringKeeps_fixtures.toReturningKeeps with
    enqueues := fun _ => deliveringKeeps_fixtures.enqueues
    records := fun _ _ => fixtures_modifyTransaction ..
    notes := fun _ _ _ _ => fixtures_modifyTransaction ..
    hears := fun _ _ _ => fixtures_log rfl
    acts := fun _ _ _ _ _ => fixtures_log rfl
    marks := fun _ _ => fixtures_modifyTransaction ..
    registers := fun _ _ => fixtures_addOperation ..
    calls := fun _ _ => fixtures_log rfl }

theorem completionsKeep_fixtures (n : Nat) :
    CompletionsKeep n fun b b' => b'.fixtures = b.fixtures where
  phases phase _ := callsKeep_fixtures n phase
  states _ _ := fixtures_modifyTransaction ..

theorem fixtures_commit (b : Broker) (n : Nat) : (b.commit n).1.fixtures = b.fixtures :=
  (completionsKeep_fixtures n).commit (callsKeep_fixtures n _) b

theorem fixtures_rollback (b : Broker) (n : Nat) : (b.rollback n).1.fixtures = b.fixtures :=
  (completionsKeep_fixtures n).rollback b

theorem fixtures_prepare (b : Broker) (n : Nat) : (b.prepare n).1.fixtures = b.fixtures :=
  (completionsKeep_fixtures n).prepare b

/-! ## Attempts -/

theorem fixtures_dispatch (b : Broker) (d : Delivery) (transaction : Option Nat) :
    (b.dispatch d transaction).1.fixtures = b.fixtures := by
  cases transaction with
  | none => exact fixtures_deliver b d
  | some n =>
    have h := fixtures_addOperation b n (.delivery { delivery := d })
    simp only [dispatch]
    split
    · rename_i heq
      rw [heq] at h
      exact h
    · rename_i heq
      rw [heq] at h
      exact (deliveringKeeps_fixtures.rollbackDelivery ..).trans h

theorem fixtures_submitCall (b : Broker) (c : Call) : (b.submitCall c).1.fixtures = b.fixtures := by
  have hattempts : AttemptsKeep fun b b' => b'.fixtures = b.fixtures :=
    { trans := fun h h' => h'.trans h
      stages := deliveringKeeps_fixtures.attemptStage
      notifies := fixtures_notify
      dispatches := fixtures_dispatch }
  have h := hattempts.attempt b c
  unfold submitCall
  rcases hattempt : b.attempt c with ⟨b', answer⟩
  rw [hattempt] at h
  cases answer <;> exact h

end Broker

end MessageRouting
