import MessageRouting.Proofs.Binding.RunRegistries
import MessageRouting.Proofs.Routing.MessagePlacement

/-!
# Redistribution

Where redistributed messages go, read off the trace: outside any transaction to
one queue at most, at once; in a transaction to that queue when it commits, which
offers everything that has been registered with it, in order, and stops at the
first queue that refuses. Together with what runs are like without forwarded
messages.

Results:

* `offers_completion`: what completing a transaction offers to queues.
* `Listed.redistributes_now`, `Listed.redistributes_later`: what a redistribution
  offers to queues, and has offered later.
* `forwarding_unnoticed`: forwarded messages are not noticed by the rest of a run.
-/

namespace MessageRouting

/-- The queue that has been offered a message, and the message. -/
def Offer.place (o : Offer) : String × Nat := (o.queue, o.message)

/-- The queues that a delivery gives its message to, with the message. -/
def Operation.places : Operation → List (String × Nat)
  | .delivery d => d.delivery.routedQueues.map (·, d.delivery.message.id)
  | .hook _ => []

@[simp] theorem Operation.places_asGiven (op : Operation) : op.asGiven.places = op.places := by
  cases op <;> rfl

namespace Broker

/-- The queues that the deliveries of a transaction give their messages to, in order. -/
def places (b : Broker) (n : Nat) : List (String × Nat) :=
  (b.transaction n).operations.flatMap Operation.places

variable {b b' b'' : Broker} {n : Nat}

theorem places_given (b : Broker) (n : Nat) :
    (b.given n).flatMap Operation.places = b.places n := by
  simp [given, places, List.flatMap_map]

/-- Operations that come later have their places behind the others. -/
theorem Lengthens.places (h : Lengthens b b') (n : Nat) : b.places n <+: b'.places n := by
  obtain ⟨more, hmore⟩ := h.kept n
  rw [← places_given, ← places_given, ← hmore, List.flatMap_append]
  exact List.prefix_append ..

/-! ## What queues are offered -/

/-- From one broker to the other queues have been offered messages as `listed`: all of them, or the
first ones if it is not `done`. -/
structure Offers (b b' : Broker) (listed : List (String × Nat)) (done : Prop) : Prop where
  new : ∃ os, b'.offers = b.offers ++ os ∧ os.map Offer.place <+: listed ∧
    (done → os.map Offer.place = listed)

theorem offers_of_mail (h : b'.mail = b.mail) : b'.offers = b.offers := congrArg Prod.fst h

theorem offers_enqueue (b : Broker) (queue : String) (message : Nat) :
    (b.enqueue queue message).1.offers =
      b.offers ++ [⟨queue, message, (b.enqueue queue message).2⟩] :=
  congrArg Prod.fst (mail_enqueue b queue message)

theorem offers_withdrawAll (b : Broker) (message : Nat) (accepted : List String) :
    (b.withdrawAll message accepted).offers = b.offers :=
  congrArg Prod.fst (mail_withdrawAll b message accepted)

theorem Offers.of_offers (h : b'.offers = b.offers) (done : Prop) : Offers b b' [] done :=
  ⟨[], by rw [h, List.append_nil], List.nil_prefix, fun _ => rfl⟩

theorem Offers.mono {listed : List (String × Nat)} {done done' : Prop} (h : Offers b b' listed done)
    (himp : done' → done) : Offers b b' listed done' := by
  obtain ⟨os, hos, hfirst, hdone⟩ := h.new
  exact ⟨os, hos, hfirst, fun h => hdone (himp h)⟩

/-- Nothing is offered before. -/
theorem Offers.from_offers {listed : List (String × Nat)} {done : Prop}
    (h : Offers b b' listed done) (hb : b.offers = b''.offers) : Offers b'' b' listed done :=
  ⟨hb ▸ h.new⟩

/-- Nothing is offered afterwards. -/
theorem Offers.to_offers {listed : List (String × Nat)} {done : Prop}
    (h : Offers b b' listed done) (hb' : b''.offers = b'.offers) : Offers b b'' listed done :=
  ⟨hb' ▸ h.new⟩

theorem Offers.append {listed listed' : List (String × Nat)} {done : Prop}
    (h : Offers b b' listed True) (h' : Offers b' b'' listed' done) :
    Offers b b'' (listed ++ listed') done := by
  obtain ⟨os, hos, -, hall⟩ := h.new
  obtain ⟨os', hos', hfirst, hdone⟩ := h'.new
  refine ⟨os ++ os', by rw [hos', hos, List.append_assoc], ?_, fun h => ?_⟩
  · rw [List.map_append, hall trivial]
    exact (List.prefix_append_right_inj _).2 hfirst
  · rw [List.map_append, hall trivial, hdone h]

/-- What comes behind a failure is not offered. -/
theorem Offers.stop {listed : List (String × Nat)} {done : Prop} (h : Offers b b' listed done)
    (listed' : List (String × Nat)) : Offers b b' (listed ++ listed') False := by
  obtain ⟨os, hos, hfirst, -⟩ := h.new
  exact ⟨os, hos, hfirst.trans (List.prefix_append ..), False.elim⟩

theorem offers_enqueueFrom (b : Broker) (message : Nat) (accepted queues : List String) :
    Offers b (b.enqueueFrom message accepted queues).1 (queues.map (·, message))
      ((b.enqueueFrom message accepted queues).2.2 = .ok ()) := by
  induction queues generalizing b accepted with
  | nil => exact .of_offers rfl _
  | cons q rest ih =>
    have hoffered : Offers b (b.enqueue q message).1 [(q, message)] True :=
      ⟨_, offers_enqueue b q message, List.prefix_refl _, fun _ => rfl⟩
    simp only [enqueueFrom]
    split
    · rename_i heq
      rw [heq] at hoffered
      exact (hoffered.stop _).mono fun h => by cases h
    · rename_i heq
      rw [heq] at hoffered
      exact hoffered.append (ih _ _)

/-- What has been offered is not taken back from the trace, if a delivery fails. -/
theorem offers_deliver (b : Broker) (d : Delivery) :
    (b.deliver d).1.offers = (b.enqueueTargets d).1.offers := by
  have hfailed : ∀ (c : Broker) (accepted : List String),
      ((c.withdrawAll d.message.id accepted).rollbackDelivery d).offers = c.offers :=
    fun c accepted => (offers_of_mail (mail_rollbackDelivery ..)).trans (offers_withdrawAll ..)
  unfold deliver tryDelivery
  rcases b.enqueueTargets d with ⟨c, accepted, result⟩
  cases result with
  | error e => exact hfailed c accepted
  | ok _ =>
    have hpersist := offers_of_mail (mail_persist c d)
    dsimp only
    rcases hp : c.persist d with ⟨f, result⟩
    rw [hp] at hpersist
    cases result with
    | error e => exact (hfailed f accepted).trans hpersist
    | ok _ => exact (offers_of_mail (mail_commitDelivery ..)).trans hpersist

/-- A message for one queue is offered to that queue, at once. -/
theorem offers_deliver_single {d : Delivery} {q : String} (hd : d.routedQueues = [q]) :
    (b.deliver d).1.offers = b.offers ++ [⟨q, d.message.id, (b.mailbox q).refusal?⟩] := by
  have hrefusal : (b.enqueue q d.message.id).2 = (b.mailbox q).refusal? := by
    show ((b.mailbox q).enqueue d.message.id).2 = _
    unfold Mailbox.enqueue
    cases (b.mailbox q).refusal? <;> rfl
  have hlast : (b.enqueueTargets d).1 = (b.enqueue q d.message.id).1 := by
    rw [enqueueTargets, hd, enqueueFrom]
    split <;> simp [enqueueFrom, *]
  rw [offers_deliver, hlast, ← hrefusal]
  exact offers_enqueue b q d.message.id

/-! ## Operations called -/

theorem mail_addOperation (b : Broker) (n : Nat) (op : Operation) :
    (b.addOperation n op).1.mail = b.mail := by
  unfold addOperation
  split
  · exact mail_modifyTransaction ..
  · rfl

/-- In any phase but that before a commit, nothing is offered. -/
theorem callsKeep_offers (n : Nat) {phase : Phase} (hphase : phase ≠ .beforeCommit) :
    CallsKeep n phase fun b b' => b'.offers = b.offers where
  refl _ := rfl
  trans h h' := h'.trans h
  caches _ _ _ := rfl
  grants _ _ := offers_of_mail (mail_log rfl rfl)
  promotes _ _ _ := offers_of_mail (mail_log rfl rfl)
  drops _ _ := offers_of_mail (mail_log rfl rfl)
  wakes _ _ := rfl
  submits _ _ _ := offers_of_mail (mail_submitFor ..)
  writes _ _ _ := offers_of_mail (mail_log rfl rfl)
  withdraws b message queue := congrArg Prod.fst (mail_withdraw b message queue)
  enqueues h := absurd h hphase
  records _ _ := offers_of_mail (mail_modifyOperation ..)
  notes _ _ _ _ := offers_of_mail (mail_modifyOperation ..)
  hears _ _ _ := offers_of_mail (mail_log rfl rfl)
  acts _ _ _ _ _ := offers_of_mail (mail_log rfl rfl)
  marks _ _ := offers_of_mail (mail_modifyTransaction ..)
  registers _ _ := offers_of_mail (mail_addOperation ..)
  calls _ _ := offers_of_mail (mail_log rfl rfl)

theorem completionsKeep_offers (n : Nat) :
    CompletionsKeep n fun b b' => b'.offers = b.offers where
  phases _ hphase := callsKeep_offers n hphase
  states _ _ := offers_of_mail (mail_modifyTransaction ..)

theorem offers_placeDelivery (b : Broker) (n i : Nat) (d : PendingDelivery) :
    Offers b (b.placeDelivery n i d).1 (Operation.delivery d).places
      ((b.placeDelivery n i d).2 = .ok ()) := by
  have hoffered := offers_enqueueFrom b d.delivery.message.id [] d.delivery.routedQueues
  unfold placeDelivery enqueueTargets
  rcases henqueue : b.enqueueFrom d.delivery.message.id [] d.delivery.routedQueues with
    ⟨c, accepted, result⟩
  rw [henqueue] at hoffered
  have hnoted := hoffered.to_offers
    (offers_of_mail (mail_modifyOperation c n i fun d => { d with accepted }))
  cases result with
  | error e => exact hnoted.mono fun h => by cases h
  | ok _ =>
    exact (hnoted.mono fun _ => rfl).to_offers (offers_of_mail (mail_persist ..))

/-- Before a commit, an operation that is called offers what it has to place. -/
theorem offers_callOperation {i : Nat} {op : Operation}
    (hop : (b.transaction n).operations[i]? = some op) :
    Offers b (b.callOperation n .beforeCommit i).1 op.places
      ((b.callOperation n .beforeCommit i).2 = .ok ()) := by
  have hlog : (b.log (.called n i .beforeCommit)).offers = b.offers :=
    offers_of_mail (mail_log rfl rfl)
  simp only [callOperation, hop]
  cases op with
  | hook h =>
    -- Hooks do the same in every phase.
    have hphase : Phase.afterCommit ≠ .beforeCommit := by decide
    have hhooks := (callsKeep_offers n hphase).toHooksKeep
    exact (Offers.of_offers (hhooks.callHook ..) _).from_offers hlog
  | delivery d => exact (offers_placeDelivery ..).from_offers hlog

/-- Before a commit, the operations offer what they have to place, up to a failure. -/
theorem offers_callUntilFailure (done : List Operation) {ops : List Operation}
    (hops : done ++ ops <+: b.given n) :
    Offers b (b.callUntilFailure n .beforeCommit (List.range' done.length ops.length)).1
      (ops.flatMap Operation.places)
      ((b.callUntilFailure n .beforeCommit (List.range' done.length ops.length)).2 = .ok ()) := by
  -- Induction on the operations still to be called; calling one only adds behind all of them.
  induction ops generalizing b done with
  | nil => exact .of_offers rfl _
  | cons op rest ih =>
    have hat : (done ++ op :: rest)[done.length]? = some op := by simp
    obtain ⟨op', hop, hgiven⟩ := operation_of_given hops hat
    have hplaces : op'.places = op.places := by rw [← hgiven, Operation.places_asGiven]
    have hoffered := offers_callOperation hop
    have hkept := ((callsKeep_lengthens n .beforeCommit).callOperation b done.length).kept n
    simp only [List.length_cons, List.range'_succ, callUntilFailure, List.flatMap_cons]
    rcases hcall : b.callOperation n .beforeCommit done.length with ⟨c, result⟩
    rw [hcall] at hoffered hkept
    rw [hplaces] at hoffered
    cases result with
    | error e => exact (hoffered.stop _).mono fun h => by cases h
    | ok _ =>
      have hrest := ih (done ++ [op]) (b := c) (by simpa using hops.trans hkept)
      rw [List.length_append, List.length_singleton] at hrest
      exact (hoffered.mono fun _ => rfl).append hrest

/-! ## Completions -/

theorem offers_prepare (b : Broker) (n : Nat) : (b.prepare n).1.offers = b.offers :=
  (completionsKeep_offers n).prepare b

theorem offers_rollback (b : Broker) (n : Nat) : (b.rollback n).1.offers = b.offers :=
  (completionsKeep_offers n).rollback b

/-- What a commit of the transaction is to place: everything, unless it has been completed. -/
def due (b : Broker) (n : Nat) : List (String × Nat) :=
  if (b.transaction n).isLive then b.places n else []

/-- A commit offers what has been registered with the transaction, in order, up to a failure. -/
theorem offers_commit (b : Broker) (n : Nat) :
    Offers b (b.commit n).1 (b.due n) ((b.commit n).2 = .ok ()) := by
  have hnone : ∀ {c : Broker} {e : TransactionError}, c.offers = b.offers →
      Offers b c (b.due n) ((Except.error e : Except TransactionError Unit) = .ok ()) :=
    fun h => ((Offers.of_offers h True).stop _).mono fun h => by cases h
  unfold commit
  cases hrequire : (b.transaction n).require n [.active, .prepared] .commit with
  | error refusal => exact hnone rfl
  | ok _ =>
    have hlive : b.due n = b.places n := if_pos (isLive_of_require (by simp) hrequire)
    dsimp only
    split
    · rename_i heq
      exact hnone ((completionsKeep_offers n).undoDoomed heq)
    · have hindexes : b.operationIndexes n =
          List.range' ([] : List Operation).length (b.given n).length := by
        rw [operationIndexes, given, List.length_map, List.range_eq_range']
        rfl
      have hgiven : [] ++ b.given n <+: b.given n := List.prefix_refl _
      have hcalled := offers_callUntilFailure [] hgiven
      rw [places_given, ← hindexes, ← hlive] at hcalled
      rcases hcall : b.callUntilFailure n .beforeCommit (b.operationIndexes n) with ⟨c, result⟩
      rw [hcall] at hcalled
      cases result with
      | error e =>
        exact (hcalled.to_offers ((completionsKeep_offers n).undo c)).mono fun h => by cases h
      | ok _ =>
        exact (hcalled.mono fun _ => rfl).to_offers
          (((callsKeep_offers n (by decide)).callAll ..).trans
            ((completionsKeep_offers n).states ..))

theorem offers_setBranches (b : Broker) (desk : Option Nat) (t : Table Xid Nat) :
    (b.setBranches desk t).offers = b.offers := by
  cases desk <;> rfl

/-- What completing a transaction is to place: everything, if the request commits it. -/
def placements (b : Broker) : Command → List (String × Nat)
  | .commit n => b.due n
  | .commitBranch desk x => (((b.deskAt desk).branches.get? x).map b.due).getD []
  | _ => []

theorem offers_prepareBranch (b : Broker) (desk : Option Nat) (n : Nat) :
    (b.prepareBranch desk n).1.offers = b.offers := by
  have hprepared := offers_prepare b n
  unfold prepareBranch
  split
  · rename_i heq
    rwa [heq] at hprepared
  · rename_i heq
    rw [heq] at hprepared
    split
    · exact hprepared
    · exact (offers_setBranches ..).trans hprepared

theorem offers_rollbackBranch (b : Broker) (desk : Option Nat) (x : Xid) :
    (b.rollbackBranch desk x).1.offers = b.offers := by
  unfold rollbackBranch takeBranch
  split
  · rename_i heq
    split at heq <;> cases heq
    rfl
  · rename_i heq
    split at heq <;> cases heq
    exact (offers_rollback ..).trans (offers_setBranches ..)

theorem offers_commitBranch (b : Broker) (desk : Option Nat) (x : Xid) :
    Offers b (b.commitBranch desk x).1 (b.placements (.commitBranch desk x))
      ((b.commitBranch desk x).2 = .ok ()) := by
  cases hkept : (b.deskAt desk).branches.get? x with
  | none =>
    simp only [commitBranch, takeBranch, placements, hkept]
    exact .of_offers rfl _
  | some n =>
    simp only [commitBranch, takeBranch, placements, hkept]
    have hsame : (b.setBranches desk ((b.deskAt desk).branches.erase x)).due n = b.due n := by
      rw [due, due, places, places, setBranches,
        transaction_of_transactions (transactions_setDesk ..)]
    have hcommit := offers_commit (b.setBranches desk ((b.deskAt desk).branches.erase x)) n
    rw [hsame] at hcommit
    exact hcommit.from_offers (offers_setBranches ..)

/-- Completing a transaction offers what it is to place, in order and up to a failure, and nothing
else. -/
theorem offers_completion {c : Command} (hc : c.isCompletion = true) :
    Offers b (b.perform c).1 (b.placements c) ((b.perform c).2 = .done) := by
  have hdone : ∀ r : Except TransactionError Unit, Reply.ofCompletion r = .done → r = .ok () :=
    fun r h => by
      cases r with
      | ok _ => rfl
      | error e => cases h
  cases c with
  | prepare n => exact .of_offers (offers_prepare ..) _
  | commit n => exact (offers_commit b n).mono (hdone _)
  | rollback n => exact .of_offers (offers_rollback ..) _
  | prepareBranch desk n => exact .of_offers (offers_prepareBranch ..) _
  | commitBranch desk x => exact (offers_commitBranch b desk x).mono (hdone _)
  | rollbackBranch desk x => exact .of_offers (offers_rollbackBranch ..) _
  | _ => cases hc

end Broker

/-! ## Redistribution -/

/-- The queue that messages of a binding to the address are redistributed to: that of the first
suitable binding, unless it is the queue that they come from. -/
def Registry.outlet? (r : Registry) (name : String) (a : Address) : Option String :=
  (r.get? name).bind fun origin =>
    ((r.successor? origin a).map (·.queue)).filter (· ≠ origin.queue)

/-- The queue that a message has been redistributed to, as the reply tells. -/
def Reply.outlet? : Reply → Option String
  | .redistributed queue => queue
  | _ => none

namespace Broker

variable {b : Broker} {n t : Nat} {m : Message} {name : String} {transaction : Option Nat}

/-- A message is never redistributed to the queue that it comes from. -/
theorem outlet?_ne {r : Registry} {origin : Binding} (hget : r.get? name = some origin)
    (a : Address) : r.outlet? name a ≠ some origin.queue := by
  intro h
  rw [Registry.outlet?, hget] at h
  simpa using (Option.filter_eq_some_iff.1 h).2

/-- A redistribution sets out to deliver to the outlet, if there is one. -/
theorem Listed.forwarded (hb : b.Listed) (n : Nat) (m : Message) (name : String)
    (transaction : Option Nat) :
    (b.forwarded? (.redistribute n m name transaction)).map Delivery.routedQueues =
      ((b.office n).desk.registry.outlet? name m.address).map fun q => [q] := by
  have hsound : (b.office n).desk.registry.Sound := hb.sound (some n)
  cases hget : (b.office n).desk.registry.get? name with
  | none => simp [forwarded?, Registry.outlet?, hget]
  | some origin =>
    have htarget := hsound.redistributionTarget origin m.address
    cases hsuccessor : (b.office n).desk.registry.successor? origin m.address with
    | none => simp [forwarded?, Registry.outlet?, hget, htarget, hsuccessor]
    | some target =>
      by_cases hsame : target.queue = origin.queue
      · simp [forwarded?, Registry.outlet?, hget, htarget, hsuccessor, hsame]
      · simp [forwarded?, Registry.outlet?, hget, htarget, hsuccessor, hsame,
          Delivery.routedQueues]

/-- A redistribution dispatches a delivery to the outlet, or there is none and nothing happens. -/
theorem Listed.redistribute_cases (hb : b.Listed) (n : Nat) (m : Message) (name : String)
    (transaction : Option Nat) :
    (∃ d q, (b.office n).desk.registry.outlet? name m.address = some q ∧ d.message = m ∧
      d.stage = none ∧ d.routedQueues = [q] ∧
      b.perform (.redistribute n m name transaction) = (b.dispatch d transaction).map id fun
        | .ok () => .redistributed (some q)
        | .error e => .routingFailed e) ∨
    ((b.office n).desk.registry.outlet? name m.address = none ∧
      (b.perform (.redistribute n m name transaction)).1 = b ∧
      (b.perform (.redistribute n m name transaction)).2.outlet? = none) := by
  have houtlet := hb.forwarded n m name transaction
  rcases b.perform_redistribute n m name transaction with
    ⟨d, q, hd, hm, hstage, hqueues, heq⟩ | ⟨hnone, heq, hreply⟩
  · rw [hd, Option.map_some, hqueues] at houtlet
    obtain ⟨q', hq', hsame⟩ := Option.map_eq_some_iff.1 houtlet.symm
    obtain rfl := List.singleton_inj.1 hsame
    exact .inl ⟨d, q', hq', hm, hstage, hqueues, heq⟩
  · rw [hnone] at houtlet
    refine .inr ⟨Option.map_eq_none_iff.1 houtlet.symm, heq, ?_⟩
    cases hr : (b.perform (.redistribute n m name transaction)).2 with
    | redistributed queue =>
      cases queue with
      | none => rfl
      | some q => exact absurd hr (hreply q)
    | _ => rfl

/-- What comes of a redistribution in the transaction `t`, of the message `id` with that outlet. It
offers nothing itself. What it replies is the outlet, and whatever is asked later, of all the places
of the transaction it has added that one. Completing a transaction offers its places, and no
others. -/
structure RedistributesLater (b b' : Broker) (reply : Reply) (outlet : Option String) (id t : Nat) :
    Prop where
  silent : b'.offers = b.offers
  chosen : ∀ q, reply.outlet? = some q → outlet = some q
  registered : ∀ cs, ∃ more,
    (b'.run cs).places t = b.places t ++ reply.outlet?.toList.map (·, id) ++ more
  completed : ∀ cs c, c.isCompletion = true → Offers (b'.run cs) ((b'.run cs).perform c).1
    ((b'.run cs).placements c) (((b'.run cs).perform c).2 = .done)

/-- How a redistribution deals with queues. Outside any transaction the message is offered to the
outlet at once, and to no other queue; in a transaction it is when that commits. -/
structure Redistributes (b : Broker) (n : Nat) (m : Message) (name : String)
    (transaction : Option Nat) : Prop where
  elsewhere : ∀ origin, (b.office n).desk.registry.get? name = some origin →
    (b.office n).desk.registry.outlet? name m.address ≠ some origin.queue
  now : transaction = none → (b.perform (.redistribute n m name transaction)).1.offers =
    b.offers ++ ((b.office n).desk.registry.outlet? name m.address).toList.map fun q =>
      ⟨q, m.id, (b.mailbox q).refusal?⟩
  later : ∀ t, transaction = some t →
    RedistributesLater b (b.perform (.redistribute n m name transaction)).1
      (b.perform (.redistribute n m name transaction)).2
      ((b.office n).desk.registry.outlet? name m.address) m.id t

theorem Listed.redistributes_now (hb : b.Listed) (n : Nat) (m : Message) (name : String) :
    (b.perform (.redistribute n m name none)).1.offers =
      b.offers ++ ((b.office n).desk.registry.outlet? name m.address).toList.map fun q =>
        ⟨q, m.id, (b.mailbox q).refusal?⟩ := by
  rcases hb.redistribute_cases n m name none with
    ⟨d, q, hq, rfl, -, hqueues, heq⟩ | ⟨hq, heq, -⟩
  · rw [heq, hq]
    exact offers_deliver_single hqueues
  · rw [heq, hq]
    simp

/-- A delivery without a stage is registered with its transaction, behind what is there, or nothing
happens. -/
theorem dispatch_cases {d : Delivery} (hd : d.stage = none) :
    (∃ c, b.dispatch d (some t) = (c, .ok ()) ∧ c.offers = b.offers ∧
      c.places t = b.places t ++ d.routedQueues.map (·, d.message.id)) ∨
    ∃ e, b.dispatch d (some t) = (b, .error e) := by
  simp only [dispatch, addOperation, Transaction.addOperation]
  cases hrequire : (b.transaction t).require t [.active] .addOperation with
  | error refusal => exact .inr ⟨_, congrArg (·, _) (rollbackDelivery_unstaged hd b)⟩
  | ok _ =>
    have ht := has_of_isLive (isLive_of_require (by simp) hrequire)
    refine .inl ⟨_, rfl, offers_of_mail (mail_modifyTransaction ..), ?_⟩
    rw [places, transaction_modifyTransaction b t _ ht.1 ht.2, if_pos rfl, List.flatMap_append]
    simp [places, Operation.places]

theorem Listed.redistributes_later (hb : b.Listed) (n : Nat) (m : Message) (name : String)
    (t : Nat) :
    RedistributesLater b (b.perform (.redistribute n m name (some t))).1
      (b.perform (.redistribute n m name (some t))).2
      ((b.office n).desk.registry.outlet? name m.address) m.id t := by
  have hidle : ∀ reply : Reply, reply.outlet? = none → ∀ outlet,
      RedistributesLater b b reply outlet m.id t := fun reply hreply outlet =>
    { silent := rfl
      chosen := fun q hq => by rw [hreply] at hq; cases hq
      registered := fun cs => by
        obtain ⟨more, hmore⟩ := (lengthens_run b cs).places t
        exact ⟨more, by rw [hreply, ← hmore]; simp⟩
      completed := fun cs c hc => offers_completion hc }
  rcases hb.redistribute_cases n m name (some t) with
    ⟨d, q, hq, rfl, hstage, hqueues, heq⟩ | ⟨-, heq, hreply⟩
  · rcases dispatch_cases (b := b) (t := t) hstage with ⟨c, hc, hoffers, hplaces⟩ | ⟨e, hc⟩
    · rw [heq, hc]
      exact
        { silent := hoffers
          chosen := fun q' hq' => hq.trans hq'
          registered := fun cs => by
            obtain ⟨more, hmore⟩ := (lengthens_run c cs).places t
            rw [hplaces, hqueues] at hmore
            exact ⟨more, hmore.symm⟩
          completed := fun cs c' hc' => offers_completion hc' }
    · rw [heq, hc]
      exact hidle _ rfl _
  · rw [heq]
    exact hidle _ hreply _

theorem Listed.redistributes (hb : b.Listed) (n : Nat) (m : Message) (name : String)
    (transaction : Option Nat) : b.Redistributes n m name transaction where
  elsewhere _ hget := outlet?_ne hget m.address
  now h := h ▸ hb.redistributes_now n m name
  later t h := h ▸ hb.redistributes_later n m name t

/-! ## Runs -/

/-- Forwarded messages are not noticed in a run from the broker on: without them caches, journal and
post offices are the same, and what has been said of them, and so are all replies to the other
requests and all answers to calls that had to wait. -/
structure Unnoticed (b : Broker) (cs : List Command) : Prop where
  caches : (b.run (Command.others cs)).caches = (b.run cs).caches
  storage : (b.run (Command.others cs)).storage = (b.run cs).storage
  offices : (b.run (Command.others cs)).offices = (b.run cs).offices
  trace : (b.run (Command.others cs)).trace.filter Event.isCore =
    (b.run cs).trace.filter Event.isCore
  outcomes : b.outcomes (Command.others cs) = b.otherOutcomes cs

/-- Where queues always accept or always refuse, and what is forwarded in a transaction goes to
queues that accept, forwarded messages are not noticed in a run, whatever identifiers they carry. In
any run forwarding is answered at once and leaves everything but queues and transactions as it is,
and a redistributed message is offered to its outlet only. -/
theorem forwarding_unnoticed (mailboxes : Table String Mailbox) (storage : Storage)
    (cs : List Command) :
    let b : Broker := { mailboxes, storage }
    ((∀ q, (b.mailbox q).Steadfast) → b.Throughout (fun b c => b.permits c = true) cs →
      b.Unnoticed cs) ∧
    (∀ s ∈ b.steps cs, s.2.isForwarding = true →
      (s.1.perform s.2).2 ≠ .waiting ∧ (s.1.perform s.2).1.core = s.1.core) ∧
    ∀ s ∈ b.steps cs, ∀ n m name transaction, s.2 = .redistribute n m name transaction →
      s.1.Redistributes n m name transaction := by
  intro b
  refine ⟨fun hqueues hcs => ?_, fun s _ hc => ⟨forwarding_answers hc, core_forwarding hc⟩,
    fun s hs n m name transaction _ => ?_⟩
  · obtain ⟨hakin, houtcomes⟩ := akin_run (akin_self hqueues) hcs
    exact ⟨hakin.caches, hakin.storage, hakin.offices, congrArg Broker.trace hakin.core, houtcomes⟩
  · have hlisted : b.Listed := ⟨fun d => by cases d <;> exact Registry.sound_empty⟩
    exact (listed_steps hlisted s hs).redistributes n m name transaction

def oneFull : Table String Mailbox := ({} : Table String Mailbox).insert "full" { mode := .full }

def nearBinding : Binding where
  name := "near"
  address := ⟨"orders"⟩
  routingName := "west"
  queue := "near"

/-- Messages with visible and with pending identifiers are forwarded at once, in a transaction and
in a branch, while a send waits. Of the remote bindings, the first one has the queue `away`. -/
def busyForwarding : List Command :=
  [.start (laterSettings 4), .bind (some 0) nearBinding,
    .bind (some 0) { nearBinding with name := "away", kind := .remoteQueue, queue := "away" },
    .bind (some 0) { nearBinding with name := "beyond", kind := .remoteQueue, queue := "beyond" },
    .bind (some 0) { nearBinding with name := "bill", address := ⟨"bills"⟩ },
    .bind (some 0)
      { nearBinding with name := "full", address := ⟨"bills"⟩, kind := .remoteQueue, queue := "full" },
    .route 0 0 (messageTo "orders" 1) none true, .begin none, .begin none,
    .route 0 1 (messageTo "orders" 2) (some 1) true,
    .route 0 2 (messageTo "orders" 3) (some 2) true,
    .route 0 3 (messageTo "orders" 3) none true,
    .redistribute 0 (messageTo "orders" 1) "near" none,
    .reroute 0 (messageTo "orders" 2) "near" (some 1),
    .redistribute 0 (messageTo "orders" 3) "near" (some 1),
    .redistribute 0 (messageTo "bills" 4) "bill" none,
    .rollback 2, .settle, .commit 1, .begin (some exampleXid),
    .redistribute 0 (messageTo "orders" 5) "near" (some 3),
    .prepareBranch (some 0) 3, .commitBranch (some 0) exampleXid]

theorem forwarding_unnoticed_busy :
    let b : Broker := { mailboxes := oneFull }
    (∀ q, (b.mailbox q).Steadfast) ∧
    b.Throughout (fun b c => b.permits c = true) busyForwarding ∧
    b.Unnoticed busyForwarding ∧
    (∀ s ∈ b.steps busyForwarding, s.2.isForwarding = true →
      (s.1.perform s.2).2 ≠ .waiting ∧ (s.1.perform s.2).1.core = s.1.core) ∧
    (∀ s ∈ b.steps busyForwarding, ∀ n m name transaction,
      s.2 = .redistribute n m name transaction → s.1.Redistributes n m name transaction) ∧
    ((b.steps busyForwarding).filter (·.2.isForwarding)).map (fun s => (s.1.perform s.2).2) =
      [.redistributed (some "away"), .answered (.routed { queues := ["near"] }),
        .redistributed (some "away"), .routingFailed (.queueRefused "full" .full),
        .redistributed (some "away")] ∧
    (b.run busyForwarding).offers.map Offer.place =
      [("near", 1), ("away", 1), ("beyond", 1), ("away", 1), ("full", 4), ("near", 3), ("away", 3),
        ("beyond", 3), ("near", 2), ("away", 2), ("beyond", 2), ("near", 2), ("away", 3),
        ("away", 5)] := by
  intro b
  have hqueues : ∀ q, (b.mailbox q).Steadfast := by
    intro q
    rw [mailbox, show b.mailboxes = oneFull from rfl, oneFull, Table.get?_insert]
    split
    · decide
    · exact (by decide : Mailbox.Steadfast {})
  have hpermits : b.Throughout (fun b c => b.permits c = true) busyForwarding := by decide +kernel
  obtain ⟨hunnoticed, hprompt, hredistributes⟩ := forwarding_unnoticed oneFull {} busyForwarding
  exact ⟨hqueues, hpermits, hunnoticed hqueues hpermits, hprompt, hredistributes,
    by decide +kernel, by decide +kernel⟩

end Broker

end MessageRouting
