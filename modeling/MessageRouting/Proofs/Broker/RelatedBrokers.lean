import MessageRouting.Broker.Command

/-!
# Brokers abreast

Two brokers that are asked the same, and that are related by showing the same
desks, caches and calls, stay related and answer alike. It is enough to see that
of what requests are made of: of stages, deliveries and completions, and of
changes to desks, calls and transactions. How requests are put together from
these does not depend on the relation.

Results:

* `StayAbreast.route`: sends fare the same at both brokers.
* `StayAbreast.resumeSome`: so do calls that try again.
* `StayAbreast.prepareBranch` and its like: so do branches.
-/

namespace MessageRouting.Broker

variable {R : Broker → Broker → Prop} {b b' : Broker} {α β : Type}

/-- Two brokers that are still related, and the same answer from both. -/
structure Abreast (R : Broker → Broker → Prop) (r r' : Broker × α) : Prop where
  related : R r.1 r'.1
  answer : r'.2 = r.2

theorem abreast (h : R b b') (a : α) : Abreast R (b, a) (b', a) := ⟨h, rfl⟩

theorem Abreast.split {r r' : Broker × α} (h : Abreast R r r') :
    ∃ c c' a, r = (c, a) ∧ r' = (c', a) ∧ R c c' :=
  ⟨r.1, r'.1, r.2, rfl, Prod.ext rfl h.answer, h.related⟩

theorem Abreast.map {r r' : Broker × α} (h : Abreast R r r') (f : α → β) :
    Abreast R (r.map id f) (r'.map id f) := ⟨h.related, congrArg f h.answer⟩

/-! ## Stages and queues -/

/-- Writes an entry before a commit, in mandatory mode. -/
def inlined (b : Broker) (ref : CacheRef) (e : Entry) : Broker × Except JournalError Unit :=
  match b.persistenceOf ref with
  | some .mandatory => b.write .inline e
  | _ => (b, .ok ())

/-- Hands an entry to the writer after a commit, in async mode. -/
def handed (b : Broker) (ref : CacheRef) (e : Entry) : Broker :=
  match b.persistenceOf ref with
  | some .async => b.submitFor ref e
  | _ => b

/-- A relation of two brokers that is kept by the writes of which stages and placed messages are
made, if they are done to both, and shows what decides about them. -/
structure StagesAbreast (R : Broker → Broker → Prop) : Prop where
  cache : ∀ {b b'}, R b b' → ∀ ref, b'.cache ref = b.cache ref
  xid : ∀ {b b'}, R b b' → ∀ n, (b'.transaction n).xid = (b.transaction n).xid
  setCache : ∀ {b b'}, R b b' → ∀ ref c, R (b.setCache ref c) (b'.setCache ref c)
  grant : ∀ {b b'}, R b b' → ∀ g, R (b.log (.granted g)) (b'.log (.granted g))
  promote : ∀ {b b'}, R b b' → ∀ g p, R (b.log (.promoted g p)) (b'.log (.promoted g p))
  drop : ∀ {b b'}, R b b' → ∀ g, R (b.log (.dropped g)) (b'.log (.dropped g))
  wake : ∀ {b b'}, R b b' → ∀ ref, R (b.wake ref) (b'.wake ref)
  submitFor : ∀ {b b'}, R b b' → ∀ ref e, R (b.submitFor ref e) (b'.submitFor ref e)
  inlined : ∀ {b b'}, R b b' → ∀ ref e, Abreast R (b.inlined ref e) (b'.inlined ref e)
  handed : ∀ {b b'}, R b b' → ∀ ref e, R (b.handed ref e) (b'.handed ref e)
  enqueue : ∀ {b b'}, R b b' → ∀ queue message,
    Abreast R (b.enqueue queue message) (b'.enqueue queue message)
  withdraw : ∀ {b b'}, R b b' → ∀ message queue,
    R (b.withdraw message queue) (b'.withdraw message queue)

namespace StagesAbreast

variable (hR : StagesAbreast R)
include hR

theorem attemptStage (h : R b b') (ref : CacheRef) (id : Bytes) (owner : Owner) :
    Abreast R (b.attemptStage ref id owner) (b'.attemptStage ref id owner) := by
  unfold Broker.attemptStage
  rw [hR.cache h]
  split
  · exact abreast (hR.grant (hR.setCache h ..) _) _
  · exact abreast h _

theorem persistStage (h : R b b') (g : HeldStage) :
    Abreast R (b.persistStage g) (b'.persistStage g) := by
  unfold Broker.persistStage
  rw [hR.cache h]
  rcases (b.cache g.cache).drawKey g.staged with ⟨key, c⟩
  cases key with
  | none => exact abreast h _
  | some key => exact hR.inlined (hR.setCache h g.cache c) g.cache (.add (g.staged.recordAt key))

theorem commitStage (h : R b b') (g : HeldStage) : R (b.commitStage g) (b'.commitStage g) := by
  have hprune : ∀ (evicted : List (Nat × Bytes)) (a : Address) {c c' : Broker}, R c c' →
      R (evicted.foldl (fun b e => b.submitFor g.cache (.prune a e.1)) c)
        (evicted.foldl (fun b e => b.submitFor g.cache (.prune a e.1)) c') := by
    intro evicted a
    induction evicted with
    | nil => exact fun hc => hc
    | cons e rest ih => exact fun hc => ih (hR.submitFor hc ..)
  unfold Broker.commitStage
  rw [hR.cache h]
  rcases (b.cache g.cache).commit g.staged with ⟨p, c⟩
  cases p with
  | none => exact h
  | some p =>
    have hpromoted := hR.wake (hR.promote (hR.setCache h g.cache c) g p) g.cache
    exact hprune p.evicted c.address
      (hR.handed hpromoted g.cache (.add (g.staged.recordAt p.key)))

theorem rollbackStage (h : R b b') (g : HeldStage) :
    R (b.rollbackStage g) (b'.rollbackStage g) := by
  unfold Broker.rollbackStage
  rw [hR.cache h]
  split
  · exact h
  · exact hR.wake (hR.drop (hR.setCache h ..) g) _

theorem persist (h : R b b') (d : Delivery) : Abreast R (b.persist d) (b'.persist d) := by
  unfold Broker.persist
  split
  · exact abreast h _
  · rename_i g _
    obtain ⟨c, c', result, hb, hb', hc⟩ := (hR.persistStage h g).split
    rw [hb, hb']
    cases result <;> exact abreast hc _

theorem commitDelivery (h : R b b') (d : Delivery) :
    R (b.commitDelivery d) (b'.commitDelivery d) := by
  unfold Broker.commitDelivery
  split
  · exact hR.commitStage h _
  · exact h

theorem rollbackDelivery (h : R b b') (d : Delivery) :
    R (b.rollbackDelivery d) (b'.rollbackDelivery d) := by
  unfold Broker.rollbackDelivery
  split
  · exact hR.rollbackStage h _
  · exact h

theorem forgetPrepared (h : R b b') (n : Nat) (d : PendingDelivery) :
    R (b.forgetPrepared n d) (b'.forgetPrepared n d) := by
  unfold Broker.forgetPrepared
  rw [hR.xid h]
  split
  · split
    · exact hR.submitFor h ..
    · exact h
  · exact h

theorem enqueueFrom (h : R b b') (message : Nat) (accepted queues : List String) :
    Abreast R (b.enqueueFrom message accepted queues)
      (b'.enqueueFrom message accepted queues) := by
  induction queues generalizing b b' accepted with
  | nil => exact abreast h _
  | cons q rest ih =>
    obtain ⟨c, c', refusal, hb, hb', hc⟩ := (hR.enqueue h q message).split
    simp only [Broker.enqueueFrom, hb, hb']
    cases refusal with
    | some refusal => exact abreast hc _
    | none => exact ih hc _

theorem withdrawAll (h : R b b') (message : Nat) (accepted : List String) :
    R (b.withdrawAll message accepted) (b'.withdrawAll message accepted) := by
  unfold Broker.withdrawAll
  induction accepted.reverse generalizing b b' with
  | nil => exact h
  | cons q rest ih => exact ih (hR.withdraw h message q)

end StagesAbreast

/-! ## Requests -/

/-- A relation of two brokers that is kept by what requests are made of, if it is done to both, and
shows whatever decides how they go on. -/
structure StayAbreast (R : Broker → Broker → Prop) : Prop extends StagesAbreast R where
  deskAt : ∀ {b b'}, R b b' → ∀ desk, b'.deskAt desk = b.deskAt desk
  detectedId : ∀ {b b'}, R b b' → ∀ n m, b'.detectedId n m = b.detectedId n m
  nextOwner : ∀ {b b'}, R b b' → ∀ n, (b'.office n).nextOwner = (b.office n).nextOwner
  waiting : ∀ {b b'}, R b b' → b'.waiting = b.waiting
  ready : ∀ {b b'}, R b b' → b'.ready = b.ready
  openMailbox : ∀ {b b'}, R b b' → ∀ queue, R (b.openMailbox queue) (b'.openMailbox queue)
  setDesk : ∀ {b b'}, R b b' → ∀ desk d, R (b.setDesk desk d) (b'.setDesk desk d)
  notify : ∀ {b b'}, R b b' → ∀ n what, R (b.notify n what) (b'.notify n what)
  draw : ∀ {b b'}, R b b' → ∀ n,
    R (b.modifyOffice n fun o => { o with nextOwner := o.nextOwner + 1 })
      (b'.modifyOffice n fun o => { o with nextOwner := o.nextOwner + 1 })
  openOfficeCache : ∀ {b b'}, R b b' → ∀ n a, R (b.openOfficeCache n a) (b'.openOfficeCache n a)
  wait : ∀ {b b'}, R b b' → ∀ call, R { b with waiting := b.waiting ++ [call] }
    { b' with waiting := b'.waiting ++ [call] }
  retry : ∀ {b b'}, R b b' → ∀ calls, R { b with ready := calls } { b' with ready := calls }
  reply : ∀ {b b'}, R b b' → ∀ ticket answer,
    R (b.log (.answered ticket answer)) (b'.log (.answered ticket answer))
  addOperation : ∀ {b b'}, R b b' → ∀ n op,
    Abreast R (b.addOperation n op) (b'.addOperation n op)
  rollbackOnly : ∀ {b b'}, R b b' → ∀ n,
    (b'.transaction n).rollbackOnly = (b.transaction n).rollbackOnly
  state : ∀ {b b'}, R b b' → ∀ n, (b'.transaction n).state = (b.transaction n).state
  setState : ∀ {b b'}, R b b' → ∀ n s, R (b.setState n s) (b'.setState n s)
  undo : ∀ {b b'}, R b b' → ∀ n, R (b.undo n) (b'.undo n)
  /-- The operations that are registered when a phase begins may stand elsewhere at the other
  broker. -/
  callUntilFailure : ∀ {b b'}, R b b' → ∀ n phase,
    Abreast R (b.callUntilFailure n phase (b.operationIndexes n))
      (b'.callUntilFailure n phase (b'.operationIndexes n))
  /-- After a commit those are told that have been registered before it. -/
  conclude : ∀ {b b'}, R b b' → ∀ n,
    R (((b.callUntilFailure n .beforeCommit (b.operationIndexes n)).1.setState n
        .committed).callAll n .afterCommit (b.operationIndexes n))
      (((b'.callUntilFailure n .beforeCommit (b'.operationIndexes n)).1.setState n
        .committed).callAll n .afterCommit (b'.operationIndexes n))

namespace StayAbreast

variable (hR : StayAbreast R)
include hR

/-! ## Desks -/

theorem setRegistry (h : R b b') (desk : Option Nat) (r : Registry) :
    R (b.setRegistry desk r) (b'.setRegistry desk r) := by
  rw [Broker.setRegistry, Broker.setRegistry, hR.deskAt h]
  exact hR.setDesk h desk _

theorem setBranches (h : R b b') (desk : Option Nat) (t : Table Xid Nat) :
    R (b.setBranches desk t) (b'.setBranches desk t) := by
  rw [Broker.setBranches, Broker.setBranches, hR.deskAt h]
  exact hR.setDesk h desk _

theorem bind (h : R b b') (desk : Option Nat) (binding : Binding) :
    Abreast R (b.bind desk binding) (b'.bind desk binding) := by
  have hopened := hR.openMailbox h binding.queue
  unfold Broker.bind
  dsimp only
  rw [hR.deskAt hopened]
  split
  · exact abreast hopened _
  · cases desk with
    | none => exact abreast (hR.setRegistry hopened ..) _
    | some n => exact abreast (hR.notify (hR.setRegistry hopened ..) ..) _

theorem unbind (h : R b b') (desk : Option Nat) (name : String) :
    Abreast R (b.unbind desk name) (b'.unbind desk name) := by
  unfold Broker.unbind
  rw [hR.deskAt h]
  split
  · exact abreast h _
  · cases desk with
    | none => exact abreast (hR.setRegistry h ..) _
    | some n => exact abreast (hR.notify (hR.setRegistry h ..) ..) _

theorem resolve (h : R b b') (desk : Option Nat) (a : Address) (create : Bool) :
    Abreast R (b.resolve desk a create) (b'.resolve desk a create) := by
  unfold Broker.resolve
  rw [hR.deskAt h]
  exact abreast (hR.setRegistry h ..) _

/-! ## Completions -/

theorem require (h : R b b') (n : Nat) (allowed : List TransactionState)
    (request : TransactionRequest) :
    (b'.transaction n).require n allowed request = (b.transaction n).require n allowed request := by
  unfold Transaction.require
  rw [hR.state h]

/-- Both are doomed, or neither. -/
theorem undoDoomed (h : R b b') (n : Nat) :
    (b.undoDoomed? n = none ∧ b'.undoDoomed? n = none) ∨
      ∃ c c' e, b.undoDoomed? n = some (c, e) ∧ b'.undoDoomed? n = some (c', e) ∧ R c c' := by
  unfold undoDoomed?
  rw [hR.rollbackOnly h]
  cases (b.transaction n).rollbackOnly with
  | none => exact Or.inl ⟨rfl, rfl⟩
  | some reason => exact Or.inr ⟨_, _, _, rfl, rfl, hR.undo h n⟩

theorem prepare (h : R b b') (n : Nat) : Abreast R (b.prepare n) (b'.prepare n) := by
  unfold Broker.prepare
  rw [hR.xid h, hR.require h]
  split
  · exact abreast h _
  · split
    · exact abreast h _
    · rcases hR.undoDoomed h n with ⟨hb, hb'⟩ | ⟨c, c', e, hb, hb', hc⟩
      · rw [hb, hb']
        obtain ⟨c, c', result, hcall, hcall', hc⟩ :=
          (hR.callUntilFailure h n .beforePrepare).split
        simp only [hcall, hcall']
        cases result with
        | error e => exact abreast (hR.undo hc n) _
        | ok _ => exact abreast (hR.setState hc n _) _
      · rw [hb, hb']
        exact abreast hc _

theorem commit (h : R b b') (n : Nat) : Abreast R (b.commit n) (b'.commit n) := by
  unfold Broker.commit
  rw [hR.require h]
  split
  · exact abreast h _
  · rcases hR.undoDoomed h n with ⟨hb, hb'⟩ | ⟨c, c', e, hb, hb', hc⟩
    · have hconcluded := hR.conclude h n
      rw [hb, hb']
      obtain ⟨c, c', result, hcall, hcall', hc⟩ := (hR.callUntilFailure h n .beforeCommit).split
      rw [hcall, hcall'] at hconcluded
      simp only [hcall, hcall']
      cases result with
      | error e => exact abreast (hR.undo hc n) _
      | ok _ => exact abreast hconcluded _
    · rw [hb, hb']
      exact abreast hc _

theorem rollback (h : R b b') (n : Nat) : Abreast R (b.rollback n) (b'.rollback n) := by
  unfold Broker.rollback
  rw [hR.require h]
  split
  · exact abreast h _
  · exact abreast (hR.undo h n) _

/-! ## Branches -/

theorem prepareBranch (h : R b b') (desk : Option Nat) (n : Nat) :
    Abreast R (b.prepareBranch desk n) (b'.prepareBranch desk n) := by
  obtain ⟨c, c', result, hb, hb', hc⟩ := (hR.prepare h n).split
  simp only [Broker.prepareBranch, hb, hb']
  cases result with
  | error e => exact abreast hc _
  | ok _ =>
    dsimp only
    rw [hR.xid hc, hR.deskAt hc]
    cases (c.transaction n).xid with
    | none => exact abreast hc _
    | some x => exact abreast (hR.setBranches hc ..) _

theorem takeBranch (h : R b b') (desk : Option Nat) (x : Xid) :
    Abreast R (b.takeBranch desk x) (b'.takeBranch desk x) := by
  unfold Broker.takeBranch
  rw [hR.deskAt h]
  split
  · exact abreast h _
  · exact abreast (hR.setBranches h ..) _

theorem commitBranch (h : R b b') (desk : Option Nat) (x : Xid) :
    Abreast R (b.commitBranch desk x) (b'.commitBranch desk x) := by
  obtain ⟨c, c', result, hb, hb', hc⟩ := (hR.takeBranch h desk x).split
  simp only [Broker.commitBranch, hb, hb']
  cases result with
  | error e => exact abreast hc _
  | ok n => exact hR.commit hc n

theorem rollbackBranch (h : R b b') (desk : Option Nat) (x : Xid) :
    Abreast R (b.rollbackBranch desk x) (b'.rollbackBranch desk x) := by
  obtain ⟨c, c', result, hb, hb', hc⟩ := (hR.takeBranch h desk x).split
  simp only [Broker.rollbackBranch, hb, hb']
  cases result with
  | error e => exact abreast hc _
  | ok n => exact hR.rollback hc n

/-! ## Deliveries -/

theorem tryDelivery (h : R b b') (d : Delivery) :
    Abreast R (b.tryDelivery d) (b'.tryDelivery d) := by
  obtain ⟨c, c', ⟨accepted, result⟩, hb, hb', hc⟩ :=
    (hR.enqueueFrom h d.message.id [] d.routedQueues).split
  simp only [Broker.tryDelivery, enqueueTargets, hb, hb']
  cases result with
  | error e => exact abreast hc _
  | ok _ => exact (hR.persist hc d).map (accepted, ·)

theorem deliver (h : R b b') (d : Delivery) : Abreast R (b.deliver d) (b'.deliver d) := by
  obtain ⟨c, c', ⟨accepted, result⟩, hb, hb', hc⟩ := (hR.tryDelivery h d).split
  simp only [Broker.deliver, hb, hb']
  cases result with
  | error e => exact abreast (hR.rollbackDelivery (hR.withdrawAll hc ..) d) _
  | ok _ => exact abreast (hR.commitDelivery hc d) _

theorem dispatch (h : R b b') (d : Delivery) (transaction : Option Nat) :
    Abreast R (b.dispatch d transaction) (b'.dispatch d transaction) := by
  cases transaction with
  | none => exact hR.deliver h d
  | some n =>
    obtain ⟨c, c', result, hb, hb', hc⟩ :=
      (hR.addOperation h n (.delivery { delivery := d })).split
    simp only [Broker.dispatch, hb, hb']
    cases result with
    | error e => exact abreast (hR.rollbackDelivery hc d) _
    | ok _ => exact abreast hc _

/-! ## Calls -/

theorem finish (h : R b b') (r : Routing) (staged acceptedDuplicate : Bool) :
    Abreast R (b.finish r staged acceptedDuplicate) (b'.finish r staged acceptedDuplicate) := by
  obtain ⟨c, c', result, hb, hb', hc⟩ := (hR.dispatch h r.delivery r.transaction).split
  simp only [Broker.finish, hb, hb']
  cases result <;> exact abreast hc _

theorem continueRouting (h : R b b') (r : Routing) (ref : CacheRef) (id : Bytes)
    (o : StageOutcome) :
    Abreast R (b.continueRouting r ref id o) (b'.continueRouting r ref id o) := by
  cases o with
  | staged s => exact hR.finish h ..
  | duplicate =>
    unfold Broker.continueRouting
    dsimp only
    split
    · exact abreast (hR.notify h ..) _
    · exact hR.finish h ..
  | alreadyStaged => exact hR.finish h ..
  | disabled => exact hR.finish h ..

theorem attempt (h : R b b') (call : Call) : Abreast R (b.attempt call) (b'.attempt call) := by
  obtain ⟨c, c', o, hb, hb', hc⟩ :=
    (hR.attemptStage h call.cache call.duplicateId call.owner).split
  simp only [Broker.attempt, hb, hb']
  cases o with
  | none => exact abreast hc _
  | some o =>
    cases call.purpose with
    | stage => exact abreast hc _
    | route r => exact (hR.continueRouting hc r call.cache call.duplicateId o).map some

theorem submitCall (h : R b b') (call : Call) :
    Abreast R (b.submitCall call) (b'.submitCall call) := by
  obtain ⟨c, c', answer, hb, hb', hc⟩ := (hR.attempt h call).split
  simp only [Broker.submitCall, hb, hb']
  cases answer with
  | some answer => exact abreast hc _
  | none => exact abreast (hR.wait hc call) none

theorem resume (h : R b b') : R b.resume b'.resume := by
  unfold Broker.resume
  rw [hR.ready h]
  split
  · exact h
  · rename_i call rest _
    obtain ⟨c, c', answer, hb, hb', hc⟩ := (hR.submitCall (hR.retry h rest) call).split
    rw [hb, hb']
    cases answer with
    | some answer => exact hR.reply hc ..
    | none => exact hc

theorem defer (h : R b b') : R b.defer b'.defer := by
  unfold Broker.defer
  rw [hR.ready h]
  split
  · exact h
  · exact hR.retry h _

theorem resumeSome (h : R b b') (k : Nat) : R (b.resumeSome k) (b'.resumeSome k) := by
  induction k generalizing b b' with
  | zero => exact h
  | succ k ih =>
    unfold Broker.resumeSome
    rw [hR.ready h]
    split
    · exact h
    · exact ih (hR.resume h)

theorem settle (h : R b b') : R b.settle b'.settle := by
  unfold Broker.settle
  rw [hR.ready h, hR.waiting h]
  exact hR.resumeSome h _

/-! ## Sends -/

theorem collect (h : R b b') (n : Nat) (m : Message) :
    Abreast R (b.collect n m) (b'.collect n m) := by
  obtain ⟨c, c', found, hb, hb', hc⟩ := (hR.resolve h (some n) m.address true).split
  simp only [Broker.collect, hb, hb']
  exact abreast hc _

theorem drawOwner (h : R b b') (n : Nat) (transaction : Option Nat) :
    Abreast R (b.drawOwner n transaction) (b'.drawOwner n transaction) := by
  cases transaction with
  | some t => exact abreast h _
  | none => exact ⟨hR.draw h n, congrArg Owner.direct (hR.nextOwner h n)⟩

theorem routeUnstaged (h : R b b') (n : Nat) (m : Message) (transaction : Option Nat)
    (acceptedDuplicate : Bool) :
    Abreast R (b.routeUnstaged n m transaction acceptedDuplicate)
      (b'.routeUnstaged n m transaction acceptedDuplicate) := by
  obtain ⟨c, c', result, hb, hb', hc⟩ := (hR.collect h n m).split
  simp only [Broker.routeUnstaged, hb, hb']
  cases result with
  | error e => exact abreast hc _
  | ok d => exact hR.finish hc ..

theorem routeStaged (h : R b b') (n ticket : Nat) (m : Message) (id : Bytes)
    (transaction : Option Nat) (rejectDuplicates : Bool) :
    Abreast R (b.routeStaged n ticket m id transaction rejectDuplicates)
      (b'.routeStaged n ticket m id transaction rejectDuplicates) := by
  obtain ⟨c, c', result, hb, hb', hc⟩ := (hR.collect h n m).split
  simp only [Broker.routeStaged, hb, hb']
  cases result with
  | error e => exact abreast hc _
  | ok d =>
    obtain ⟨f, f', owner, hf, hf', hdrawn⟩ := (hR.drawOwner hc n transaction).split
    simp only [hf, hf']
    exact hR.submitCall hdrawn _

theorem route (h : R b b') (n ticket : Nat) (m : Message) (transaction : Option Nat)
    (rejectDuplicates : Bool) :
    Abreast R (b.route n ticket m transaction rejectDuplicates)
      (b'.route n ticket m transaction rejectDuplicates) := by
  unfold Broker.route
  rw [hR.detectedId h]
  cases b.detectedId n m with
  | none => exact (hR.routeUnstaged h n m transaction false).map some
  | some id =>
    have hopened := hR.openOfficeCache h n m.address
    dsimp only
    rw [hR.cache hopened]
    split
    · unfold routeDuplicate
      split
      · exact abreast (hR.notify hopened ..) _
      · exact (hR.routeUnstaged hopened n m transaction true).map some
    · exact hR.routeStaged hopened ..

theorem reroute (h : R b b') (n : Nat) (m : Message) (binding : String)
    (transaction : Option Nat) :
    Abreast R (b.reroute n m binding transaction) (b'.reroute n m binding transaction) := by
  have hdesk : (b'.office n).desk = (b.office n).desk := hR.deskAt h (some n)
  unfold Broker.reroute
  rw [hdesk]
  split
  · exact abreast h _
  · split
    · exact abreast h _
    · exact hR.finish h ..

theorem redistribute (h : R b b') (n : Nat) (m : Message) (binding : String)
    (transaction : Option Nat) :
    Abreast R (b.redistribute n m binding transaction)
      (b'.redistribute n m binding transaction) := by
  have hdesk : (b'.office n).desk = (b.office n).desk := hR.deskAt h (some n)
  unfold Broker.redistribute
  rw [hdesk]
  split
  · exact abreast h _
  · dsimp only
    split
    · exact abreast h _
    · split
      · exact abreast h _
      · rename_i d _
        obtain ⟨c, c', result, hb, hb', hc⟩ := (hR.dispatch h d transaction).split
        rw [hb, hb']
        cases result <;> exact abreast hc _

end StayAbreast

end MessageRouting.Broker
