import MessageRouting.Proofs.Broker.AlikeBrokers
import MessageRouting.Proofs.Transaction.Deliveries

/-!
# Transactions of one message

A message that is sent by itself is placed, recorded and published in one go; in
a transaction of its own the same happens in the phases of the commit, and a
branch stores its stage before. A message cannot tell the difference: however
its queues and the journal answer, all these ways ask queues the same, fail for
the same reason, and leave caches and journal as the others do.

Results:

* `alike_commit`: committing a transaction of one delivery is delivering it.
* `alike_prepare`: preparing it changes nothing that a message can tell.
* `ways_agree`: a direct send, a local transaction and a branch of one message agree.
-/

namespace MessageRouting

/-- The delivery, its stage held by another owner. -/
def Delivery.ownedBy (d : Delivery) (owner : Owner) : Delivery :=
  { d with stage := d.stage.map (·.ownedBy owner) }

/-- A transaction with one delivery. -/
def Transaction.single (xid : Option Xid) (state : TransactionState) (p : PendingDelivery) :
    Transaction :=
  { xid, state, operations := [.delivery p] }

/-- Whether a delivery of the transaction holds a stage. -/
def Transaction.holdsStage (t : Transaction) : Bool :=
  t.operations.any fun
    | .delivery p => p.delivery.stage.isSome
    | .hook _ => false

theorem holdsStage_single (xid : Option Xid) (state : TransactionState) (d : Delivery)
    (owner : Owner) (accepted : List String) (recorded : Bool) :
    (Transaction.single xid state ⟨d.ownedBy owner, accepted, recorded⟩).holdsStage =
      d.stage.isSome := by
  simp [Transaction.holdsStage, Transaction.single, Delivery.ownedBy]

namespace Broker

variable {x : Option Xid} {o b b' c : Broker} {n : Nat}

/-! ## Deliveries -/

theorem alike_enqueueTargets (h : Alike x o b b') (d : Delivery) (owner : Owner) :
    (b'.enqueueTargets (d.ownedBy owner)).2 = (b.enqueueTargets d).2 ∧
      Alike x o (b.enqueueTargets d).1 (b'.enqueueTargets (d.ownedBy owner)).1 :=
  alike_enqueueFrom h d.message.id [] d.routedQueues

theorem alike_persist (h : Alike x o b b') (d : Delivery) (owner : Owner) :
    (b'.persist (d.ownedBy owner)).2 = (b.persist d).2 ∧
      Alike x o (b.persist d).1 (b'.persist (d.ownedBy owner)).1 := by
  unfold persist Delivery.ownedBy
  cases d.stage with
  | none => exact ⟨rfl, h⟩
  | some g =>
    obtain ⟨c, c', result, hb, hb', hsame⟩ := Alike.split (alike_persistStage h g owner)
    simp only [Option.map_some, hb, hb']
    cases result <;> exact ⟨rfl, hsame⟩

theorem alike_commitDelivery (h : Alike x o b b') (d : Delivery) (owner : Owner) :
    Alike x o (b.commitDelivery d) (b'.commitDelivery (d.ownedBy owner)) := by
  unfold commitDelivery Delivery.ownedBy
  cases d.stage with
  | none => exact h
  | some g => exact alike_commitStage h g owner

theorem alike_rollbackDelivery (h : Alike x o b b') (d : Delivery) (owner : Owner) :
    Alike x o (b.rollbackDelivery d) (b'.rollbackDelivery (d.ownedBy owner)) := by
  unfold rollbackDelivery Delivery.ownedBy
  cases d.stage with
  | none => exact h
  | some g => exact alike_rollbackStage h g owner

/-- The stage of a branch is stored for that branch alone. -/
theorem alike_storePrepared {y : Xid} (h : Alike x o b b') (hstore : .store ∉ b.storage.failing)
    (g : HeldStage) (owner : Owner) (hx : (b.persistenceOf g.cache).isSome → x = some y) :
    ∃ c, b'.storePrepared y (g.ownedBy owner) = (c, .ok ()) ∧ Alike x o b c ∧
      c.transactions = b'.transactions := by
  unfold storePrepared
  rw [HeldStage.cache_ownedBy, h.persistenceOf]
  cases hpersistence : b.persistenceOf g.cache with
  | none => exact ⟨b', rfl, h, rfl⟩
  | some mode =>
    rw [hpersistence] at hx
    obtain rfl := hx rfl
    have hresult : (b'.write .inline (.prepare y g.staged.record)).2 = .ok () := by
      have hpermit := Storage.result_of_write h.storage.lapses.2 (.prepare y g.staged.record)
      rw [Storage.permit, h.storage.failing] at hpermit
      exact hpermit.trans (if_neg hstore)
    refine ⟨(b'.write .inline (.prepare y g.staged.record)).1, Prod.ext rfl hresult, ?_, rfl⟩
    refine ⟨h.stations, h.failing, h.unused, h.mailboxes, ?_, h.opened, h.caches, h.offices,
      h.storage.prepare g.staged.record⟩
    rw [← h.queueCalls]
    exact (same_log (x := none) _ rfl).queueCalls

/-! ## The transaction -/

/-- The transaction of that number is there, and it is `t`. -/
structure Holds (n : Nat) (t : Transaction) (b : Broker) : Prop where
  has : b.Has n
  transaction : b.transaction n = t

theorem Holds.of_transactions {t : Transaction} (h : Holds n t b)
    (hc : c.transactions = b.transactions) : Holds n t c :=
  ⟨⟨h.has.1, hc ▸ h.has.2⟩, (transaction_of_transactions hc n).trans h.transaction⟩

theorem length_modifyTransaction (b : Broker) (n : Nat) (f : Transaction → Transaction) :
    (b.modifyTransaction n f).transactions.length = b.transactions.length := by
  cases n with
  | zero => rfl
  | succ i => exact List.length_modify ..

theorem Holds.modify {t : Transaction} (h : Holds n t b) (f : Transaction → Transaction) :
    Holds n (f t) (b.modifyTransaction n f) := by
  refine ⟨⟨h.has.1, ?_⟩, ?_⟩
  · rw [length_modifyTransaction]
    exact h.has.2
  · rw [transaction_modifyTransaction b n f h.has.1 h.has.2, if_pos rfl, h.transaction]

section Single

variable {xid : Option Xid} {state : TransactionState} {p : PendingDelivery}

theorem Holds.setState (h : Holds n (.single xid state p) b) (s : TransactionState) :
    Holds n (.single xid s p) (b.setState n s) :=
  h.modify fun t => { t with state := s }

theorem Holds.modifyOperation (h : Holds n (.single xid state p) b)
    (f : PendingDelivery → PendingDelivery) :
    Holds n (.single xid state (f p)) (b.modifyOperation n 0 f) :=
  h.modify fun t => { t with operations := t.operations.modify 0 fun
    | .delivery d => .delivery (f d)
    | .hook h => .hook h }

theorem Holds.operationIndexes (h : Holds n (.single xid state p) b) :
    b.operationIndexes n = [0] := by
  rw [Broker.operationIndexes, h.transaction]
  rfl

theorem Holds.callOperation (h : Holds n (.single xid state p) b) (phase : Phase) :
    b.callOperation n phase 0 = (b.log (.called n 0 phase)).callDelivery n 0 p phase := by
  simp only [Broker.callOperation, h.transaction, Transaction.single, List.getElem?_cons_zero]

theorem Holds.callAll (h : Holds n (.single xid state p) b) (phase : Phase) :
    b.callAll n phase [0] = ((b.log (.called n 0 phase)).callDelivery n 0 p phase).1 := by
  simp only [Broker.callAll, h.callOperation]

theorem Holds.callUntilFailure (h : Holds n (.single xid state p) b) (phase : Phase) :
    b.callUntilFailure n phase [0] = (b.log (.called n 0 phase)).callDelivery n 0 p phase := by
  simp only [Broker.callUntilFailure, h.callOperation]
  rcases (b.log (.called n 0 phase)).callDelivery n 0 p phase with ⟨c, result⟩
  cases result <;> rfl

/-! ## Committing -/

variable {d : Delivery} {owner : Owner} {accepted : List String} {recorded : Bool}

/-- Before the commit the message is placed and its identifier persisted, as in a direct send. -/
theorem alike_placeDelivery (h : Alike x o b b')
    (ht : Holds n (.single xid state ⟨d.ownedBy owner, accepted, recorded⟩) b') :
    (b'.placeDelivery n 0 ⟨d.ownedBy owner, accepted, recorded⟩).2 = (b.tryDelivery d).2.2 ∧
      Alike x o (b.tryDelivery d).1
        (b'.placeDelivery n 0 ⟨d.ownedBy owner, accepted, recorded⟩).1 ∧
      Holds n (.single xid state ⟨d.ownedBy owner, (b.tryDelivery d).2.1, recorded⟩)
        (b'.placeDelivery n 0 ⟨d.ownedBy owner, accepted, recorded⟩).1 := by
  obtain ⟨c, c', ⟨accepted, result⟩, hb, hb', hplaced⟩ :=
    Alike.split (alike_enqueueTargets h d owner)
  have htransactions : (b'.enqueueTargets (d.ownedBy owner)).1.transactions = b'.transactions :=
    transactions_enqueueFrom ..
  unfold placeDelivery tryDelivery
  rw [hb'] at htransactions
  rw [hb, hb']
  have hnoted := hplaced.right (same_modifyTransaction c' n _ : Same x c'
    (c'.modifyOperation n 0 fun d => { d with accepted }))
  have ht' := (ht.of_transactions htransactions).modifyOperation fun d => { d with accepted }
  cases result with
  | error e => exact ⟨rfl, hnoted, ht'⟩
  | ok _ =>
    obtain ⟨hresult, hpersisted⟩ := alike_persist hnoted d owner
    exact ⟨hresult, hpersisted, ht'.of_transactions (transactions_persist ..)⟩

/-- A rollback takes back what has been placed and drops the stage, as a direct send that fails,
and then has the records of the branch deleted. -/
theorem alike_undo (h : Alike x o b b')
    (ht : Holds n (.single xid state ⟨d.ownedBy owner, accepted, recorded⟩) b') :
    ∃ c, b'.undo n = c.forgetPrepared n ⟨d.ownedBy owner, accepted, recorded⟩ ∧
      (c.transaction n).xid = xid ∧
      Alike x o ((b.withdrawAll d.message.id accepted).rollbackDelivery d) c := by
  have hstate := ht.setState .rolledBack
  have hcalled := hstate.of_transactions
    (transactions_log (b'.setState n .rolledBack) (.called n 0 .afterRollback))
  have hcleared := hcalled.modifyOperation fun d => { d with accepted := [] }
  let cleared := ((b'.setState n .rolledBack).log (.called n 0 .afterRollback)).modifyOperation n 0
    fun d => { d with accepted := [] }
  refine ⟨(cleared.withdrawAll d.message.id accepted).rollbackDelivery (d.ownedBy owner), ?_, ?_,
    ?_⟩
  · rw [undo, hstate.operationIndexes, hstate.callAll, callDelivery, undoDelivery]
    rfl
  · have hdropped := hcleared.of_transactions ((transactions_rollbackDelivery _
      (d.ownedBy owner)).trans (transactions_withdrawAll _ d.message.id accepted))
    exact congrArg Transaction.xid hdropped.transaction
  · refine alike_rollbackDelivery (alike_withdrawAll (h.right ?_) d.message.id accepted) d owner
    exact ((same_modifyTransaction b' n _).trans (same_log _ rfl)).trans
      (same_modifyTransaction _ n _)

/-- Committing a transaction of one delivery is delivering it, but for the deletion of the records
of the branch. -/
theorem alike_commit (h : Alike x o b b')
    (ht : Holds n (.single xid state ⟨d.ownedBy owner, accepted, recorded⟩) b')
    (hlive : state = .active ∨ state = .prepared) :
    ∃ c accepted, (b'.commit n).1 = c.forgetPrepared n ⟨d.ownedBy owner, accepted, recorded⟩ ∧
      (c.transaction n).xid = xid ∧ Alike x o (b.deliver d).1 c ∧
      (b'.commit n).2 = (b.deliver d).2.mapError .operation := by
  have hrequire : (b'.transaction n).require n [.active, .prepared] .commit = .ok () := by
    rw [ht.transaction, Transaction.require, if_pos]
    rcases hlive with rfl | rfl <;> simp [Transaction.single]
  have hclean : (b'.transaction n).rollbackOnly = none := by
    rw [ht.transaction]
    rfl
  have hcalled := ht.of_transactions (transactions_log b' (.called n 0 .beforeCommit))
  obtain ⟨hresult, hplaced, hplacedAt⟩ :=
    alike_placeDelivery (h.right (same_log b' (e := .called n 0 .beforeCommit) rfl)) hcalled
  unfold commit undoDoomed? deliver
  rw [hrequire, hclean, ht.operationIndexes]
  dsimp only [Option.map_none]
  rw [ht.callUntilFailure, callDelivery]
  rcases hb : b.tryDelivery d with ⟨c, placed, result⟩
  rcases hb' : (b'.log (.called n 0 .beforeCommit)).placeDelivery n 0
    ⟨d.ownedBy owner, accepted, recorded⟩ with ⟨c', result'⟩
  rw [hb, hb'] at hresult hplaced hplacedAt
  dsimp only at hresult hplaced hplacedAt
  subst hresult
  cases result' with
  | error e =>
    obtain ⟨f, hundo, hxid, hsame⟩ := alike_undo hplaced hplacedAt
    exact ⟨f, placed, hundo, hxid, hsame, rfl⟩
  | ok _ =>
    have hcommitted := hplacedAt.setState .committed
    have hcalled := hcommitted.of_transactions
      (transactions_log (c'.setState n .committed) (.called n 0 .afterCommit))
    refine ⟨((c'.setState n .committed).log (.called n 0 .afterCommit)).commitDelivery
      (d.ownedBy owner), placed, ?_, ?_, ?_, rfl⟩
    · show (c'.setState n .committed).callAll n .afterCommit [0] = _
      exact hcommitted.callAll .afterCommit
    · have hdone := hcalled.of_transactions (transactions_commitDelivery _ (d.ownedBy owner))
      exact congrArg Transaction.xid hdone.transaction
    · refine alike_commitDelivery (hplaced.right ?_) d owner
      exact (same_modifyTransaction c' n _).trans (same_log _ rfl)

/-! ## Preparing -/

/-- Preparing a branch of one delivery stores its stage, if there is a journal to store it in, and
changes nothing else that a message can tell. -/
theorem alike_prepare {y : Xid} (h : Alike x o b b')
    (ht : Holds n (.single (some y) .active ⟨d.ownedBy owner, [], false⟩) b')
    (hstore : .store ∉ b.storage.failing)
    (hx : ∀ g ∈ d.stage, (b.persistenceOf g.cache).isSome → x = some y) :
    (b'.prepare n).2 = .ok () ∧ Alike x o b (b'.prepare n).1 ∧
      Holds n (.single (some y) .prepared ⟨d.ownedBy owner, [], d.stage.isSome⟩)
        (b'.prepare n).1 := by
  have hxid : (b'.transaction n).xid.isNone = false := by
    rw [ht.transaction]
    rfl
  have hrequire : (b'.transaction n).require n [.active] .prepare = .ok () := by
    rw [ht.transaction]
    rfl
  have hclean : (b'.transaction n).rollbackOnly = none := by
    rw [ht.transaction]
    rfl
  have hcalled := ht.of_transactions (transactions_log b' (.called n 0 .beforePrepare))
  have hsame := h.right (same_log b' (e := .called n 0 .beforePrepare) rfl)
  obtain ⟨c, hprepared, hc, hat⟩ : ∃ c, (b'.log (.called n 0 .beforePrepare)).prepareDelivery n 0
      ⟨d.ownedBy owner, [], false⟩ = (c, .ok ()) ∧ Alike x o b c ∧
      Holds n (.single (some y) .active ⟨d.ownedBy owner, [], d.stage.isSome⟩) c := by
    generalize b'.log (.called n 0 .beforePrepare) = f at hcalled hsame
    unfold prepareDelivery
    rw [hcalled.transaction]
    cases hstage : d.stage with
    | none =>
      refine ⟨f, ?_, hsame, hcalled⟩
      simp [Delivery.ownedBy, hstage, Transaction.single]
    | some g =>
      obtain ⟨c, hstored, hc, htransactions⟩ :=
        alike_storePrepared hsame hstore g owner (hx g hstage)
      refine ⟨c.modifyOperation n 0 fun d => { d with recorded := true }, ?_,
        hc.right (same_modifyTransaction c n _),
        (hcalled.of_transactions htransactions).modifyOperation
          fun d => { d with recorded := true }⟩
      simp [Delivery.ownedBy, hstage, Transaction.single, hstored]
  have hprepare : b'.prepare n = (c.setState n .prepared, .ok ()) := by
    unfold prepare undoDoomed?
    rw [hxid, if_neg Bool.false_ne_true, hrequire, hclean, ht.operationIndexes]
    dsimp only [Option.map_none]
    rw [ht.callUntilFailure, callDelivery, hprepared]
  rw [hprepare]
  exact ⟨rfl, hc.right (same_modifyTransaction c n _), hat.setState .prepared⟩

end Single

/-! ## Sending -/

/-- How a send outside any transaction ends once its message has been delivered. -/
def concluded (out : RoutingOutcome) : Except RoutingError Unit → Answer
  | .ok () => .routed out
  | .error e => .refused e

/-- How a direct send compares with one in the transaction `k` that has nothing to do yet: both are
refused for the same reason, or the transaction takes what the direct send delivers. -/
inductive Compared (x : Option Xid) (o : Broker) (k : Nat) (xid : Option Xid) (ref : CacheRef) :
    Broker × Answer → Broker × Answer → Prop where
  | refused {c c' : Broker} (e : RoutingError) (h : Alike x o c c') (ht : Holds k { xid } c') :
      Compared x o k xid ref (c, .refused e) (c', .refused e)
  | taken {c c' : Broker} {d : Delivery} {owner : Owner} (out : RoutingOutcome)
      (h : Alike x o c c')
      (ht : Holds k (.single xid .active ⟨d.ownedBy owner, [], false⟩) c')
      (hstage : ∀ g ∈ d.stage, g.cache = ref) :
      Compared x o k xid ref ((c.deliver d).1, concluded out (c.deliver d).2) (c', .routed out)

variable {xid : Option Xid} {k : Nat} {ref : CacheRef}

theorem compared_finish (h : Alike x o b b') (ht : Holds k { xid } b') {r r' : Routing}
    {owner : Owner} (hr : r.transaction = none) (hr' : r'.transaction = some k)
    (hd : r'.delivery = r.delivery.ownedBy owner) (hstage : ∀ g ∈ r.delivery.stage, g.cache = ref)
    (staged acceptedDuplicate : Bool) :
    Compared x o k xid ref (b.finish r staged acceptedDuplicate)
      (b'.finish r' staged acceptedDuplicate) := by
  have hleft : b.finish r staged acceptedDuplicate = ((b.deliver r.delivery).1,
      concluded { queues := r.delivery.routedQueues, staged, acceptedDuplicate }
        (b.deliver r.delivery).2) := by
    unfold finish dispatch
    rw [hr]
    dsimp only
    rcases b.deliver r.delivery with ⟨c, result⟩
    cases result <;> rfl
  have hright : b'.finish r' staged acceptedDuplicate =
      (b'.modifyTransaction k fun _ => .single xid .active ⟨r.delivery.ownedBy owner, [], false⟩,
        .routed { queues := r.delivery.routedQueues, staged, acceptedDuplicate }) := by
    unfold finish dispatch
    rw [hr', hd]
    simp only [addOperation, ht.transaction]
    rfl
  rw [hleft, hright]
  let held := Transaction.single xid .active ⟨r.delivery.ownedBy owner, [], false⟩
  exact .taken _ (h.right (same_modifyTransaction b' k _)) (ht.modify fun _ => held) hstage

/-- A delivery without a stage has no owner. -/
theorem ownedBy_of_unstaged {d : Delivery} (hd : d.stage = none) (owner : Owner) :
    d.ownedBy owner = d := by
  cases d
  cases hd
  rfl

theorem compared_unstaged (h : Alike x o b b') (ht : Holds k { xid } b') (n : Nat) {d : Delivery}
    (hd : d.stage = none) (reject staged acceptedDuplicate : Bool) :
    Compared x o k xid ref (b.finish ⟨n, none, reject, d⟩ staged acceptedDuplicate)
      (b'.finish ⟨n, some k, reject, d⟩ staged acceptedDuplicate) := by
  have howned : d = d.ownedBy (.transaction k) := (ownedBy_of_unstaged hd _).symm
  refine compared_finish h ht rfl rfl howned (fun g hg => ?_) staged acceptedDuplicate
  rw [show (Routing.mk n none reject d).delivery.stage = none from hd] at hg
  cases hg

theorem compared_rejectDuplicate (h : Alike x o b b') (ht : Holds k { xid } b') (n : Nat)
    (m : Message) (id : Bytes) :
    Compared x o k xid ref (b.rejectDuplicate n m id) (b'.rejectDuplicate n m id) :=
  .refused _ ((h.left (same_notify b n _)).right (same_notify b' n _)) (ht.of_transactions rfl)

/-- What follows an attempt to stage: the same, but for the owner. -/
theorem compared_attempt (h : Alike x o b b') (ht : Holds k { xid } b') {n ticket : Nat}
    {id : Bytes} {d : Delivery} (hd : d.stage = none) (reject : Bool) (owner owner' : Owner)
    (hfree : (b.cache ref).pending.get? id = none) :
    ∃ r r', b.submitCall ⟨ticket, ref, id, owner, .route ⟨n, none, reject, d⟩⟩ =
        (r.1, some r.2) ∧
      b'.submitCall ⟨ticket, ref, id, owner', .route ⟨n, some k, reject, d⟩⟩ = (r'.1, some r'.2) ∧
      Compared x o k xid ref r r' := by
  unfold submitCall attempt
  rcases alike_attemptStage h hfree owner owner' with ⟨s, c, c', hb, hb', hc⟩ |
    ⟨o, rfl | rfl, hb, hb'⟩
  · have htransactions := transactions_attemptStage b' ref id owner'
    rw [hb'] at htransactions
    rw [hb, hb']
    refine ⟨_, _, rfl, rfl, ?_⟩
    refine compared_finish hc (ht.of_transactions htransactions) rfl rfl rfl (fun g hg => ?_) ..
    obtain rfl := Option.some.inj hg
    rfl
  · rw [hb, hb']
    refine ⟨_, _, rfl, rfl, ?_⟩
    cases reject with
    | true => exact compared_rejectDuplicate h ht ..
    | false => exact compared_unstaged h ht n hd false false true
  · rw [hb, hb']
    exact ⟨_, _, rfl, rfl, compared_unstaged h ht n hd reject false false⟩

theorem transactions_collect (b : Broker) (n : Nat) (m : Message) :
    (b.collect n m).1.transactions = b.transactions := transactions_setDesk ..

theorem compared_routeUnstaged (h : Alike x o b b') (ht : Holds k { xid } b') (n : Nat)
    (m : Message) (acceptedDuplicate : Bool) :
    Compared x o k xid ref (b.routeUnstaged n m none acceptedDuplicate)
      (b'.routeUnstaged n m (some k) acceptedDuplicate) := by
  obtain ⟨c, c', result, hb, hb', hc⟩ := Alike.split (alike_collect h n m)
  have ht' := ht.of_transactions (transactions_collect b' n m)
  unfold routeUnstaged
  rw [hb'] at ht'
  rw [hb, hb']
  cases result with
  | error e => exact .refused e hc ht'
  | ok d => exact compared_unstaged hc ht' n (collect_ok hb).2 false false acceptedDuplicate

theorem compared_routeStaged (h : Alike x o b b') (ht : Holds k { xid } b') (n ticket : Nat)
    (m : Message) {id : Bytes} (reject : Bool)
    (hfree : (b.cache (.office n m.address)).pending.get? id = none) :
    ∃ r r', b.routeStaged n ticket m id none reject = (r.1, some r.2) ∧
      b'.routeStaged n ticket m id (some k) reject = (r'.1, some r'.2) ∧
      Compared x o k xid (.office n m.address) r r' := by
  obtain ⟨c, c', result, hb, hb', hc⟩ := Alike.split (alike_collect h n m)
  have ht' := ht.of_transactions (transactions_collect b' n m)
  have hcaches : (b.collect n m).1.caches = b.caches := rfl
  unfold routeStaged
  rw [hb'] at ht'
  rw [hb] at hcaches
  rw [hb, hb']
  cases result with
  | error e => exact ⟨_, _, rfl, rfl, .refused e hc ht'⟩
  | ok d =>
    refine compared_attempt (hc.left (same_drawOwner c n none)) ht' (collect_ok hb).2 reject _ _ ?_
    rw [← cache_of_caches hcaches] at hfree
    exact hfree

/-- A direct send and one in a new transaction, with nobody holding the identifier. -/
theorem compared_route (h : Alike x o b b') (ht : Holds k { xid } b') (n ticket : Nat)
    (m : Message) (reject : Bool)
    (hfree : ∀ id ∈ m.duplicateId, (b.cache (.office n m.address)).pending.get? id = none) :
    ∃ r r', b.route n ticket m none reject = (r.1, some r.2) ∧
      b'.route n ticket m (some k) reject = (r'.1, some r'.2) ∧
      Compared x o k xid (.office n m.address) r r' := by
  have hid : b'.detectedId n m = b.detectedId n m := by
    rw [detectedId, detectedId, h.settings]
  unfold route
  rw [hid]
  cases hdetected : b.detectedId n m with
  | none => exact ⟨_, _, rfl, rfl, compared_routeUnstaged h ht n m false⟩
  | some id =>
    have hopened := alike_openOfficeCache h n m.address
    have ht' := ht.of_transactions (transactions_openOfficeCache b' n m.address)
    have hfree' : ((b.openOfficeCache n m.address).cache (.office n m.address)).pending.get? id =
        none := by
      unfold openOfficeCache openCache
      split
      · exact hfree id (duplicateId_of_detectedId hdetected)
      · rw [cache_setCache, if_pos rfl]
        rfl
    simp only [(hopened.caches _).isDuplicate]
    split
    · refine ⟨_, _, rfl, rfl, ?_⟩
      unfold routeDuplicate
      split
      · exact compared_rejectDuplicate hopened ht' n m id
      · exact compared_routeUnstaged hopened ht' n m true
    · exact compared_routeStaged hopened ht' n ticket m reject hfree'

/-! ## Transactions that take nothing -/

theorem commit_of_empty {state : TransactionState} (ht : Holds k { xid, state } b)
    (hlive : state = .active ∨ state = .prepared) :
    b.commit k = (b.setState k .committed, .ok ()) := by
  have hrequire : (b.transaction k).require k [.active, .prepared] .commit = .ok () := by
    rw [ht.transaction, Transaction.require, if_pos]
    rcases hlive with rfl | rfl <;> simp
  unfold commit undoDoomed? operationIndexes
  rw [hrequire, ht.transaction]
  rfl

theorem prepare_of_empty {y : Xid} (ht : Holds k { xid := some y } b) :
    b.prepare k = (b.setState k .prepared, .ok ()) := by
  unfold prepare undoDoomed? operationIndexes
  rw [ht.transaction]
  rfl

/-! ## The records of the branch -/

/-- Once the branch is completed its records are deleted, if it has any. -/
theorem alike_forgetPrepared {y : Xid} {d : Delivery} (owner : Owner) (h : Alike x o b c)
    (hxid : (c.transaction k).xid = some y) (hstage : ∀ g ∈ d.stage, ∃ a, g.cache = .office n a)
    (hx : d.stage.isSome → x = some y ∨ (o.office n).writer.running = false)
    (accepted : List String) :
    Alike x o b (c.forgetPrepared k ⟨d.ownedBy owner, accepted, d.stage.isSome⟩) := by
  unfold forgetPrepared Delivery.ownedBy
  rw [hxid]
  cases hs : d.stage with
  | none => exact h
  | some g =>
    obtain ⟨a, ha⟩ := hstage g hs
    rw [hs] at hx
    refine h.right ?_
    show Same x c (c.submitFor g.cache (.resolve y))
    rcases hx rfl with rfl | hstopped
    · exact same_resolved c g.cache
    · refine same_stopped c _ fun m e he => ?_
      rw [ha] at he
      cases he
      exact (congrArg (fun s => s.2.2) (h.station n)).trans hstopped

/-- A writer that runs is handed the deletion. -/
theorem resolve_forgetPrepared {y : Xid} {d : Delivery} {owner : Owner} {g : HeldStage}
    {a : Address} (hxid : (c.transaction k).xid = some y) (hs : d.stage = some g)
    (ha : g.cache = .office n a) (hrunning : (c.office n).writer.running = true)
    (accepted : List String) :
    .resolve y ∈ ((c.forgetPrepared k ⟨d.ownedBy owner, accepted, true⟩).office n).writer.queue := by
  have hn : n < c.offices.length := by
    apply Decidable.byContradiction
    intro hn
    simp only [office, List.getD_eq_getElem?_getD, List.getElem?_eq_none (Nat.le_of_not_lt hn)]
      at hrunning
    cases hrunning
  unfold forgetPrepared Delivery.ownedBy
  rw [hxid, hs]
  show .resolve y ∈ ((c.submitFor g.cache (.resolve y)).office n).writer.queue
  rw [ha, submitFor, submit, office_modifyOffice c n _ hn, if_pos rfl]
  simp [JournalWriter.submit, hrunning]

/-! ## The ways to send a message -/

/-- How a message fares. -/
inductive Fate where
  | sent (out : RoutingOutcome)
  /-- The send is refused. -/
  | refused (e : RoutingError)
  /-- The message is taken back, or has never been placed on all queues. -/
  | undone (out : RoutingOutcome) (e : RoutingError)

/-- The replies to a direct send. -/
def Fate.direct : Fate → List Reply
  | sent out => [.answered (.routed out)]
  | refused e => [.answered (.refused e)]
  | undone _ e => [.answered (.refused e)]

/-- The replies when the transaction `k` is begun for the message and then completed. `prepared` is
what is replied in between. -/
def Fate.inTransaction (k : Nat) (prepared : List Reply) : Fate → List Reply
  | sent out => [.number k, .answered (.routed out)] ++ prepared ++ [.done]
  | refused e => [.number k, .answered (.refused e)] ++ prepared ++ [.done]
  | undone out e =>
    [.number k, .answered (.routed out)] ++ prepared ++ [.transactionFailed (.operation e)]

/-- A message has the same effect on both brokers: queues are asked the same, caches hold the same
identifiers, and journals the same records once the writer has caught up. -/
structure SameEffect (n : Nat) (b c : Broker) : Prop where
  queueCalls : c.queueCalls = b.queueCalls
  visible : ∀ ref, (c.cache ref).visible = (b.cache ref).visible
  pending : ∀ ref id, (c.cache ref).pending.contains id = (b.cache ref).pending.contains id
  journal : (c.flush n).storage.ledger = (b.flush n).storage.ledger

/-- A direct send agrees with a transaction of the same message. -/
structure Agrees (n k : Nat) (prepared : List Reply) (b : Broker) (direct way : List Command) :
    Prop where
  fate : ∃ f : Fate, b.replies direct = f.direct ∧ b.replies way = f.inTransaction k prepared
  effect : SameEffect n (b.run direct) (b.run way)

theorem Alike.effect (h : Alike x o b c) (n : Nat) (hdelete : .delete ∉ o.storage.failing)
    (hresolved : ∀ y ∈ x, .resolve y ∈ (c.office n).writer.queue) : SameEffect n b c := by
  refine ⟨h.queueCalls, fun ref => (h.caches ref).visible, fun ref id => ?_, ?_⟩
  · have hpending := congrArg Option.isSome ((h.caches ref).pending id)
    rwa [Option.isSome_map, Option.isSome_map] at hpending
  · rw [← h.failing] at hdelete
    exact ledger_flush h n hdelete hresolved

/-- The fate of a message that a transaction has taken. -/
def Fate.ofDelivery (out : RoutingOutcome) : Except RoutingError Unit → Fate
  | .ok () => .sent out
  | .error e => .undone out e

theorem holds_begin (b : Broker) (xid : Option Xid) :
    Holds (b.lastTransaction + 1) { xid } (b.begin xid).1 := by
  refine ⟨⟨Nat.succ_pos _, ?_⟩, ?_⟩
  · simp [begin, addTransaction, lastTransaction]
  · simp [begin, addTransaction, lastTransaction, transaction]

theorem alike_begin (hlapses : b.storage.lapses = []) (hunused : ∀ y ∈ x, Unused y b)
    (xid : Option Xid) : Alike x b b (b.begin xid).1 :=
  (Alike.refl hlapses hunused).right ⟨rfl, rfl, rfl, rfl, rfl⟩

section Ways

variable {ticket : Nat} {m : Message} {reject : Bool} {r : Broker × Answer}

theorem direct_of_route (hr : b.route n ticket m none reject = (r.1, some r.2)) :
    b.replies [.route n ticket m none reject] = [.answered r.2] ∧
      b.run [.route n ticket m none reject] = r.1 := by
  simp only [replies, run, List.foldl, perform, hr, Prod.map, Reply.ofAnswer, id_eq, and_self]

theorem way_of_route {xid : Option Xid}
    (hr : (b.begin xid).1.route n ticket m (some k) reject = (r.1, some r.2))
    (hk : (b.begin xid).2 = k) (rest : List Command) :
    b.replies (.begin xid :: .route n ticket m (some k) reject :: rest) =
        .number k :: .answered r.2 :: r.1.replies rest ∧
      b.run (.begin xid :: .route n ticket m (some k) reject :: rest) = r.1.run rest := by
  simp only [replies, run, List.foldl, perform, hr, hk, Prod.map, Reply.ofAnswer, id_eq, and_self]

theorem number_begin (b : Broker) (xid : Option Xid) : (b.begin xid).2 = b.lastTransaction + 1 := by
  simp [begin, addTransaction, lastTransaction]

/-- The replies when what a direct send delivers is committed in a transaction. -/
theorem fate_ofDelivery (out : RoutingOutcome) (result : Except RoutingError Unit)
    (prepared : List Reply) :
    [.answered (concluded out result)] = (Fate.ofDelivery out result).direct ∧
      .number k :: .answered (.routed out) ::
          (prepared ++ [.ofCompletion (result.mapError .operation)]) =
        (Fate.ofDelivery out result).inTransaction k prepared := by
  cases result <;> exact ⟨rfl, rfl⟩

/-- A direct send agrees with a local transaction of the message that is committed at once. -/
theorem transaction_agrees (hlapses : b.storage.lapses = []) (hdelete : .delete ∉ b.storage.failing)
    (hfree : ∀ id ∈ m.duplicateId, (b.cache (.office n m.address)).pending.get? id = none)
    (hk : k = b.lastTransaction + 1) :
    Agrees n k [] b [.route n ticket m none reject]
      [.begin none, .route n ticket m (some k) reject, .commit k] := by
  have hbegun : Alike none b b (b.begin none).1 := alike_begin hlapses (by simp) none
  obtain ⟨r, r', hr, hr', hcompared⟩ :=
    compared_route hbegun (hk ▸ holds_begin b none) n ticket m reject hfree
  obtain ⟨hreplies, hrun⟩ := direct_of_route hr
  obtain ⟨hreplies', hrun'⟩ := way_of_route hr' ((number_begin b none).trans hk.symm) [.commit k]
  cases hcompared with
  | @refused c c' e h ht =>
    have hcommit := commit_of_empty ht (Or.inl rfl)
    refine ⟨⟨.refused e, hreplies, hreplies'.trans ?_⟩, ?_⟩
    · simp only [replies, perform, hcommit]
      rfl
    · rw [hrun, hrun']
      simp only [run, List.foldl, perform, hcommit]
      exact (h.right (same_modifyTransaction c' k _)).effect n hdelete (by simp)
  | @taken c c' d owner out h ht hstage =>
    obtain ⟨f, accepted, hcommit, -, hf, hresult⟩ := alike_commit h ht (Or.inl rfl)
    obtain ⟨hdirect, hway⟩ := fate_ofDelivery (k := k) out (c.deliver d).2 []
    refine ⟨⟨_, hreplies.trans hdirect, hreplies'.trans (Eq.trans ?_ hway)⟩, ?_⟩
    · rw [← hresult]
      rfl
    · rw [hrun, hrun']
      show SameEffect n (c.deliver d).1 (c'.commit k).1
      rw [hcommit]
      exact hf.effect n hdelete (by simp)

/-- A direct send agrees with a branch of the message that is prepared and committed. -/
theorem branch_agrees {y : Xid}
    (hrunning : (b.office n).writer.running = (b.office n).persistence.isSome)
    (hlapses : b.storage.lapses = []) (hstore : .store ∉ b.storage.failing)
    (hdelete : .delete ∉ b.storage.failing) (hunused : Unused y b)
    (hfree : ∀ id ∈ m.duplicateId, (b.cache (.office n m.address)).pending.get? id = none)
    (hk : k = b.lastTransaction + 1) :
    Agrees n k [.done] b [.route n ticket m none reject]
      [.begin (some y), .route n ticket m (some k) reject, .prepare k, .commit k] := by
  -- The records of the branch are left out of account if and only if it is going to have some.
  obtain ⟨x, hx⟩ : ∃ x : Option Xid, x = if (b.office n).persistence.isSome &&
      (((b.begin (some y)).1.route n ticket m (some k) reject).1.transaction k).holdsStage
      then some y else none := ⟨_, rfl⟩
  have hbegun : Alike x b b (b.begin (some y)).1 := by
    refine alike_begin hlapses (fun z hz => ?_) (some y)
    have hz : some y = some z := (Option.ite_none_right_eq_some.1 (hx.symm.trans hz)).2
    cases hz
    exact hunused
  obtain ⟨r, r', hr, hr', hcompared⟩ :=
    compared_route hbegun (hk ▸ holds_begin b (some y)) n ticket m reject hfree
  obtain ⟨hreplies, hrun⟩ := direct_of_route hr
  obtain ⟨hreplies', hrun'⟩ :=
    way_of_route hr' ((number_begin b (some y)).trans hk.symm) [.prepare k, .commit k]
  rw [hr'] at hx
  cases hcompared with
  | @refused c c' e h ht =>
    have hprepare := prepare_of_empty ht
    have hcommit := commit_of_empty (ht.modify fun t => { t with state := .prepared }) (Or.inr rfl)
    have hnone : x = none := by
      rw [hx, ht.transaction]
      exact if_neg (by simp [Transaction.holdsStage])
    have hcompleted : (c'.prepare k).1.commit k =
        ((c'.setState k .prepared).setState k .committed, .ok ()) := by
      rw [hprepare]
      exact hcommit
    refine ⟨⟨.refused e, hreplies, hreplies'.trans ?_⟩, ?_⟩
    · show [_, _, Reply.ofCompletion (c'.prepare k).2,
        Reply.ofCompletion ((c'.prepare k).1.commit k).2] = _
      rw [hcompleted, hprepare]
      rfl
    · rw [hrun, hrun']
      show SameEffect n c ((c'.prepare k).1.commit k).1
      rw [hcompleted]
      exact (h.right ((same_modifyTransaction _ k _).trans (same_modifyTransaction _ k _))).effect
        n hdelete (by simp [hnone])
  | @taken c c' d owner out h ht hstage =>
    have hpersistence : (c.office n).persistence = (b.office n).persistence := by
      have hstation := station_office h.stations n
      simp only [Office.station, Prod.mk.injEq] at hstation
      exact hstation.2.1
    rw [ht.transaction, holdsStage_single] at hx
    have hkept : d.stage.isSome → x = some y ∨ (b.office n).writer.running = false := by
      intro hs
      rw [hx, hs, hrunning]
      cases (b.office n).persistence.isSome <;> simp
    obtain ⟨hok, hprepared, hat⟩ := alike_prepare h ht (h.failing ▸ hstore) fun g hg hp => by
      rw [hstage g hg, persistenceOf, hpersistence] at hp
      rw [hx, hp, Option.mem_def.1 hg]
      rfl
    obtain ⟨f, accepted, hcommit, hxid, hf, hresult⟩ := alike_commit hprepared hat (Or.inr rfl)
    obtain ⟨hdirect, hway⟩ := fate_ofDelivery (k := k) out (c.deliver d).2 [.done]
    refine ⟨⟨_, hreplies.trans hdirect, hreplies'.trans (Eq.trans ?_ hway)⟩, ?_⟩
    · show [_, _, Reply.ofCompletion (c'.prepare k).2,
        Reply.ofCompletion ((c'.prepare k).1.commit k).2] = _
      rw [hok, hresult]
      rfl
    · rw [hrun, hrun']
      show SameEffect n (c.deliver d).1 ((c'.prepare k).1.commit k).1
      rw [hcommit]
      have hcompleted := alike_forgetPrepared owner hf hxid
        (fun g hg => ⟨_, hstage g hg⟩) hkept accepted
      refine hcompleted.effect n hdelete fun z hz => ?_
      obtain ⟨hboth, hsame⟩ := Option.ite_none_right_eq_some.1 (hx.symm.trans hz)
      obtain ⟨hp, hs⟩ := Bool.and_eq_true_iff.1 hboth
      obtain ⟨g, hg⟩ := Option.isSome_iff_exists.1 hs
      cases hsame
      rw [hs]
      refine resolve_forgetPrepared hxid hg (hstage g hg) ?_ accepted
      have hstation := hf.station n
      simp only [Office.station, Prod.mk.injEq] at hstation
      rw [hstation.2.2, hrunning, hp]

/-- A direct send, a local transaction of the message that is committed at once, and a branch of it
that is prepared and committed agree, whatever queues answer and whether or not the journal takes
the identifier. The post office has not been stopped, nobody holds the identifier, the branch is
unused, and its records can be stored and deleted. A journal is asked more often for a branch than
for a direct send, so what it answers does not hang on how often it has been asked. -/
theorem ways_agree (b : Broker) (n ticket : Nat) (m : Message) (reject : Bool) (y : Xid)
    (hrunning : (b.office n).writer.running = (b.office n).persistence.isSome)
    (hlapses : b.storage.lapses = []) (hstore : .store ∉ b.storage.failing)
    (hdelete : .delete ∉ b.storage.failing) (hunused : Unused y b)
    (hfree : ∀ id ∈ m.duplicateId, (b.cache (.office n m.address)).pending.get? id = none) :
    let k := b.lastTransaction + 1
    let direct : List Command := [.route n ticket m none reject]
    Agrees n k [] b direct [.begin none, .route n ticket m (some k) reject, .commit k] ∧
      Agrees n k [.done] b direct
        [.begin (some y), .route n ticket m (some k) reject, .prepare k, .commit k] :=
  ⟨transaction_agrees hlapses hdelete hfree rfl,
    branch_agrees hrunning hlapses hstore hdelete hunused hfree rfl⟩

/-- The journal does not take the identifier, so the message is taken back from its queue. -/
theorem ways_agree_failing :
    let b := ({} : Broker).run [.start { idCachePersistence := .mandatory },
      .bind (some 0) (.ofQueue ⟨"orders"⟩ "stock"), .failing [.append]]
    let m := messageTo "orders" 1
    let direct : List Command := [.route 0 0 m none true]
    Agrees 0 1 [] b direct [.begin none, .route 0 0 m (some 1) true, .commit 1] ∧
      Agrees 0 1 [.done] b direct
        [.begin (some ⟨1, [7], [8]⟩), .route 0 0 m (some 1) true, .prepare 1, .commit 1] ∧
      (b.run direct).queueCalls = [.enqueued "stock" m.id none, .withdrawn "stock" m.id none] := by
  intro b m direct
  have hunused : Unused ⟨1, [7], [8]⟩ b := by
    refine ⟨by decide +kernel, fun n r hr => ?_⟩
    have hqueues : ∀ p ∈ b.offices, p.writer.queue = [] := by decide +kernel
    rw [office, List.getD_eq_getElem?_getD] at hr
    cases hp : b.offices[n]? with
    | none =>
      rw [hp] at hr
      cases hr
    | some p =>
      rw [hp, Option.getD_some, hqueues p (List.mem_of_getElem? hp)] at hr
      cases hr
  have hfree : ∀ id ∈ m.duplicateId, (b.cache (.office 0 m.address)).pending.get? id = none := by
    decide +kernel
  obtain ⟨hsingle, hbranch⟩ := ways_agree b 0 0 m true ⟨1, [7], [8]⟩ (by decide +kernel)
    (by decide +kernel) (by decide +kernel) (by decide +kernel) hunused hfree
  exact ⟨hsingle, hbranch, by decide +kernel⟩

end Ways

end Broker

end MessageRouting
