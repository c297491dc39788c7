import MessageRouting.Proofs.District.Excerpts

/-!
# Sends and transactions of neighbours

Messages and transactions, in a district and beyond it. Beyond, whatever becomes
of them leaves the excerpt an excerpt; in the district it has the same result
there, up to the numbers of transactions.

Results:

* `within_deliver`, `beyond_deliver`: a message is delivered at once.
* `within_commit`, `within_rollback`, `beyond_commit`, `beyond_rollback`: a
  transaction is completed.
-/

namespace MessageRouting

/-- The result with other numbers of transactions. -/
def RoutingError.renumberIn {α : Type} (f : Nat → Nat) (r : Except RoutingError α) :
    Except RoutingError α := r.mapError (·.renumber f)

namespace Broker

variable {D : District} {M : List (Nat × Nat)} {b b' : Broker} {a : Address}

/-! ## Queues -/

theorem Excerpt.setMailbox (h : Excerpt D M b b') (q : String) {m m' : Mailbox}
    (hm : m.Matches m') : Excerpt D M (b.setMailbox q m) (b'.setMailbox q m') := by
  refine h.change ⟨rfl, rfl⟩ ⟨rfl, rfl⟩ h.offices (fun q' => ?_) h.storage h.waiting h.ready
  simp only [mailbox, Broker.setMailbox, Table.get?_insert]
  split
  · exact hm
  · exact h.mailboxes q'

theorem beyond_setMailbox (h : Excerpt D M b b') (q : String) {m : Mailbox}
    (hm : m.Matches (b'.mailbox q)) : Excerpt D M (b.setMailbox q m) b' := by
  refine h.change ⟨rfl, rfl⟩ ⟨rfl, rfl⟩ h.offices (fun q' => ?_) h.storage h.waiting h.ready
  simp only [mailbox, Broker.setMailbox, Table.get?_insert] at hm ⊢
  split
  · subst_vars
    exact hm
  · exact h.mailboxes q'

theorem within_enqueue (h : Excerpt D M b b') (q : String) (m : Nat) :
    Follows D M id (b.enqueue q m) (b'.enqueue q m) := by
  obtain ⟨hmatch, hanswer⟩ := (h.mailboxes q).enqueue m
  exact ⟨(h.setMailbox q hmatch).log _ _, hanswer⟩

theorem beyond_enqueue (h : Excerpt D M b b') (q : String) (m : Nat) :
    Excerpt D M (b.enqueue q m).1 b' :=
  beyond_log (beyond_setMailbox h q ((h.mailboxes q).enqueue_beyond m)) _

theorem within_enqueueFrom (h : Excerpt D M b b') (m : Nat) (accepted queues : List String) :
    Follows D M (Prod.map id (RoutingError.renumberIn D.rank)) (b.enqueueFrom m accepted queues)
      (b'.enqueueFrom m accepted queues) := by
  induction queues generalizing b b' accepted with
  | nil => exact ⟨h, rfl⟩
  | cons q rest ih =>
    obtain ⟨c, c', refusal, hb, hb', hc⟩ := (within_enqueue h q m).split
    simp only [enqueueFrom, hb, hb', id_eq]
    cases refusal with
    | some refusal => exact ⟨hc, rfl⟩
    | none => exact ih hc _

theorem beyond_enqueueFrom (h : Excerpt D M b b') (m : Nat) (accepted queues : List String) :
    Excerpt D M (b.enqueueFrom m accepted queues).1 b' := by
  induction queues generalizing b accepted with
  | nil => exact h
  | cons q rest ih =>
    have hq := beyond_enqueue h q m
    simp only [enqueueFrom]
    rcases hb : b.enqueue q m with ⟨c, refusal⟩
    rw [hb] at hq
    cases refusal with
    | some refusal => exact hq
    | none => exact ih hq _

theorem within_withdrawAll (h : Excerpt D M b b') (m : Nat) (accepted : List String) :
    Excerpt D M (b.withdrawAll m accepted) (b'.withdrawAll m accepted) := by
  unfold withdrawAll
  induction accepted.reverse generalizing b b' with
  | nil => exact h
  | cons q rest ih => exact ih ((h.setMailbox q ((h.mailboxes q).withdraw m)).log _ _)

theorem beyond_withdrawAll (h : Excerpt D M b b') (m : Nat) (accepted : List String) :
    Excerpt D M (b.withdrawAll m accepted) b' := by
  unfold withdrawAll
  induction accepted.reverse generalizing b with
  | nil => exact h
  | cons q rest ih =>
    exact ih (beyond_log (beyond_setMailbox h q ((h.mailboxes q).withdraw_beyond m)) _)

/-! ## Deliveries -/

variable {d d' : Delivery}

theorem Delivery.message_eq (h : d'.unowned = d.unowned) : d'.message = d.message := by
  have hmessage := congrArg Delivery.message h
  exact hmessage

theorem Delivery.routedQueues_eq (h : d'.unowned = d.unowned) :
    d'.routedQueues = d.routedQueues := by
  have htargets := congrArg Delivery.targets h
  simp only [Delivery.unowned] at htargets
  rw [Delivery.routedQueues, Delivery.routedQueues, htargets]

theorem within_persist (h : Excerpt D M b b') (hd : d.At D.address)
    (hsame : d'.unowned = d.unowned) : Follows D M id (b.persist d) (b'.persist d') ∧
      (b.persist d).2 = .ok () := by
  unfold persist
  rcases Delivery.stage_cases hsame with ⟨hnone, hnone'⟩ | ⟨g, owner, hg, hg'⟩
  · rw [hnone, hnone']
    exact ⟨⟨h, rfl⟩, rfl⟩
  · obtain ⟨hfollows, hok⟩ := within_persistStage h (hd g hg) owner
    obtain ⟨c, c', result, hb, hb', hc⟩ := hfollows.split
    rw [hb] at hok
    obtain rfl : result = .ok () := hok
    simp only [hg, hg', hb, hb', id_eq]
    exact ⟨⟨hc, rfl⟩, trivial⟩

theorem beyond_persist (h : Excerpt D M b b') (ha : a ≠ D.address) (hd : d.At a) :
    Excerpt D M (b.persist d).1 b' := by
  unfold persist
  cases hstage : d.stage with
  | none => exact h
  | some g =>
    have hg := beyond_persistStage h ha (hd g hstage)
    dsimp only
    rcases hb : b.persistStage g with ⟨c, result⟩
    rw [hb] at hg
    cases result <;> exact hg

theorem within_commitDelivery (h : Excerpt D M b b') (hd : d.At D.address)
    (hsame : d'.unowned = d.unowned) : Excerpt D M (b.commitDelivery d) (b'.commitDelivery d') := by
  unfold commitDelivery
  rcases Delivery.stage_cases hsame with ⟨hnone, hnone'⟩ | ⟨g, owner, hg, hg'⟩
  · rw [hnone, hnone']
    exact h
  · rw [hg, hg']
    exact within_commitStage h (hd g hg) owner

theorem beyond_commitDelivery (h : Excerpt D M b b') (ha : a ≠ D.address) (hd : d.At a) :
    Excerpt D M (b.commitDelivery d) b' := by
  unfold commitDelivery
  cases hstage : d.stage with
  | none => exact h
  | some g => exact beyond_commitStage h ha (hd g hstage)

theorem within_rollbackDelivery (h : Excerpt D M b b') (hd : d.At D.address)
    (hsame : d'.unowned = d.unowned) :
    Excerpt D M (b.rollbackDelivery d) (b'.rollbackDelivery d') := by
  unfold rollbackDelivery
  rcases Delivery.stage_cases hsame with ⟨hnone, hnone'⟩ | ⟨g, owner, hg, hg'⟩
  · rw [hnone, hnone']
    exact h
  · rw [hg, hg']
    exact within_rollbackStage h (hd g hg) owner

theorem beyond_rollbackDelivery (h : Excerpt D M b b') (ha : a ≠ D.address) (hd : d.At a) :
    Excerpt D M (b.rollbackDelivery d) b' := by
  unfold rollbackDelivery
  cases hstage : d.stage with
  | none => exact h
  | some g => exact beyond_rollbackStage h ha (hd g hstage)

theorem within_tryDelivery (h : Excerpt D M b b') (hd : d.At D.address)
    (hsame : d'.unowned = d.unowned) :
    Follows D M (Prod.map id (RoutingError.renumberIn D.rank)) (b.tryDelivery d)
      (b'.tryDelivery d') := by
  obtain ⟨c, c', ⟨accepted, result⟩, hb, hb', hc⟩ :=
    (within_enqueueFrom h d.message.id [] d.routedQueues).split
  simp only [tryDelivery, enqueueTargets, Delivery.message_eq hsame,
    Delivery.routedQueues_eq hsame, hb, hb']
  cases result with
  | error e => exact ⟨hc, rfl⟩
  | ok _ =>
    obtain ⟨hfollows, hok⟩ := within_persist hc hd hsame
    refine ⟨hfollows.excerpt, ?_⟩
    show (accepted, (c'.persist d').2) = (accepted, RoutingError.renumberIn D.rank (c.persist d).2)
    rw [hfollows.answer, hok]
    rfl

theorem beyond_tryDelivery (h : Excerpt D M b b') (ha : a ≠ D.address) (hd : d.At a) :
    Excerpt D M (b.tryDelivery d).1 b' := by
  have henqueued := beyond_enqueueFrom h d.message.id [] d.routedQueues
  simp only [tryDelivery, enqueueTargets]
  rcases hb : b.enqueueFrom d.message.id [] d.routedQueues with ⟨c, accepted, result⟩
  rw [hb] at henqueued
  cases result with
  | error e => exact henqueued
  | ok _ => exact beyond_persist henqueued ha hd

theorem within_deliver (h : Excerpt D M b b') (hd : d.At D.address)
    (hsame : d'.unowned = d.unowned) :
    Follows D M (RoutingError.renumberIn D.rank) (b.deliver d) (b'.deliver d') := by
  obtain ⟨c, c', ⟨accepted, result⟩, hb, hb', hc⟩ := (within_tryDelivery h hd hsame).split
  simp only [deliver, hb, hb', Prod.map, id_eq, Delivery.message_eq hsame]
  cases result with
  | error e => exact ⟨within_rollbackDelivery (within_withdrawAll hc ..) hd hsame, rfl⟩
  | ok _ => exact ⟨within_commitDelivery hc hd hsame, rfl⟩

theorem beyond_deliver (h : Excerpt D M b b') (ha : a ≠ D.address) (hd : d.At a) :
    Excerpt D M (b.deliver d).1 b' := by
  have htried := beyond_tryDelivery h ha hd
  simp only [deliver]
  rcases hb : b.tryDelivery d with ⟨c, accepted, result⟩
  rw [hb] at htried
  cases result with
  | error e => exact beyond_rollbackDelivery (beyond_withdrawAll htried ..) ha hd
  | ok _ => exact beyond_commitDelivery htried ha hd

/-! ## Transactions -/

variable {n : Nat}

theorem modifyTransaction_eq (b : Broker) (n : Nat) (f : Transaction → Transaction) :
    ∃ ts, b.modifyTransaction n f = { b with transactions := ts } := by
  cases n with
  | zero => exact ⟨b.transactions, rfl⟩
  | succ i => exact ⟨b.transactions.modify i f, rfl⟩

theorem Excerpt.setTransactions (h : Excerpt D M b b') {ts ts' : List Transaction}
    (hts : TransactionsMatch D { b with transactions := ts } { b' with transactions := ts' }) :
    Excerpt D M { b with transactions := ts } { b' with transactions := ts' } :=
  ⟨h.offices, h.mailboxes, h.storage, h.caches.of_caches rfl rfl, hts, h.waiting, h.ready, h.paired⟩

theorem beyond_setTransactions (h : Excerpt D M b b') {ts : List Transaction}
    (hts : TransactionsMatch D { b with transactions := ts } b') :
    Excerpt D M { b with transactions := ts } b' :=
  ⟨h.offices, h.mailboxes, h.storage, h.caches.of_caches rfl rfl, hts, h.waiting, h.ready, h.paired⟩

theorem Excerpt.modifyTransaction (h : Excerpt D M b b') (hhome : D.home n = D.address)
    {f f' : Transaction → Transaction}
    (hf : ∀ t : Transaction, t.At (D.home n) → (f t).At (D.home n))
    (hsame : ∀ t t' : Transaction, t'.unowned = t.unowned → (f' t').unowned = (f t).unowned) :
    Excerpt D M (b.modifyTransaction n f) (b'.modifyTransaction (D.rank n) f') := by
  have hmatch := h.transactions.modify hhome hf hsame
  obtain ⟨ts, hts⟩ := modifyTransaction_eq b n f
  obtain ⟨ts', hts'⟩ := modifyTransaction_eq b' (D.rank n) f'
  rw [hts, hts'] at hmatch ⊢
  exact h.setTransactions hmatch

theorem beyond_modifyTransaction (h : Excerpt D M b b') (hhome : D.home n ≠ D.address)
    {f : Transaction → Transaction}
    (hf : ∀ t : Transaction, t.At (D.home n) → (f t).At (D.home n)) :
    Excerpt D M (b.modifyTransaction n f) b' := by
  have hmatch := h.transactions.modify_beyond hhome hf
  obtain ⟨ts, hts⟩ := modifyTransaction_eq b n f
  rw [hts] at hmatch ⊢
  exact beyond_setTransactions h hmatch

end Broker

/-- What transactions have in common that differ in the owners of stages at most. -/
theorem Transaction.unowned_eq_iff {t t' : Transaction} : t'.unowned = t.unowned ↔
    t'.xid = t.xid ∧ t'.state = t.state ∧ t'.rollbackOnly = t.rollbackOnly ∧
      t'.operations.map (·.unowned) = t.operations.map (·.unowned) := by
  simp [unowned]

theorem Transaction.At.setState {t : Transaction} {a : Address} (h : t.At a)
    (s : TransactionState) : ({ t with state := s } : Transaction).At a := ⟨h.xid, h.operations⟩

theorem Transaction.At.append {t : Transaction} {a : Address} (h : t.At a) {op : Operation}
    (hop : op.At a) : ({ t with operations := t.operations ++ [op] } : Transaction).At a := by
  refine ⟨h.xid, fun p hp => ?_⟩
  rcases List.mem_append.1 hp with hp | hp
  · exact h.operations p hp
  · exact List.mem_singleton.1 hp ▸ hop

/-- The operation with other queues noted that have taken the message. -/
def Operation.withAccepted (accepted : List String) : Operation → Operation
  | .delivery d => .delivery { d with accepted }
  | .hook h => .hook h

theorem Operation.At.withAccepted {op : Operation} {a : Address} (h : op.At a)
    (accepted : List String) : (op.withAccepted accepted).At a := by
  obtain ⟨d, rfl, hrecorded, hd⟩ := h
  exact ⟨{ d with accepted }, rfl, hrecorded, hd⟩

theorem Operation.unowned_withAccepted (accepted : List String) (op : Operation) :
    (op.withAccepted accepted).unowned = op.unowned.withAccepted accepted := by
  cases op <;> rfl

namespace Broker

variable {D : District} {M : List (Nat × Nat)} {b b' : Broker} {a : Address} {n : Nat}

theorem modifyOperation_accepted (b : Broker) (n i : Nat) (accepted : List String) :
    b.modifyOperation n i (fun d => { d with accepted }) = b.modifyTransaction n fun t =>
      { t with operations := t.operations.modify i (·.withAccepted accepted) } := by
  unfold modifyOperation
  congr 1

theorem transactionAt_accepted {t : Transaction} (h : t.At a) (i : Nat) (accepted : List String) :
    ({ t with operations := t.operations.modify i (·.withAccepted accepted) } :
      Transaction).At a := by
  refine ⟨h.xid, fun op hop => ?_⟩
  obtain ⟨j, hj⟩ := List.mem_iff_getElem?.1 hop
  rw [List.getElem?_modify] at hj
  obtain ⟨p, hp, rfl⟩ := Option.map_eq_some_iff.1 hj
  have hpAt := h.operations p (List.mem_of_getElem? hp)
  split
  · exact hpAt.withAccepted accepted
  · exact hpAt

theorem within_accepted (h : Excerpt D M b b') (hhome : D.home n = D.address) (i : Nat)
    (accepted : List String) :
    Excerpt D M (b.modifyOperation n i fun d => { d with accepted })
      (b'.modifyOperation (D.rank n) i fun d => { d with accepted }) := by
  rw [modifyOperation_accepted, modifyOperation_accepted]
  refine h.modifyTransaction hhome (fun t ht => transactionAt_accepted ht i accepted)
    fun t t' ht => ?_
  rw [Transaction.unowned_eq_iff] at ht ⊢
  refine ⟨ht.1, ht.2.1, ht.2.2.1, List.ext_getElem? fun j => ?_⟩
  have hj := congrArg (fun l : List Operation => l[j]?) ht.2.2.2
  simp only [List.getElem?_map, List.getElem?_modify] at hj ⊢
  split
  · simp only [Option.map_eq_map, Option.map_map]
    have hmapped := congrArg (Option.map (Operation.withAccepted accepted)) hj
    simpa [Option.map_map, Function.comp_def, Operation.unowned_withAccepted] using hmapped
  · simpa using hj

theorem beyond_accepted (h : Excerpt D M b b') (hhome : D.home n ≠ D.address) (i : Nat)
    (accepted : List String) :
    Excerpt D M (b.modifyOperation n i fun d => { d with accepted }) b' := by
  rw [modifyOperation_accepted]
  exact beyond_modifyTransaction h hhome fun t ht => transactionAt_accepted ht i accepted

theorem within_setState (h : Excerpt D M b b') (hhome : D.home n = D.address)
    (s : TransactionState) : Excerpt D M (b.setState n s) (b'.setState (D.rank n) s) := by
  refine h.modifyTransaction hhome (fun t ht => ht.setState s) fun t t' ht => ?_
  rw [Transaction.unowned_eq_iff] at ht ⊢
  exact ⟨ht.1, rfl, ht.2.2⟩

theorem beyond_setState (h : Excerpt D M b b') (hhome : D.home n ≠ D.address)
    (s : TransactionState) : Excerpt D M (b.setState n s) b' :=
  beyond_modifyTransaction h hhome fun _ ht => ht.setState s

/-- A transaction takes an operation in both, or refuses it in both. -/
theorem within_addOperation (h : Excerpt D M b b') (hn : D.before < n)
    (hhome : D.home n = D.address) {op op' : Operation} (hop : op.At D.address)
    (hsame : op'.unowned = op.unowned) :
    Follows D M (Except.mapError (TransactionRefusal.renumber D.rank)) (b.addOperation n op)
      (b'.addOperation (D.rank n) op') := by
  have ht := h.transactions.same n hn hhome
  obtain ⟨hxid, hstate, hdoomed, hoperations⟩ := Transaction.unowned_eq_iff.1 ht
  unfold addOperation Transaction.addOperation Transaction.require
  rw [hstate]
  by_cases hactive : (b.transaction n).state ∈ [TransactionState.active]
  · rw [if_pos hactive, if_pos hactive]
    refine ⟨h.modifyTransaction hhome (fun _ _ => ?_) fun _ _ _ => ?_, rfl⟩
    · exact (h.transactions.homed n hn).append (hhome ▸ hop)
    · rw [Transaction.unowned_eq_iff]
      refine ⟨hxid, rfl, hdoomed, ?_⟩
      rw [List.map_append, List.map_append, hoperations, List.map_singleton, List.map_singleton,
        hsame]
  · rw [if_neg hactive, if_neg hactive]
    exact ⟨h, rfl⟩

theorem beyond_addOperation (h : Excerpt D M b b') (hn : D.before < n)
    (hhome : D.home n ≠ D.address) {op : Operation} (hop : op.At (D.home n)) :
    Excerpt D M (b.addOperation n op).1 b' := by
  unfold addOperation Transaction.addOperation Transaction.require
  by_cases hactive : (b.transaction n).state ∈ [TransactionState.active]
  · rw [if_pos hactive]
    exact beyond_modifyTransaction h hhome fun _ _ => (h.transactions.homed n hn).append hop
  · rw [if_neg hactive]
    exact h

/-! ## Operations -/

theorem forgetPrepared_of_unrecorded (b : Broker) (n : Nat) {d : PendingDelivery}
    (hd : d.recorded = false) : b.forgetPrepared n d = b := by
  rw [forgetPrepared, if_neg (by simp [hd])]

theorem xid_of_district (h : Excerpt D M b b') (hn : D.before < n) :
    (b.transaction n).xid = none := (h.transactions.homed n hn).xid

variable {d d' : PendingDelivery}

theorem within_callDelivery (h : Excerpt D M b b') (hn : D.before < n)
    (hhome : D.home n = D.address) (i : Nat) (hrecorded : d.recorded = false)
    (hd : d.delivery.At D.address)
    (hsame : (Operation.delivery d').unowned = (Operation.delivery d).unowned) (phase : Phase) :
    Follows D M (RoutingError.renumberIn D.rank) (b.callDelivery n i d phase)
      (b'.callDelivery (D.rank n) i d' phase) := by
  simp only [Operation.unowned, Operation.delivery.injEq, PendingDelivery.mk.injEq] at hsame
  obtain ⟨hdelivery, haccepted, hrecorded'⟩ := hsame
  rw [hrecorded] at hrecorded'
  cases phase with
  | beforePrepare =>
    have hxid := xid_of_district h hn
    have hxid' : (b'.transaction (D.rank n)).xid = none :=
      (Transaction.unowned_eq_iff.1 (h.transactions.same n hn hhome)).1.trans hxid
    simp only [callDelivery, prepareDelivery, hxid, hxid']
    exact ⟨h, rfl⟩
  | beforeCommit =>
    obtain ⟨c, c', ⟨accepted, result⟩, hb, hb', hc⟩ :=
      (within_enqueueFrom h d.delivery.message.id [] d.delivery.routedQueues).split
    have hnoted := within_accepted hc hhome i accepted
    simp only [callDelivery, placeDelivery, enqueueTargets, Delivery.message_eq hdelivery,
      Delivery.routedQueues_eq hdelivery, hb, hb', Prod.map, id_eq]
    cases result with
    | error e => exact ⟨hnoted, rfl⟩
    | ok _ =>
      obtain ⟨hfollows, hok⟩ := within_persist hnoted hd hdelivery
      refine ⟨hfollows.excerpt, ?_⟩
      show (Broker.persist _ d'.delivery).2 = RoutingError.renumberIn D.rank _
      rw [hfollows.answer, hok]
      rfl
  | afterCommit =>
    simp only [callDelivery, forgetPrepared_of_unrecorded _ _ hrecorded,
      forgetPrepared_of_unrecorded _ _ hrecorded']
    exact ⟨within_commitDelivery h hd hdelivery, rfl⟩
  | afterRollback =>
    simp only [callDelivery, undoDelivery, forgetPrepared_of_unrecorded _ _ hrecorded,
      forgetPrepared_of_unrecorded _ _ hrecorded', Delivery.message_eq hdelivery, haccepted]
    exact ⟨within_rollbackDelivery (within_withdrawAll (within_accepted h hhome i []) ..) hd
      hdelivery, rfl⟩

theorem beyond_callDelivery (h : Excerpt D M b b') (hn : D.before < n)
    (hhome : D.home n ≠ D.address) (i : Nat) (hrecorded : d.recorded = false)
    (hd : d.delivery.At (D.home n)) (phase : Phase) :
    Excerpt D M (b.callDelivery n i d phase).1 b' := by
  cases phase with
  | beforePrepare =>
    simp only [callDelivery, prepareDelivery, xid_of_district h hn]
    exact h
  | beforeCommit =>
    have henqueued := beyond_enqueueFrom h d.delivery.message.id [] d.delivery.routedQueues
    simp only [callDelivery, placeDelivery, enqueueTargets]
    rcases hb : b.enqueueFrom d.delivery.message.id [] d.delivery.routedQueues with
      ⟨c, accepted, result⟩
    rw [hb] at henqueued
    have hnoted := beyond_accepted henqueued hhome i accepted
    cases result with
    | error e => exact hnoted
    | ok _ => exact beyond_persist hnoted hhome hd
  | afterCommit =>
    simp only [callDelivery, forgetPrepared_of_unrecorded _ _ hrecorded]
    exact beyond_commitDelivery h hhome hd
  | afterRollback =>
    simp only [callDelivery, undoDelivery, forgetPrepared_of_unrecorded _ _ hrecorded]
    exact beyond_rollbackDelivery (beyond_withdrawAll (beyond_accepted h hhome i []) ..) hhome hd

theorem within_callOperation (h : Excerpt D M b b') (hn : D.before < n)
    (hhome : D.home n = D.address) (phase : Phase) (i : Nat) :
    Follows D M (RoutingError.renumberIn D.rank) (b.callOperation n phase i)
      (b'.callOperation (D.rank n) phase i) := by
  have hoperations := (Transaction.unowned_eq_iff.1 (h.transactions.same n hn hhome)).2.2.2
  have hi := congrArg (fun l : List Operation => l[i]?) hoperations
  simp only [List.getElem?_map] at hi
  unfold callOperation
  cases hop : (b.transaction n).operations[i]? with
  | none =>
    rw [hop, Option.map_none, Option.map_eq_none_iff] at hi
    rw [hi]
    exact ⟨h, rfl⟩
  | some op =>
    rw [hop, Option.map_some, Option.map_eq_some_iff] at hi
    obtain ⟨op', hop', hsame⟩ := hi
    obtain ⟨d, rfl, hrecorded, hd⟩ :=
      (h.transactions.homed n hn).operations op (List.mem_of_getElem? hop)
    cases op' with
    | hook k => cases hsame
    | delivery d' =>
      rw [hop']
      exact within_callDelivery (h.log _ _) hn hhome i hrecorded (hhome ▸ hd) hsame phase

theorem beyond_callOperation (h : Excerpt D M b b') (hn : D.before < n)
    (hhome : D.home n ≠ D.address) (phase : Phase) (i : Nat) :
    Excerpt D M (b.callOperation n phase i).1 b' := by
  unfold callOperation
  cases hop : (b.transaction n).operations[i]? with
  | none => exact h
  | some op =>
    obtain ⟨d, rfl, hrecorded, hd⟩ :=
      (h.transactions.homed n hn).operations op (List.mem_of_getElem? hop)
    exact beyond_callDelivery (beyond_log h _) hn hhome i hrecorded hd phase

theorem within_callUntilFailure (h : Excerpt D M b b') (hn : D.before < n)
    (hhome : D.home n = D.address) (phase : Phase) (is : List Nat) :
    Follows D M (RoutingError.renumberIn D.rank) (b.callUntilFailure n phase is)
      (b'.callUntilFailure (D.rank n) phase is) := by
  induction is generalizing b b' with
  | nil => exact ⟨h, rfl⟩
  | cons i rest ih =>
    obtain ⟨c, c', result, hb, hb', hc⟩ := (within_callOperation h hn hhome phase i).split
    simp only [callUntilFailure, hb, hb']
    cases result with
    | error e => exact ⟨hc, rfl⟩
    | ok _ => exact ih hc

theorem beyond_callUntilFailure (h : Excerpt D M b b') (hn : D.before < n)
    (hhome : D.home n ≠ D.address) (phase : Phase) (is : List Nat) :
    Excerpt D M (b.callUntilFailure n phase is).1 b' := by
  induction is generalizing b with
  | nil => exact h
  | cons i rest ih =>
    have hcalled := beyond_callOperation h hn hhome phase i
    simp only [callUntilFailure]
    rcases hb : b.callOperation n phase i with ⟨c, result⟩
    rw [hb] at hcalled
    cases result with
    | error e => exact hcalled
    | ok _ => exact ih hcalled

theorem within_callAll (h : Excerpt D M b b') (hn : D.before < n)
    (hhome : D.home n = D.address) (phase : Phase) (is : List Nat) :
    Excerpt D M (b.callAll n phase is) (b'.callAll (D.rank n) phase is) := by
  induction is generalizing b b' with
  | nil => exact h
  | cons i rest ih => exact ih (within_callOperation h hn hhome phase i).excerpt

theorem beyond_callAll (h : Excerpt D M b b') (hn : D.before < n)
    (hhome : D.home n ≠ D.address) (phase : Phase) (is : List Nat) :
    Excerpt D M (b.callAll n phase is) b' := by
  induction is generalizing b with
  | nil => exact h
  | cons i rest ih => exact ih (beyond_callOperation h hn hhome phase i)

/-! ## Completions -/

theorem operationIndexes_eq (h : Excerpt D M b b') (hn : D.before < n)
    (hhome : D.home n = D.address) :
    b'.operationIndexes (D.rank n) = b.operationIndexes n := by
  have hoperations := (Transaction.unowned_eq_iff.1 (h.transactions.same n hn hhome)).2.2.2
  have hlength := congrArg List.length hoperations
  rw [List.length_map, List.length_map] at hlength
  rw [operationIndexes, operationIndexes, hlength]

theorem within_undo (h : Excerpt D M b b') (hn : D.before < n) (hhome : D.home n = D.address) :
    Excerpt D M (b.undo n) (b'.undo (D.rank n)) := by
  have hset := within_setState h hhome .rolledBack
  unfold undo
  dsimp only
  rw [operationIndexes_eq hset hn hhome]
  exact within_callAll hset hn hhome ..

theorem beyond_undo (h : Excerpt D M b b') (hn : D.before < n) (hhome : D.home n ≠ D.address) :
    Excerpt D M (b.undo n) b' :=
  beyond_callAll (beyond_setState h hhome .rolledBack) hn hhome ..

theorem within_commit (h : Excerpt D M b b') (hn : D.before < n) (hhome : D.home n = D.address) :
    Follows D M (Except.mapError (TransactionError.renumber D.rank)) (b.commit n)
      (b'.commit (D.rank n)) := by
  obtain ⟨-, hstate, hdoomed, -⟩ :=
    Transaction.unowned_eq_iff.1 (h.transactions.same n hn hhome)
  unfold commit Transaction.require undoDoomed?
  rw [hstate, hdoomed, operationIndexes_eq h hn hhome]
  by_cases hlive : (b.transaction n).state ∈ [TransactionState.active, .prepared]
  · rw [if_pos hlive, if_pos hlive]
    cases (b.transaction n).rollbackOnly with
    | some reason => exact ⟨within_undo h hn hhome, rfl⟩
    | none =>
      obtain ⟨c, c', result, hb, hb', hc⟩ :=
        (within_callUntilFailure h hn hhome .beforeCommit (b.operationIndexes n)).split
      simp only [Option.map_none, hb, hb']
      cases result with
      | error e => exact ⟨within_undo hc hn hhome, rfl⟩
      | ok _ => exact ⟨within_callAll (within_setState hc hhome .committed) hn hhome .., rfl⟩
  · rw [if_neg hlive, if_neg hlive]
    exact ⟨h, rfl⟩

theorem beyond_commit (h : Excerpt D M b b') (hn : D.before < n) (hhome : D.home n ≠ D.address) :
    Excerpt D M (b.commit n).1 b' := by
  unfold commit Transaction.require undoDoomed?
  by_cases hlive : (b.transaction n).state ∈ [TransactionState.active, .prepared]
  · rw [if_pos hlive]
    cases (b.transaction n).rollbackOnly with
    | some reason => exact beyond_undo h hn hhome
    | none =>
      have hcalled := beyond_callUntilFailure h hn hhome .beforeCommit (b.operationIndexes n)
      simp only [Option.map_none]
      rcases hb : b.callUntilFailure n .beforeCommit (b.operationIndexes n) with ⟨c, result⟩
      rw [hb] at hcalled
      cases result with
      | error e => exact beyond_undo hcalled hn hhome
      | ok _ => exact beyond_callAll (beyond_setState hcalled hhome .committed) hn hhome ..
  · rw [if_neg hlive]
    exact h

theorem within_rollback (h : Excerpt D M b b') (hn : D.before < n)
    (hhome : D.home n = D.address) :
    Follows D M (Except.mapError (TransactionError.renumber D.rank)) (b.rollback n)
      (b'.rollback (D.rank n)) := by
  obtain ⟨-, hstate, -, -⟩ := Transaction.unowned_eq_iff.1 (h.transactions.same n hn hhome)
  unfold rollback Transaction.require
  rw [hstate]
  by_cases hlive : (b.transaction n).state ∈ [TransactionState.active, .prepared]
  · rw [if_pos hlive, if_pos hlive]
    exact ⟨within_undo h hn hhome, rfl⟩
  · rw [if_neg hlive, if_neg hlive]
    exact ⟨h, rfl⟩

theorem beyond_rollback (h : Excerpt D M b b') (hn : D.before < n)
    (hhome : D.home n ≠ D.address) : Excerpt D M (b.rollback n).1 b' := by
  unfold rollback Transaction.require
  by_cases hlive : (b.transaction n).state ∈ [TransactionState.active, .prepared]
  · rw [if_pos hlive]
    exact beyond_undo h hn hhome
  · rw [if_neg hlive]
    exact h

/-- A doomed transaction is doomed in the excerpt for the same reason. -/
theorem within_mark (h : Excerpt D M b b') (hhome : D.home n = D.address) (reason : String) :
    Excerpt D M (b.markRollbackOnly n reason) (b'.markRollbackOnly (D.rank n) reason) := by
  refine h.modifyTransaction hhome (fun t ht => ⟨ht.xid, ht.operations⟩) fun t t' ht => ?_
  rw [Transaction.unowned_eq_iff] at ht ⊢
  exact ⟨ht.1, ht.2.1, by simp only [Transaction.mark, ht.2.2.1], ht.2.2.2⟩

theorem beyond_mark (h : Excerpt D M b b') (hhome : D.home n ≠ D.address) (reason : String) :
    Excerpt D M (b.markRollbackOnly n reason) b' :=
  beyond_modifyTransaction h hhome fun _ ht => ⟨ht.xid, ht.operations⟩

/-- Only branches can be prepared. -/
theorem prepare_of_local (h : Excerpt D M b b') (hn : D.before < n) :
    b.prepare n = (b, .error (.refused (.notXa n))) := by
  rw [prepare, xid_of_district h hn]
  rfl

theorem within_prepare (h : Excerpt D M b b') (hn : D.before < n)
    (hhome : D.home n = D.address) :
    Follows D M (Except.mapError (TransactionError.renumber D.rank)) (b.prepare n)
      (b'.prepare (D.rank n)) := by
  have hxid : (b'.transaction (D.rank n)).xid = none :=
    (Transaction.unowned_eq_iff.1 (h.transactions.same n hn hhome)).1.trans (xid_of_district h hn)
  rw [prepare_of_local h hn, prepare, hxid]
  exact ⟨h, rfl⟩

end Broker

end MessageRouting
