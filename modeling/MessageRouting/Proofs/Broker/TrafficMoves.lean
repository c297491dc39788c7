import MessageRouting.Proofs.Broker.MoveFrames
import MessageRouting.Proofs.Cache.Operations

/-!
# Traffic at one post office

Traffic is what a post office is asked to do from its start to its end: sends,
transactions and branches in any order, hooks, changes of bindings and of
queues, and the writes of its writer. Whatever is asked, what happens to stages
and to the journal is a chain of moves.

Results:

* `passes_perform`, `ends_completion`, `writeSome_of_writing`: what requests of
  each kind are.
* `moves_perform`: every request is a chain of moves.
* `moves_run`: so is every run.
-/

namespace MessageRouting

open Relation (ReflGen ReflTransGen)

namespace Broker

theorem view_eq {b b' : Broker} (hbooks : b'.books = b.books)
    (htransactions : b'.transactions = b.transactions) : b'.view = b.view := by
  rw [view, hbooks, outlines_of_transactions htransactions, view]

/-! ## Deliveries -/

theorem view_deliver_of_none (b : Broker) {d : Delivery} (hd : d.stage = none) :
    (b.deliver d).1.view = b.view := by
  have hbooks := books_enqueueTargets b d
  have htransactions : (b.enqueueTargets d).1.transactions = b.transactions :=
    transactions_enqueueFrom ..
  unfold deliver tryDelivery persist
  rcases henqueue : b.enqueueTargets d with ⟨c, accepted, result⟩
  rw [henqueue] at hbooks htransactions
  dsimp only at hbooks htransactions
  cases result with
  | error e =>
    simp only [rollbackDelivery, hd]
    exact view_eq (by rw [books_withdrawAll, hbooks])
      (by rw [transactions_withdrawAll, htransactions])
  | ok _ =>
    simp only [hd, commitDelivery]
    exact view_eq hbooks htransactions

theorem persist_failed {b b' : Broker} {d : Delivery} {h : HeldStage} {e : RoutingError}
    (hd : d.stage = some h) (hpersist : b.persist d = (b', .error e)) :
    ∃ err, b.books.persistAll [(h, false)] = (b'.books, .error err) := by
  obtain ⟨hbooks, hresult⟩ := books_persistStage b h
  unfold persist at hpersist
  rw [hd] at hpersist
  dsimp only at hpersist
  rcases hstage : b.persistStage h with ⟨c, result⟩
  rw [hstage] at hpersist hbooks hresult
  cases result with
  | ok _ => cases hpersist
  | error err =>
    cases hpersist
    have hp : b.books.persistStage h = (b'.books, .error err) :=
      Prod.ext hbooks.symm hresult.symm
    exact ⟨err, by simp only [persistAll, hp]⟩

/-- A delivery outside any transaction makes its stage visible, or drops it, before it persists it
or because it cannot. -/
theorem deliver_staged {b b' : Broker} {d : Delivery} {h : HeldStage}
    {result : Except RoutingError Unit} (hd : d.stage = some h)
    (hdeliver : b.deliver d = (b', result)) :
    b'.outlines = b.outlines ∧
      ((result = .ok () ∧ ∃ c, b.books.persistAll [(h, false)] = (c, .ok ()) ∧
          b'.books = c.promoteAll none [(h, false)]) ∨
        ∃ e m, result = .error e ∧
          ((b.books.persistAll ([(h, false)].take m)).2 = .ok () → m = 0) ∧
          b'.books = (b.books.persistAll ([(h, false)].take m)).1.dropAll none [(h, false)]) := by
  have hbooks := books_enqueueTargets b d
  have htransactions : (b.enqueueTargets d).1.transactions = b.transactions :=
    transactions_enqueueFrom ..
  unfold deliver tryDelivery at hdeliver
  rcases henqueue : b.enqueueTargets d with ⟨c, accepted, r⟩
  rw [henqueue] at hbooks htransactions hdeliver
  dsimp only at hbooks htransactions hdeliver
  cases r with
  | error e =>
    simp only [rollbackDelivery, hd, Prod.mk.injEq] at hdeliver
    obtain ⟨rfl, rfl⟩ := hdeliver
    refine ⟨outlines_of_transactions (by simp [htransactions]),
      Or.inr ⟨e, 0, rfl, fun _ => rfl, ?_⟩⟩
    rw [books_rollbackStage, books_withdrawAll, hbooks]
    rfl
  | ok _ =>
    obtain ⟨hok, -⟩ := persist_persists c { delivery := d }
    have hpersist := transactions_persist c d
    rw [hbooks] at hok
    simp only [Operation.held?, hd, Option.map_some, Option.toList_some] at hok
    dsimp only at hdeliver
    rcases hp : c.persist d with ⟨c', r⟩
    simp only [hp] at hok hpersist hdeliver
    cases r with
    | error e =>
      simp only [rollbackDelivery, hd, Prod.mk.injEq] at hdeliver
      obtain ⟨rfl, rfl⟩ := hdeliver
      obtain ⟨err, hfailed⟩ := persist_failed hd hp
      rw [hbooks] at hfailed
      refine ⟨outlines_of_transactions (by simp [hpersist, htransactions]),
        Or.inr ⟨e, 1, rfl, fun hpersisted => ?_, ?_⟩⟩
      · rw [List.take_of_length_le (by simp), hfailed] at hpersisted
        cases hpersisted
      · rw [books_rollbackStage, books_withdrawAll, List.take_of_length_le (by simp), hfailed]
        rfl
    | ok _ =>
      simp only [commitDelivery, hd, Prod.mk.injEq] at hdeliver
      obtain ⟨rfl, rfl⟩ := hdeliver
      refine ⟨outlines_of_transactions (by simp [hpersist, htransactions]),
        Or.inl ⟨rfl, c'.books, hok rfl, ?_⟩⟩
      rw [books_commitStage]
      rfl

/-- A delivery that a transaction takes is added to its outline. -/
theorem addOperation_delivery {b b' : Broker} {n : Nat} {d : PendingDelivery}
    (hadd : b.addOperation n (.delivery d) = (b', .ok ())) :
    b'.books = b.books ∧ ∃ l₁ l₂ x held, l₁.length + 1 = n ∧
      b.outlines = l₁ ++ ⟨x, .active, held⟩ :: l₂ ∧
      b'.outlines = l₁ ++ ⟨x, .active, held ++ (Operation.delivery d).held?.toList⟩ :: l₂ := by
  unfold addOperation Transaction.addOperation at hadd
  split at hadd
  · rename_i t ht
    split at ht
    · cases ht
    · rename_i hrequire
      cases ht
      cases hadd
      have hactive : (b.transaction n).state = .active := by
        simpa using state_of_require hrequire
      have hn : b.Has n := has_of_state (by simp [hactive])
      obtain ⟨l₁, l₂, hsplit, hlen, hset⟩ := outlines_split hn
      refine ⟨books_modifyTransaction .., l₁, l₂, (b.transaction n).xid,
        (b.transaction n).slots.filterMap id, hlen, ?_, ?_⟩
      · rw [hsplit, Transaction.outline, hactive]
      · obtain ⟨i, rfl⟩ := Nat.exists_eq_add_one.2 hn.1
        rw [outlines_modifyTransaction]
        rw [Nat.add_sub_cancel] at hset
        rw [hset]
        simp [Transaction.outline, Transaction.slots, hactive, List.filterMap_append,
          List.filterMap_cons]
        cases (Operation.delivery d).held? <;> rfl
  · cases hadd

theorem addOperation_error {b b' : Broker} {n : Nat} {op : Operation} {e : TransactionRefusal}
    (hadd : b.addOperation n op = (b', .error e)) : b' = b := by
  unfold addOperation at hadd
  split at hadd
  · cases hadd
  · cases hadd
    rfl

theorem view_dispatch_of_none (b : Broker) {d : Delivery} (transaction : Option Nat)
    (hd : d.stage = none) : (b.dispatch d transaction).1.view = b.view := by
  cases transaction with
  | none => exact view_deliver_of_none b hd
  | some n =>
    simp only [dispatch, rollbackDelivery, hd]
    rcases hadd : b.addOperation n (.delivery { delivery := d }) with ⟨b', result⟩
    cases result with
    | error e => rw [addOperation_error hadd]
    | ok _ =>
      obtain ⟨hbooks, l₁, l₂, x, held, -, hsplit, hsplit'⟩ := addOperation_delivery hadd
      have hheld : (Operation.delivery { delivery := d }).held? = none := by
        simp [Operation.held?, hd]
      rw [hheld, Option.toList_none, List.append_nil, ← hsplit] at hsplit'
      show b'.view = _
      rw [view, hbooks, hsplit', view]

/-- What becomes of a stage that a delivery has: its send or its transaction takes it, or it is
dropped. -/
theorem dispatch_staged {b b' : Broker} {d : Delivery} {h : HeldStage}
    {transaction : Option Nat} {result : Except RoutingError Unit} (hd : d.stage = some h)
    (hdispatch : b.dispatch d transaction = (b', result)) :
    (transaction = none ∧ result = .ok () ∧ b'.outlines = b.outlines ∧
        ∃ c, b.books.persistAll [(h, false)] = (c, .ok ()) ∧
          b'.books = c.promoteAll none [(h, false)]) ∨
      (∃ n l₁ l₂ x held, transaction = some n ∧ result = .ok () ∧ b'.books = b.books ∧
        l₁.length + 1 = n ∧ b.outlines = l₁ ++ ⟨x, .active, held⟩ :: l₂ ∧
        b'.outlines = l₁ ++ ⟨x, .active, held ++ [(h, false)]⟩ :: l₂) ∨
      ∃ e m, result = .error e ∧ b'.outlines = b.outlines ∧
        ((b.books.persistAll ([(h, false)].take m)).2 = .ok () → m = 0) ∧
        b'.books = (b.books.persistAll ([(h, false)].take m)).1.dropAll none [(h, false)] := by
  cases transaction with
  | none =>
    obtain ⟨houtlines, ⟨hresult, hbooks⟩ | ⟨e, m, hresult, hearly, hbooks⟩⟩ :=
      deliver_staged hd hdispatch
    · exact Or.inl ⟨rfl, hresult, houtlines, hbooks⟩
    · exact Or.inr (Or.inr ⟨e, m, hresult, houtlines, hearly, hbooks⟩)
  | some n =>
    simp only [dispatch, rollbackDelivery, hd] at hdispatch
    rcases hadd : b.addOperation n (.delivery { delivery := d }) with ⟨c, r⟩
    rw [hadd] at hdispatch
    cases r with
    | error e =>
      cases hdispatch
      rw [addOperation_error hadd]
      refine Or.inr (Or.inr ⟨_, 0, rfl, outlines_of_transactions (by simp), fun _ => rfl, ?_⟩)
      rw [books_rollbackStage]
      rfl
    | ok _ =>
      cases hdispatch
      obtain ⟨hbooks, l₁, l₂, x, held, hlen, hsplit, hsplit'⟩ := addOperation_delivery hadd
      have hheld : (Operation.delivery { delivery := d }).held? = some (h, false) := by
        simp [Operation.held?, hd]
      rw [hheld] at hsplit'
      exact Or.inr (Or.inl ⟨n, l₁, l₂, x, held, rfl, rfl, hbooks, hlen, hsplit, hsplit'⟩)

theorem passes_dispatch (P : Call → Prop) {b : Broker} {d : Delivery} {h : HeldStage}
    {transaction : Option Nat} (hd : d.stage = some h)
    (howner : ∀ n, transaction = some n → h.staged.owner = .transaction n) :
    Passes P ⟨b.books, [h], b.outlines⟩ (b.dispatch d transaction).1.view := by
  rcases hdispatch : b.dispatch d transaction with ⟨b', result⟩
  unfold view
  rcases dispatch_staged hd hdispatch with ⟨-, -, houtlines, c, hc, hbooks⟩ |
    ⟨n, l₁, l₂, x, held, htx, -, hbooks, hlen, hsplit, hsplit'⟩ |
    ⟨e, m, -, houtlines, hearly, hbooks⟩
  · rw [houtlines, hbooks]
    exact .sent hc
  · rw [hbooks, hsplit, hsplit']
    apply Passes.registered
    rw [hlen]
    exact howner n htx
  · rw [houtlines, hbooks]
    exact .refused m hearly

/-! ## Attempts -/

theorem view_finish (b : Broker) (r : Routing) (staged acceptedDuplicate : Bool) :
    (b.finish r staged acceptedDuplicate).1 = (b.dispatch r.delivery r.transaction).1 := by
  unfold finish
  rcases b.dispatch r.delivery r.transaction with ⟨b', result⟩
  cases result <;> rfl

theorem view_notify (b : Broker) (n : Nat) (what : Notification) :
    (b.notify n what).view = b.view := view_eq (books_notify ..) rfl

/-- An attempt whose stage is granted goes on with it. -/
theorem attempt_of_granted {b b₁ : Broker} {c : Call} {r : Routing} {s : Staged}
    (hr : c.purpose = .route r)
    (hgrant : b.attemptStage c.cache c.duplicateId c.owner = (b₁, some (.staged s))) :
    b.attempt c =
      ((b₁.finish { r with delivery := { r.delivery with stage := some ⟨c.cache, s⟩ } } true
        false).1,
       some (b₁.finish { r with delivery := { r.delivery with stage := some ⟨c.cache, s⟩ } } true
        false).2) := by
  simp only [attempt, hgrant, hr, continueRouting]

/-- Without a new stage nothing changes in the books or the outlines. -/
theorem view_attempt_of_not_granted {b b₁ : Broker} {c : Call} {r : Routing}
    {o : Option StageOutcome} (hr : c.purpose = .route r) (hstage : r.delivery.stage = none)
    (hattempt : b.attemptStage c.cache c.duplicateId c.owner = (b₁, o))
    (ho : ∀ s, o ≠ some (.staged s)) : b₁ = b ∧ (b.attempt c).1.view = b.view := by
  have hb₁ : b₁ = b := by
    unfold attemptStage at hattempt
    split at hattempt
    · cases hattempt
      exact absurd rfl (ho _)
    · cases hattempt
      rfl
  refine ⟨hb₁, ?_⟩
  subst hb₁
  simp only [attempt, hattempt]
  cases o with
  | none => rfl
  | some o =>
    simp only [hr]
    cases o with
    | staged s => exact absurd rfl (ho s)
    | duplicate =>
      simp only [continueRouting]
      split
      · exact view_notify ..
      · rw [view_finish, view_dispatch_of_none _ _ hstage]
    | alreadyStaged =>
      simp only [continueRouting]
      rw [view_finish, view_dispatch_of_none _ _ hstage]
    | disabled =>
      simp only [continueRouting]
      rw [view_finish, view_dispatch_of_none _ _ hstage]

theorem owner_attemptStage {b b₁ : Broker} {ref : CacheRef} {id : Bytes} {owner : Owner}
    {s : Staged} (h : b.attemptStage ref id owner = (b₁, some (.staged s))) :
    s.owner = owner ∧ s.duplicateId = id := by
  unfold attemptStage at h
  split at h
  · rename_i s' c hattempt
    obtain ⟨-, -, -, rfl, -⟩ := Cache.attempt_staged hattempt
    cases h
    exact ⟨rfl, rfl⟩
  · rename_i o c hnot hattempt
    simp only [Prod.mk.injEq] at h
    exact (hnot s h.2).elim

/-- An attempt is a grant and what becomes of the stage, or nothing happens. -/
theorem passes_attempt (P : Call → Prop) {b : Broker} {c : Call} (hc : c.Routes) :
    ReflTransGen (Passes P) b.view (b.attempt c).1.view := by
  obtain ⟨r, hr, -, hstage, hcache, -, howner⟩ := hc
  rcases hattempt : b.attemptStage c.cache c.duplicateId c.owner with ⟨b₁, o⟩
  by_cases ho : ∃ s, o = some (.staged s)
  · obtain ⟨s, rfl⟩ := ho
    rw [attempt_of_granted hr hattempt, view_finish]
    have hbooks := books_attemptStage b c.cache c.duplicateId c.owner
    have htransactions := transactions_attemptStage b c.cache c.duplicateId c.owner
    rw [hattempt] at hbooks htransactions
    rw [hcache] at hbooks hattempt ⊢
    have hgrant : Passes P b.view ⟨b₁.books, [⟨.office 0 r.delivery.message.address, s⟩],
        b₁.outlines⟩ := by
      rw [outlines_of_transactions htransactions]
      exact .granted (Prod.ext hbooks.1.symm hbooks.2.symm)
    refine (ReflTransGen.single hgrant).tail (passes_dispatch P rfl fun n hn => ?_)
    simp only at hn
    rw [hn] at howner
    rw [(owner_attemptStage hattempt).1, howner]
  · have hview := view_attempt_of_not_granted hr hstage hattempt fun s hs => ho ⟨s, hs⟩
    rw [hview.2]

/-! ## Calls -/

theorem passes_submitCall {P : Call → Prop} (hP : ∀ c, P c → c.Routes) {b : Broker} {c : Call}
    (hc : P c) : ReflTransGen (Passes P) b.view (b.submitCall c).1.view := by
  have hmoves := passes_attempt P (hP c hc) (b := b)
  unfold submitCall
  rcases hattempt : b.attempt c with ⟨b', answer⟩
  rw [hattempt] at hmoves
  cases answer with
  | some answer => exact hmoves
  | none => exact hmoves.tail (.waits hc)

theorem passes_resume {P : Call → Prop} (hP : ∀ c, P c → c.Routes) {b : Broker}
    (hb : Proper P b) : ReflTransGen (Passes P) b.view b.resume.view := by
  unfold resume
  split
  · exact .refl
  · rename_i call rest hready
    have hcall : P call := hb.calls call (by simp [hready])
    have hretry : Passes P b.view { b with ready := rest }.view :=
      .retries fun c hc => hready ▸ List.mem_cons_of_mem call hc
    have hmoves := passes_submitCall hP hcall (b := { b with ready := rest })
    split
    · rename_i b' answer heq
      rw [heq] at hmoves
      have hlog : (b'.log (.answered call.ticket answer)).view = b'.view :=
        view_eq (books_log_of_not rfl) rfl
      rw [hlog]
      exact (ReflTransGen.single hretry).trans hmoves
    · rename_i b' heq
      rw [heq] at hmoves
      exact (ReflTransGen.single hretry).trans hmoves

theorem passes_defer (P : Call → Prop) (b : Broker) :
    ReflTransGen (Passes P) b.view b.defer.view := by
  obtain ⟨calls, hperm, hdefer⟩ := defer_perm b
  rw [hdefer]
  exact .single (.retries fun c hc => hperm.mem_iff.1 hc)

theorem proper_of_moves {P : Call → Prop} {b b' : Broker} (hb : Proper P b)
    (h : Moves P b.view b'.view) : Proper P b' :=
  proper_books.1 (proper_moves h (proper_books.2 hb))

theorem passes_resumeSome {P : Call → Prop} (hP : ∀ c, P c → c.Routes) (k : Nat) {b : Broker}
    (hb : Proper P b) : ReflTransGen (Passes P) b.view (b.resumeSome k).view := by
  induction k generalizing b with
  | zero => exact .refl
  | succ k ih =>
    unfold resumeSome
    split
    · exact .refl
    · have hmoves := passes_resume hP hb
      exact hmoves.trans (ih (proper_of_moves hb (moves_of_passes hmoves)))

/-! ## Sends -/

theorem view_collect (b : Broker) (n : Nat) (m : Message) : (b.collect n m).1.view = b.view :=
  view_eq (books_setRegistry ..) (transactions_setDesk ..)

theorem toQueues_message {m : Message} {queues : List String} {d : Delivery}
    (h : Delivery.toQueues m queues = .ok d) : d.message = m ∧ d.stage = none := by
  unfold Delivery.toQueues at h
  have hfold : ∀ (qs : List String) (d₀ : Delivery),
      qs.foldlM (fun d q => d.addTarget q .route) d₀ = .ok d →
        d.message = d₀.message ∧ d.stage = d₀.stage := by
    intro qs
    induction qs with
    | nil =>
      intro d₀ h
      cases h
      exact ⟨rfl, rfl⟩
    | cons q qs ih =>
      intro d₀ h
      rw [List.foldlM_cons] at h
      rcases hadd : d₀.addTarget q .route with e | d₁
      · rw [hadd] at h
        cases h
      · rw [hadd] at h
        obtain ⟨hm, hs⟩ := ih d₁ h
        unfold Delivery.addTarget at hadd
        split at hadd
        · cases hadd
        · cases hadd
          exact ⟨hm, hs⟩
  exact hfold queues _ h

theorem collect_ok {b b' : Broker} {n : Nat} {m : Message} {d : Delivery}
    (h : b.collect n m = (b', .ok d)) : d.message = m ∧ d.stage = none :=
  toQueues_message (congrArg Prod.snd h)

theorem view_routeUnstaged (b : Broker) (n : Nat) (m : Message) (transaction : Option Nat)
    (acceptedDuplicate : Bool) :
    (b.routeUnstaged n m transaction acceptedDuplicate).1.view = b.view := by
  have hview := view_collect b n m
  unfold routeUnstaged
  rcases hcollect : b.collect n m with ⟨c, result⟩
  rw [hcollect] at hview
  cases result with
  | error e => exact hview
  | ok d => exact (by rw [view_finish, view_dispatch_of_none _ _ (collect_ok hcollect).2, hview])

/-- The call that a send makes if it comes to staging its identifier. -/
def Submits (b : Broker) (command : Command) (c : Call) : Prop :=
  ∃ ticket m transaction rejectDuplicates id delivery,
    command = .route 0 ticket m transaction rejectDuplicates ∧ b.detectedId 0 m = some id ∧
    ((b.openOfficeCache 0 m.address).cache (.office 0 m.address)).isDuplicate id = false ∧
    ((b.openOfficeCache 0 m.address).collect 0 m).2 = .ok delivery ∧
    c = {
      ticket
      cache := .office 0 m.address
      duplicateId := id
      owner := (b.drawOwner 0 transaction).2
      purpose := .route { office := 0, transaction, rejectDuplicates, delivery } }

theorem duplicateId_of_detectedId {b : Broker} {n : Nat} {m : Message} {id : Bytes}
    (h : b.detectedId n m = some id) : m.duplicateId = some id := by
  unfold detectedId at h
  split at h
  · exact h
  · cases h

theorem routes_of_submits {b : Broker} {command : Command} {c : Call} (h : b.Submits command c) :
    c.Routes := by
  obtain ⟨ticket, m, transaction, rejectDuplicates, id, delivery, -, hid, -, hcollect, rfl⟩ := h
  obtain ⟨rfl, hstage⟩ := toQueues_message hcollect
  refine ⟨_, rfl, rfl, hstage, rfl, duplicateId_of_detectedId hid, ?_⟩
  cases transaction with
  | none => exact ⟨_, rfl⟩
  | some n => rfl

theorem view_drawOwner (b : Broker) (n : Nat) (transaction : Option Nat) :
    (b.drawOwner n transaction).1.view = b.view := by
  cases transaction with
  | some t => rfl
  | none => exact view_eq (books_modifyOffice_of_eq b n fun _ => rfl) rfl

theorem nextOwner_modifyOffice (b : Broker) (n m : Nat) {f : Office → Office}
    (h : ∀ o, (f o).nextOwner = o.nextOwner) :
    ((b.modifyOffice n f).office m).nextOwner = (b.office m).nextOwner := by
  simp only [office, modifyOffice, List.getD_eq_getElem?_getD, List.getElem?_modify]
  cases b.offices[m]? with
  | none => rfl
  | some o =>
    split
    · exact h o
    · rfl

theorem nextOwner_setDesk (b : Broker) (n : Option Nat) (d : Desk) (m : Nat) :
    ((b.setDesk n d).office m).nextOwner = (b.office m).nextOwner := by
  cases n with
  | none => rfl
  | some n => exact nextOwner_modifyOffice b n m fun _ => rfl

theorem nextOwner_openOfficeCache (b : Broker) (n : Nat) (a : Address) (m : Nat) :
    ((b.openOfficeCache n a).office m).nextOwner = (b.office m).nextOwner := by
  unfold openOfficeCache openCache
  split <;> rfl

theorem drawOwner_congr {b b' : Broker} {n : Nat} (transaction : Option Nat)
    (h : (b'.office n).nextOwner = (b.office n).nextOwner) :
    (b'.drawOwner n transaction).2 = (b.drawOwner n transaction).2 := by
  cases transaction with
  | some t => rfl
  | none => exact congrArg Owner.direct h

/-- A send whose identifier is looked for opens the cache of its address, and then makes a call or
nothing of the books. -/
theorem passes_route_opened {P : Call → Prop} (hP : ∀ c, P c → c.Routes) {b : Broker} {ticket : Nat}
    {m : Message} {transaction : Option Nat} {rejectDuplicates : Bool} {id : Bytes}
    (hid : b.detectedId 0 m = some id)
    (hsubmit : ∀ c, b.Submits (.route 0 ticket m transaction rejectDuplicates) c → P c) :
    ReflTransGen (Passes P) (b.openOfficeCache 0 m.address).view
      (b.route 0 ticket m transaction rejectDuplicates).1.view := by
  simp only [route, hid]
  split
  · unfold routeDuplicate
    split
    · dsimp only
      rw [rejectDuplicate, view_notify]
    · dsimp only
      rw [view_routeUnstaged]
  · rename_i hnew
    unfold routeStaged
    have hview := view_collect (b.openOfficeCache 0 m.address) 0 m
    rcases hcollect : (b.openOfficeCache 0 m.address).collect 0 m with ⟨c, result⟩
    rw [hcollect] at hview
    cases result with
    | error e =>
      dsimp only
      rw [hview]
    | ok delivery =>
      dsimp only
      have hnext : (c.office 0).nextOwner = (b.office 0).nextOwner := by
        have hc : c = ((b.openOfficeCache 0 m.address).collect 0 m).1 := by rw [hcollect]
        rw [hc]
        exact (nextOwner_setDesk ..).trans (nextOwner_openOfficeCache ..)
      have hcall := hsubmit {
        ticket
        cache := .office 0 m.address
        duplicateId := id
        owner := (c.drawOwner 0 transaction).2
        purpose := .route { office := 0, transaction, rejectDuplicates, delivery } }
        ⟨ticket, m, transaction, rejectDuplicates, id, delivery, rfl, hid, by simpa using hnew,
          by rw [hcollect], by rw [drawOwner_congr transaction hnext]⟩
      have hmoves := passes_submitCall hP hcall (b := (c.drawOwner 0 transaction).1)
      rw [view_drawOwner, hview] at hmoves
      exact hmoves

theorem passes_openOfficeCache (P : Call → Prop) (b : Broker) (a : Address) :
    Passes P b.view (b.openOfficeCache 0 a).view := by
  rw [view, view, books_openOfficeCache,
    outlines_of_transactions (transactions_openOfficeCache ..)]
  exact .opened a

/-- Of a send the first post office makes a call, or nothing of the books. -/
theorem passes_route {P : Call → Prop} (hP : ∀ c, P c → c.Routes) {b : Broker} {ticket : Nat}
    {m : Message} {transaction : Option Nat} {rejectDuplicates : Bool}
    (hsubmit : ∀ c, b.Submits (.route 0 ticket m transaction rejectDuplicates) c → P c) :
    ReflTransGen (Passes P) b.view
      (b.route 0 ticket m transaction rejectDuplicates).1.view := by
  cases hid : b.detectedId 0 m with
  | none =>
    simp only [route, hid]
    rw [view_routeUnstaged]
  | some id =>
    exact (ReflTransGen.single (passes_openOfficeCache P b m.address)).trans
      (passes_route_opened hP hid hsubmit)

end Broker

/-! ## Requests -/

/-- A message with a one-byte identifier. -/
def messageTo (address : String) (id : UInt8) : Message :=
  { id := id.toNat, address := ⟨address⟩, duplicateId := some [id] }

/-- What may be asked of the first post office, and of its transactions, while it is in use. -/
def Command.isTraffic : Command → Bool
  | .setMailbox _ _ => true
  | .bind _ _ => true
  | .unbind _ _ => true
  | .resolve _ _ _ => true
  | .resolveAll _ _ => true
  | .openCache office _ => office = 0
  | .writeNext office => office = 0
  | .flush office => office = 0
  | .flushAll => true
  | .route office _ _ _ _ => office = 0
  | .reroute _ _ _ _ => true
  | .redistribute _ _ _ _ => true
  | .resume => true
  | .defer => true
  | .settle => true
  | .begin _ => true
  | .addHook _ _ => true
  | .mark _ _ => true
  | .prepare _ => true
  | .commit _ => true
  | .rollback _ => true
  | .prepareBranch _ _ => true
  | .commitBranch _ _ => true
  | .rollbackBranch _ _ => true
  | _ => false

/-- The requests that have writers write. -/
def Command.isWriting : Command → Bool
  | .writeNext _ => true
  | .flush _ => true
  | .flushAll => true
  | _ => false

/-- The requests that prepare or complete a transaction. -/
def Command.isCompletion : Command → Bool
  | .prepare _ => true
  | .commit _ => true
  | .rollback _ => true
  | .prepareBranch _ _ => true
  | .commitBranch _ _ => true
  | .rollbackBranch _ _ => true
  | _ => false

/-- Whether an operation of the transaction fails when it is committed, so that the commit ends
halfway. -/
def Command.endsHalfway : Command → Reply → Bool
  | .commit _, .transactionFailed (.operation _) => true
  | .commitBranch _ _, .transactionFailed (.operation _) => true
  | _, _ => false

namespace Broker

theorem view_modifyTransaction_of_not_has {n : Nat} {b : Broker} (hn : ¬ b.Has n)
    (f : Transaction → Transaction) : b.modifyTransaction n f = b := by
  cases n with
  | zero => rfl
  | succ i =>
    have hi : b.transactions.length ≤ i := by
      unfold Has at hn
      omega
    have hmodify : b.transactions.modify i f = b.transactions := by
      refine List.ext_getElem? fun j => ?_
      rw [List.getElem?_modify]
      split
      · subst_vars
        rw [List.getElem?_eq_none hi]
        rfl
      · simp
    simp only [modifyTransaction, hmodify]

theorem view_mark (b : Broker) (n : Nat) (reason : String) :
    (b.markRollbackOnly n reason).view = b.view := by
  by_cases hn : b.Has n
  · obtain ⟨hbooks, hkept⟩ := (hooksKeep_kept n).marks b reason hn
    show Broker.view _ = _
    rw [view, show (b.markRollbackOnly n reason).books = b.books from hbooks,
      show (b.markRollbackOnly n reason).outlines = b.outlines from hkept.outlines, view]
  · rw [markRollbackOnly, view_modifyTransaction_of_not_has hn]

theorem view_addHook (b : Broker) (n : Nat) (h : Hook) :
    (b.addOperation n (.hook h)).1.view = b.view := by
  by_cases hn : b.Has n
  · obtain ⟨hbooks, hkept⟩ := addOperation_hook hn h
    rw [view, hbooks, hkept.outlines, view]
  · rcases hadd : b.addOperation n (.hook h) with ⟨b', result⟩
    cases result with
    | error e => rw [addOperation_error hadd]
    | ok _ =>
      unfold addOperation Transaction.addOperation at hadd
      split at hadd
      · rename_i t ht
        split at ht
        · cases ht
        · rename_i hrequire
          have hactive : (b.transaction n).state = .active := by
            simpa using state_of_require hrequire
          exact absurd (has_of_state (by simp [hactive])) hn
      · cases hadd

theorem view_reroute (b : Broker) (n : Nat) (m : Message) (binding : String)
    (transaction : Option Nat) : (b.reroute n m binding transaction).1.view = b.view := by
  unfold reroute
  split
  · rfl
  · split
    · rfl
    · rename_i delivery hdelivery
      rw [view_finish, view_dispatch_of_none _ _ (toQueues_message hdelivery).2]

theorem stage_addTarget {d e : Delivery} {queue : String} {decision : RouteDecision}
    (h : d.addTarget queue decision = .ok e) : e.stage = d.stage := by
  unfold Delivery.addTarget at h
  split at h
  · cases h
  · cases h
    rfl

theorem view_redistribute (b : Broker) (n : Nat) (m : Message) (binding : String)
    (transaction : Option Nat) : (b.redistribute n m binding transaction).1.view = b.view := by
  unfold redistribute
  split
  · rfl
  · dsimp only
    split
    · rfl
    · split
      · rfl
      · rename_i target _ delivery hdelivery
        have hstage : delivery.stage = none := by
          cases hfirst : Delivery.addTarget { message := m } _ .ignore with
          | error e =>
            rw [hfirst] at hdelivery
            cases hdelivery
          | ok d =>
            rw [hfirst] at hdelivery
            exact (stage_addTarget hdelivery).trans (stage_addTarget hfirst)
        have hview := view_dispatch_of_none b transaction hstage
        split
        · rename_i heq
          rw [heq] at hview
          exact hview
        · rename_i heq
          rw [heq] at hview
          exact hview

theorem moves_writeSome (P : Call → Prop) (k : Nat) (b : Broker) :
    Moves P b.view (b.writeSome 0 k).view := by
  induction k generalizing b with
  | zero => exact .refl
  | succ k ih =>
    have hwrite : Move P b.view (b.writeNext 0).view := by
      rw [view, view, books_writeNext, outlines_of_transactions (transactions_writeNext ..)]
      exact .written
    exact (ReflTransGen.single hwrite).trans (ih _)

theorem view_takeBranch (b : Broker) (desk : Option Nat) (x : Xid) :
    (b.takeBranch desk x).1.view = b.view := by
  unfold takeBranch
  split
  · rfl
  · exact view_eq (books_setBranches ..) (transactions_setDesk ..)

theorem passes_of_view {P : Call → Prop} {b b' : Broker} (h : b'.view = b.view) :
    ReflTransGen (Passes P) b.view b'.view := h ▸ .refl

/-- Such a request is one move, or nothing happens. What has been persisted is dropped only if a
commit ends halfway. -/
theorem ends_completion (b : Broker) {c : Command} (hc : c.isCompletion = true) :
    ReflGen (Ends (c.endsHalfway (b.perform c).2 = true)) b.view (b.perform c).1.view := by
  cases c with
  | prepare transaction => exact ends_prepare _ b transaction
  | commit transaction =>
    refine (ends_commit b transaction).mono fun _ _ h => h.imp ?_
    rintro ⟨e, he⟩
    simp only [perform, Prod.map, he]
    rfl
  | rollback transaction => exact ends_rollback _ b transaction
  | prepareBranch desk transaction =>
    simp only [perform, prepareBranch, Prod.map]
    rcases hprepare : b.prepare transaction with ⟨b', result⟩
    have hends := fun halfway => ends_prepare halfway b transaction
    rw [hprepare] at hends
    cases result with
    | error e => exact hends _
    | ok _ =>
      dsimp only
      split
      · exact hends _
      · rename_i x _
        have hkept := view_eq
          (books_setBranches b' desk ((b'.deskAt desk).branches.insert x transaction))
          (transactions_setDesk ..)
        exact hkept ▸ hends _
  | commitBranch desk xid =>
    have htake := view_takeBranch b desk xid
    simp only [perform, commitBranch, Prod.map]
    rcases hbranch : b.takeBranch desk xid with ⟨b', result⟩
    rw [hbranch] at htake
    cases result with
    | error e => exact htake ▸ .refl
    | ok n =>
      rw [← htake]
      refine (ends_commit b' n).mono fun _ _ h => h.imp ?_
      rintro ⟨e, he⟩
      simp only [he]
      rfl
  | rollbackBranch desk xid =>
    have htake := view_takeBranch b desk xid
    simp only [perform, rollbackBranch, Prod.map]
    rcases hbranch : b.takeBranch desk xid with ⟨b', result⟩
    rw [hbranch] at htake
    cases result with
    | error e => exact htake ▸ .refl
    | ok n => exact htake ▸ ends_rollback _ b' n
  | _ => cases hc

theorem move_completion (P : Call → Prop) (b : Broker) {c : Command} (hc : c.isCompletion = true) :
    ReflGen (Move P) b.view (b.perform c).1.view :=
  (ends_completion b hc).mono fun _ _ => Ends.move

/-- A request that has writers write is a chain of writes. -/
theorem writeSome_of_writing {b : Broker} {c : Command} (hc : c.isTraffic = true)
    (hwriting : c.isWriting = true) (hb : b.offices.length = 1) :
    ∃ k, (b.perform c).1 = b.writeSome 0 k := by
  cases c with
  | writeNext office =>
    obtain rfl : office = 0 := by simpa [Command.isTraffic] using hc
    exact ⟨1, rfl⟩
  | flush office =>
    obtain rfl : office = 0 := by simpa [Command.isTraffic] using hc
    exact ⟨_, rfl⟩
  | flushAll =>
    refine ⟨_, show (b.perform .flushAll).1 = b.flush 0 from ?_⟩
    simp [perform, flushAll, hb]
  | _ => cases hwriting

/-- A request that neither completes a transaction nor has writers write leaves all transactions in
their states. -/
theorem passes_perform {P : Call → Prop} (hP : ∀ c, P c → c.Routes) {b : Broker} {c : Command}
    (hc : c.isTraffic = true) (hopen : c.isCompletion = false) (hwriting : c.isWriting = false)
    (hb : Proper P b) (hsubmit : ∀ call, b.Submits c call → P call) :
    ReflTransGen (Passes P) b.view (b.perform c).1.view := by
  cases c with
  | setMailbox queue mode => exact .refl
  | bind desk binding =>
    refine passes_of_view ?_
    simp only [perform, bind, Prod.map]
    have hopen : (b.openMailbox binding.queue).view = b.view := rfl
    split
    · exact hopen
    · rename_i r added _
      have hset : ((b.openMailbox binding.queue).setRegistry desk r).view = b.view :=
        (view_eq (books_setRegistry ..) (transactions_setDesk ..)).trans hopen
      cases desk with
      | none => exact hset
      | some n => exact (view_notify ..).trans hset
  | unbind desk name =>
    refine passes_of_view ?_
    simp only [perform, unbind, Prod.map]
    split
    · rfl
    · rename_i r removed _
      have hset : (b.setRegistry desk r).view = b.view :=
        view_eq (books_setRegistry ..) (transactions_setDesk ..)
      cases desk with
      | none => exact hset
      | some n => exact (view_notify ..).trans hset
  | resolve desk address create =>
    exact passes_of_view (view_eq (books_setRegistry ..) (transactions_setDesk ..))
  | resolveAll desk addresses =>
    exact passes_of_view (view_eq (books_setRegistry ..) (transactions_setDesk ..))
  | openCache office address =>
    obtain rfl : office = 0 := by simpa [Command.isTraffic] using hc
    exact .single (passes_openOfficeCache P b address)
  | route office ticket message transaction rejectDuplicates =>
    obtain rfl : office = 0 := by simpa [Command.isTraffic] using hc
    exact passes_route hP hsubmit
  | reroute office message binding transaction => exact passes_of_view (view_reroute ..)
  | redistribute office message binding transaction =>
    have hview := view_redistribute b office message binding transaction
    refine passes_of_view ?_
    simp only [perform]
    split
    · rename_i heq
      rw [heq] at hview
      exact hview
    · rename_i heq
      rw [heq] at hview
      exact hview
  | resume => exact passes_resume hP hb
  | defer => exact passes_defer P b
  | settle => exact passes_resumeSome hP _ hb
  | begin xid =>
    refine .single ?_
    have houtlines : (b.perform (.begin xid)).1.outlines = b.outlines ++ [⟨xid, .active, []⟩] := by
      show List.map _ (b.transactions ++ [_]) = _
      rw [List.map_append]
      rfl
    rw [view, view, houtlines]
    exact Passes.begun xid
  | addHook transaction hook => exact passes_of_view (view_addHook ..)
  | mark transaction reason => exact passes_of_view (view_mark ..)
  | writeNext _ => cases hwriting
  | flush _ => cases hwriting
  | flushAll => cases hwriting
  | prepare _ => cases hopen
  | commit _ => cases hopen
  | rollback _ => cases hopen
  | prepareBranch _ _ => cases hopen
  | commitBranch _ _ => cases hopen
  | rollbackBranch _ _ => cases hopen
  | newCache _ _ => cases hc
  | stage _ _ _ _ => cases hc
  | commitStage _ => cases hc
  | rollbackStage _ => cases hc
  | openPlain _ => cases hc
  | start _ => cases hc
  | stop _ => cases hc
  | write _ => cases hc
  | failing _ => cases hc
  | replaceFile _ => cases hc
  | openFile => cases hc
  | cutFile _ => cases hc
  | blockCompaction => cases hc
  | compact => cases hc

/-- Every request of the traffic is a chain of moves. -/
theorem moves_perform {P : Call → Prop} (hP : ∀ c, P c → c.Routes) {b : Broker} {c : Command}
    (hc : c.isTraffic = true) (hb : Proper P b) (hsubmit : ∀ call, b.Submits c call → P call) :
    Moves P b.view (b.perform c).1.view := by
  cases hcompletion : c.isCompletion with
  | true => exact (move_completion P b hcompletion).to_reflTransGen
  | false =>
    cases hwriting : c.isWriting with
    | true =>
      obtain ⟨k, hk⟩ := writeSome_of_writing hc hwriting hb.single
      exact hk ▸ moves_writeSome P k b
    | false => exact moves_of_passes (passes_perform hP hc hcompletion hwriting hb hsubmit)

/-- Every run of traffic is a chain of moves, and leaves a broker for more of it. -/
theorem moves_run {b : Broker} {cs : List Command} (hcs : ∀ c ∈ cs, c.isTraffic = true)
    (hb : Proper Call.Routes b) :
    Moves Call.Routes b.view (b.run cs).view ∧ Proper Call.Routes (b.run cs) := by
  have hmoves : Moves Call.Routes b.view (b.run cs).view := by
    induction cs generalizing b with
    | nil => exact .refl
    | cons c rest ih =>
      have hc : c.isTraffic = true := hcs c (by simp)
      have hstep := moves_perform (fun _ h => h) hc hb fun _ h => routes_of_submits h
      exact hstep.trans (ih (fun d hd => hcs d (by simp [hd])) (proper_of_moves hb hstep))
  exact ⟨hmoves, proper_of_moves hb hmoves⟩

end Broker

end MessageRouting
