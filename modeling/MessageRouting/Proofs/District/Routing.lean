import MessageRouting.Proofs.District.NeighbourSends
import MessageRouting.Proofs.Routing.ServedCalls

/-!
# Routing in a district and beyond it

A message goes through its post office: the bindings of its address are looked
up, its identifier is staged, or its call has to wait, and it is delivered. In
the district that goes the same way in the excerpt.

Results:

* `within_submitCall`, `beyond_submitCall`: a call asks for a stage.
* `within_route`, `beyond_route`: a message is sent.
-/

namespace MessageRouting

/-! ## Routings -/

theorem toQueues_error {m : Message} {queues : List String} {e : RoutingError}
    (h : Delivery.toQueues m queues = .error e) : ∃ q, e = .duplicateTarget q := by
  unfold Delivery.toQueues at h
  generalize ({ message := m } : Delivery) = d at h
  induction queues generalizing d with
  | nil => cases h
  | cons q rest ih =>
    rw [List.foldlM_cons] at h
    cases hadded : d.addTarget q .route with
    | error e' =>
      rw [hadded] at h
      unfold Delivery.addTarget at hadded
      split at hadded
      · cases hadded
        cases h
        exact ⟨q, rfl⟩
      · cases hadded
    | ok d' =>
      rw [hadded] at h
      exact ih d' h

theorem Delivery.At.of_unstaged {d : Delivery} (h : d.stage = none) (a : Address) :
    d.At a := by
  intro g hg
  rw [h] at hg
  cases hg

/-- A routing of the district and what it is in the excerpt. -/
structure RoutingMatch (D : District) (r r' : Routing) : Prop where
  homed : ∀ n, r.transaction = some n → D.before < n ∧ D.home n = D.address
  staged : r.delivery.At D.address
  transaction : r'.transaction = r.transaction.map D.rank
  delivery : r'.delivery.unowned = r.delivery.unowned

theorem RoutingMatch.stage {D : District} {r r' : Routing} (h : RoutingMatch D r r') {s : Staged}
    (hs : s.address = D.address) (owner : Owner) :
    RoutingMatch D { r with delivery := { r.delivery with stage := some ⟨D.cache, s⟩ } }
      { r' with
        delivery := { r'.delivery with stage := some ⟨D.cache, { s with owner }⟩ } } := by
  refine ⟨h.homed, fun g hg => ?_, h.transaction, ?_⟩
  · cases hg
    exact ⟨rfl, hs⟩
  · have hdelivery := h.delivery
    simp only [Delivery.unowned, Delivery.mk.injEq] at hdelivery ⊢
    exact ⟨hdelivery.1, hdelivery.2.1, rfl⟩

namespace Broker

variable {D : District} {M : List (Nat × Nat)} {b b' : Broker} {a : Address}

/-! ## Sending -/

theorem within_notify (h : Excerpt D M b b') (what : Notification) :
    Excerpt D M (b.notify 0 what) (b'.notify 0 what) :=
  h.modifyOffice fun _ _ ho => ⟨ho.station, ho.listed, ho.queue, ho.below⟩

theorem beyond_notify (h : Excerpt D M b b') (what : Notification) :
    Excerpt D M (b.notify 0 what) b' :=
  beyond_modifyOffice h fun _ _ ho => ⟨ho.station, ho.listed, ho.queue, ho.below⟩

theorem within_dispatch (h : Excerpt D M b b') {d d' : Delivery} (hd : d.At D.address)
    (hsame : d'.unowned = d.unowned) {transaction : Option Nat}
    (hhomed : ∀ n, transaction = some n → D.before < n ∧ D.home n = D.address) :
    Follows D M (RoutingError.renumberIn D.rank) (b.dispatch d transaction)
      (b'.dispatch d' (transaction.map D.rank)) := by
  cases transaction with
  | none => exact within_deliver h hd hsame
  | some n =>
    obtain ⟨hn, hhome⟩ := hhomed n rfl
    have hop : (Operation.delivery { delivery := d }).At D.address := ⟨_, rfl, rfl, hd⟩
    have hunowned : (Operation.delivery { delivery := d' }).unowned =
        (Operation.delivery { delivery := d }).unowned := by
      simp only [Operation.unowned, hsame]
    obtain ⟨c, c', result, hb, hb', hc⟩ :=
      (within_addOperation h hn hhome hop hunowned).split
    simp only [dispatch, Option.map_some, hb, hb']
    cases result with
    | error refusal => exact ⟨within_rollbackDelivery hc hd hsame, rfl⟩
    | ok _ => exact ⟨hc, rfl⟩

theorem beyond_dispatch (h : Excerpt D M b b') (ha : a ≠ D.address) {d : Delivery} (hd : d.At a)
    {transaction : Option Nat} (hhomed : ∀ n, transaction = some n → D.before < n ∧ D.home n = a) :
    Excerpt D M (b.dispatch d transaction).1 b' := by
  cases transaction with
  | none => exact beyond_deliver h ha hd
  | some n =>
    obtain ⟨hn, rfl⟩ := hhomed n rfl
    have hop : (Operation.delivery { delivery := d }).At (D.home n) := ⟨_, rfl, rfl, hd⟩
    have hadded := beyond_addOperation h hn ha hop
    simp only [dispatch]
    rcases hb : b.addOperation n (.delivery { delivery := d }) with ⟨c, result⟩
    rw [hb] at hadded
    cases result with
    | error refusal => exact beyond_rollbackDelivery hadded ha hd
    | ok _ => exact hadded

theorem within_finish (h : Excerpt D M b b') {r r' : Routing} (hr : RoutingMatch D r r')
    (staged acceptedDuplicate : Bool) :
    Follows D M (Answer.renumber D.rank) (b.finish r staged acceptedDuplicate)
      (b'.finish r' staged acceptedDuplicate) := by
  obtain ⟨c, c', result, hb, hb', hc⟩ :=
    (within_dispatch h hr.staged hr.delivery hr.homed).split
  simp only [finish, hr.transaction, hb, hb', Delivery.routedQueues_eq hr.delivery]
  cases result with
  | error e => exact ⟨hc, rfl⟩
  | ok _ => exact ⟨hc, rfl⟩

theorem beyond_finish (h : Excerpt D M b b') (ha : a ≠ D.address) {r : Routing}
    (hd : r.delivery.At a) (hhomed : ∀ n, r.transaction = some n → D.before < n ∧ D.home n = a)
    (staged acceptedDuplicate : Bool) :
    Excerpt D M (b.finish r staged acceptedDuplicate).1 b' := by
  have hdispatched := beyond_dispatch h ha hd hhomed
  simp only [finish]
  rcases hb : b.dispatch r.delivery r.transaction with ⟨c, result⟩
  rw [hb] at hdispatched
  cases result <;> exact hdispatched

theorem within_rejectDuplicate (h : Excerpt D M b b') (m : Message) (id : Bytes) :
    Follows D M (Answer.renumber D.rank) (b.rejectDuplicate 0 m id)
      (b'.rejectDuplicate 0 m id) := ⟨within_notify h _, rfl⟩

/-! ## Waiting -/

/-- A call of the district is answered in the excerpt as well, or waits there, too. -/
theorem within_attempt (h : Excerpt D M b b') {call call' : Call} {r : Routing}
    (hcall : call.Sends D D.address r) (hmatch : CallMatch D M call call') :
    Follows D M (Option.map (Answer.renumber D.rank)) (b.attempt call) (b'.attempt call') := by
  have hrouting : RoutingMatch D r { r with transaction := r.transaction.map D.rank } :=
    ⟨hcall.homed, .of_unstaged hcall.unstaged _, rfl, rfl⟩
  have hcache : call.cache = D.cache := hcall.cache
  have hcache' : call'.cache = D.cache := hmatch.cache.trans hcache
  unfold attempt
  rw [hcache, hcache', hmatch.duplicateId, hcall.purpose, hmatch.purpose r hcall.purpose]
  rcases within_attemptStage h hmatch.owner call.duplicateId with ⟨hb, hb'⟩ |
    ⟨s, c, c', hb, hb', hs, hc⟩ | ⟨x, hx, hb, hb'⟩
  · rw [hb, hb']
    exact ⟨h, rfl⟩
  · rw [hb, hb']
    obtain ⟨hexcerpt, hanswer⟩ := within_finish hc (hrouting.stage hs call'.owner) true false
    exact ⟨hexcerpt, congrArg some hanswer⟩
  · rw [hb, hb']
    have hfinished : ∀ acceptedDuplicate, Follows D M (Answer.renumber D.rank)
        (b.finish r false acceptedDuplicate)
        (b'.finish { r with transaction := r.transaction.map D.rank } false
          acceptedDuplicate) := within_finish h hrouting false
    have hcontinued : Follows D M (Answer.renumber D.rank)
        (b.continueRouting r D.cache call.duplicateId x)
        (b'.continueRouting { r with transaction := r.transaction.map D.rank } D.cache
          call.duplicateId x) := by
      cases x with
      | staged s => exact absurd rfl (hx s)
      | duplicate =>
        simp only [continueRouting, hcall.office]
        split
        · exact within_rejectDuplicate h ..
        · have hduplicate := hfinished true
          rw [hcall.office] at hduplicate
          exact hduplicate
      | alreadyStaged => exact hfinished false
      | disabled => exact hfinished false
    exact ⟨hcontinued.excerpt, congrArg some hcontinued.answer⟩

theorem beyond_attempt (h : Excerpt D M b b') (ha : a ≠ D.address) {call : Call} {r : Routing}
    (hcall : call.Sends D a r) : Excerpt D M (b.attempt call).1 b' := by
  have hunstaged : r.delivery.At a := .of_unstaged hcall.unstaged a
  have hattempt := beyond_attemptStage h ha call.duplicateId call.owner
  unfold attempt
  rw [hcall.cache, hcall.purpose]
  rcases hb : b.attemptStage (.office 0 a) call.duplicateId call.owner with ⟨c, outcome⟩
  rw [hb] at hattempt
  cases outcome with
  | none => exact hattempt
  | some x =>
    have hcontinued : Excerpt D M
        (c.continueRouting r (.office 0 a) call.duplicateId x).1 b' := by
      cases x with
      | staged s =>
        refine beyond_finish hattempt ha
          (r := { r with delivery := { r.delivery with stage := some ⟨.office 0 a, s⟩ } })
          (fun g hg => ?_) hcall.homed true false
        cases hg
        obtain ⟨d, hd, -⟩ := attemptStage_granted hb
        exact ⟨rfl, (at_of_granted h.caches.addressed hd).1⟩
      | duplicate =>
        simp only [continueRouting, hcall.office]
        split
        · exact beyond_notify hattempt _
        · exact beyond_finish hattempt ha (r := r) hunstaged hcall.homed false true
      | alreadyStaged => exact beyond_finish hattempt ha hunstaged hcall.homed false false
      | disabled => exact beyond_finish hattempt ha hunstaged hcall.homed false false
    exact hcontinued

theorem within_submitCall (h : Excerpt D M b b') {call call' : Call} {r : Routing}
    (hcall : call.Sends D D.address r) (hmatch : CallMatch D M call call') :
    Follows D M (Option.map (Answer.renumber D.rank)) (b.submitCall call)
      (b'.submitCall call') := by
  obtain ⟨c, c', answer, hb, hb', hc⟩ := (within_attempt h hcall hmatch).split
  simp only [submitCall, hb, hb']
  cases answer with
  | some answer => exact ⟨hc, rfl⟩
  | none =>
    exact ⟨hc.change ⟨rfl, rfl⟩ ⟨rfl, rfl⟩ hc.offices hc.mailboxes hc.storage
      (hc.waiting.wait hcall rfl hmatch) hc.ready, rfl⟩

theorem beyond_submitCall (h : Excerpt D M b b') (ha : a ≠ D.address) {call : Call} {r : Routing}
    (hcall : call.Sends D a r) : Excerpt D M (b.submitCall call).1 b' := by
  have hattempt := beyond_attempt h ha hcall
  simp only [submitCall]
  rcases hb : b.attempt call with ⟨c, answer⟩
  rw [hb] at hattempt
  cases answer with
  | some answer => exact hattempt
  | none =>
    exact hattempt.change ⟨rfl, rfl⟩ ⟨rfl, rfl⟩ hattempt.offices hattempt.mailboxes
      hattempt.storage (hattempt.waiting.wait_beyond hcall ha) hattempt.ready

/-! ## Routing calls -/

theorem Excerpt.setRegistry (h : Excerpt D M b b') {r r' : Registry}
    (hlisted : ∃ bs, r.Shows bs ∧ r'.Shows bs) :
    Excerpt D M (b.setRegistry (some 0) r) (b'.setRegistry (some 0) r') :=
  h.modifyOffice fun _ _ ho => ⟨ho.station, hlisted, ho.queue, ho.below⟩

/-- What the desk of the post office is asked, it answers the same in the excerpt. -/
theorem within_ask (h : Excerpt D M b b') (q : Registry.Request) :
    Follows D M id
      (b.setRegistry (some 0) ((b.office 0).desk.registry.ask q).1,
        ((b.office 0).desk.registry.ask q).2)
      (b'.setRegistry (some 0) ((b'.office 0).desk.registry.ask q).1,
        ((b'.office 0).desk.registry.ask q).2) := by
  obtain ⟨bs, hbs, hbs'⟩ := h.office.listed
  obtain ⟨hasked, hanswer⟩ := hbs.ask q
  obtain ⟨hasked', hanswer'⟩ := hbs'.ask q
  exact ⟨h.setRegistry ⟨_, hasked, hasked'⟩, hanswer'.trans hanswer.symm⟩

/-- The bindings of an address are the same in the excerpt. -/
theorem within_collect (h : Excerpt D M b b') (m : Message) :
    Follows D M id (b.collect 0 m) (b'.collect 0 m) := by
  obtain ⟨hasked, hanswer⟩ := within_ask h (.bindingsFor m.address true)
  have hfound : ((b'.office 0).desk.registry.bindingsFor m.address true).2 =
      ((b.office 0).desk.registry.bindingsFor m.address true).2 :=
    Registry.Response.found.inj hanswer
  refine ⟨hasked, ?_⟩
  simp only [collect, resolve, deskAt, id_eq, hfound]

theorem beyond_collect (h : Excerpt D M b b') (m : Message) :
    Excerpt D M (b.collect 0 m).1 b' := by
  obtain ⟨o, o', hb, hb', hmatch⟩ := h.offices
  obtain ⟨bs, hbs, hbs'⟩ := hmatch.listed
  have hasked := (hbs.ask (.bindingsFor m.address true)).1
  refine h.change ⟨rfl, rfl⟩ ⟨rfl, rfl⟩
    ⟨{ o with desk :=
        { b.deskAt (some 0) with registry := (o.desk.registry.bindingsFor m.address true).1 } }, o',
      ?_, hb', hmatch.station, ⟨bs, hasked, hbs'⟩, hmatch.queue, hmatch.below⟩
    h.mailboxes h.storage h.waiting h.ready
  show (b.offices.modify 0 _) = _
  rw [hb]
  simp only [deskAt, office_of_single hb]
  rfl

/-- Where an owner is drawn in both, numbers drawn are paired. -/
theorem within_drawOwner (h : Excerpt D M b b') {transaction : Option Nat}
    (hhomed : ∀ n, transaction = some n → D.before < n ∧ D.home n = D.address) :
    ∃ M', Excerpt D M' (b.drawOwner 0 transaction).1
        (b'.drawOwner 0 (transaction.map D.rank)).1 ∧
      OwnerMatch D M' (b.drawOwner 0 transaction).2
        (b'.drawOwner 0 (transaction.map D.rank)).2 := by
  cases transaction with
  | some n => exact ⟨M, h, .transaction (District.keeps_of_home (hhomed n rfl).2)⟩
  | none =>
    obtain ⟨o, o', hb, hb', hmatch⟩ := h.offices
    -- Both numbers are above all that have been paired.
    have hpaired : OneToOne (M ++ [(o.nextOwner, o'.nextOwner)]) := by
      intro p hp q hq
      rcases List.mem_append.1 hp with hp | hp
      · have hlt := hmatch.below p hp
        rcases List.mem_append.1 hq with hq | hq
        · exact h.paired p hp q hq
        · obtain rfl := List.mem_singleton.1 hq
          dsimp only
          omega
      · obtain rfl := List.mem_singleton.1 hp
        rcases List.mem_append.1 hq with hq | hq
        · have hlt := hmatch.below q hq
          dsimp only
          omega
        · obtain rfl := List.mem_singleton.1 hq
          simp
    refine ⟨M ++ [(o.nextOwner, o'.nextOwner)], ⟨⟨{ o with nextOwner := o.nextOwner + 1 },
      { o' with nextOwner := o'.nextOwner + 1 }, ?_, ?_, hmatch.station, hmatch.listed,
      hmatch.queue, fun p hp => ?_⟩, h.mailboxes, h.storage,
      ⟨h.caches.addressed, h.caches.opened, h.caches.same.extend _⟩,
      h.transactions.of_transactions rfl rfl, h.waiting.extend _, h.ready.extend _, hpaired⟩, ?_⟩
    · simp [drawOwner, modifyOffice, hb]
    · simp [drawOwner, modifyOffice, hb']
    · rcases List.mem_append.1 hp with hp | hp
      · have hlt := hmatch.below p hp
        dsimp only
        omega
      · rw [List.mem_singleton.1 hp]
        exact ⟨Nat.lt_succ_self _, Nat.lt_succ_self _⟩
    · simp only [drawOwner, Option.map_none, office_of_single hb, office_of_single hb']
      exact .direct (by simp)

theorem beyond_drawOwner (h : Excerpt D M b b') (transaction : Option Nat) :
    Excerpt D M (b.drawOwner 0 transaction).1 b' := by
  cases transaction with
  | some n => exact h
  | none =>
    exact beyond_modifyOffice h fun _ _ ho => ⟨ho.station, ho.listed, ho.queue,
      fun p hp => ⟨Nat.lt_succ_of_lt (ho.below p hp).1, (ho.below p hp).2⟩⟩

theorem collect_error {m : Message} {e : RoutingError} (h : (b.collect 0 m).2 = .error e) :
    ∃ q, e = .duplicateTarget q := toQueues_error h

theorem collect_unstaged {m : Message} {d : Delivery} (h : (b.collect 0 m).2 = .ok d) :
    d.stage = none := (toQueues_message h).2

variable {m : Message} {transaction : Option Nat}

theorem within_routeUnstaged (h : Excerpt D M b b')
    (hhomed : ∀ n, transaction = some n → D.before < n ∧ D.home n = D.address)
    (acceptedDuplicate : Bool) :
    Follows D M (Answer.renumber D.rank) (b.routeUnstaged 0 m transaction acceptedDuplicate)
      (b'.routeUnstaged 0 m (transaction.map D.rank) acceptedDuplicate) := by
  obtain ⟨c, c', result, hb, hb', hc⟩ := (within_collect h m).split
  simp only [routeUnstaged, hb, hb', id_eq]
  cases result with
  | error e =>
    obtain ⟨q, rfl⟩ := collect_error (congrArg Prod.snd hb)
    exact ⟨hc, rfl⟩
  | ok d =>
    have hd : d.At D.address := .of_unstaged (collect_unstaged (congrArg Prod.snd hb)) _
    have hrouting : RoutingMatch D
        { office := 0, transaction, rejectDuplicates := false, delivery := d }
        { office := 0, transaction := transaction.map D.rank, rejectDuplicates := false,
          delivery := d } := ⟨hhomed, hd, rfl, rfl⟩
    exact within_finish hc hrouting false acceptedDuplicate

theorem beyond_routeUnstaged (h : Excerpt D M b b') (ha : a ≠ D.address)
    (hhomed : ∀ n, transaction = some n → D.before < n ∧ D.home n = a) (acceptedDuplicate : Bool) :
    Excerpt D M (b.routeUnstaged 0 m transaction acceptedDuplicate).1 b' := by
  have hcollected := beyond_collect h m
  simp only [routeUnstaged]
  rcases hb : b.collect 0 m with ⟨c, result⟩
  rw [hb] at hcollected
  cases result with
  | error e => exact hcollected
  | ok d =>
    have hd : d.At a := .of_unstaged (collect_unstaged (congrArg Prod.snd hb)) a
    exact beyond_finish hcollected ha hd hhomed false acceptedDuplicate

theorem within_routeStaged (h : Excerpt D M b b') (hm : m.address = D.address) (ticket : Nat)
    (id : Bytes) (hhomed : ∀ n, transaction = some n → D.before < n ∧ D.home n = D.address)
    (rejectDuplicates : Bool) :
    ∃ M', Follows D M' (Option.map (Answer.renumber D.rank))
      (b.routeStaged 0 ticket m id transaction rejectDuplicates)
      (b'.routeStaged 0 ticket m id (transaction.map D.rank) rejectDuplicates) := by
  obtain ⟨c, c', result, hb, hb', hc⟩ := (within_collect h m).split
  simp only [routeStaged, hb, hb', id_eq]
  cases result with
  | error e =>
    obtain ⟨q, rfl⟩ := collect_error (congrArg Prod.snd hb)
    exact ⟨M, hc, rfl⟩
  | ok d =>
    have hd := collect_unstaged (congrArg Prod.snd hb)
    obtain ⟨M', hdrawn, howner⟩ := within_drawOwner hc hhomed
    refine ⟨M', within_submitCall hdrawn ⟨congrArg (CacheRef.office 0) hm, rfl, rfl, hd, hhomed⟩
      ⟨rfl, rfl, rfl, howner, fun r hr => ?_⟩⟩
    cases hr
    rfl

theorem beyond_routeStaged (h : Excerpt D M b b') (ha : m.address ≠ D.address) (ticket : Nat)
    (id : Bytes) (hhomed : ∀ n, transaction = some n → D.before < n ∧ D.home n = m.address)
    (rejectDuplicates : Bool) :
    Excerpt D M (b.routeStaged 0 ticket m id transaction rejectDuplicates).1 b' := by
  have hcollected := beyond_collect h m
  simp only [routeStaged]
  rcases hb : b.collect 0 m with ⟨c, result⟩
  rw [hb] at hcollected
  cases result with
  | error e => exact hcollected
  | ok d =>
    have hd := collect_unstaged (congrArg Prod.snd hb)
    exact beyond_submitCall (beyond_drawOwner hcollected transaction) ha
      ⟨rfl, rfl, rfl, hd, hhomed⟩

theorem within_openOfficeCache (h : Excerpt D M b b') :
    Excerpt D M (b.openOfficeCache 0 D.address) (b'.openOfficeCache 0 D.address) := by
  unfold openOfficeCache openCache
  rw [show CacheRef.office 0 D.address = D.cache from rfl, h.caches.opened, h.settings]
  split
  · exact h
  · exact h.setCache ⟨.refl _, fun id p p' hp => by cases hp⟩ rfl

theorem beyond_openOfficeCache (h : Excerpt D M b b') (ha : a ≠ D.address) :
    Excerpt D M (b.openOfficeCache 0 a) b' := by
  unfold openOfficeCache openCache
  split
  · exact h
  · exact beyond_setCache h ha rfl

theorem within_route (h : Excerpt D M b b') (hm : m.address = D.address) (ticket : Nat)
    (hhomed : ∀ n, transaction = some n → D.before < n ∧ D.home n = m.address)
    (rejectDuplicates : Bool) :
    ∃ M', Follows D M' (Option.map (Answer.renumber D.rank))
      (b.route 0 ticket m transaction rejectDuplicates)
      (b'.route 0 ticket m (transaction.map D.rank) rejectDuplicates) := by
  rw [hm] at hhomed
  have hdetected : b'.detectedId 0 m = b.detectedId 0 m := by
    rw [detectedId, detectedId, h.settings]
  unfold route
  rw [hdetected]
  cases b.detectedId 0 m with
  | none =>
    have hrouted := within_routeUnstaged (m := m) h hhomed false
    exact ⟨M, hrouted.excerpt, congrArg some hrouted.answer⟩
  | some id =>
    have hopened := within_openOfficeCache h
    have hduplicate :
        ((b'.openOfficeCache 0 m.address).cache (.office 0 m.address)).isDuplicate id =
          ((b.openOfficeCache 0 m.address).cache (.office 0 m.address)).isDuplicate id := by
      rw [hm]
      exact hopened.caches.same.alike.isDuplicate id
    dsimp only
    rw [hduplicate]
    rw [← hm] at hopened
    split
    · refine ⟨M, ?_⟩
      have hanswered : Follows D M (Answer.renumber D.rank)
          ((b.openOfficeCache 0 m.address).routeDuplicate 0 m id transaction rejectDuplicates)
          ((b'.openOfficeCache 0 m.address).routeDuplicate 0 m id (transaction.map D.rank)
            rejectDuplicates) := by
        unfold routeDuplicate
        split
        · exact within_rejectDuplicate hopened m id
        · exact within_routeUnstaged hopened hhomed true
      exact ⟨hanswered.excerpt, congrArg some hanswered.answer⟩
    · exact within_routeStaged hopened hm ticket id hhomed rejectDuplicates

theorem beyond_route (h : Excerpt D M b b') (ha : m.address ≠ D.address) (ticket : Nat)
    (hhomed : ∀ n, transaction = some n → D.before < n ∧ D.home n = m.address)
    (rejectDuplicates : Bool) :
    Excerpt D M (b.route 0 ticket m transaction rejectDuplicates).1 b' := by
  unfold route
  cases b.detectedId 0 m with
  | none => exact beyond_routeUnstaged h ha hhomed false
  | some id =>
    have hopened := beyond_openOfficeCache h ha
    dsimp only
    split
    · unfold routeDuplicate
      split
      · exact beyond_notify hopened _
      · exact beyond_routeUnstaged hopened ha hhomed true
    · exact beyond_routeStaged hopened ha ticket id hhomed rejectDuplicates

end Broker

end MessageRouting
