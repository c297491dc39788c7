import MessageRouting.Broker.Opening
import MessageRouting.Proofs.Routing.ServedCalls

/-!
# Units of work

A unit of work is a send outside any transaction that returned with its message
routed, or a transaction that has been committed. When every send rejects
duplicates, no two units route a message with the same identifier to the same
address, unless as many other identifiers as the cache has room for became
visible there in between.

Results:

* `units_separated`: between the commit of the first unit and the grant to the
  second lie as many other commits as a cache has room for.
-/

namespace MessageRouting

/-! ## A post office just opened -/

/-- A broker whose only post office has just been opened: it keeps nothing in the journal, or has
found the journal empty. -/
inductive Opened (s : Settings) : Broker → Prop where
  | plain (mailboxes : Table String Mailbox) (storage : Storage) :
    Opened s (({ mailboxes, storage } : Broker).openPlain s).1
  | started {b : Broker} {k : Nat} (mailboxes : Table String Mailbox) (storage : Storage)
    (hempty : storage.ledger = {})
    (hstart : ({ mailboxes, storage } : Broker).start s = (b, .ok k)) : Opened s b

/-- Nothing has happened at the only post office. -/
structure Untouched (s : Settings) (b : Broker) : Prop where
  caches : b.caches = {}
  transactions : b.transactions = []
  waiting : b.waiting = []
  ready : b.ready = []
  marks : b.marks = []
  answers : b.outward.1 = []
  single : b.offices.length = 1
  settings : (b.office 0).settings = s

namespace Broker

theorem untouched_openPlain (mailboxes : Table String Mailbox) (storage : Storage) (s : Settings) :
    Untouched s (({ mailboxes, storage } : Broker).openPlain s).1 :=
  ⟨rfl, rfl, rfl, rfl, rfl, rfl, rfl, rfl⟩

theorem ledger_log (b : Broker) (e : Event) : (b.log e).storage = b.storage := rfl

/-- A post office that finds its journal empty has nothing but the post office to show for it. -/
theorem openPersistent_of_empty {mailboxes : Table String Mailbox} {storage : Storage}
    {s : Settings} {b : Broker} {k : Nat} (hempty : storage.ledger = {})
    (h : ({ mailboxes, storage } : Broker).openPersistent s = (b, .ok k)) :
    b = { mailboxes, storage
          offices := [{ Office.ofSettings s with
            persistence := some s.idCachePersistence, writer := { running := true } }]
          trace := [.journal .inline .addresses true, .journal .inline .prepared true] } := by
  have hload : ∀ {c : Broker} {ps : List PreparedRecord},
      ({ mailboxes, storage } : Broker).load 0 s.idCacheCapacity = (c, .ok ps) →
        ps = [] ∧ c = (({ mailboxes, storage } : Broker).log
          (.journal .inline .addresses true)).log (.journal .inline .prepared true) := by
    intro c ps h
    unfold load readAddresses read at h
    cases hpermit : storage.permit .addresses with
    | error e =>
      simp only [hpermit, Except.map] at h
      cases h
    | ok _ =>
      simp only [hpermit, Except.map, hempty, Ledger.addresses, Ledger.distinctAddresses,
        List.map_nil, loadAll, readPrepared, read, ledger_log] at h
      cases hprepared : storage.permit .prepared with
      | error e =>
        simp only [hprepared] at h
        cases h
      | ok _ =>
        simp only [hprepared] at h
        cases h
        exact ⟨rfl, rfl⟩
  unfold openPersistent at h
  rcases hres : ({ mailboxes, storage } : Broker).load 0 s.idCacheCapacity with ⟨c, result⟩
  simp only [List.length_nil, hres] at h
  cases result with
  | error e => cases h
  | ok ps =>
    obtain ⟨rfl, rfl⟩ := hload hres
    cases h
    rfl

theorem untouched_openPersistent {mailboxes : Table String Mailbox} {storage : Storage}
    {s : Settings} {b : Broker} {k : Nat} (hempty : storage.ledger = {})
    (h : ({ mailboxes, storage } : Broker).openPersistent s = (b, .ok k)) : Untouched s b := by
  rw [openPersistent_of_empty hempty h]
  exact ⟨rfl, rfl, rfl, rfl, rfl, rfl, rfl, rfl⟩

theorem untouched_opened {s : Settings} {b : Broker} (h : Opened s b) : Untouched s b := by
  cases h with
  | plain mailboxes storage => exact untouched_openPlain ..
  | started mailboxes storage hempty hstart =>
    unfold start at hstart
    split at hstart
    · exact untouched_openPersistent hempty hstart
    · cases hstart
      exact untouched_openPlain ..

theorem marks_books (b : Broker) : b.books.marks = b.marks := by
  simp only [marks, books, List.filter_filter]
  refine List.filter_congr fun e _ => ?_
  cases e <;> rfl

/-- With nothing made and nothing held everything is in order. -/
theorem fair_untouched {s : Settings} {b : Broker} (h : Untouched s b) :
    Fair s.idCacheCapacity b.view := by
  have hget : ∀ ref, b.view.books.caches.get? ref = none := fun ref => by
    show b.caches.get? ref = none
    rw [h.caches]
    rfl
  have habsent : ∀ ref, b.view.books.cache ref = Cache.absent := fun ref =>
    cache_of_get?_none (hget ref)
  have hopen : ∀ t, ¬ b.view.books.Open t := fun t ht => by
    obtain ⟨-, key, hk⟩ := ht
    rw [habsent] at hk
    cases hk
  have hkeys : ∀ t, b.view.books.keyOf t = none := fun t => by
    rw [keyOf, habsent]
    rfl
  have hmarks : b.view.books.marks = [] := (marks_books b).trans h.marks
  have houtlines : b.view.outlines = [] := by
    show List.map _ b.transactions = []
    rw [h.transactions]
    rfl
  have hnone : b.view.stages = [] := by
    rw [View.stages, houtlines]
    rfl
  have hnolive : b.view.live = [] := by
    rw [View.live, houtlines]
    rfl
  refine ⟨⟨⟨?_, ?_⟩, ?_, ⟨fun ref => Nat.zero_le _, ?_, ?_, ?_⟩, fun ref => ?_, ⟨?_, ?_⟩,
    ⟨fun a => ?_, fun t ht => absurd ht (hopen t), ?_, ?_⟩⟩, fun t ht => absurd ht (hopen t), ?_⟩
  · intro a c hc
    rw [hget] at hc
    cases hc
  · intro t ht
    rw [houtlines] at ht
    cases ht
  · exact fun t ht => absurd (hkeys t) ht
  · rw [hnone]
    exact fun t ht => absurd ht (by simp)
  · rw [hnone]
    exact List.nodup_nil
  · rw [hnolive]
    exact fun t ht => absurd ht (by simp)
  · rw [habsent]
    exact Cache.sound_empty ..
  · rw [show b.view.books = b.books from rfl, settings_books, h.settings]
  · intro a c hc
    rw [hget] at hc
    cases hc
  · rw [habsent, hmarks]
    simp [Cache.absent, Cache.visibleIds, promotedIds]
  · rw [hmarks]
    exact fun t₁ g t₂ ht => absurd ht (by simp)
  · rw [hmarks]
    exact fun t₁ g p t₂ ht => absurd ht (by simp)
  · rw [Honoured, houtlines]
    exact fun o ho => absurd ho (by simp)

/-! ## What a run of sends has secured -/

/-- A post office that has been opened stays in order as long as it is in use. -/
theorem serving_run {s : Settings} {b : Broker} (hb : Opened s b) (hn : 0 < s.idCacheCapacity)
    {cs : List Command} (huse : ∀ c ∈ cs, c.isUse = true)
    (hrejects : ∀ c ∈ cs, c.rejectsDuplicates = true) :
    Serving s.idCacheCapacity (Submitted b cs) (b.run cs) := by
  have hopened := untouched_opened hb
  have hnone : ∀ call, ¬ Submitted b [] call := by
    rintro call ⟨cs₁, c, cs₂, hcs, -⟩
    cases cs₁ <;> cases hcs
  refine run_induction (I := fun done => Serving s.idCacheCapacity (Submitted b done) (b.run done))
    ?_ fun done c rest hcs hdone => ?_
  · refine ⟨fair_untouched hopened, ⟨hopened.single, fun call hcall => ?_⟩,
      fun call hcall => absurd hcall (hnone call), fun ticket o ho => ?_⟩
    · rw [show b.run [] = b from rfl, hopened.waiting, hopened.ready] at hcall
      cases hcall
    · have hanswers : Event.answered ticket (.routed o) ∈ b.outward.1 := by
        simp only [outward, List.mem_filter]
        exact ⟨ho, rfl⟩
      rw [hopened.answers] at hanswers
      cases hanswers
  · exact serving_perform hn (huse c (by simp [hcs])) (hrejects c (by simp [hcs]))
      (fun d hd => hrejects d (by simp [hcs, hd])) hdone

/-- A send has returned with its message routed, at once or after it had to wait. -/
def Returned (b : Broker) (cs : List Command) (i ticket : Nat) : Prop :=
  ∃ o, (b.replies cs)[i]? = some (.answered (.routed o)) ∨
    .answered ticket (.routed o) ∈ (b.run cs).trace

/-- The tickets of the sends in a run. -/
def tickets (cs : List Command) : List Nat :=
  cs.filterMap fun
    | .route _ ticket _ _ _ => some ticket
    | _ => none

/-- With different tickets for different sends, a ticket tells the place of its send. -/
theorem place_of_ticket {cs₁ cs₂ ds₁ ds₂ : List Command} {office office' ticket : Nat}
    {m m' : Message} {transaction transaction' : Option Nat} {r r' : Bool}
    (hcs : cs₁ ++ .route office ticket m transaction r :: cs₂ =
      ds₁ ++ .route office' ticket m' transaction' r' :: ds₂)
    (hnodup : (tickets (cs₁ ++ .route office ticket m transaction r :: cs₂)).Nodup) :
    cs₁ = ds₁ ∧ Command.route office ticket m transaction r =
      .route office' ticket m' transaction' r' := by
  have htwice : ∀ {l₁ l₂ : List Command} {o : Nat} {q : Message} {t : Option Nat} {e : Bool},
      ticket ∈ tickets l₁ ∨ ticket ∈ tickets l₂ →
        ¬ (tickets (l₁ ++ .route o ticket q t e :: l₂)).Nodup := by
    intro l₁ l₂ o q t e hmem hnd
    have hsplit : tickets (l₁ ++ .route o ticket q t e :: l₂) =
        tickets l₁ ++ ticket :: tickets l₂ := List.filterMap_append ..
    rw [hsplit, List.nodup_append, List.nodup_cons] at hnd
    rcases hmem with hmem | hmem
    · exact hnd.2.2 ticket hmem ticket (by simp) rfl
    · exact hnd.2.1.1 hmem
  rcases List.append_eq_append_iff.1 hcs with ⟨u, rfl, hrest⟩ | ⟨u, rfl, hrest⟩
  · cases u with
    | nil => exact ⟨by simp, (List.cons.inj hrest).1⟩
    | cons d u =>
      obtain ⟨-, rfl⟩ := List.cons.inj hrest
      refine absurd hnodup (htwice (Or.inr ?_))
      simp [tickets]
  · cases u with
    | nil => exact ⟨by simp, (List.cons.inj hrest).1.symm⟩
    | cons d u =>
      obtain ⟨rfl, rfl⟩ := List.cons.inj hrest
      refine absurd hnodup (htwice (Or.inl ?_))
      simp [tickets]

variable {s : Settings} {b : Broker} {cs : List Command}

/-- What is secured in the course of a run is secured at its end. -/
theorem secured_run (hb : Opened s b) (hn : 0 < s.idCacheCapacity) {cs₁ cs₂ : List Command}
    (huse : ∀ c ∈ cs₁ ++ cs₂, c.isUse = true)
    (hrejects : ∀ c ∈ cs₁ ++ cs₂, c.rejectsDuplicates = true) {ref : CacheRef} {id : Bytes}
    {owner : Owner} (hsecured : Secured (b.run cs₁).view ref id owner) :
    Secured (b.run (cs₁ ++ cs₂)).view ref id owner := by
  have hall : ∀ done rest, cs₂ = done ++ rest →
      Secured (b.run (cs₁ ++ done)).view ref id owner := by
    intro done rest hcs
    refine run_induction (I := fun ds =>
      Secured (b.run (cs₁ ++ ds)).view ref id owner) (by simpa using hsecured)
      fun ds c more hds hbefore => ?_
    have hmem : ∀ d ∈ cs₁ ++ ds, d ∈ cs₁ ++ cs₂ := fun d hd => by
      rw [hcs, hds]
      rcases List.mem_append.1 hd with hd | hd <;> simp [hd]
    have hc : c ∈ cs₁ ++ cs₂ := by simp [hcs, hds]
    have hserving := serving_run hb hn (fun d hd => huse d (hmem d hd))
      fun d hd => hrejects d (hmem d hd)
    rw [← List.append_assoc, run_concat]
    by_cases htraffic : c.isTraffic = true
    · have hproper : Proper Call.Routes (b.run (cs₁ ++ ds)) :=
        ⟨hserving.proper.single, fun call hcall => by
          obtain ⟨es, d, fs, -, hsubmits⟩ := hserving.proper.calls call hcall
          exact routes_of_submits hsubmits⟩
      exact secured_moves hn (moves_perform (fun _ h => h) htraffic hproper
        fun _ h => routes_of_submits h) hserving.fair hbefore
    · have huse' := huse c hc
      cases c with
      | failing methods => exact hbefore
      | _ => simp_all [Command.isUse]
  simpa using hall cs₂ [] (by simp)

theorem detectedId_of_equipped {n : Nat} (hn : 0 < n) (hb : Equipped n b.books) {m : Message}
    {id : Bytes} (hid : m.duplicateId = some id) : b.detectedId 0 m = some id := by
  have hsettings := hb.settings
  rw [settings_books] at hsettings
  have hdetects : (b.office 0).settings.duplicateDetection = true := by
    simp only [Settings.idCacheCapacity] at hsettings
    simp only [Settings.duplicateDetection, decide_eq_true_eq]
    omega
  rw [detectedId, if_pos hdetects, hid]

/-- A send that rejects duplicates and is answered well at once has come to staging. -/
theorem submits_of_routed {ticket : Nat} {m : Message} {transaction : Option Nat} {id : Bytes}
    {o : RoutingOutcome} (hid : b.detectedId 0 m = some id)
    (h : (b.perform (.route 0 ticket m transaction true)).2 = .answered (.routed o)) :
    ∃ call, b.Submits (.route 0 ticket m transaction true) call := by
  cases hnew : ((b.openOfficeCache 0 m.address).cache (.office 0 m.address)).isDuplicate id with
  | true =>
    simp only [perform, route, hid, hnew, if_true, routeDuplicate, rejectDuplicate, Prod.map,
      Reply.ofAnswer] at h
    cases h
  | false =>
    rcases hres : (b.openOfficeCache 0 m.address).collect 0 m with ⟨c, result⟩
    cases result with
    | error e =>
      simp only [perform, route, hid, hnew, Bool.false_eq_true, if_false, routeStaged, hres,
        Prod.map, Reply.ofAnswer] at h
      cases h
    | ok delivery =>
      exact ⟨_, ticket, m, transaction, true, id, delivery, rfl, hid, hnew, by rw [hres], rfl⟩

/-- A send that has returned with its message routed has come to staging, and its identifier is
secured. -/
theorem secured_of_returned (hb : Opened s b) (hn : 0 < s.idCacheCapacity)
    (huse : ∀ c ∈ cs, c.isUse = true) (hrejects : ∀ c ∈ cs, c.rejectsDuplicates = true)
    (htickets : (tickets cs).Nodup) {i ticket : Nat} {m : Message} {transaction : Option Nat}
    {id : Bytes} (hplace : cs[i]? = some (.route 0 ticket m transaction true))
    (hid : m.duplicateId = some id) (hreturned : Returned b cs i ticket) :
    ∃ call, (b.run (cs.take i)).Submits (.route 0 ticket m transaction true) call ∧
      call.owner = ((b.run (cs.take i)).drawOwner 0 transaction).2 ∧
      Secured (b.run cs).view (.office 0 m.address) id call.owner := by
  obtain ⟨hi, hget⟩ := List.getElem?_eq_some_iff.1 hplace
  have hcs : cs = cs.take i ++ .route 0 ticket m transaction true :: cs.drop (i + 1) := by
    rw [← hget, List.getElem_cons_drop, List.take_append_drop]
  have hlength : (cs.take i).length = i := by
    rw [List.length_take]
    omega
  have hbefore : ∀ c ∈ cs.take i, c ∈ cs := fun c hc => List.mem_of_mem_take hc
  have hserving := serving_run hb hn (fun c hc => huse c (hbefore c hc))
    fun c hc => hrejects c (hbefore c hc)
  have hdetected := detectedId_of_equipped hn hserving.fair.guarded.equipped hid
  have hread : ∀ {call}, (b.run (cs.take i)).Submits (.route 0 ticket m transaction true) call →
      call.cache = .office 0 m.address ∧ call.duplicateId = id ∧
        call.owner = ((b.run (cs.take i)).drawOwner 0 transaction).2 := by
    rintro call ⟨ticket', m', transaction', r, id', delivery, heq, hid', -, -, rfl⟩
    cases heq
    rw [hdetected] at hid'
    exact ⟨rfl, (Option.some.inj hid').symm, rfl⟩
  obtain ⟨o, hreply | hanswer⟩ := hreturned
  · have hreply' : ((b.run (cs.take i)).perform (.route 0 ticket m transaction true)).2 =
        .answered (.routed o) := by
      have h := replies_getElem? b (cs.take i) (.route 0 ticket m transaction true)
        (cs.drop (i + 1))
      rw [← hcs, hlength, hreply] at h
      exact (Option.some.inj h).symm
    obtain ⟨call, hcall⟩ := submits_of_routed hdetected hreply'
    obtain ⟨hcache, hcallid, howner⟩ := hread hcall
    have hsecured := secured_route hn hserving.fair hserving.proper.single rfl hcall hreply'
    rw [← run_concat, hcache, hcallid] at hsecured
    have hcs' : cs.take i ++ [.route 0 ticket m transaction true] ++ cs.drop (i + 1) = cs := by
      rw [List.append_assoc, List.singleton_append, ← hcs]
    have hend : Secured (b.run (cs.take i ++ [.route 0 ticket m transaction true] ++
        cs.drop (i + 1))).view (.office 0 m.address) id call.owner :=
      secured_run hb hn (by rw [hcs']; exact huse) (by rw [hcs']; exact hrejects) hsecured
    rw [hcs'] at hend
    exact ⟨call, hcall, howner, hend⟩
  · obtain ⟨call, ⟨cs₁, c, cs₂, hsplit, hcall⟩, hticket, hsecured⟩ :=
      (serving_run hb hn huse hrejects).answered ticket o hanswer
    have hcall' := hcall
    obtain ⟨ticket', m', transaction', r, id', delivery, rfl, -, -, -, rfl⟩ := hcall'
    obtain rfl : ticket' = ticket := hticket
    have heq := hcs.symm.trans hsplit
    obtain ⟨hbefore, hsame⟩ := place_of_ticket heq (hcs ▸ htickets)
    rw [← hbefore, ← hsame] at hcall
    obtain ⟨hcache, hcallid, howner⟩ := hread hcall
    rw [hcache, hcallid, ← hbefore] at hsecured
    exact ⟨_, hcall, howner, hsecured⟩

/-! ## The order of two commits -/

/-- Two places in a list are one, or one of them is in front of the other. -/
theorem split_two {l₁ l₂ r₁ r₂ : List Event} {x y : Event} (h : l₁ ++ x :: r₁ = l₂ ++ y :: r₂) :
    (l₁ = l₂ ∧ x = y ∧ r₁ = r₂) ∨ (∃ u, l₂ = l₁ ++ x :: u ∧ r₁ = u ++ y :: r₂) ∨
      ∃ u, l₁ = l₂ ++ y :: u ∧ r₂ = u ++ x :: r₁ := by
  rcases List.append_eq_append_iff.1 h with ⟨u, rfl, hrest⟩ | ⟨u, rfl, hrest⟩
  · cases u with
    | nil =>
      obtain ⟨hx, hr⟩ := List.cons.inj hrest
      exact Or.inl ⟨by simp, hx, hr⟩
    | cons z u =>
      obtain ⟨rfl, rfl⟩ := List.cons.inj hrest
      exact Or.inr (Or.inl ⟨u, rfl, rfl⟩)
  · cases u with
    | nil =>
      obtain ⟨hx, hr⟩ := List.cons.inj hrest
      exact Or.inl ⟨by simp, hx.symm, hr.symm⟩
    | cons z u =>
      obtain ⟨rfl, rfl⟩ := List.cons.inj hrest
      exact Or.inr (Or.inr ⟨u, rfl, rfl⟩)

/-- Of two stages of one identifier that have become visible, one had done so before the other was
granted. -/
theorem promoted_before_granted {n : Nat} {b : Broker} (hb : Window n b) {g h : HeldStage}
    {p q : Promotion} (hg : .promoted g p ∈ b.marks) (hh : .promoted h q ∈ b.marks) (hne : g ≠ h)
    (hcache : g.cache = h.cache) (hid : g.staged.duplicateId = h.staged.duplicateId) :
    (∃ t₁ t₂ t₃, b.marks = t₁ ++ .promoted g p :: t₂ ++ .granted h :: t₃) ∨
      ∃ t₁ t₂ t₃, b.marks = t₁ ++ .promoted h q :: t₂ ++ .granted g :: t₃ := by
  obtain ⟨l₁, r₁, hl₁⟩ := List.append_of_mem hg
  obtain ⟨l₂, r₂, hl₂⟩ := List.append_of_mem hh
  obtain ⟨a₁, c₁, rfl, hclear₁⟩ := hb.founded l₁ g p r₁ hl₁
  obtain ⟨a₂, c₂, rfl, hclear₂⟩ := hb.founded l₂ h q r₂ hl₂
  have hfirst : a₁ ++ .granted g :: (c₁ ++ .promoted g p :: r₁) =
      a₂ ++ .granted h :: (c₂ ++ .promoted h q :: r₂) := by
    simpa using hl₁.symm.trans hl₂
  rcases split_two hfirst with ⟨-, heq, -⟩ | ⟨u, ha₂, hafter⟩ | ⟨u, ha₁, hafter⟩
  · injection heq with heq
    exact absurd heq hne
  · -- `g` is granted first, and becomes visible before `h` is granted.
    rcases split_two hafter with ⟨-, heq, -⟩ | ⟨w, hw, -⟩ | ⟨w, hw, -⟩
    · cases heq
    · refine Or.inl ⟨a₁ ++ .granted g :: c₁, w, c₂ ++ .promoted h q :: r₂, ?_⟩
      rw [hl₂, ha₂, hw]
      simp
    · exact absurd ⟨hcache.symm, hid.symm⟩ (hclear₁ h (by simp [hw]))
  · rcases split_two hafter with ⟨-, heq, -⟩ | ⟨w, hw, -⟩ | ⟨w, hw, -⟩
    · cases heq
    · refine Or.inr ⟨a₂ ++ .granted h :: c₂, w, c₁ ++ .promoted g p :: r₁, ?_⟩
      rw [hl₁, ha₁, hw]
      simp
    · exact absurd ⟨hcache, hid⟩ (hclear₂ g (by simp [hw]))

/-- A split of the marks is one of the trace. -/
theorem trace_of_marks {trace t₁ t₂ t₃ : List Event} {x y : Event}
    (h : trace.filter Event.isMark = t₁ ++ x :: t₂ ++ y :: t₃) :
    ∃ u₁ u₂ u₃, trace = u₁ ++ x :: u₂ ++ y :: u₃ ∧ u₂.filter Event.isMark = t₂ := by
  obtain ⟨v, u, rfl, hv, hu⟩ := List.filter_eq_append_iff.1 h
  obtain ⟨u₁, w, rfl, -, hw⟩ := List.filter_eq_append_iff.1 hv
  obtain ⟨w₁, w₂, rfl, -, -, rfl⟩ := List.filter_eq_cons_iff.1 hw
  obtain ⟨v₁, v₂, rfl, hv₁, -, -⟩ := List.filter_eq_cons_iff.1 hu
  refine ⟨u₁ ++ w₁, w₂ ++ v₁, v₂, by simp, ?_⟩
  rw [List.filter_append, List.filter_eq_nil_iff.2 (fun e he => hv₁ e he), List.append_nil]

theorem promotedIds_marks (ref : CacheRef) (trace : List Event) :
    promotedIds ref (trace.filter Event.isMark) = promotedIds ref trace := by
  unfold promotedIds
  rw [List.filterMap_filter]
  refine congrArg (fun f => List.filterMap f trace) (funext fun e => ?_)
  cases e <;> rfl

end Broker

/-! ## Units of work -/

/-- A unit of work: the send at a place of a run, or the transaction of a number. -/
inductive Work where
  | send (place : Nat)
  | transaction (number : Nat)
  deriving DecidableEq, Repr

namespace Work

/-- Who owns the stages of a unit of work: a send draws a number of its own. -/
def owner (b : Broker) (cs : List Command) : Work → Owner
  | send i => .direct (b.run (cs.take i)).number
  | transaction n => .transaction n

/-- A unit of work was successful, and had a message with the identifier routed to the address. -/
def Routed (b : Broker) (cs : List Command) (a : Address) (id : Bytes) : Work → Prop
  | send i => ∃ ticket m, cs[i]? = some (.route 0 ticket m none true) ∧ m.address = a ∧
      m.duplicateId = some id ∧ b.Returned cs i ticket
  | transaction n => ((b.run cs).transaction n).state = .committed ∧
      ∃ i ticket m, cs[i]? = some (.route 0 ticket m (some n) true) ∧ m.address = a ∧
        m.duplicateId = some id ∧ b.Returned cs i ticket

end Work

/-- The identifier became visible for `u`, and `n` other identifiers became visible at the address
before it was granted to `v`. -/
def Separated (n : Nat) (trace : List Event) (a : Address) (id : Bytes) (u v : Owner) : Prop :=
  ∃ t₁ h p t₂ g t₃, trace = t₁ ++ .promoted h p :: t₂ ++ .granted g :: t₃ ∧
    h.IsFor (.office 0 a) id u ∧ g.IsFor (.office 0 a) id v ∧
    ∃ ids : List Bytes, ids.Nodup ∧ ids.length = n ∧ id ∉ ids ∧
      ∀ i ∈ ids, i ∈ promotedIds (.office 0 a) t₂

namespace Broker

variable {s : Settings} {b : Broker} {cs : List Command} {a : Address} {id : Bytes}

/-- A successful unit of work has made the identifier visible. -/
theorem promoted_of_routed (hb : Opened s b) (hn : 0 < s.idCacheCapacity)
    (huse : ∀ c ∈ cs, c.isUse = true) (hrejects : ∀ c ∈ cs, c.rejectsDuplicates = true)
    (htickets : (tickets cs).Nodup) {u : Work} (hu : u.Routed b cs a id) :
    ∃ h p, .promoted h p ∈ (b.run cs).marks ∧ h.IsFor (.office 0 a) id (u.owner b cs) := by
  have hfair := (serving_run hb hn huse hrejects).fair
  have hmarks : (b.run cs).view.books.marks = (b.run cs).marks := marks_books _
  cases u with
  | send i =>
    obtain ⟨ticket, m, hplace, rfl, hid, hreturned⟩ := hu
    obtain ⟨call, -, howner, hsecured⟩ :=
      secured_of_returned hb hn huse hrejects htickets hplace hid hreturned
    rw [howner] at hsecured
    rcases hsecured with ⟨h, p, hp, hfor⟩ | ⟨k, o, hk, -⟩
    · exact ⟨h, p, hmarks ▸ hp, hfor⟩
    · cases hk
  | transaction n =>
    obtain ⟨hstate, i, ticket, m, hplace, rfl, hid, hreturned⟩ := hu
    obtain ⟨call, -, howner, hsecured⟩ :=
      secured_of_returned hb hn huse hrejects htickets hplace hid hreturned
    rw [howner] at hsecured
    rcases hsecured with ⟨h, p, hp, hfor⟩ | ⟨k, o, hk, ho, h, hh, hfor⟩
    · exact ⟨h, p, hmarks ▸ hp, hfor⟩
    · obtain rfl : n = k + 1 := by injection hk
      have houtline : o = ((b.run cs).transaction (k + 1)).outline := by
        have ho' : (b.run cs).outlines[k]? = some o := ho
        rw [outline_transaction] at ho'
        split at ho'
        · exact (Option.some.inj ho').symm
        · cases ho'
      obtain ⟨p, hp⟩ := hfair.honoured o (List.mem_of_getElem? ho) (by rw [houtline]; exact hstate)
        h hh
      exact ⟨h, p, hmarks ▸ hp, hfor⟩

/-- Of two successful sends the later one has the greater number. -/
theorem number_lt_of_returned (hb : Opened s b) (hn : 0 < s.idCacheCapacity)
    (huse : ∀ c ∈ cs, c.isUse = true) (hrejects : ∀ c ∈ cs, c.rejectsDuplicates = true)
    (htickets : (tickets cs).Nodup) {i j ticket : Nat} {m : Message}
    (hplace : cs[i]? = some (.route 0 ticket m none true)) (hid : m.duplicateId = some id)
    (hreturned : Returned b cs i ticket) (hij : i < j) :
    (b.run (cs.take i)).number < (b.run (cs.take j)).number := by
  obtain ⟨call, hcall, howner, -⟩ :=
    secured_of_returned hb hn huse hrejects htickets hplace hid hreturned
  have hbefore : ∀ c ∈ cs.take i, c ∈ cs := fun c hc => List.mem_of_mem_take hc
  have hserving := serving_run hb hn (fun c hc => huse c (hbefore c hc))
    fun c hc => hrejects c (hbefore c hc)
  have hdrawn := (number_submits hserving.proper.single hcall howner).2
  have htake : cs.take (i + 1) = cs.take i ++ [.route 0 ticket m none true] := by
    rw [List.take_add_one, hplace]
    rfl
  have hsplit : cs.take j = cs.take (i + 1) ++ (cs.take j).drop (i + 1) := by
    have h := List.take_append_drop (i + 1) (cs.take j)
    rw [List.take_take, Nat.min_eq_left (by omega)] at h
    exact h.symm
  have hle := number_run (b.run (cs.take (i + 1))) ((cs.take j).drop (i + 1))
  rw [← run_append, ← hsplit, htake, run_concat, hdrawn] at hle
  exact hle

/-- Successful units of work have different owners. -/
theorem owner_ne_of_routed (hb : Opened s b) (hn : 0 < s.idCacheCapacity)
    (huse : ∀ c ∈ cs, c.isUse = true) (hrejects : ∀ c ∈ cs, c.rejectsDuplicates = true)
    (htickets : (tickets cs).Nodup) {u v : Work} (huv : u ≠ v) (hu : u.Routed b cs a id)
    (hv : v.Routed b cs a id) : u.owner b cs ≠ v.owner b cs := by
  intro heq
  cases u with
  | transaction n =>
    cases v with
    | transaction k =>
      injection heq with hk
      exact huv (by rw [hk])
    | send j => cases heq
  | send i =>
    cases v with
    | transaction k => cases heq
    | send j =>
      injection heq with hnumber
      obtain ⟨ticket, m, hplace, -, hid, hreturned⟩ := hu
      obtain ⟨ticket', m', hplace', -, hid', hreturned'⟩ := hv
      rcases Nat.lt_trichotomy i j with hlt | hsame | hgt
      · have h := number_lt_of_returned hb hn huse hrejects htickets hplace hid hreturned hlt
        omega
      · exact huv (by rw [hsame])
      · have h := number_lt_of_returned hb hn huse hrejects htickets hplace' hid' hreturned' hgt
        omega

/-- A grant after a commit of the identifier comes after as many others as the cache has room
for. -/
theorem separated_of_marks {n : Nat} (hb : Window n b) {trace t₁ t₂ t₃ : List Event}
    {g h : HeldStage} {p : Promotion} {u v : Owner}
    (htrace : trace.filter Event.isMark = b.marks)
    (hmarks : b.marks = t₁ ++ .promoted h p :: t₂ ++ .granted g :: t₃)
    (hh : h.IsFor (.office 0 a) id u) (hg : g.IsFor (.office 0 a) id v) :
    Separated n trace a id u v := by
  obtain ⟨u₁, u₂, u₃, hsplit, hmiddle⟩ := trace_of_marks (htrace.trans hmarks)
  have hspaced := hb.spaced (t₁ ++ .promoted h p :: t₂) g t₃ hmarks
  obtain ⟨ids, hnodup, hlength, hnot, hids⟩ :=
    hspaced t₁ h p t₂ rfl (hh.1.trans hg.1.symm) (hh.2.1.trans hg.2.1.symm)
  refine ⟨u₁, h, p, u₂, g, u₃, hsplit, hh, hg, ids, hnodup, hlength, hg.2.1 ▸ hnot, fun i hi => ?_⟩
  have hpromoted := hids i hi
  rw [hg.1, ← hmiddle, promotedIds_marks] at hpromoted
  exact hpromoted

/-- Two different units of work that each had a message with the same identifier routed to the same
address: in between as many others became visible there as the cache has room for. -/
theorem units_separated (hb : Opened s b) (hn : 0 < s.idCacheCapacity)
    (huse : ∀ c ∈ cs, c.isUse = true) (hrejects : ∀ c ∈ cs, c.rejectsDuplicates = true)
    (htickets : (tickets cs).Nodup) {u v : Work} (huv : u ≠ v) (hu : u.Routed b cs a id)
    (hv : v.Routed b cs a id) :
    Separated s.idCacheCapacity (b.run cs).trace a id (u.owner b cs) (v.owner b cs) ∨
      Separated s.idCacheCapacity (b.run cs).trace a id (v.owner b cs) (u.owner b cs) := by
  have hwindow := (serving_run hb hn huse hrejects).fair.guarded.window
  have hmarks : (b.run cs).view.books.marks = (b.run cs).marks := marks_books _
  obtain ⟨g, p, hg, hgfor⟩ := promoted_of_routed hb hn huse hrejects htickets hu
  obtain ⟨h, q, hh, hhfor⟩ := promoted_of_routed hb hn huse hrejects htickets hv
  have hne : g ≠ h := by
    rintro rfl
    exact owner_ne_of_routed hb hn huse hrejects htickets huv hu hv
      (hgfor.2.2.symm.trans hhfor.2.2)
  rw [← hmarks] at hg hh
  rcases promoted_before_granted hwindow hg hh hne (hgfor.1.trans hhfor.1.symm)
    (hgfor.2.1.trans hhfor.2.1.symm) with ⟨t₁, t₂, t₃, hsplit⟩ | ⟨t₁, t₂, t₃, hsplit⟩
  · exact Or.inl (separated_of_marks hwindow hmarks.symm hsplit hgfor hhfor)
  · exact Or.inr (separated_of_marks hwindow hmarks.symm hsplit hhfor hgfor)

/-- A post office that remembers one identifier for each address. -/
def oneIdentifier : Settings := { idCacheSize := 1, persistIdCache := false }

/-- Two sends with different identifiers, and a transaction that sends the first one again. -/
def sendTwiceApart : List Command :=
  [.route 0 0 (messageTo "orders" 1) none true, .route 0 1 (messageTo "orders" 2) none true,
    .begin none, .route 0 2 (messageTo "orders" 1) (some 1) true, .commit 1]

theorem units_separated_sendTwiceApart :
    Separated 1 (((({} : Broker).openPlain oneIdentifier).1.run sendTwiceApart).trace) ⟨"orders"⟩ [1]
        (.direct 1) (.transaction 1) ∨
      Separated 1 (((({} : Broker).openPlain oneIdentifier).1.run sendTwiceApart).trace) ⟨"orders"⟩
        [1] (.transaction 1) (.direct 1) := by
  have hfirst : (Work.send 0).Routed (({} : Broker).openPlain oneIdentifier).1 sendTwiceApart
      ⟨"orders"⟩ [1] :=
    ⟨0, messageTo "orders" 1, rfl, rfl, rfl, { staged := true }, Or.inl (by decide +kernel)⟩
  have hsecond : (Work.transaction 1).Routed (({} : Broker).openPlain oneIdentifier).1
      sendTwiceApart ⟨"orders"⟩ [1] :=
    ⟨by decide +kernel, 3, 2, messageTo "orders" 1, rfl, rfl, rfl, { staged := true },
      Or.inl (by decide +kernel)⟩
  exact units_separated (Opened.plain {} {}) (by decide) (by decide) (by decide) (by decide)
    (by decide) hfirst hsecond

end Broker

end MessageRouting
