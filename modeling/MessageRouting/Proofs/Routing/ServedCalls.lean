import MessageRouting.Proofs.Routing.CallerView
import MessageRouting.Proofs.Stage.Keepers

/-!
# Serving calls

While a post office is in use, each routing call that ends well has its
identifier secured, whether it was answered at once or had to wait; and sends
outside any transaction are numbered apart.

Results:

* `serving_run`: what is known of a post office in use, after every run.
* `secured_route`, `serving_resume`: calls that are answered at once, and calls
  that had to wait.
* `number_submits`: every send that comes to staging draws a new number.
-/

namespace MessageRouting

open Relation (ReflTransGen)

/-- Whether a send asks for duplicates to be rejected. -/
def Command.rejectsDuplicates : Command → Bool
  | .route _ _ _ _ rejectDuplicates => rejectDuplicates
  | _ => true

/-- A routing call that rejects duplicates. -/
def Call.Rejects (c : Call) : Prop :=
  c.Routes ∧ ∃ r, c.purpose = .route r ∧ r.rejectDuplicates = true

namespace Broker

/-! ## Runs -/

theorem run_append (b : Broker) (cs ds : List Command) :
    b.run (cs ++ ds) = (b.run cs).run ds := List.foldl_append ..

theorem run_concat (b : Broker) (cs : List Command) (c : Command) :
    b.run (cs ++ [c]) = ((b.run cs).perform c).1 := run_append ..

/-- What holds at first, and after a request if it held before, holds after all of them. -/
theorem run_induction {I : List Command → Prop} {cs : List Command} (hnil : I [])
    (hstep : ∀ done c rest, cs = done ++ c :: rest → I done → I (done ++ [c])) : I cs := by
  have hfrom : ∀ rest done, cs = done ++ rest → I done → I cs := by
    intro rest
    induction rest with
    | nil =>
      intro done hcs hdone
      rw [hcs, List.append_nil]
      exact hdone
    | cons c rest ih =>
      intro done hcs hdone
      exact ih (done ++ [c]) (by simp [hcs]) (hstep done c rest hcs hdone)
  exact hfrom cs [] rfl hnil

theorem replies_getElem? (b : Broker) (cs₁ : List Command) (c : Command) (cs₂ : List Command) :
    (b.replies (cs₁ ++ c :: cs₂))[cs₁.length]? = some ((b.run cs₁).perform c).2 := by
  induction cs₁ generalizing b with
  | nil => rfl
  | cons d rest ih => exact ih (b.perform d).1

/-- The calls that the sends of a run have come to. -/
def Submitted (b : Broker) (cs : List Command) (call : Call) : Prop :=
  ∃ cs₁ c cs₂, cs = cs₁ ++ c :: cs₂ ∧ (b.run cs₁).Submits c call

theorem submitted_concat {b : Broker} {cs : List Command} {d : Command} {call : Call} :
    Submitted b (cs ++ [d]) call ↔ Submitted b cs call ∨ (b.run cs).Submits d call := by
  constructor
  · rintro ⟨cs₁, c, cs₂, hcs, hsubmits⟩
    rcases List.eq_nil_or_concat cs₂ with rfl | ⟨cs₂, e, rfl⟩
    · obtain ⟨rfl, hc⟩ := List.append_inj' hcs rfl
      cases hc
      exact Or.inr hsubmits
    · rw [List.concat_eq_append, ← List.cons_append, ← List.append_assoc] at hcs
      obtain ⟨rfl, -⟩ := List.append_inj' hcs rfl
      exact Or.inl ⟨cs₁, c, cs₂, rfl, hsubmits⟩
  · rintro (⟨cs₁, c, cs₂, rfl, hsubmits⟩ | hsubmits)
    · exact ⟨cs₁, c, cs₂ ++ [d], by simp, hsubmits⟩
    · exact ⟨cs, d, [], rfl, hsubmits⟩

theorem rejects_of_submits {b : Broker} {c : Command} {call : Call}
    (hc : c.rejectsDuplicates = true) (h : b.Submits c call) : call.Rejects := by
  refine ⟨routes_of_submits h, ?_⟩
  obtain ⟨ticket, m, transaction, rejectDuplicates, id, delivery, rfl, -, -, -, rfl⟩ := h
  exact ⟨_, rfl, hc⟩

/-! ## Calls that are answered at once -/

theorem enabled_moves {P : Call → Prop} {v v' : View} (h : Moves P v v') (hv : v.Local)
    {ref : CacheRef} (hb : (v.books.cache ref).enabled = true) :
    (v'.books.cache ref).enabled = true :=
  (books_moves (I := fun b => (b.cache ref).enabled = true) (fun _ _ h => enabled_step h) h hv
    hb).1

theorem enabled_opened {n : Nat} (hn : 0 < n) {b : Broker} (hv : Fair n b.view) (a : Address) :
    ((b.openOfficeCache 0 a).view.books.cache (.office 0 a)).enabled = true := by
  show ((b.openOfficeCache 0 a).books.cache _).enabled = true
  rw [books_openOfficeCache]
  exact enabled_openOfficeCache hn hv.guarded.equipped a

/-- The number that the first post office gives to its next send outside any transaction. -/
def number (b : Broker) : Nat := (b.office 0).nextOwner

theorem number_of_outward {b b' : Broker} (h : b'.outward = b.outward) : b'.number = b.number := by
  have howners := congrArg (fun q => q.2[0]?) h
  simp only [outward, List.getElem?_map] at howners
  simp only [number, office, List.getD_eq_getElem?_getD]
  cases hb : b.offices[0]? with
  | none =>
    rw [hb] at howners
    simp only [Option.map_none, Option.map_eq_none_iff] at howners
    rw [howners]
  | some o =>
    rw [hb] at howners
    obtain ⟨o', ho', heq⟩ := Option.map_eq_some_iff.1 howners
    rw [ho']
    exact heq

theorem length_of_outward {b b' : Broker} (h : b'.outward = b.outward) :
    b'.offices.length = b.offices.length := by
  have hlength := congrArg (fun q => q.2.length) h
  simpa [outward] using hlength

/-- What a send comes to, once its identifier is to be staged: it draws a number, if it is outside
any transaction, and makes its call. -/
theorem route_of_submits {b : Broker} {ticket : Nat} {m : Message} {transaction : Option Nat}
    {rejectDuplicates : Bool} {call : Call} (hsingle : b.offices.length = 1)
    (h : b.Submits (.route 0 ticket m transaction rejectDuplicates) call) :
    ∃ b' : Broker, b'.view = (b.openOfficeCache 0 m.address).view ∧
      b'.outward.1 = b.outward.1 ∧
      b'.number = b.number + (if transaction = none then 1 else 0) ∧
      b.route 0 ticket m transaction rejectDuplicates =
        ((b'.submitCall call).1, (b'.submitCall call).2) := by
  obtain ⟨ticket', m', transaction', rejectDuplicates', id, delivery, hroute, hid, hnew, hcollect,
    rfl⟩ := h
  cases hroute
  have hview := view_collect (b.openOfficeCache 0 m.address) 0 m
  have houtward := (trafficKeeps_outward.collect (b.openOfficeCache 0 m.address) 0 m).trans
    (outward_of_fixtures (fixtures_openOfficeCache ..))
  rcases hres : (b.openOfficeCache 0 m.address).collect 0 m with ⟨c, result⟩
  rw [hres] at hview houtward hcollect
  dsimp only at hcollect
  subst hcollect
  have hnumber : c.number = b.number := number_of_outward houtward
  refine ⟨(c.drawOwner 0 transaction).1, (view_drawOwner ..).trans hview, ?_, ?_, ?_⟩
  · rw [← houtward]
    cases transaction <;> rfl
  · cases transaction with
    | some n => exact hnumber
    | none =>
      have hpos : 0 < c.offices.length := by
        rw [length_of_outward houtward, hsingle]
        exact Nat.one_pos
      rw [if_pos rfl, ← hnumber]
      simp only [drawOwner, number, office_modifyOffice c 0 _ hpos, if_true]
  · simp only [route, hid, hnew, routeStaged, hres, drawOwner_congr transaction hnumber]
    rfl

/-- A routing call that rejects duplicates and is answered well at once has its identifier
secured. -/
theorem secured_submitCall {n : Nat} {b b' : Broker} {call : Call} {o : RoutingOutcome}
    (hn : 0 < n) (hv : Fair n b.view) (hcall : call.Rejects)
    (henabled : (b.cache call.cache).enabled = true)
    (h : b.submitCall call = (b', some (.routed o))) :
    Secured b'.view call.cache call.duplicateId call.owner := by
  obtain ⟨hroutes, r, hr, hreject⟩ := hcall
  unfold submitCall at h
  rcases hattempt : b.attempt call with ⟨c, answer⟩
  rw [hattempt] at h
  cases answer with
  | none => cases h
  | some answer =>
    simp only [Prod.mk.injEq, Option.some.injEq] at h
    rw [h.1, h.2] at hattempt
    exact secured_attempt hn hv hroutes hr hreject henabled hattempt

/-- A send that is answered well at once has its identifier secured. -/
theorem secured_route {n : Nat} {b : Broker} {c : Command} {call : Call} {o : RoutingOutcome}
    (hn : 0 < n) (hv : Fair n b.view) (hsingle : b.offices.length = 1)
    (hc : c.rejectsDuplicates = true) (hcall : b.Submits c call)
    (h : (b.perform c).2 = .answered (.routed o)) :
    Secured (b.perform c).1.view call.cache call.duplicateId call.owner := by
  have hrejects := rejects_of_submits hc hcall
  have hcache := hcall
  obtain ⟨ticket, m, transaction, rejectDuplicates, id, delivery, rfl, -, -, -, hcall'⟩ := hcache
  obtain ⟨b', hview, -, -, hroute⟩ := route_of_submits hsingle hcall
  have hopened := fair_moves (P := Call.Routes) hn
    (.single (passes_openOfficeCache _ b m.address).move) hv
  have henabled : (b'.view.books.cache (.office 0 m.address)).enabled = true := by
    rw [hview]
    exact enabled_opened hn hv m.address
  simp only [perform, hroute, Prod.map] at h ⊢
  have hanswer : (b'.submitCall call).2 = some (.routed o) := by
    cases hres : (b'.submitCall call).2 with
    | none =>
      rw [hres] at h
      cases h
    | some answer =>
      rw [hres] at h
      simp only [Reply.ofAnswer, Reply.answered.injEq] at h
      rw [h]
  refine secured_submitCall hn (by rw [hview]; exact hopened) hrejects ?_ (Prod.ext rfl hanswer)
  rw [hcall']
  exact henabled

/-! ## Calls that have waited -/

/-- A post office in use: stages are kept, the calls that wait are known and at caches with room,
and those that ended well have their identifiers secured. -/
structure Serving (n : Nat) (P : Call → Prop) (b : Broker) : Prop where
  fair : Fair n b.view
  proper : Proper P b
  enabled : ∀ c, P c → (b.cache c.cache).enabled = true
  answered : ∀ ticket o, .answered ticket (.routed o) ∈ b.trace →
    ∃ c, P c ∧ c.ticket = ticket ∧ Secured b.view c.cache c.duplicateId c.owner

variable {n : Nat} {P : Call → Prop}

theorem mem_answers {b b' : Broker} (h : b'.outward.1 = b.outward.1) {ticket : Nat} {a : Answer} :
    .answered ticket a ∈ b'.trace ↔ .answered ticket a ∈ b.trace := by
  have hmem : ∀ b : Broker, .answered ticket a ∈ b.trace ↔ .answered ticket a ∈ b.outward.1 :=
    fun b => by simp [outward, Event.isAnswer]
  rw [hmem, hmem, h]

theorem serving_moves (hn : 0 < n) {b b' : Broker} (h : Moves P b.view b'.view)
    (hanswers : b'.outward.1 = b.outward.1) (hb : Serving n P b) : Serving n P b' := by
  refine ⟨fair_moves hn h hb.fair, proper_of_moves hb.proper h, fun c hc => ?_,
    fun ticket o ho => ?_⟩
  · exact enabled_moves h hb.fair.guarded.atOffice (hb.enabled c hc)
  · obtain ⟨c, hc, hticket, hsecured⟩ := hb.answered ticket o ((mem_answers hanswers).1 ho)
    exact ⟨c, hc, hticket, secured_moves hn h hb.fair hsecured⟩

theorem serving_answered {b b' : Broker} {ticket : Nat} {answer : Answer}
    (hb' : b' = b.log (.answered ticket answer))
    (hnew : ∀ o, answer = .routed o →
      ∃ c, P c ∧ c.ticket = ticket ∧ Secured b.view c.cache c.duplicateId c.owner)
    (hb : Serving n P b) : Serving n P b' := by
  subst hb'
  have hview : (b.log (.answered ticket answer)).view = b.view :=
    view_eq (books_log_of_not rfl) rfl
  refine ⟨by rw [hview]; exact hb.fair, ⟨hb.proper.single, hb.proper.calls⟩, hb.enabled,
    fun ticket' o ho => ?_⟩
  rw [hview]
  rcases List.mem_append.1 ho with ho | ho
  · exact hb.answered ticket' o ho
  · have heq := List.mem_singleton.1 ho
    injection heq with hticket hanswer
    rw [hticket]
    exact hnew o hanswer.symm

/-- Resuming a call that has waited. -/
theorem serving_resume (hn : 0 < n) (hP : ∀ c, P c → c.Rejects) {b : Broker}
    (hb : Serving n P b) : Serving n P b.resume := by
  unfold resume
  cases hready : b.ready with
  | nil => exact hb
  | cons call rest =>
    have hcall : P call := hb.proper.calls call (by simp [hready])
    have hretry : Move P b.view { b with ready := rest }.view :=
      .retries fun c hc => hready ▸ List.mem_cons_of_mem call hc
    have hb₁ : Serving n P { b with ready := rest } := serving_moves hn (.single hretry) rfl hb
    have hmoves := moves_of_passes
      (passes_submitCall (fun c hc => (hP c hc).1) hcall (b := { b with ready := rest }))
    have houtward := outward_of_fixtures (fixtures_submitCall { b with ready := rest } call)
    have hb₂ := serving_moves hn hmoves (congrArg Prod.fst houtward) hb₁
    dsimp only
    rcases hres : ({ b with ready := rest } : Broker).submitCall call with ⟨c, answer⟩
    rw [hres] at hb₂
    cases answer with
    | none => exact hb₂
    | some answer =>
      refine serving_answered rfl (fun o ho => ⟨call, hcall, rfl, ?_⟩) hb₂
      subst ho
      exact secured_submitCall hn hb₁.fair (hP call hcall) (hb₁.enabled call hcall) hres

theorem serving_resumeSome (hn : 0 < n) (hP : ∀ c, P c → c.Rejects) (k : Nat) {b : Broker}
    (hb : Serving n P b) : Serving n P (b.resumeSome k) := by
  induction k generalizing b with
  | zero => exact hb
  | succ k ih =>
    unfold resumeSome
    split
    · exact hb
    · exact ih (serving_resume hn hP hb)

end Broker

/-! ## Runs of a post office in use -/

/-- What may be asked of a post office in use; meanwhile kinds of journal calls may begin or cease
to fail. -/
def Command.isUse (c : Command) : Bool :=
  c.isTraffic || match c with
    | .failing _ => true
    | _ => false

namespace Broker

variable {n : Nat}

theorem fair_storage {v : View} (hv : Fair n v) (s : Storage) :
    Fair n ⟨{ v.books with storage := s }, v.loose, v.outlines⟩ where
  guarded :=
    { atOffice := ⟨hv.guarded.atOffice.addressed, hv.guarded.atOffice.atOffice⟩
      unkeyed := hv.guarded.unkeyed
      custody := ⟨hv.guarded.custody.floor_le, hv.guarded.custody.below, hv.guarded.custody.apart,
        hv.guarded.custody.kept⟩
      sound := hv.guarded.sound
      equipped := ⟨hv.guarded.equipped.settings, hv.guarded.equipped.caches⟩
      window := ⟨hv.guarded.window.recent, hv.guarded.window.standing, hv.guarded.window.spaced,
        hv.guarded.window.founded⟩ }
  owned := hv.owned
  honoured := hv.honoured

theorem serving_failing {P : Call → Prop} {b : Broker} (hb : Serving n P b)
    (methods : List JournalMethod) : Serving n P (b.perform (.failing methods)).1 where
  fair := fair_storage hb.fair { b.storage with failing := methods }
  proper := ⟨hb.proper.single, hb.proper.calls⟩
  enabled := hb.enabled
  answered := hb.answered

/-- A send comes to staging its identifier, or answers nobody and draws no number. -/
theorem route_cases (b : Broker) (ticket : Nat) (m : Message) (transaction : Option Nat)
    (rejectDuplicates : Bool) :
    (∃ call, b.Submits (.route 0 ticket m transaction rejectDuplicates) call) ∨
      (b.route 0 ticket m transaction rejectDuplicates).1.outward = b.outward := by
  cases hid : b.detectedId 0 m with
  | none =>
    refine Or.inr ?_
    simp only [route, hid]
    exact trafficKeeps_outward.routeUnstaged ..
  | some id =>
    have hopen := outward_of_fixtures (fixtures_openOfficeCache b 0 m.address)
    cases hnew : ((b.openOfficeCache 0 m.address).cache (.office 0 m.address)).isDuplicate id with
    | true =>
      refine Or.inr ?_
      simp only [route, hid, hnew, if_true]
      exact (trafficKeeps_outward.routeDuplicate ..).trans hopen
    | false =>
      have hcollect := trafficKeeps_outward.collect (b.openOfficeCache 0 m.address) 0 m
      rcases hres : (b.openOfficeCache 0 m.address).collect 0 m with ⟨c, result⟩
      rw [hres] at hcollect
      cases result with
      | error e =>
        refine Or.inr ?_
        simp only [route, hid, hnew, routeStaged, hres]
        exact hcollect.trans hopen
      | ok delivery =>
        exact Or.inl ⟨_, ticket, m, transaction, rejectDuplicates, id, delivery, rfl, hid, hnew,
          by rw [hres], rfl⟩

theorem outward_route {b : Broker} (hsingle : b.offices.length = 1) (ticket : Nat) (m : Message)
    (transaction : Option Nat) (rejectDuplicates : Bool) :
    (b.route 0 ticket m transaction rejectDuplicates).1.outward.1 = b.outward.1 := by
  rcases route_cases b ticket m transaction rejectDuplicates with ⟨call, hcall⟩ | hsame
  · obtain ⟨b', -, hanswers, -, hroute⟩ := route_of_submits hsingle hcall
    rw [hroute]
    exact (congrArg Prod.fst (outward_of_fixtures (fixtures_submitCall b' call))).trans hanswers
  · exact congrArg Prod.fst hsame

theorem number_draw (b : Broker) (n : Nat) :
    b.number ≤ (b.modifyOffice n fun o => { o with nextOwner := o.nextOwner + 1 }).number := by
  simp only [number, office, modifyOffice, List.getD_eq_getElem?_getD, List.getElem?_modify]
  cases b.offices[0]? with
  | none => exact Nat.le_refl _
  | some o => by_cases hn : n = 0 <;> simp [hn]

theorem number_open (b : Broker) {o : Office} (ho : o.nextOwner = 1) :
    ({ b with offices := b.offices ++ [o] } : Broker).number = b.number := by
  simp only [number, office, List.getD_eq_getElem?_getD]
  cases b.offices with
  | nil => exact ho
  | cons o' rest => rfl

theorem requestsKeep_number : RequestsKeep fun b b' => b.number ≤ b'.number where
  refl _ := Nat.le_refl _
  trans := Nat.le_trans
  still _ hfixtures _ := Nat.le_of_eq (number_of_outward (outward_of_fixtures hfixtures)).symm
  asks _ _ _ := Nat.le_of_eq (number_of_outward (outward_setDesk ..)).symm
  branches _ _ _ := Nat.le_of_eq (number_of_outward (outward_setDesk ..)).symm
  begins _ _ _ := Nat.le_refl _
  registers _ _ _ _ :=
    Nat.le_of_eq (number_of_outward (outward_of_fixtures (fixtures_modifyTransaction ..))).symm
  marks _ _ _ :=
    Nat.le_of_eq (number_of_outward (outward_of_fixtures (fixtures_modifyTransaction ..))).symm
  prepares _ _ :=
    Nat.le_of_eq (number_of_outward (outward_of_fixtures (fixtures_prepare ..))).symm
  commits _ _ := Nat.le_of_eq (number_of_outward (outward_of_fixtures (fixtures_commit ..))).symm
  rollsBack _ _ :=
    Nat.le_of_eq (number_of_outward (outward_of_fixtures (fixtures_rollback ..))).symm
  draws := number_draw
  answers _ _ _ := Nat.le_refl _
  opens b _ _ ho := Nat.le_of_eq (number_open b ho).symm

/-- Numbers are drawn upwards. -/
theorem number_run (b : Broker) (cs : List Command) : b.number ≤ (b.run cs).number :=
  requestsKeep_number.run b cs

/-- A send outside any transaction that comes to staging its identifier draws a number. -/
theorem number_submits {b : Broker} (hsingle : b.offices.length = 1) {c : Command} {call : Call}
    {k : Nat} (h : b.Submits c call) (howner : call.owner = .direct k) :
    b.number = k ∧ (b.perform c).1.number = k + 1 := by
  have hcall := h
  obtain ⟨ticket, m, transaction, rejectDuplicates, id, delivery, rfl, -, -, -, rfl⟩ := hcall
  obtain ⟨b', -, -, hnumber, hroute⟩ := route_of_submits hsingle h
  cases transaction with
  | some n => cases howner
  | none =>
    injection howner with hk
    refine ⟨hk, ?_⟩
    simp only [perform, hroute, Prod.map]
    show (b'.submitCall _).1.number = _
    rw [number_of_outward (outward_of_fixtures (fixtures_submitCall b' _)), hnumber, if_pos rfl]
    exact congrArg (· + 1) hk

theorem eq_route_of_submits {b : Broker} {c : Command} {call : Call} (h : b.Submits c call) :
    ∃ ticket m transaction rejectDuplicates,
      c = .route 0 ticket m transaction rejectDuplicates := by
  obtain ⟨ticket, m, transaction, rejectDuplicates, id, delivery, hc, -⟩ := h
  exact ⟨ticket, m, transaction, rejectDuplicates, hc⟩

/-- Every request leaves a post office in use. -/
theorem serving_perform (hn : 0 < n) {b₀ : Broker} {done : List Command} {c : Command}
    (hc : c.isUse = true) (hreject : c.rejectsDuplicates = true)
    (hrejects : ∀ d ∈ done, d.rejectsDuplicates = true)
    (hb : Serving n (Submitted b₀ done) (b₀.run done)) :
    Serving n (Submitted b₀ (done ++ [c])) (b₀.run (done ++ [c])) := by
  rw [run_concat]
  have hP : ∀ call, Submitted b₀ done call → call.Rejects := by
    rintro call ⟨cs₁, d, cs₂, rfl, hsubmits⟩
    exact rejects_of_submits (hrejects d (by simp)) hsubmits
  have hsame : (∀ call, ¬ (b₀.run done).Submits c call) →
      Submitted b₀ (done ++ [c]) = Submitted b₀ done := fun hnone =>
    funext fun call => propext (submitted_concat.trans (or_iff_left (hnone call)))
  by_cases htraffic : c.isTraffic = true
  · by_cases houtward : c.isOutward = true
    · cases c with
      | route office ticket m transaction rejectDuplicates =>
        obtain rfl : office = 0 := by simpa [Command.isTraffic] using htraffic
        have hP' : ∀ call, Submitted b₀ (done ++ [.route 0 ticket m transaction rejectDuplicates])
            call → call.Routes := fun call hcall =>
          (submitted_concat.1 hcall).elim (fun h => (hP call h).1) routes_of_submits
        have hold : ∀ call, Submitted b₀ done call →
            Submitted b₀ (done ++ [.route 0 ticket m transaction rejectDuplicates]) call :=
          fun call h => submitted_concat.2 (Or.inl h)
        have hnew : ∀ call, (b₀.run done).Submits (.route 0 ticket m transaction rejectDuplicates)
            call → Submitted b₀ (done ++ [.route 0 ticket m transaction rejectDuplicates]) call :=
          fun call h => submitted_concat.2 (Or.inr h)
        have hproper : Proper _ (b₀.run done) :=
          ⟨hb.proper.single, fun call h => hold call (hb.proper.calls call h)⟩
        have hmoves := moves_perform hP' rfl hproper hnew
        refine ⟨fair_moves hn hmoves hb.fair, proper_of_moves hproper hmoves, fun call hcall => ?_,
          fun ticket' o ho => ?_⟩
        · rcases submitted_concat.1 hcall with hcall | hcall
          · exact enabled_moves hmoves hb.fair.guarded.atOffice (hb.enabled call hcall)
          · obtain ⟨ticket', m', transaction', rejectDuplicates', id, delivery, heq, hid, -, -,
              rfl⟩ := hcall
            cases heq
            have hopen := steps_move
              (passes_openOfficeCache Call.Routes (b₀.run done) m.address).move
              hb.fair.guarded.atOffice
            exact enabled_moves (moves_of_passes (passes_route_opened hP' hid hnew)) hopen.2
              (enabled_opened hn hb.fair m.address)
        · have hanswers := outward_route hb.proper.single ticket m transaction
            rejectDuplicates
          obtain ⟨call, hcall, hticket, hsecured⟩ :=
            hb.answered ticket' o ((mem_answers hanswers).1 ho)
          exact ⟨call, hold call hcall, hticket, secured_moves hn hmoves hb.fair hsecured⟩
      | resume =>
        rw [hsame fun call h => by obtain ⟨_, _, _, _, heq⟩ := eq_route_of_submits h; cases heq]
        exact serving_resume hn hP hb
      | settle =>
        rw [hsame fun call h => by obtain ⟨_, _, _, _, heq⟩ := eq_route_of_submits h; cases heq]
        exact serving_resumeSome hn hP _ hb
      | _ => cases houtward
    · have hnone : ∀ call, ¬ (b₀.run done).Submits c call := fun call h => by
        obtain ⟨_, _, _, _, rfl⟩ := eq_route_of_submits h
        exact houtward rfl
      rw [hsame hnone]
      have hmoves := moves_perform (fun call h => (hP call h).1) htraffic hb.proper
        fun call h => absurd h (hnone call)
      refine serving_moves hn hmoves (congrArg Prod.fst ?_) hb
      exact outward_perform _ htraffic (by simpa using houtward)
  · have hnone : ∀ call, ¬ (b₀.run done).Submits c call := fun call h => by
      obtain ⟨_, _, _, _, rfl⟩ := eq_route_of_submits h
      exact htraffic rfl
    rw [hsame hnone]
    cases c with
    | failing methods => exact serving_failing hb methods
    | _ => simp_all [Command.isUse]

end Broker

end MessageRouting
