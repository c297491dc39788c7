import MessageRouting.Broker.Command
import MessageRouting.Proofs.Binding.OrderedList
import MessageRouting.Proofs.Cache.Calmness
import MessageRouting.Proofs.Transaction.CompletionFrames
import MessageRouting.Proofs.Transaction.Deliveries

/-!
# What requests keep

Much of what is said of a broker in a run relates it to itself at an earlier
time. Such a relation is reflexive and transitive, and to see that every request
keeps it, it is enough to look at the few things that requests are made of: what
touches neither transactions nor desks, a registry that is asked, a transaction
that begins, is given an operation, is marked or is completed.

Results:

* `RequestsKeep.perform`: what those few things keep, every request keeps.
* `RequestsKeep.run`: and so does every run.
-/

namespace MessageRouting

namespace Registry

/-- Resolving addresses is asking for their bindings, one after the other. -/
theorem resolveAll_eq_after (r : Registry) (as : List Address) :
    (r.resolveAll as).1 = r.after (as.map (.bindingsFor · true)) := by
  induction as generalizing r with
  | nil => rfl
  | cons a rest ih => exact ih (r.bindingsFor a true).1

end Registry

/-- Whether the request is a send that may have to wait, or a resumption. -/
def Command.isOutward : Command → Bool
  | .route _ _ _ _ _ => true
  | .resume => true
  | .settle => true
  | _ => false

namespace Broker

variable {b b' : Broker} {n : Nat}

/-! ## Transactions -/

/-- What is written back to a transaction may as well be read from the broker. -/
theorem modifyTransaction_const (b : Broker) (n : Nat) (f : Transaction → Transaction) :
    (b.modifyTransaction n fun _ => f (b.transaction n)) = b.modifyTransaction n f := by
  cases n with
  | zero => rfl
  | succ i =>
    have hsame : b.transactions.modify i (fun _ => f (b.transaction (i + 1))) =
        b.transactions.modify i f := by
      refine List.ext_getElem? fun j => ?_
      rw [List.getElem?_modify, List.getElem?_modify]
      by_cases hij : i = j
      · subst hij
        cases h : b.transactions[i]? <;> simp [transaction, h]
      · simp [hij]
    simp only [modifyTransaction, hsame]

/-! ## Calm caches -/

theorem calm_dispatch (hb : Calm b) (d : Delivery) (transaction : Option Nat) :
    Calm (b.dispatch d transaction).1 := by
  cases hd : d.stage with
  | none => exact hb.of_view (view_dispatch_of_none b transaction hd)
  | some h =>
    rcases hdispatch : b.dispatch d transaction with ⟨b', result⟩
    have hbooks : ∀ {c : Broker}, b'.books = c → Calm c → Calm b' :=
      fun heq hc ref => by rw [← cache_books, heq]; exact hc ref
    rcases dispatch_staged hd hdispatch with ⟨-, -, -, c, hpersist, heq⟩ |
      ⟨-, -, -, -, -, -, -, heq, -⟩ | ⟨-, m, -, -, -, heq⟩
    · exact hbooks heq (calm_promoted (b := b.books) hb hpersist)
    · exact hbooks heq hb
    · exact hbooks heq (calm_dropped (b := b.books) hb none [(h, false)] m)

theorem calm_rollbackDelivery (hb : Calm b) (d : Delivery) : Calm (b.rollbackDelivery d) := by
  unfold rollbackDelivery
  split
  · exact calm_rollbackStage hb _
  · exact hb

theorem calm_openOfficeCache (hb : Calm b) (n : Nat) (a : Address) :
    Calm (b.openOfficeCache n a) := calm_openCache hb _ _ _

/-! ## Loading -/

theorem calm_loadCaches (hb : Calm b) (n capacity : Nat) : Calm (b.load n capacity).1 :=
  LoadingKeeps.load
    { reads := fun _ _ _ _ _ hc => hc
      prunes := fun _ _ hc => hc
      opens := fun _ _ hc => calm_openCache hc _ _ _
      fills := fun _ _ rs hc => calm_setCache hc _ (Cache.calm_load (hc _) rs) } hb

theorem untouched_load (b : Broker) (n capacity : Nat) :
    (b.load n capacity).1.transactions = b.transactions ∧
      (b.load n capacity).1.fixtures = b.fixtures := by
  have hopen : ∀ (c : Broker) (a : Address),
      (c.openCache (.office n a) a capacity).transactions = c.transactions ∧
        (c.openCache (.office n a) a capacity).fixtures = c.fixtures := fun c a => by
    unfold openCache
    split <;> exact ⟨rfl, rfl⟩
  exact LoadingKeeps.load (P := fun c => c.transactions = b.transactions ∧ c.fixtures = b.fixtures)
    { reads := fun _ _ _ _ _ hc => ⟨hc.1, (fixtures_log rfl).trans hc.2⟩
      prunes := fun _ _ hc => ⟨hc.1, (fixtures_write ..).trans hc.2⟩
      opens := fun c a hc => ⟨(hopen c a).1.trans hc.1, (hopen c a).2.trans hc.2⟩
      fills := fun _ _ _ hc => hc } ⟨rfl, rfl⟩

/-! ## Traffic -/

/-- A relation of a broker to what becomes of it that is kept by all that requests are made of,
unless a send draws a number or a call that had to wait is answered. -/
structure TrafficKeeps (R : Broker → Broker → Prop) : Prop where
  refl : ∀ b, R b b
  trans : ∀ {b₁ b₂ b₃}, R b₁ b₂ → R b₂ b₃ → R b₁ b₃
  /-- Transactions, desks and answers are left alone, and calm caches are calm again. -/
  still : ∀ {b b'}, b'.transactions = b.transactions → b'.fixtures = b.fixtures →
    (Calm b → Calm b') → R b b'
  asks : ∀ b desk qs, R b (b.setRegistry desk ((b.deskAt desk).registry.after qs))
  branches : ∀ b desk t, R b (b.setBranches desk t)
  begins : ∀ b t, t.operations = [] → R b (b.addTransaction t)
  /-- An operation that is registered has placed nothing. -/
  registers : ∀ b n op, (∀ d ∈ op.delivery?, d.accepted = []) →
    R b (b.modifyTransaction n fun t => { t with operations := t.operations ++ [op] })
  marks : ∀ b n reason, R b (b.markRollbackOnly n reason)
  prepares : ∀ b n, R b (b.prepare n).1
  commits : ∀ b n, R b (b.commit n).1
  rollsBack : ∀ b n, R b (b.rollback n).1

namespace TrafficKeeps

variable {R : Broker → Broker → Prop}

/-- Writing to the trace or to the journal, or changing who waits, leaves nearly everything
alone. -/
theorem idle (h : TrafficKeeps R) (htransactions : b'.transactions = b.transactions)
    (hfixtures : b'.fixtures = b.fixtures) (hcaches : b'.caches = b.caches) : R b b' :=
  h.still htransactions hfixtures fun hb => hb.of_cache (cache_of_caches hcaches)

theorem notify (h : TrafficKeeps R) (b : Broker) (n : Nat) (what : Notification) :
    R b (b.notify n what) := h.idle rfl (fixtures_notify ..) rfl

theorem ask (h : TrafficKeeps R) (b : Broker) (desk : Option Nat) (q : Registry.Request) :
    R b (b.setRegistry desk ((b.deskAt desk).registry.ask q).1) := h.asks b desk [q]

/-! ### Branches -/

theorem takeBranch (h : TrafficKeeps R) (b : Broker) (desk : Option Nat) (x : Xid) :
    R b (b.takeBranch desk x).1 := by
  unfold Broker.takeBranch
  split
  · exact h.refl b
  · exact h.branches ..

theorem prepareBranch (h : TrafficKeeps R) (b : Broker) (desk : Option Nat) (n : Nat) :
    R b (b.prepareBranch desk n).1 := by
  have hprepare := h.prepares b n
  unfold Broker.prepareBranch
  split
  · rename_i heq
    rw [heq] at hprepare
    exact hprepare
  · rename_i heq
    rw [heq] at hprepare
    split
    · exact hprepare
    · exact h.trans hprepare (h.branches ..)

theorem commitBranch (h : TrafficKeeps R) (b : Broker) (desk : Option Nat) (x : Xid) :
    R b (b.commitBranch desk x).1 := by
  have htake := h.takeBranch b desk x
  unfold Broker.commitBranch
  split
  · rename_i heq
    rw [heq] at htake
    exact htake
  · rename_i heq
    rw [heq] at htake
    exact h.trans htake (h.commits ..)

theorem rollbackBranch (h : TrafficKeeps R) (b : Broker) (desk : Option Nat) (x : Xid) :
    R b (b.rollbackBranch desk x).1 := by
  have htake := h.takeBranch b desk x
  unfold Broker.rollbackBranch
  split
  · rename_i heq
    rw [heq] at htake
    exact htake
  · rename_i heq
    rw [heq] at htake
    exact h.trans htake (h.rollsBack ..)

/-! ### Routing calls -/

theorem addOperation (h : TrafficKeeps R) (b : Broker) (n : Nat) {op : Operation}
    (hop : ∀ d ∈ op.delivery?, d.accepted = []) : R b (b.addOperation n op).1 := by
  unfold Broker.addOperation Transaction.addOperation
  cases (b.transaction n).require n [.active] .addOperation with
  | error refusal => exact h.refl b
  | ok _ =>
    have hregisters := h.registers b n op hop
    rwa [← modifyTransaction_const] at hregisters

theorem dispatch (h : TrafficKeeps R) (b : Broker) (d : Delivery) (transaction : Option Nat) :
    R b (b.dispatch d transaction).1 := by
  cases transaction with
  | none =>
    exact h.still (transactions_deliver b d) (fixtures_deliver b d)
      fun hb => calm_dispatch hb d none
  | some n =>
    have hnew : ∀ d' ∈ (Operation.delivery { delivery := d }).delivery?, d'.accepted = [] :=
      fun d' hd' => by
        cases hd'
        rfl
    have hadd := h.addOperation b n hnew
    simp only [Broker.dispatch]
    split
    · rename_i heq
      rw [heq] at hadd
      exact hadd
    · rename_i heq
      rw [heq] at hadd
      exact h.trans hadd (h.still (transactions_rollbackDelivery ..)
        (deliveringKeeps_fixtures.rollbackDelivery ..)
        fun hc => calm_rollbackDelivery hc d)

/-- Attempts of calls keep what traffic keeps. -/
theorem attempts (h : TrafficKeeps R) : AttemptsKeep R where
  trans := h.trans
  stages _ _ _ _ := h.still (transactions_attemptStage ..)
    (deliveringKeeps_fixtures.attemptStage ..) fun hb => calm_attemptStage hb _ _ _
  notifies := h.notify
  dispatches := h.dispatch

theorem submitCall (h : TrafficKeeps R) (b : Broker) (call : Call) : R b (b.submitCall call).1 := by
  have hattempt := h.attempts.attempt b call
  unfold Broker.submitCall
  split
  · rename_i heq
    rw [heq] at hattempt
    exact hattempt
  · rename_i heq
    rw [heq] at hattempt
    exact h.trans hattempt (h.idle rfl rfl rfl)

theorem collect (h : TrafficKeeps R) (b : Broker) (n : Nat) (m : Message) :
    R b (b.collect n m).1 := h.ask b (some n) (.bindingsFor m.address true)

theorem routeUnstaged (h : TrafficKeeps R) (b : Broker) (n : Nat) (m : Message)
    (transaction : Option Nat) (acceptedDuplicate : Bool) :
    R b (b.routeUnstaged n m transaction acceptedDuplicate).1 := by
  have hcollect := h.collect b n m
  unfold Broker.routeUnstaged
  split
  · rename_i heq
    rw [heq] at hcollect
    exact hcollect
  · rename_i heq
    rw [heq] at hcollect
    exact h.trans hcollect (h.attempts.finish ..)

/-- A send that is rejected, or that stages nothing, draws no number. -/
theorem routeDuplicate (h : TrafficKeeps R) (b : Broker) (n : Nat) (m : Message) (id : Bytes)
    (transaction : Option Nat) (rejectDuplicates : Bool) :
    R b (b.routeDuplicate n m id transaction rejectDuplicates).1 := by
  unfold Broker.routeDuplicate
  split
  · exact h.notify ..
  · exact h.routeUnstaged ..

theorem openOfficeCache (h : TrafficKeeps R) (b : Broker) (n : Nat) (a : Address) :
    R b (b.openOfficeCache n a) :=
  h.still (transactions_openOfficeCache ..) (fixtures_openOfficeCache ..)
    fun hb => calm_openOfficeCache hb n a

theorem reroute (h : TrafficKeeps R) (b : Broker) (n : Nat) (m : Message) (binding : String)
    (transaction : Option Nat) : R b (b.reroute n m binding transaction).1 := by
  unfold Broker.reroute
  split
  · exact h.refl b
  · split
    · exact h.refl b
    · exact h.attempts.finish ..

theorem redistribute (h : TrafficKeeps R) (b : Broker) (n : Nat) (m : Message) (binding : String)
    (transaction : Option Nat) : R b (b.redistribute n m binding transaction).1 := by
  unfold Broker.redistribute
  split
  · exact h.refl b
  · dsimp only
    split
    · exact h.refl b
    · split
      · exact h.refl b
      · rename_i delivery _
        have hdispatch := h.dispatch b delivery transaction
        split
        · rename_i heq
          rw [heq] at hdispatch
          exact hdispatch
        · rename_i heq
          rw [heq] at hdispatch
          exact hdispatch

/-! ### Bindings -/

theorem bind (h : TrafficKeeps R) (b : Broker) (desk : Option Nat) (binding : Binding) :
    R b (b.bind desk binding).1 := by
  have hopen : R b (b.openMailbox binding.queue) := h.idle rfl rfl rfl
  have hask := h.ask (b.openMailbox binding.queue) desk (.add binding)
  unfold Broker.bind
  dsimp only
  split
  · exact hopen
  · rename_i r added heq
    have hset := h.trans hopen (by simpa [Registry.ask, heq] using hask)
    cases desk with
    | none => exact hset
    | some n => exact h.trans hset (h.notify ..)

theorem unbind (h : TrafficKeeps R) (b : Broker) (desk : Option Nat) (name : String) :
    R b (b.unbind desk name).1 := by
  have hask := h.ask b desk (.remove name)
  unfold Broker.unbind
  split
  · exact h.refl b
  · rename_i r removed heq
    have hset : R b (b.setRegistry desk r) := by simpa [Registry.ask, heq] using hask
    cases desk with
    | none => exact hset
    | some n => exact h.trans hset (h.notify ..)

/-! ### Writers -/

theorem write (h : TrafficKeeps R) (b : Broker) (caller : JournalCaller) (e : Entry) :
    R b (b.write caller e).1 := h.idle rfl (fixtures_write ..) rfl

theorem writeNext (h : TrafficKeeps R) (b : Broker) (n : Nat) : R b (b.writeNext n) :=
  h.idle (transactions_writeNext ..) (fixtures_writeNext ..)
    (caches_writeNext ..)

theorem writeSome (h : TrafficKeeps R) (b : Broker) (n k : Nat) : R b (b.writeSome n k) := by
  induction k generalizing b with
  | zero => exact h.refl b
  | succ k ih => exact h.trans (h.writeNext b n) (ih _)

theorem flushAll (h : TrafficKeeps R) (b : Broker) : R b b.flushAll :=
  List.foldlRecOn (motive := R b) _ flush (h.refl b)
    fun _ hc _ _ => h.trans hc (h.writeSome ..)

/-! ### Requests -/

/-- Sends, and resumptions, may draw a number or answer a call; no other request of traffic
does. -/
theorem perform (h : TrafficKeeps R) (b : Broker) {c : Command} (htraffic : c.isTraffic = true)
    (hc : c.isOutward = false) : R b (b.perform c).1 := by
  cases c with
  | setMailbox queue mode => exact h.idle rfl rfl rfl
  | bind desk binding => exact h.bind ..
  | unbind desk name => exact h.unbind ..
  | resolve desk address create => exact h.ask b desk (.bindingsFor address create)
  | resolveAll desk addresses =>
    have hasks := h.asks b desk (addresses.map (.bindingsFor · true))
    rwa [← Registry.resolveAll_eq_after] at hasks
  | openCache office address => exact h.openOfficeCache ..
  | writeNext office => exact h.writeNext ..
  | flush office => exact h.writeSome ..
  | flushAll => exact h.flushAll b
  | reroute office message binding transaction => exact h.reroute ..
  | redistribute office message binding transaction =>
    have hredistribute := h.redistribute b office message binding transaction
    simp only [Broker.perform]
    split <;> simpa [*] using hredistribute
  | defer =>
    obtain ⟨calls, -, hdefer⟩ := defer_perm b
    rw [Broker.perform, hdefer]
    exact h.idle rfl rfl rfl
  | begin xid => exact h.begins b _ rfl
  | addHook transaction hook =>
    refine h.addOperation b transaction ?_
    intro d hd
    cases hd
  | mark transaction reason => exact h.marks ..
  | prepare transaction => exact h.prepares ..
  | commit transaction => exact h.commits ..
  | rollback transaction => exact h.rollsBack ..
  | prepareBranch desk transaction => exact h.prepareBranch ..
  | commitBranch desk xid => exact h.commitBranch ..
  | rollbackBranch desk xid => exact h.rollbackBranch ..
  | route | resume | settle => cases hc
  | _ => cases htraffic

end TrafficKeeps

/-! ## Runs -/

/-- A relation that is kept by all that requests are made of. -/
structure RequestsKeep (R : Broker → Broker → Prop) : Prop extends TrafficKeeps R where
  draws : ∀ b n, R b (b.modifyOffice n fun o => { o with nextOwner := o.nextOwner + 1 })
  answers : ∀ b ticket answer, R b (b.log (.answered ticket answer))
  /-- A post office begins with an empty desk and has numbered no sends. -/
  opens : ∀ b o, o.desk = {} → o.nextOwner = 1 → R b { b with offices := b.offices ++ [o] }

namespace RequestsKeep

variable {R : Broker → Broker → Prop}

/-! ### Sends and resumptions -/

theorem resume (h : RequestsKeep R) (b : Broker) : R b b.resume := by
  unfold Broker.resume
  split
  · exact h.refl b
  · rename_i call rest _
    have htaken : R b { b with ready := rest } := h.idle rfl rfl rfl
    have hsubmit := h.trans htaken (h.submitCall { b with ready := rest } call)
    split
    · rename_i heq
      rw [heq] at hsubmit
      exact h.trans hsubmit (h.answers ..)
    · rename_i heq
      rw [heq] at hsubmit
      exact hsubmit

theorem resumeSome (h : RequestsKeep R) (b : Broker) (k : Nat) : R b (b.resumeSome k) := by
  induction k generalizing b with
  | zero => exact h.refl b
  | succ k ih =>
    unfold Broker.resumeSome
    split
    · exact h.refl b
    · exact h.trans (h.resume b) (ih _)

theorem drawOwner (h : RequestsKeep R) (b : Broker) (n : Nat) (transaction : Option Nat) :
    R b (b.drawOwner n transaction).1 := by
  cases transaction with
  | none => exact h.draws b n
  | some t => exact h.refl b

theorem routeStaged (h : RequestsKeep R) (b : Broker) (n ticket : Nat) (m : Message) (id : Bytes)
    (transaction : Option Nat) (rejectDuplicates : Bool) :
    R b (b.routeStaged n ticket m id transaction rejectDuplicates).1 := by
  have hcollect := h.collect b n m
  unfold Broker.routeStaged
  split
  · rename_i heq
    rw [heq] at hcollect
    exact hcollect
  · rename_i heq
    rw [heq] at hcollect
    exact h.trans (h.trans hcollect (h.drawOwner ..)) (h.submitCall ..)

theorem route (h : RequestsKeep R) (b : Broker) (n ticket : Nat) (m : Message)
    (transaction : Option Nat) (rejectDuplicates : Bool) :
    R b (b.route n ticket m transaction rejectDuplicates).1 := by
  unfold Broker.route
  split
  · exact h.routeUnstaged ..
  · refine h.trans (h.openOfficeCache b n m.address) ?_
    dsimp only
    split
    · exact h.routeDuplicate ..
    · exact h.routeStaged ..

/-! ### Openings -/

theorem recoverRecord (h : RequestsKeep R) (n t : Nat) (b : Broker) (r : Record) :
    R b (recoverRecord n t b r) := by
  have hopen := h.openOfficeCache b n r.address
  unfold Broker.recoverRecord
  generalize b.openOfficeCache n r.address = c at hopen
  have hset : R c (c.setCache (.office n r.address)
      ((c.cache (.office n r.address)).recover r (.transaction t)).2) :=
    h.still rfl rfl fun hb => calm_setCache hb _ (Cache.calm_recover (hb _) r _)
  refine h.trans (h.trans hopen hset) (h.registers _ t _ fun d hd => ?_)
  cases hd
  rfl

theorem recoverBranch (h : RequestsKeep R) (n : Nat) (b : Broker) (branch : Xid × List Record) :
    R b (recoverBranch n b branch) := by
  have hbegun := h.begins b { xid := some branch.1, state := .prepared } rfl
  unfold Broker.recoverBranch
  generalize b.addTransaction { xid := some branch.1, state := .prepared } = c at hbegun
  have hrecords := List.foldlRecOn (motive := R b) branch.2
    (Broker.recoverRecord n c.lastTransaction) hbegun
    fun _ hd _ _ => h.trans hd (h.recoverRecord ..)
  exact h.trans hrecords (h.branches ..)

theorem start (h : RequestsKeep R) (b : Broker) (s : Settings) : R b (b.start s).1 := by
  unfold Broker.start
  split
  · have huntouched := b.untouched_load b.offices.length s.idCacheCapacity
    have hcalm := fun hb : Calm b => calm_loadCaches hb b.offices.length s.idCacheCapacity
    unfold openPersistent
    dsimp only
    split
    · -- The caches that have been filled by then are given up.
      rename_i heq
      rw [heq] at huntouched
      exact h.idle huntouched.1 huntouched.2 rfl
    · rename_i c prepared heq
      rw [heq] at huntouched hcalm
      have hload : R b c := h.still huntouched.1 huntouched.2 hcalm
      exact List.foldlRecOn (motive := R b) _ _ (h.trans hload (h.opens c _ rfl rfl))
        fun _ hd _ _ => h.trans hd (h.recoverBranch ..)
  · exact h.opens b _ rfl rfl

/-! ### Requests -/

/-- What the things keep that requests are made of, every request keeps. -/
theorem perform (h : RequestsKeep R) (b : Broker) (c : Command) : R b (b.perform c).1 := by
  cases c with
  | newCache address capacity =>
    exact h.still rfl rfl fun hb => calm_setCache hb _ (Cache.calm_empty ..)
  | openCache office address => exact h.openOfficeCache ..
  | stage ticket cache duplicateId owner => exact h.submitCall ..
  | commitStage held =>
    exact h.still (transactions_commitStage ..) (deliveringKeeps_fixtures.commitStage ..)
      fun hb => calm_commitStage hb held
  | rollbackStage held =>
    exact h.still (transactions_rollbackStage ..) (deliveringKeeps_fixtures.rollbackStage ..)
      fun hb => calm_rollbackStage hb held
  | openPlain settings =>
    simp only [Broker.perform]
    split
    · exact h.opens b _ rfl rfl
    · exact h.refl b
  | start settings =>
    have hstart := h.start b settings
    simp only [Broker.perform]
    split
    · split <;> simpa [*] using hstart
    · exact h.refl b
  | writeNext office => exact h.writeNext ..
  | flush office => exact h.writeSome ..
  | stop office =>
    exact h.trans (h.writeSome ..)
      (h.idle rfl (fixtures_modifyOffice _ office fun _ => ⟨rfl, rfl⟩) rfl)
  | route office ticket message transaction rejectDuplicates => exact h.route ..
  | resume => exact h.resume b
  | settle => exact h.resumeSome ..
  | write entry => exact h.write ..
  | openFile =>
    simp only [Broker.perform]
    split <;> exact h.idle rfl rfl rfl
  | compact =>
    simp only [Broker.perform]
    split <;> exact h.idle rfl rfl rfl
  | failing | replaceFile | cutFile | blockCompaction => exact h.idle rfl rfl rfl
  | _ => exact h.toTrafficKeeps.perform b rfl rfl

/-- What every request keeps, every run keeps. -/
theorem run (h : RequestsKeep R) (b : Broker) (cs : List Command) : R b (b.run cs) :=
  List.foldlRecOn (motive := R b) cs _ (h.refl b) fun _ hc _ _ => h.trans hc (h.perform ..)

end RequestsKeep

end Broker

end MessageRouting
