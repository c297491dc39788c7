import Mathlib.Data.List.Nodup
import MessageRouting.Proofs.Routing.UnitsOfWork
import MessageRouting.Proofs.Transaction.RollbackOnly

/-!
# Where every stage is

As long as identifiers are staged by sends and transactions alone, none is lost
track of: between any two requests an identifier is pending just as long as one
operation, of one transaction that has not been completed, carries its stage. A
transaction that is committed or rolled back, a send that it refuses, one that
fails, and one that was granted its stage too late leave nothing behind.

Results:

* `accounted_perform`: every request keeps account of all stages.
* `stages_accounted`: what is pending is what is carried, after every run.
-/

namespace MessageRouting

/-! ## Requests -/

/-- The requests that are made of the journal itself, and the end of a writer. -/
def Command.isUpkeep : Command → Bool
  | .stop _ => true
  | .write _ => true
  | .failing _ => true
  | .replaceFile _ => true
  | .openFile => true
  | .cutFile _ => true
  | .blockCompaction => true
  | .compact => true
  | _ => false

/-! ## Operations and stages -/

/-- The stage that completes with an operation. -/
def Operation.stage? : Operation → Option HeldStage
  | .delivery d => d.delivery.stage
  | .hook _ => none

/-- The stages of a transaction are those that its operations carry. -/
theorem Transaction.stages_operations (t : Transaction) :
    t.outline.stages = t.operations.filterMap Operation.stage? := by
  simp only [outline, Outline.stages, slots, List.filterMap_map, List.map_filterMap]
  refine congrArg (fun f => List.filterMap f t.operations) (funext fun op => ?_)
  cases op with
  | hook h => rfl
  | delivery d => cases hd : d.delivery.stage <;> simp [Operation.held?, Operation.stage?, hd]

/-- If all values are different, a value is found at one place only. -/
theorem index_eq_of_nodup {α β : Type} {f : α → Option β} {l : List α}
    (h : (l.filterMap f).Nodup) {i j : Nat} {x : β} (hi : l[i]?.bind f = some x)
    (hj : l[j]?.bind f = some x) : i = j := by
  have hapart := List.pairwise_iff_getElem.1 (List.pairwise_filterMap.1 h)
  obtain ⟨u, hu, hux⟩ := Option.bind_eq_some_iff.1 hi
  obtain ⟨v, hv, hvx⟩ := Option.bind_eq_some_iff.1 hj
  obtain ⟨hil, rfl⟩ := List.getElem?_eq_some_iff.1 hu
  obtain ⟨hjl, rfl⟩ := List.getElem?_eq_some_iff.1 hv
  rcases Nat.lt_trichotomy i j with hlt | heq | hgt
  · exact absurd rfl (hapart i j hil hjl hlt x hux x hvx)
  · exact heq
  · exact absurd rfl (hapart j i hjl hil hgt x hvx x hux)

namespace Broker

variable {b b' : Broker}

/-! ## Keeping account -/

/-- Between two requests every stage that is pending is with the transaction that owns it, and every
stage of a transaction that has not been completed is pending, no two of them at one place. -/
structure Accounted (b : Broker) : Prop where
  proper : Proper Call.Routes b
  atOffice : b.view.Local
  unkeyed : Unkeyed b.books
  custody : Custody noFloor b.view
  owned : Owned b.view

theorem accounted_opened {s : Settings} (h : Opened s b) : Accounted b := by
  have hopened := untouched_opened h
  have hfair := fair_untouched hopened
  refine ⟨⟨hopened.single, fun c hc => ?_⟩, hfair.guarded.atOffice, hfair.guarded.unkeyed,
    hfair.guarded.custody, hfair.owned⟩
  rw [hopened.waiting, hopened.ready] at hc
  cases hc

/-- Account is kept of caches, transactions and calls, and of nothing else. -/
theorem Accounted.of_same (h : Accounted b) (hcaches : b'.caches = b.caches)
    (htransactions : b'.transactions = b.transactions)
    (hcalls : b'.waiting ++ b'.ready = b.waiting ++ b.ready)
    (hoffices : b'.offices.length = b.offices.length) : Accounted b' := by
  have hcache : ∀ ref, b'.books.cache ref = b.books.cache ref := fun ref => by
    rw [cache_books, cache_books, cache_of_caches hcaches]
  have houtlines : b'.view.outlines = b.view.outlines := outlines_of_transactions htransactions
  have hopen : ∀ t, b'.books.Open t ↔ b.books.Open t := fun t => by rw [Open, Open, hcache]
  have hstages : b'.view.stages = b.view.stages := by
    rw [View.stages, View.stages, houtlines]
    rfl
  have hlive : b'.view.live = b.view.live := by
    rw [View.live, View.live, houtlines]
    rfl
  refine ⟨⟨hoffices.trans h.proper.single, ?_⟩, ⟨?_, ?_⟩, h.unkeyed.of_cache hcache, ?_, ?_⟩
  · rw [hcalls]
    exact h.proper.calls
  · intro a c hc
    replace hc : b'.caches.get? (.office 0 a) = some c := hc
    rw [hcaches] at hc
    exact h.atOffice.addressed a c hc
  · rw [houtlines]
    exact h.atOffice.atOffice
  · refine custody_of_open h.custody (fun ref => ?_) (fun t => (hopen t).2) ?_ ?_
    · exact Nat.le_of_eq (congrArg Cache.nextSequence (hcache ref).symm)
    · rw [hstages]
    · rw [hlive]
      exact fun _ ht => ht
  · intro t ht
    rw [houtlines]
    exact h.owned t ((hopen t).1 ht)

theorem accounted_writeSome (h : Accounted b) (n k : Nat) : Accounted (b.writeSome n k) := by
  induction k generalizing b with
  | zero => exact h
  | succ k ih =>
    have hsteady := congrArg List.length (steady_writeNext b n).stations
    simp only [stations, List.length_map] at hsteady
    refine ih (h.of_same (caches_writeNext ..) (transactions_writeNext ..) ?_ hsteady)
    unfold writeNext
    split <;> rfl

theorem accounted_upkeep {c : Command} (hc : c.isUpkeep = true) (h : Accounted b) :
    Accounted (b.perform c).1 := by
  cases c with
  | stop n =>
    refine (accounted_writeSome h n _).of_same rfl rfl rfl ?_
    exact List.length_modify ..
  | write e => exact h.of_same rfl rfl rfl rfl
  | failing methods => exact h.of_same rfl rfl rfl rfl
  | replaceFile place => exact h.of_same rfl rfl rfl rfl
  | openFile =>
    simp only [perform]
    split <;> exact h.of_same rfl rfl rfl rfl
  | cutFile keep => exact h.of_same rfl rfl rfl rfl
  | blockCompaction => exact h.of_same rfl rfl rfl rfl
  | compact =>
    simp only [perform]
    split <;> exact h.of_same rfl rfl rfl rfl
  | _ => cases hc

theorem accounted_traffic {c : Command} (hc : c.isTraffic = true) (h : Accounted b) :
    Accounted (b.perform c).1 := by
  have hmoves : Moves Call.Routes b.view (b.perform c).1.view :=
    moves_perform (fun _ h => h) hc h.proper fun _ h => routes_of_submits h
  obtain ⟨hlocal, hunkeyed, hcustody⟩ :=
    custody_moves hmoves h.atOffice h.unkeyed h.custody
  refine ⟨proper_of_moves h.proper hmoves, hlocal, hunkeyed, hcustody, ?_⟩
  have howned : ∀ {v : View}, Moves Call.Routes b.view v → Owned v := fun hv => by
    induction hv with
    | refl => exact h.owned
    | tail _ hmove ih => exact owned_move hmove ih
  exact howned hmoves

/-- Every request keeps account of all stages. -/
theorem accounted_perform {c : Command} (hc : c.isTraffic = true ∨ c.isUpkeep = true)
    (h : Accounted b) : Accounted (b.perform c).1 :=
  hc.elim (fun hc => accounted_traffic hc h) fun hc => accounted_upkeep hc h

theorem accounted_run {cs : List Command}
    (hcs : ∀ c ∈ cs, c.isTraffic = true ∨ c.isUpkeep = true) (h : Accounted b) :
    Accounted (b.run cs) := by
  induction cs generalizing b with
  | nil => exact h
  | cons c rest ih =>
    exact ih (fun d hd => hcs d (by simp [hd])) (accounted_perform (hcs c (by simp)) h)

/-! ## Who carries what -/

/-- The operation at an index of a transaction carries the stage. -/
def Carries (b : Broker) (n i : Nat) (h : HeldStage) : Prop :=
  (b.transaction n).operations[i]?.bind Operation.stage? = some h

instance (b : Broker) (n i : Nat) (h : HeldStage) : Decidable (b.Carries n i h) :=
  inferInstanceAs (Decidable (_ = _))

/-- The transaction has not been completed. -/
def Live (b : Broker) (n : Nat) : Prop :=
  (b.transaction n).state = .active ∨ (b.transaction n).state = .prepared

variable {n m i j : Nat} {h : HeldStage}

/-- A transaction that carries a stage is found by its outline. -/
theorem outline_of_carries (hc : b.Carries n i h) :
    ∃ k, n = k + 1 ∧ b.outlines[k]? = some (b.transaction n).outline ∧
      h ∈ (b.transaction n).outline.stages := by
  obtain ⟨op, hop, hstage⟩ := Option.bind_eq_some_iff.1 hc
  obtain ⟨hpos, hle⟩ := has_of_operation hop
  obtain ⟨k, rfl⟩ := Nat.exists_eq_add_one.2 hpos
  refine ⟨k, rfl, by rw [outline_transaction, if_pos (by omega)], ?_⟩
  rw [Transaction.stages_operations]
  exact List.mem_filterMap.2 ⟨op, List.mem_of_getElem? hop, hstage⟩

theorem Accounted.nodup (hb : Accounted b) : (b.outlines.flatMap Outline.stages).Nodup :=
  (apart_noFloor hb.custody.apart).of_map

/-- No stage is with two transactions. -/
theorem Accounted.index_eq (hb : Accounted b) {k l : Nat} {o p : Outline}
    (ho : b.outlines[k]? = some o) (hp : b.outlines[l]? = some p) (hh : h ∈ o.stages)
    (hg : h ∈ p.stages) : k = l := by
  have hapart := List.pairwise_iff_getElem.1 (List.nodup_flatMap.1 hb.nodup).2
  obtain ⟨hk, rfl⟩ := List.getElem?_eq_some_iff.1 ho
  obtain ⟨hl, rfl⟩ := List.getElem?_eq_some_iff.1 hp
  rcases Nat.lt_trichotomy k l with hlt | heq | hgt
  · exact absurd hg (hapart k l hk hl hlt hh)
  · exact heq
  · exact absurd hh (hapart l k hl hk hgt hg)

/-- No stage is carried twice, not even by one transaction. -/
theorem Accounted.unique (hb : Accounted b) (hc : b.Carries n i h) (hc' : b.Carries m j h) :
    m = n ∧ j = i := by
  obtain ⟨k, rfl, ho, hh⟩ := outline_of_carries hc
  obtain ⟨l, rfl, hp, hg⟩ := outline_of_carries hc'
  obtain rfl := hb.index_eq ho hp hh hg
  refine ⟨rfl, index_eq_of_nodup ?_ hc' hc⟩
  rw [← Transaction.stages_operations]
  exact (List.nodup_flatMap.1 hb.nodup).1 _ (List.mem_of_getElem? ho)

theorem isLive_iff : (b.transaction n).outline.isLive = true ↔ b.Live n := by
  simp [Outline.isLive, Transaction.outline, Live]

/-- What a transaction carries that has not been completed is pending for it. -/
theorem Accounted.carried (hb : Accounted b) (hlive : b.Live n) (hc : b.Carries n i h) :
    b.Open h ∧ h.staged.owner = .transaction n := by
  obtain ⟨k, rfl, ho, hh⟩ := outline_of_carries hc
  have hopen : b.Open h := by
    apply hb.custody.kept h _ (above_noFloor h)
    exact List.mem_flatMap.2
      ⟨_, List.mem_filter.2 ⟨List.mem_of_getElem? ho, isLive_iff.2 hlive⟩, hh⟩
  refine ⟨hopen, ?_⟩
  rcases hb.owned h hopen with hloose | ⟨l, p, hp, -, hg, howner⟩
  · cases hloose
  · obtain rfl := hb.index_eq ho hp hh hg
    exact howner

/-- What is pending is carried by a transaction that has not been completed. -/
theorem Accounted.carrier (hb : Accounted b) {ref : CacheRef} {id : Bytes} {q : Pending}
    (hq : (b.cache ref).pending.get? id = some q) :
    ∃ n i, q.owner = .transaction n ∧ b.Live n ∧
      b.Carries n i ⟨ref, ⟨(b.cache ref).address, id, q.sequence, q.owner⟩⟩ := by
  have hopen : b.Open ⟨ref, ⟨(b.cache ref).address, id, q.sequence, q.owner⟩⟩ :=
    ⟨rfl, q.commitKey, hq⟩
  rcases hb.owned _ hopen with hloose | ⟨k, o, ho, hlive, hmem, howner⟩
  · cases hloose
  · obtain rfl := eq_of_outline ho
    rw [Transaction.stages_operations] at hmem
    obtain ⟨op, hop, hstage⟩ := List.mem_filterMap.1 hmem
    obtain ⟨i, hi⟩ := List.mem_iff_getElem?.1 hop
    refine ⟨k + 1, i, howner, isLive_iff.1 hlive, ?_⟩
    rw [Carries, hi]
    exact hstage

/-! ## What holds after every run -/

/-- All stages are accounted for. -/
structure Accountable (b : Broker) : Prop where
  /-- An identifier that is pending is owned by a transaction that has not been completed, and one
  operation carries the stage, which is one of that transaction. -/
  pending : ∀ ref id q, (b.cache ref).pending.get? id = some q →
    ∃ n i, q.owner = .transaction n ∧ b.Live n ∧
      ∀ m j, b.Carries m j ⟨ref, ⟨(b.cache ref).address, id, q.sequence, q.owner⟩⟩ ↔
        m = n ∧ j = i
  /-- Every stage that such a transaction carries is pending, for that transaction. -/
  carried : ∀ n i h, b.Live n → b.Carries n i h → b.Open h ∧ h.staged.owner = .transaction n
  /-- Nobody has to wait for an identifier that no such transaction carries. -/
  free : ∀ ref id owner,
    (∀ n i h, b.Live n → b.Carries n i h → h.cache = ref → h.staged.duplicateId ≠ id) →
      (b.attemptStage ref id owner).2 ≠ none

theorem Accounted.accountable (hb : Accounted b) : Accountable b := by
  refine ⟨fun ref id q hq => ?_, fun n i h => hb.carried, fun ref id owner hnone => ?_⟩
  · obtain ⟨n, i, howner, hlive, hc⟩ := hb.carrier hq
    refine ⟨n, i, howner, hlive, fun m j => ⟨hb.unique hc, ?_⟩⟩
    rintro ⟨rfl, rfl⟩
    exact hc
  · have hfree : (b.cache ref).pending.get? id = none := by
      refine Option.eq_none_iff_forall_ne_some.2 fun q hq => ?_
      obtain ⟨n, i, -, hlive, hc⟩ := hb.carrier hq
      exact hnone n i _ hlive hc rfl rfl
    rw [attemptStage_outcome, Cache.attempt, hfree]
    split
    · simp
    · split <;> simp

/-- A post office that keeps nothing in the journal, or found it empty: whatever is asked of it, of
its transactions and of the journal, all stages are accounted for. -/
theorem stages_accounted {s : Settings} (hb : Opened s b) {cs : List Command}
    (hcs : ∀ c ∈ cs, c.isTraffic = true ∨ c.isUpkeep = true) : Accountable (b.run cs) :=
  (accounted_run hcs (accounted_opened hb)).accountable

/-- A send in a transaction has to wait for the identifier of another. Its transaction is rolled
back and so is the other; it is granted the stage then, is refused, and somebody else can stage the
identifier. -/
def lateSend : List Command :=
  [.begin none, .begin none, .route 0 0 (messageTo "orders" 1) (some 1) true,
    .route 0 1 (messageTo "orders" 1) (some 2) true, .rollback 2, .rollback 1, .resume,
    .begin none, .route 0 2 (messageTo "orders" 1) (some 3) true]

theorem stages_accounted_lateSend :
    let b := (({} : Broker).openPlain oneIdentifier).1
    let b' := b.run lateSend
    (b.replies lateSend)[3]? = some .waiting ∧
      .granted ⟨.office 0 ⟨"orders"⟩, ⟨⟨"orders"⟩, [1], 2, .transaction 2⟩⟩ ∈ b'.trace ∧
      (b'.transaction 2).operations = [] ∧
      b'.Carries 3 0 ⟨.office 0 ⟨"orders"⟩, ⟨⟨"orders"⟩, [1], 3, .transaction 3⟩⟩ ∧
      b'.Open ⟨.office 0 ⟨"orders"⟩, ⟨⟨"orders"⟩, [1], 3, .transaction 3⟩⟩ ∧ Accountable b' := by
  intro b b'
  have hcs : ∀ c ∈ lateSend, c.isTraffic = true ∨ c.isUpkeep = true := by decide
  have haccountable : Accountable b' := stages_accounted (.plain {} {}) hcs
  have hcarries : b'.Carries 3 0
      ⟨.office 0 ⟨"orders"⟩, ⟨⟨"orders"⟩, [1], 3, .transaction 3⟩⟩ := by decide
  refine ⟨by decide, by decide, by decide, hcarries, ?_, haccountable⟩
  exact (haccountable.carried 3 0 _ (.inl (by decide)) hcarries).1

end Broker

end MessageRouting
