import MessageRouting.Proofs.Broker.MoveFrames
import MessageRouting.Proofs.Cache.Operations

/-!
# Steps of the books

A move deals with the stages of a send or a transaction one by one. Each time a
single cache changes by one of its own operations, or a journal write is made
or handed to the writer; these are the steps. What holds of every cache by
itself, and of the journal by itself, is proved step by step.

Results:

* `attemptStage_granted`, `persistStage_cases`, `commitStage_cases`,
  `rollbackStage_cases`: all that a step can do.
* `cache_step`: in a step a cache stays, is made, or changes by one operation.
* `steps_move`: a move is a chain of steps.
-/

namespace MessageRouting

open Relation (ReflTransGen)

/-- Whether the stage belongs to the cache of its address at the first post office. -/
def HeldStage.AtOffice (h : HeldStage) : Prop := h.cache = .office 0 h.staged.address

theorem HeldStage.AtOffice.address {h : HeldStage} (hh : h.AtOffice) {a : Address}
    (href : h.cache = .office 0 a) : h.staged.address = a := by
  rw [hh] at href
  injection href

theorem HeldStage.AtOffice.cache_ne {h : HeldStage} (hh : h.AtOffice) {a : Address}
    (ha : a ≠ h.staged.address) : h.cache ≠ .office 0 a :=
  fun href => ha (hh.address href).symm

namespace Broker

/-- The writes that the first post office's writer has been handed and has not made. -/
def queue (b : Broker) : List Entry := (b.office 0).writer.queue

theorem cache_of_caches {b b' : Broker} (h : b'.caches = b.caches) (ref : CacheRef) :
    b'.cache ref = b.cache ref := by rw [cache, h, cache]

theorem cache_of_get?_none {b : Broker} {ref : CacheRef} (h : b.caches.get? ref = none) :
    b.cache ref = Cache.absent := by
  rw [cache, h]
  rfl

theorem cache_of_get?_some {b : Broker} {ref : CacheRef} {c : Cache}
    (h : b.caches.get? ref = some c) : b.cache ref = c := by
  rw [cache, h]
  rfl

theorem caches_submitFor (b : Broker) (ref : CacheRef) (e : Entry) :
    (b.submitFor ref e).caches = b.caches := by
  cases ref <;> rfl

theorem caches_pruneEvicted (b : Broker) (ref : CacheRef) (a : Address)
    (evicted : List (Nat × Bytes)) :
    (evicted.foldl (fun b e => b.submitFor ref (.prune a e.1)) b).caches = b.caches := by
  induction evicted generalizing b with
  | nil => rfl
  | cons e rest ih => rw [List.foldl_cons, ih, caches_submitFor]

theorem caches_writeNext (b : Broker) (n : Nat) : (b.writeNext n).caches = b.caches := by
  unfold writeNext
  split <;> rfl

theorem caches_storePrepared (b : Broker) (x : Xid) (h : HeldStage) :
    (b.storePrepared x h).1.caches = b.caches := by
  unfold storePrepared
  split <;> rfl

theorem caches_release (b : Broker) (x : Option Xid) (h : HeldStage × Bool) :
    (b.release x h).caches = b.caches := by
  unfold release
  split
  · split
    · exact caches_submitFor ..
    · rfl
  · rfl

@[simp] theorem cache_log (b : Broker) (e : Event) (ref : CacheRef) :
    (b.log e).cache ref = b.cache ref := rfl

@[simp] theorem cache_wake (b : Broker) (ref ref' : CacheRef) :
    (b.wake ref).cache ref' = b.cache ref' := rfl

@[simp] theorem cache_write (b : Broker) (caller : JournalCaller) (e : Entry) (ref : CacheRef) :
    (b.write caller e).1.cache ref = b.cache ref := rfl

@[simp] theorem cache_submitFor (b : Broker) (ref : CacheRef) (e : Entry) (ref' : CacheRef) :
    (b.submitFor ref e).cache ref' = b.cache ref' := cache_of_caches (caches_submitFor ..) ref'

@[simp] theorem cache_pruneEvicted (b : Broker) (ref : CacheRef) (a : Address)
    (evicted : List (Nat × Bytes)) (ref' : CacheRef) :
    (evicted.foldl (fun b e => b.submitFor ref (.prune a e.1)) b).cache ref' = b.cache ref' :=
  cache_of_caches (caches_pruneEvicted ..) ref'

@[simp] theorem cache_writeNext (b : Broker) (n : Nat) (ref : CacheRef) :
    (b.writeNext n).cache ref = b.cache ref := cache_of_caches (caches_writeNext ..) ref

@[simp] theorem cache_storePrepared (b : Broker) (x : Xid) (h : HeldStage) (ref : CacheRef) :
    (b.storePrepared x h).1.cache ref = b.cache ref := cache_of_caches (caches_storePrepared ..) ref

@[simp] theorem cache_release (b : Broker) (x : Option Xid) (h : HeldStage × Bool)
    (ref : CacheRef) : (b.release x h).cache ref = b.cache ref :=
  cache_of_caches (caches_release ..) ref

/-! ## What a step does -/

theorem attemptStage_granted {b b' : Broker} {ref : CacheRef} {id : Bytes} {owner : Owner}
    {s : Staged} (h : b.attemptStage ref id owner = (b', some (.staged s))) :
    ∃ c, (b.cache ref).attempt id owner = (some (.staged s), c) ∧
      b' = (b.setCache ref c).log (.granted ⟨ref, s⟩) := by
  unfold attemptStage at h
  split at h
  · rename_i s' c hattempt
    cases h
    exact ⟨c, hattempt, rfl⟩
  · rename_i o c hnot hattempt
    simp only [Prod.mk.injEq] at h
    exact (hnot s h.2).elim

/-- Drawing a key changes nothing, or draws it and in mandatory mode writes the record. -/
theorem persistStage_cases {b b' : Broker} {h : HeldStage} {result : Except JournalError Unit}
    (hp : b.persistStage h = (b', result)) :
    ((b.cache h.cache).pendingOf? h.staged = none ∧ b' = b ∧ result = .ok ()) ∨
      ∃ key c, Cache.Drawn (b.cache h.cache) h.staged key c ∧
        ((b.persistenceOf h.cache = some .mandatory ∧
            (b.setCache h.cache c).write .inline (.add (h.staged.recordAt key)) = (b', result)) ∨
          (b.persistenceOf h.cache ≠ some .mandatory ∧ b' = b.setCache h.cache c ∧
            result = .ok ())) := by
  unfold persistStage at hp
  split at hp
  · rename_i c hdraw
    cases hp
    exact Or.inl ⟨(Cache.drawKey_none hdraw).1, rfl, rfl⟩
  · rename_i key c hdraw
    refine Or.inr ⟨key, c, Cache.drawKey_some hdraw, ?_⟩
    have hmode : (b.setCache h.cache c).persistenceOf h.cache = b.persistenceOf h.cache := by
      cases h.cache <;> rfl
    dsimp only at hp
    rw [hmode] at hp
    split at hp
    · rename_i heq
      exact Or.inl ⟨heq, hp⟩
    · rename_i hne
      cases hp
      exact Or.inr ⟨fun h => hne h, rfl, rfl⟩

/-- Committing a stage changes nothing, or makes it visible; the record is queued in async mode,
and so are the prunes of what it displaces. -/
theorem commitStage_cases (b : Broker) (h : HeldStage) :
    ((b.cache h.cache).pendingOf? h.staged = none ∧ b.commitStage h = b) ∨
      ∃ p c b₁, Cache.Committed (b.cache h.cache) h.staged p c ∧
        b₁ = ((b.setCache h.cache c).log (.promoted h p)).wake h.cache ∧
        b.commitStage h =
          p.evicted.foldl (fun b e => b.submitFor h.cache (.prune c.address e.1))
            (if b.persistenceOf h.cache = some .async then
              b₁.submitFor h.cache (.add (h.staged.recordAt p.key)) else b₁) := by
  unfold commitStage
  split
  · rename_i c hcommit
    exact Or.inl ⟨Cache.commit_none hcommit, rfl⟩
  · rename_i p c hcommit
    refine Or.inr ⟨p, c, _, Cache.commit_some hcommit, rfl, ?_⟩
    have hmode : (((b.setCache h.cache c).log (.promoted h p)).wake h.cache).persistenceOf h.cache
        = b.persistenceOf h.cache := by
      cases h.cache <;> rfl
    dsimp only
    rw [hmode]
    split
    · rename_i heq
      rw [if_pos heq]
    · rename_i hne
      rw [if_neg fun h => hne h]

theorem submitFor_eq (b : Broker) (ref : CacheRef) (e : Entry) :
    ∃ os, b.submitFor ref e = { b with offices := os } := by
  cases ref with
  | office n a => exact ⟨_, rfl⟩
  | standalone n => exact ⟨b.offices, rfl⟩

theorem pruneEvicted_eq (b : Broker) (ref : CacheRef) (a : Address)
    (evicted : List (Nat × Bytes)) :
    ∃ os, evicted.foldl (fun b e => b.submitFor ref (.prune a e.1)) b =
      { b with offices := os } := by
  induction evicted generalizing b with
  | nil => exact ⟨b.offices, rfl⟩
  | cons e rest ih =>
    obtain ⟨os, hos⟩ := submitFor_eq b ref (.prune a e.1)
    obtain ⟨os', hos'⟩ := ih { b with offices := os }
    exact ⟨os', by rw [List.foldl_cons, hos, hos']⟩

/-- Apart from what it hands the writer, a commit changes the cache, the trace and the calls. -/
theorem commitStage_eq (b : Broker) (h : HeldStage) :
    ((b.cache h.cache).pendingOf? h.staged = none ∧ b.commitStage h = b) ∨
      ∃ p c os, Cache.Committed (b.cache h.cache) h.staged p c ∧
        b.commitStage h =
          { ((b.setCache h.cache c).log (.promoted h p)).wake h.cache with offices := os } := by
  rcases commitStage_cases b h with hnone | ⟨p, c, b₁, hcommitted, rfl, heq⟩
  · exact .inl hnone
  · refine .inr ⟨p, c, ?_⟩
    rw [heq]
    split
    · obtain ⟨os, hos⟩ := submitFor_eq
        (((b.setCache h.cache c).log (.promoted h p)).wake h.cache) h.cache
        (.add (h.staged.recordAt p.key))
      obtain ⟨os', hos'⟩ := pruneEvicted_eq
        { ((b.setCache h.cache c).log (.promoted h p)).wake h.cache with offices := os } h.cache
        c.address p.evicted
      exact ⟨os', hcommitted, by rw [hos, hos']⟩
    · obtain ⟨os, hos⟩ := pruneEvicted_eq
        (((b.setCache h.cache c).log (.promoted h p)).wake h.cache) h.cache c.address p.evicted
      exact ⟨os, hcommitted, hos⟩

theorem rollbackStage_cases (b : Broker) (h : HeldStage) :
    ((b.cache h.cache).pendingOf? h.staged = none ∧ b.rollbackStage h = b) ∨
      ∃ q c, (b.cache h.cache).pendingOf? h.staged = some q ∧
        c = { b.cache h.cache with
          pending := (b.cache h.cache).pending.erase h.staged.duplicateId } ∧
        b.rollbackStage h = ((b.setCache h.cache c).log (.dropped h)).wake h.cache := by
  unfold rollbackStage
  split
  · rename_i hrollback
    exact Or.inl ⟨Cache.rollback_none hrollback, rfl⟩
  · rename_i c hrollback
    obtain ⟨⟨q, hq⟩, hc⟩ := Cache.rollback_some hrollback
    exact Or.inr ⟨q, c, hq, hc, rfl⟩

/-- Opening a cache changes nothing, or makes it. -/
theorem openOfficeCache_cases (b : Broker) (n : Nat) (a : Address) :
    ((∃ c, b.caches.get? (.office n a) = some c) ∧ b.openOfficeCache n a = b) ∨
      b.caches.get? (.office n a) = none ∧
        b.openOfficeCache n a = b.setCache (.office n a)
          { address := a, capacity := (b.office n).settings.idCacheCapacity } := by
  unfold openOfficeCache openCache
  split
  · rename_i hold
    exact Or.inl ⟨Option.isSome_iff_exists.1 hold, rfl⟩
  · rename_i hnew
    exact Or.inr ⟨by simpa [Table.contains] using hnew, rfl⟩

/-! ## Steps -/

/-- One step of the books. -/
inductive Step : Broker → Broker → Prop where
  | opened {b : Broker} (a : Address) : Step b (b.openOfficeCache 0 a)
  | written {b : Broker} : Step b (b.writeNext 0)
  | called {b : Broker} (waiting ready : List Call) :
    Step b { b with waiting := waiting, ready := ready }
  | granted {b b' : Broker} {a : Address} {id : Bytes} {owner : Owner} {s : Staged}
    (hgrant : b.attemptStage (.office 0 a) id owner = (b', some (.staged s))) : Step b b'
  | persisted {b b' : Broker} {h : HeldStage} {result : Except JournalError Unit}
    (hh : h.AtOffice) (hp : b.persistStage h = (b', result)) : Step b b'
  | promoted {b : Broker} {h : HeldStage} (hh : h.AtOffice) : Step b (b.commitStage h)
  | dropped {b : Broker} {h : HeldStage} (hh : h.AtOffice) : Step b (b.rollbackStage h)
  | released {b : Broker} {h : HeldStage × Bool} (hh : h.1.AtOffice) (x : Option Xid) :
    Step b (b.release x h)
  | stored {b b' : Broker} {h : HeldStage} {x : Xid} {result : Except JournalError Unit}
    (hh : h.AtOffice) (hs : b.storePrepared x h = (b', result)) : Step b b'

abbrev Steps : Broker → Broker → Prop := ReflTransGen Step

/-- In a step a cache stays as it is, is made, or changes by one operation. -/
theorem caches_step {b b' : Broker} (h : Step b b') (ref : CacheRef) :
    b'.caches.get? ref = b.caches.get? ref ∨
      (∃ a, ref = .office 0 a ∧ b.caches.get? ref = none ∧
        b'.caches.get? ref =
          some { address := a, capacity := (b.office 0).settings.idCacheCapacity }) ∨
      ∃ c, b'.caches.get? ref = some c ∧ Cache.Change (b.cache ref) c := by
  have hset : ∀ {r : CacheRef} {c : Cache}, Cache.Change (b.cache r) c →
      (b.setCache r c).caches.get? ref = b.caches.get? ref ∨
        ∃ c', (b.setCache r c).caches.get? ref = some c' ∧ Cache.Change (b.cache ref) c' :=
    fun {r c} hc => by
      simp only [setCache, Table.get?_insert]
      by_cases hr : r = ref
      · subst hr
        exact Or.inr ⟨c, if_pos rfl, hc⟩
      · exact Or.inl (if_neg hr)
  cases h with
  | opened a =>
    rcases openOfficeCache_cases b 0 a with ⟨-, heq⟩ | ⟨hnone, heq⟩
    · rw [heq]
      exact Or.inl rfl
    · rw [heq]
      simp only [setCache, Table.get?_insert]
      by_cases hr : CacheRef.office 0 a = ref
      · subst hr
        exact Or.inr (Or.inl ⟨a, rfl, hnone, if_pos rfl⟩)
      · exact Or.inl (if_neg hr)
  | written => exact Or.inl (by rw [caches_writeNext])
  | called waiting ready => exact Or.inl rfl
  | granted hgrant =>
    obtain ⟨c, hattempt, rfl⟩ := attemptStage_granted hgrant
    exact (hset (.staged hattempt)).imp_right Or.inr
  | persisted hh hp =>
    rcases persistStage_cases hp with ⟨-, rfl, -⟩ | ⟨key, c, hdrawn, ⟨-, hwrite⟩ | ⟨-, rfl, -⟩⟩
    · exact Or.inl rfl
    · obtain rfl := congrArg Prod.fst hwrite
      exact (hset (.drawn hdrawn)).imp_right Or.inr
    · exact (hset (.drawn hdrawn)).imp_right Or.inr
  | @promoted h hh =>
    rcases commitStage_cases b h with ⟨-, heq⟩ | ⟨p, c, b₁, hcommitted, rfl, heq⟩
    · rw [heq]
      exact Or.inl rfl
    · rw [heq, caches_pruneEvicted]
      split
      · rw [caches_submitFor]
        exact (hset (.committed hcommitted)).imp_right Or.inr
      · exact (hset (.committed hcommitted)).imp_right Or.inr
  | @dropped h hh =>
    rcases rollbackStage_cases b h with ⟨-, heq⟩ | ⟨q, c, hq, hc, heq⟩
    · rw [heq]
      exact Or.inl rfl
    · rw [heq]
      exact (hset (.dropped hq hc)).imp_right Or.inr
  | released hh x => exact Or.inl (by rw [caches_release])
  | @stored _ h x _ hh hs =>
    obtain rfl := congrArg Prod.fst hs
    exact Or.inl (by rw [caches_storePrepared])

/-- The same of what stands in for a cache that has not been made. -/
theorem cache_step {b b' : Broker} (h : Step b b') (ref : CacheRef) :
    b'.cache ref = b.cache ref ∨
      (∃ a, ref = .office 0 a ∧ b.cache ref = Cache.absent ∧
        b'.cache ref = { address := a, capacity := (b.office 0).settings.idCacheCapacity }) ∨
      Cache.Change (b.cache ref) (b'.cache ref) := by
  rcases caches_step h ref with heq | ⟨a, href, hnone, heq⟩ | ⟨c, heq, hchange⟩
  · exact Or.inl (by rw [cache, heq, cache])
  · exact Or.inr (Or.inl ⟨a, href, cache_of_get?_none hnone, cache_of_get?_some heq⟩)
  · rw [cache_of_get?_some heq]
    exact Or.inr (Or.inr hchange)

/-- The caches of the first post office are each kept under its own address. -/
def Addressed (b : Broker) : Prop :=
  ∀ a c, b.caches.get? (.office 0 a) = some c → c.address = a

theorem addressed_step {b b' : Broker} (h : Step b b') (hb : Addressed b) : Addressed b' := by
  intro a c hc
  rcases caches_step h (.office 0 a) with heq | ⟨a', ha, -, heq⟩ | ⟨c', heq, hchange⟩
  · exact hb a c (heq ▸ hc)
  · obtain rfl : a = a' := by injection ha
    rw [heq, Option.some.injEq] at hc
    rw [← hc]
  · rw [heq, Option.some.injEq] at hc
    subst hc
    rw [(Cache.frame_change hchange).1]
    cases hget : b.caches.get? (.office 0 a) with
    | none =>
      rw [cache_of_get?_none hget] at hchange
      exact absurd hchange Cache.not_change_absent
    | some c₀ =>
      rw [cache_of_get?_some hget]
      exact hb a c₀ hget

/-- What every step keeps, chains of steps keep. -/
theorem of_steps {I : Broker → Prop} (hstep : ∀ b b', Step b b' → I b → I b') {b b' : Broker}
    (h : Steps b b') (hb : I b) : I b' := by
  induction h with
  | refl => exact hb
  | tail _ h ih => exact hstep _ _ h ih

/-- A cache that grants a stage is made, and gives the stage its address. -/
theorem atOffice_granted {b b' : Broker} {a : Address} {id : Bytes} {owner : Owner} {s : Staged}
    (hgrant : b.attemptStage (.office 0 a) id owner = (b', some (.staged s)))
    (hb : Addressed b) : HeldStage.AtOffice ⟨.office 0 a, s⟩ := by
  obtain ⟨c, hattempt, -⟩ := attemptStage_granted hgrant
  cases hget : b.caches.get? (.office 0 a) with
  | none =>
    rw [cache_of_get?_none hget] at hattempt
    exact absurd (.staged hattempt) Cache.not_change_absent
  | some c₀ =>
    rw [cache_of_get?_some hget] at hattempt
    obtain ⟨-, -, -, rfl, -⟩ := Cache.attempt_staged hattempt
    exact congrArg (CacheRef.office 0) (hb a c₀ hget).symm

/-! ## Moves as chains of steps -/

theorem steps_persistAll {hs : List (HeldStage × Bool)} (hhs : ∀ h ∈ hs, h.1.AtOffice)
    (b : Broker) : Steps b (b.persistAll hs).1 :=
  persistAll_keeps (fun _ => .refl) .trans
    (fun h hh _ => .single (Step.persisted (hhs h hh) rfl)) b

theorem steps_storeAll {hs : List (HeldStage × Bool)} (hhs : ∀ h ∈ hs, h.1.AtOffice)
    (b : Broker) (x : Xid) : Steps b (b.storeAll x hs).1 :=
  storeAll_keeps (fun _ => .refl) .trans (fun h hh _ => .single (Step.stored (hhs h hh) rfl)) b

theorem steps_promoteAll {hs : List (HeldStage × Bool)} (hhs : ∀ h ∈ hs, h.1.AtOffice)
    (b : Broker) (x : Option Xid) : Steps b (b.promoteAll x hs) := by
  induction hs generalizing b with
  | nil => exact .refl
  | cons h rest ih =>
    have hh := hhs h (by simp)
    exact ((ReflTransGen.single (Step.promoted hh)).tail (Step.released hh x)).trans
      (ih (fun g hg => hhs g (by simp [hg])) _)

theorem steps_dropAll {hs : List (HeldStage × Bool)} (hhs : ∀ h ∈ hs, h.1.AtOffice)
    (b : Broker) (x : Option Xid) : Steps b (b.dropAll x hs) := by
  induction hs generalizing b with
  | nil => exact .refl
  | cons h rest ih =>
    have hh := hhs h (by simp)
    exact ((ReflTransGen.single (Step.dropped hh)).tail (Step.released hh x)).trans
      (ih (fun g hg => hhs g (by simp [hg])) _)

/-- The stages that storing leaves with a branch are those it had. -/
theorem stages_storeAll {b b' : Broker} {x : Xid} {hs marks : List (HeldStage × Bool)}
    {result : Except JournalError Unit} (h : b.storeAll x hs = (b', marks, result)) :
    marks.map (·.1) = hs.map (·.1) := by
  induction hs generalizing b marks with
  | nil =>
    cases h
    rfl
  | cons g rest ih =>
    rcases hp : b.storePrepared x g.1 with ⟨c, r⟩
    cases r with
    | error e =>
      rw [storeAll_cons_error hp] at h
      cases h
      rfl
    | ok _ =>
      rw [storeAll_cons_ok hp] at h
      cases h
      simp only [List.map_cons, ih rfl]

/-- Storing the first of its stages leaves a branch all of them. -/
theorem stages_storeAll_take {b b' : Broker} {x : Xid} {held marks : List (HeldStage × Bool)}
    {m : Nat} {result : Except JournalError Unit}
    (h : b.storeAll x (held.take m) = (b', marks, result)) :
    (marks ++ held.drop m).map (·.1) = held.map (·.1) := by
  rw [List.map_append, stages_storeAll h, ← List.map_append, List.take_append_drop]

end Broker

/-- All stages that are held come from caches of the first post office. -/
structure View.Local (v : View) : Prop where
  addressed : v.books.Addressed
  atOffice : ∀ h ∈ v.loose ++ v.outlines.flatMap Outline.stages, h.AtOffice

namespace Broker

theorem atOffice_held {l₁ l₂ : List Outline} {o : Outline}
    (h : ∀ g ∈ [] ++ (l₁ ++ o :: l₂).flatMap Outline.stages, HeldStage.AtOffice g) :
    ∀ g ∈ o.held, g.1.AtOffice := fun g hg => by
  refine h g.1 ?_
  simp only [List.nil_append, List.flatMap_append, List.flatMap_cons, List.mem_append]
  exact Or.inr (Or.inl (List.mem_map_of_mem hg))

theorem atOffice_loose {h : HeldStage} {os : List Outline}
    (hv : ∀ g ∈ [h] ++ os.flatMap Outline.stages, HeldStage.AtOffice g) :
    ∀ g ∈ [(h, false)], g.1.AtOffice := fun g hg => by
  rw [List.mem_singleton.1 hg]
  exact hv h (by simp)

/-- A transaction that is replaced has stages it had, or takes the loose ones. -/
theorem atOffice_replaced {l₁ l₂ : List Outline} {o o' : Outline} {loose : List HeldStage}
    (h : ∀ g ∈ loose ++ (l₁ ++ o :: l₂).flatMap Outline.stages, HeldStage.AtOffice g)
    (ho : ∀ g ∈ o'.stages, g ∈ loose ++ o.stages) :
    ∀ g ∈ [] ++ (l₁ ++ o' :: l₂).flatMap Outline.stages, HeldStage.AtOffice g := by
  intro g hg
  refine h g ?_
  simp only [List.nil_append, List.flatMap_append, List.flatMap_cons, List.mem_append] at hg ⊢
  rcases hg with hg | hg | hg
  · exact Or.inr (Or.inl hg)
  · rcases List.mem_append.1 (ho g hg) with hg | hg
    · exact Or.inl hg
    · exact Or.inr (Or.inr (Or.inl hg))
  · exact Or.inr (Or.inr (Or.inr hg))

/-- A move of local stages is a chain of steps, and leaves local stages. -/
theorem steps_stages_move {P : Call → Prop} {v v' : View} (h : Move P v v')
    (haddressed : v.books.Addressed)
    (hv : ∀ h ∈ v.loose ++ v.outlines.flatMap Outline.stages, h.AtOffice) :
    Steps v.books v'.books ∧
      ∀ h ∈ v'.loose ++ v'.outlines.flatMap Outline.stages, h.AtOffice := by
  cases h with
  | opened a => exact ⟨.single (.opened a), hv⟩
  | begun x =>
    refine ⟨.refl, fun g hg => hv g ?_⟩
    simpa [Outline.stages] using hg
  | written => exact ⟨.single .written, hv⟩
  | waits hc => exact ⟨.single (.called _ _), hv⟩
  | retries hready => exact ⟨.single (.called _ _), hv⟩
  | granted hgrant =>
    refine ⟨.single (.granted hgrant), fun g hg => ?_⟩
    rcases List.mem_append.1 hg with hg | hg
    · rw [List.mem_singleton.1 hg]
      exact atOffice_granted hgrant haddressed
    · exact hv g (List.mem_append_right _ hg)
  | @sent b b' h os hpersist =>
    have hh := atOffice_loose hv
    have hsteps := steps_persistAll hh b
    rw [hpersist] at hsteps
    exact ⟨hsteps.trans (steps_promoteAll hh b' none),
      fun g hg => hv g (List.mem_append_right _ hg)⟩
  | @refused b h os m =>
    have hh := atOffice_loose hv
    have hfirst : ∀ g ∈ [(h, false)].take m, g.1.AtOffice :=
      fun g hg => hh g (List.mem_of_mem_take hg)
    exact ⟨(steps_persistAll hfirst b).trans (steps_dropAll hh _ none),
      fun g hg => hv g (List.mem_append_right _ hg)⟩
  | @registered b h l₁ l₂ x held howner =>
    refine ⟨.refl, atOffice_replaced hv fun g hg => ?_⟩
    simp only [Outline.stages, List.map_append, List.mem_append, List.map_cons, List.map_nil]
      at hg ⊢
    exact hg.symm
  | @prepared b b' l₁ l₂ x held marks hstore =>
    have hsteps := steps_storeAll (atOffice_held hv) b x
    rw [hstore] at hsteps
    refine ⟨hsteps, atOffice_replaced hv fun g hg => ?_⟩
    rw [Outline.stages, stages_storeAll hstore] at hg
    exact hg
  | @unprepared b b' l₁ l₂ x held marks result m hstore =>
    have hheld := atOffice_held hv
    have hfirst : ∀ g ∈ held.take m, g.1.AtOffice :=
      fun g hg => hheld g (List.mem_of_mem_take hg)
    have hsteps := steps_storeAll hfirst b x
    rw [hstore] at hsteps
    have hmarks := stages_storeAll_take hstore
    have hlocal : ∀ g ∈ marks ++ held.drop m, g.1.AtOffice := fun g hg => by
      have hg' : g.1 ∈ held.map (·.1) := hmarks ▸ List.mem_map_of_mem hg
      obtain ⟨g', hg', heq⟩ := List.mem_map.1 hg'
      exact heq ▸ hheld g' hg'
    refine ⟨hsteps.trans (steps_dropAll hlocal _ _), atOffice_replaced hv fun g hg => ?_⟩
    rw [Outline.stages, hmarks] at hg
    exact hg
  | @committed b b' l₁ l₂ x st held hlive hpersist =>
    have hsteps := steps_persistAll (atOffice_held hv) b
    rw [hpersist] at hsteps
    exact ⟨hsteps.trans (steps_promoteAll (atOffice_held hv) b' x),
      atOffice_replaced hv fun g hg => hg⟩
  | @undone b l₁ l₂ x st held hlive m =>
    have hheld := atOffice_held hv
    have hfirst : ∀ g ∈ held.take m, g.1.AtOffice :=
      fun g hg => hheld g (List.mem_of_mem_take hg)
    exact ⟨(steps_persistAll hfirst b).trans (steps_dropAll hheld _ x),
      atOffice_replaced hv fun g hg => hg⟩

theorem steps_move {P : Call → Prop} {v v' : View} (h : Move P v v') (hv : v.Local) :
    Steps v.books v'.books ∧ v'.Local := by
  obtain ⟨hsteps, hstages⟩ := steps_stages_move h hv.addressed hv.atOffice
  exact ⟨hsteps, of_steps (fun _ _ => addressed_step) hsteps hv.addressed, hstages⟩

/-- What every step keeps, every chain of moves keeps. -/
theorem books_moves {P : Call → Prop} {I : Broker → Prop}
    (hstep : ∀ b b', Step b b' → I b → I b') {v v' : View} (h : Moves P v v') (hv : v.Local)
    (hI : I v.books) : I v'.books ∧ v'.Local := by
  induction h with
  | refl => exact ⟨hI, hv⟩
  | tail _ hmove ih =>
    obtain ⟨hsteps, hlocal⟩ := steps_move hmove ih.2
    exact ⟨of_steps hstep hsteps ih.1, hlocal⟩

end Broker

end MessageRouting
