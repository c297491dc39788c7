import MessageRouting.Proofs.Broker.BookSteps

/-!
# Custody of stages

Whoever holds a stage (a send under way, or a transaction that has not been
completed) is the only one to resolve it: as long as it is held it is pending
in its cache. This rests on the numbers of stages. A stage is known by its
cache and its sequence, and caches number upwards. Stages from before a start
lie below the numbers `floor` that the caches began with, and nothing is said
of them.

Results:

* `open_of_resolvesAll`, `not_open_of_resolvesAll`: resolving stages leaves the
  others pending, and none of them.
* `custody_moves`: custody is kept in every run.
* `unkeyed_move`: between requests no pending stage has a commit key.
-/

namespace MessageRouting

namespace Broker

/-- Whether the stage is pending in its cache, for its owner. -/
def Open (b : Broker) (h : HeldStage) : Prop := (b.cache h.cache).Holds h.staged

instance (b : Broker) (h : HeldStage) : Decidable (b.Open h) :=
  inferInstanceAs (Decidable ((b.cache h.cache).Holds h.staged))

/-- The commit key drawn for a pending stage. -/
def keyOf (b : Broker) (h : HeldStage) : Option Nat := (b.cache h.cache).keyOf h.staged

/-- Stages of one cache with the same identifier and number have the same key. -/
theorem keyOf_congr {b : Broker} {g t : HeldStage} (hcache : g.cache = t.cache)
    (hid : g.staged.duplicateId = t.staged.duplicateId)
    (hseq : g.staged.sequence = t.staged.sequence) : b.keyOf g = b.keyOf t := by
  rw [keyOf, keyOf, hcache, Cache.keyOf, Cache.keyOf, Cache.pendingOf?_congr (by rw [hid]) hseq]

def next (b : Broker) (ref : CacheRef) : Nat := (b.cache ref).nextSequence

end Broker

/-- A cache and a number of it: at most one stage was ever granted there. -/
def HeldStage.place (h : HeldStage) : CacheRef × Nat := (h.cache, h.staged.sequence)

/-! ## Numbers grow -/

namespace Broker

theorem next_le_of_step {b b' : Broker} (h : Step b b') (ref : CacheRef) :
    b.next ref ≤ b'.next ref := by
  unfold next
  rcases cache_step h ref with heq | ⟨a, -, habsent, hnew⟩ | hchange
  · exact Nat.le_of_eq (by rw [heq])
  · exact Nat.le_of_eq (by rw [habsent, hnew]; rfl)
  · exact Cache.next_le_of_change hchange

theorem next_le_of_steps {b b' : Broker} (h : Steps b b') (ref : CacheRef) :
    b.next ref ≤ b'.next ref := by
  induction h with
  | refl => exact Nat.le_refl _
  | tail _ h ih => exact Nat.le_trans ih (next_le_of_step h ref)

/-! ## Granting and persisting -/

theorem open_granted {b b' : Broker} {ref : CacheRef} {id : Bytes} {owner : Owner} {s : Staged}
    (h : b.attemptStage ref id owner = (b', some (.staged s))) (t : HeldStage) :
    b'.Open t ↔ t = ⟨ref, s⟩ ∨ b.Open t := by
  obtain ⟨c, hattempt, rfl⟩ := attemptStage_granted h
  obtain ⟨tref, ts⟩ := t
  simp only [Open, cache_log, cache_setCache, HeldStage.mk.injEq]
  by_cases href : ref = tref
  · subst href
    rw [if_pos rfl, Cache.holds_staged hattempt]
    simp
  · rw [if_neg href]
    simp [Ne.symm href]

theorem keyOf_granted {b b' : Broker} {ref : CacheRef} {id : Bytes} {owner : Owner} {s : Staged}
    (h : b.attemptStage ref id owner = (b', some (.staged s))) (t : HeldStage) :
    b'.keyOf t = b.keyOf t := by
  obtain ⟨c, hattempt, rfl⟩ := attemptStage_granted h
  simp only [keyOf, cache_log, cache_setCache]
  by_cases href : ref = t.cache
  · rw [if_pos href, Cache.keyOf_staged hattempt, href]
  · rw [if_neg href]

/-- A granted stage takes the next number of its cache. -/
theorem sequence_granted {b b' : Broker} {ref : CacheRef} {id : Bytes} {owner : Owner}
    {s : Staged} (h : b.attemptStage ref id owner = (b', some (.staged s))) :
    s.sequence = b.next ref ∧ b'.next ref = b.next ref + 1 := by
  obtain ⟨c, hattempt, rfl⟩ := attemptStage_granted h
  obtain ⟨-, -, -, rfl, rfl⟩ := Cache.attempt_staged hattempt
  refine ⟨rfl, ?_⟩
  simp only [next, cache_log, cache_setCache, if_true]

theorem cache_persistStage {b b' : Broker} {h : HeldStage} {result : Except JournalError Unit}
    (hp : b.persistStage h = (b', result)) :
    ((b.cache h.cache).pendingOf? h.staged = none ∧ ∀ ref, b'.cache ref = b.cache ref) ∨
      ∃ key c, Cache.Drawn (b.cache h.cache) h.staged key c ∧
        ∀ ref, b'.cache ref = if h.cache = ref then c else b.cache ref := by
  rcases persistStage_cases hp with ⟨hnone, rfl, -⟩ |
    ⟨key, c, hdrawn, ⟨-, hwrite⟩ | ⟨-, rfl, -⟩⟩
  · exact Or.inl ⟨hnone, fun _ => rfl⟩
  · obtain rfl := congrArg Prod.fst hwrite
    exact Or.inr ⟨key, c, hdrawn, fun ref => by rw [cache_write, cache_setCache]⟩
  · exact Or.inr ⟨key, c, hdrawn, fun ref => cache_setCache ..⟩

/-- A commit changes nothing, or the cache of its stage. -/
theorem cache_commitStage (b : Broker) (h : HeldStage) :
    ((b.cache h.cache).pendingOf? h.staged = none ∧ b.commitStage h = b) ∨
      ∃ p c, Cache.Committed (b.cache h.cache) h.staged p c ∧
        ∀ ref, (b.commitStage h).cache ref = if h.cache = ref then c else b.cache ref := by
  rcases commitStage_eq b h with hnone | ⟨p, c, os, hcommitted, heq⟩
  · exact Or.inl hnone
  · refine Or.inr ⟨p, c, hcommitted, fun ref => ?_⟩
    rw [heq]
    exact cache_setCache ..

theorem open_persistStage {b b' : Broker} {h : HeldStage} {result : Except JournalError Unit}
    (hp : b.persistStage h = (b', result)) (t : HeldStage) : b'.Open t ↔ b.Open t := by
  rcases cache_persistStage hp with ⟨-, hcache⟩ | ⟨key, c, hdrawn, hcache⟩
  · simp only [Open, hcache]
  · simp only [Open, hcache]
    split
    · rename_i href
      rw [Cache.holds_drawn hdrawn, href]
    · rfl

theorem open_persistAll (b : Broker) (hs : List (HeldStage × Bool)) (t : HeldStage) :
    (b.persistAll hs).1.Open t ↔ b.Open t :=
  persistAll_keeps (R := fun b b' => b'.Open t ↔ b.Open t) (fun _ => .rfl)
    (fun h h' => h'.trans h) (fun _ _ _ => open_persistStage rfl t) b

/-! ## Resolving -/

/-- What resolving a stage does to caches, be it committed or dropped: it is pending no longer, if
it was. -/
structure Resolves (b : Broker) (h : HeldStage) (b' : Broker) : Prop where
  others : ∀ ref, h.cache ≠ ref → b'.cache ref = b.cache ref
  address : (b'.cache h.cache).address = (b.cache h.cache).address
  pending : ((b.cache h.cache).pendingOf? h.staged = none ∧
      b'.cache h.cache = b.cache h.cache) ∨
    ((∃ q, (b.cache h.cache).pendingOf? h.staged = some q) ∧
      ∀ id, (b'.cache h.cache).pending.get? id =
        if h.staged.duplicateId = id then none else (b.cache h.cache).pending.get? id)

theorem Resolves.of_cache {b b' b'' : Broker} {h : HeldStage} (hr : Resolves b h b')
    (hcache : ∀ ref, b''.cache ref = b'.cache ref) : Resolves b h b'' := by
  refine ⟨fun ref href => by rw [hcache, hr.others ref href], by rw [hcache, hr.address], ?_⟩
  rw [hcache]
  exact hr.pending

theorem resolves_setCache {b : Broker} {h : HeldStage} {c : Cache} {q : Pending}
    (hq : (b.cache h.cache).pendingOf? h.staged = some q)
    (ha : c.address = (b.cache h.cache).address)
    (hpending : ∀ id, c.pending.get? id =
      if h.staged.duplicateId = id then none else (b.cache h.cache).pending.get? id) :
    Resolves b h (b.setCache h.cache c) := by
  have hself : (b.setCache h.cache c).cache h.cache = c := by rw [cache_setCache, if_pos rfl]
  refine ⟨fun ref href => by rw [cache_setCache, if_neg href], by rw [hself, ha],
    Or.inr ⟨⟨q, hq⟩, ?_⟩⟩
  rw [hself]
  exact hpending

theorem resolves_commitStage (b : Broker) (h : HeldStage) : Resolves b h (b.commitStage h) := by
  rcases cache_commitStage b h with ⟨hnone, heq⟩ | ⟨p, c, hcommitted, hcache⟩
  · rw [heq]
    exact ⟨fun _ _ => rfl, rfl, Or.inl ⟨hnone, rfl⟩⟩
  · obtain ⟨q, hq⟩ := hcommitted.pendingOf
    refine (resolves_setCache hq hcommitted.address hcommitted.pending).of_cache fun ref => ?_
    rw [hcache, cache_setCache]

theorem resolves_rollbackStage (b : Broker) (h : HeldStage) :
    Resolves b h (b.rollbackStage h) := by
  rcases rollbackStage_cases b h with ⟨hnone, heq⟩ | ⟨q, c, hq, hc, heq⟩
  · rw [heq]
    exact ⟨fun _ _ => rfl, rfl, Or.inl ⟨hnone, rfl⟩⟩
  · have hresolves : Resolves b h (b.setCache h.cache c) :=
      resolves_setCache hq (by rw [hc]) fun id => by rw [hc, Table.get?_erase]
    refine hresolves.of_cache fun ref => ?_
    rw [heq, cache_wake, cache_log]

/-- Stages resolved one by one. -/
inductive ResolvesAll : Broker → List HeldStage → Broker → Prop where
  | nil (b : Broker) : ResolvesAll b [] b
  | cons {b b' b'' : Broker} {h : HeldStage} {hs : List HeldStage} (hr : Resolves b h b')
    (hrest : ResolvesAll b' hs b'') : ResolvesAll b (h :: hs) b''

theorem resolvesAll_promoteAll (b : Broker) (x : Option Xid) (hs : List (HeldStage × Bool)) :
    ResolvesAll b (hs.map (·.1)) (b.promoteAll x hs) := by
  induction hs generalizing b with
  | nil => exact .nil b
  | cons h rest ih =>
    have hr : Resolves b h.1 ((b.commitStage h.1).release x h) :=
      (resolves_commitStage b h.1).of_cache fun ref => cache_release ..
    exact .cons hr (ih _)

theorem resolvesAll_dropAll (b : Broker) (x : Option Xid) (hs : List (HeldStage × Bool)) :
    ResolvesAll b (hs.map (·.1)) (b.dropAll x hs) := by
  induction hs generalizing b with
  | nil => exact .nil b
  | cons h rest ih =>
    have hr : Resolves b h.1 ((b.rollbackStage h.1).release x h) :=
      (resolves_rollbackStage b h.1).of_cache fun ref => cache_release ..
    exact .cons hr (ih _)

/-- Resolving a stage leaves every stage pending that stands at another place. -/
theorem open_of_resolves {b b' : Broker} {h t : HeldStage} (hr : Resolves b h b')
    (ht : b.Open t) (hne : h.place ≠ t.place) : b'.Open t := by
  unfold Open at ht ⊢
  by_cases href : h.cache = t.cache
  · rw [← href] at ht ⊢
    rcases hr.pending with ⟨-, heq⟩ | ⟨⟨q, hq⟩, hpending⟩
    · rw [heq]
      exact ht
    · refine (Cache.holds_resolved hr.address hpending).2 ⟨ht, fun hid => hne ?_⟩
      obtain ⟨hget, hseq⟩ := Cache.pendingOf?_eq_some.1 hq
      obtain ⟨-, key, hk⟩ := ht
      rw [hid, hget, Option.some.injEq] at hk
      rw [HeldStage.place, HeldStage.place, href, ← hseq, hk]
  · rw [hr.others _ href]
    exact ht

theorem open_antitone {b b' : Broker} {h t : HeldStage} (hr : Resolves b h b')
    (ht : b'.Open t) : b.Open t := by
  unfold Open at ht ⊢
  by_cases href : h.cache = t.cache
  · rw [← href] at ht ⊢
    rcases hr.pending with ⟨-, heq⟩ | ⟨-, hpending⟩
    · rw [heq] at ht
      exact ht
    · exact ((Cache.holds_resolved hr.address hpending).1 ht).1
  · rw [hr.others _ href] at ht
    exact ht

/-- A stage that has been resolved is not pending. -/
theorem not_open_of_resolves {b b' : Broker} {h : HeldStage} (hr : Resolves b h b') :
    ¬ b'.Open h := by
  intro ht
  unfold Open at ht
  rcases hr.pending with ⟨hnone, heq⟩ | ⟨-, hpending⟩
  · rw [heq] at ht
    obtain ⟨q, hq, -⟩ := Cache.pendingOf?_of_holds ht
    rw [hnone] at hq
    cases hq
  · exact ((Cache.holds_resolved hr.address hpending).1 ht).2 rfl

theorem open_of_resolvesAll {b b' : Broker} {hs : List HeldStage} {t : HeldStage}
    (hr : ResolvesAll b hs b') (ht : b.Open t) (hne : ∀ h ∈ hs, h.place ≠ t.place) :
    b'.Open t := by
  induction hr with
  | nil => exact ht
  | cons hr _ ih =>
    exact ih (open_of_resolves hr ht (hne _ (by simp))) fun h hh => hne h (by simp [hh])

theorem open_antitone_all {b b' : Broker} {hs : List HeldStage} {t : HeldStage}
    (hr : ResolvesAll b hs b') (ht : b'.Open t) : b.Open t := by
  induction hr with
  | nil => exact ht
  | cons hr _ ih => exact open_antitone hr (ih ht)

theorem not_open_of_resolvesAll {b b' : Broker} {hs : List HeldStage} {t : HeldStage}
    (hr : ResolvesAll b hs b') (ht : t ∈ hs) : ¬ b'.Open t := by
  induction hr with
  | nil => cases ht
  | cons hr hrest ih =>
    rcases List.mem_cons.1 ht with rfl | ht
    · exact fun hopen => not_open_of_resolves hr (open_antitone_all hrest hopen)
    · exact ih ht

/-! ## Keys between requests -/

/-- The stages that have a commit key are among `hs`. -/
def KeyedBy (b : Broker) (hs : List HeldStage) : Prop :=
  ∀ t, b.keyOf t ≠ none → ∃ h ∈ hs, h.cache = t.cache ∧
    h.staged.duplicateId = t.staged.duplicateId ∧ h.staged.sequence = t.staged.sequence

/-- No pending stage has a commit key. -/
def Unkeyed (b : Broker) : Prop := KeyedBy b []

theorem unkeyed_iff {b : Broker} : Unkeyed b ↔ ∀ t, b.keyOf t = none := by
  constructor
  · refine fun hb t => Decidable.byContradiction fun hkey => ?_
    obtain ⟨h, hh, -⟩ := hb t hkey
    cases hh
  · exact fun hb t hkey => absurd (hb t) hkey

theorem KeyedBy.of_cache {b b' : Broker} {hs : List HeldStage} (h : KeyedBy b hs)
    (hcache : ∀ ref, b'.cache ref = b.cache ref) : KeyedBy b' hs := by
  intro t ht
  refine h t ?_
  simpa only [keyOf, hcache] using ht

theorem keyedBy_persistStage {b b' : Broker} {h : HeldStage} {hs : List HeldStage}
    {result : Except JournalError Unit} (hb : KeyedBy b hs)
    (hp : b.persistStage h = (b', result)) : KeyedBy b' (h :: hs) := by
  intro t ht
  rcases cache_persistStage hp with ⟨-, hcache⟩ | ⟨key, c, hdrawn, hcache⟩
  · obtain ⟨g, hg, hgt⟩ := hb.of_cache hcache t ht
    exact ⟨g, List.mem_cons_of_mem _ hg, hgt⟩
  · simp only [keyOf, hcache] at ht
    split at ht
    · rename_i href
      rw [Cache.keyOf_drawn hdrawn] at ht
      split at ht
      · rename_i hsame
        exact ⟨h, by simp, href, hsame.1.symm, hsame.2.symm⟩
      · rw [href] at ht
        obtain ⟨g, hg, hgt⟩ := hb t ht
        exact ⟨g, List.mem_cons_of_mem _ hg, hgt⟩
    · obtain ⟨g, hg, hgt⟩ := hb t ht
      exact ⟨g, List.mem_cons_of_mem _ hg, hgt⟩

theorem keyedBy_persistAll {b : Broker} {hs : List (HeldStage × Bool)} {gs : List HeldStage}
    (hb : KeyedBy b gs) : KeyedBy (b.persistAll hs).1 (hs.map (·.1) ++ gs) := by
  induction hs generalizing b gs with
  | nil => exact hb
  | cons h rest ih =>
    rcases hp : b.persistStage h.1 with ⟨c, result⟩
    have hc := keyedBy_persistStage hb hp
    simp only [persistAll, hp]
    cases result with
    | error e =>
      intro t ht
      obtain ⟨g, hg, hgt⟩ := hc t ht
      refine ⟨g, ?_, hgt⟩
      rcases List.mem_cons.1 hg with rfl | hg
      · simp
      · simp [hg]
    | ok _ =>
      intro t ht
      obtain ⟨g, hg, hgt⟩ := ih hc t ht
      refine ⟨g, ?_, hgt⟩
      simp only [List.map_cons, List.cons_append, List.mem_append, List.mem_cons] at hg ⊢
      rcases hg with hg | rfl | hg
      · exact Or.inr (Or.inl hg)
      · exact Or.inl rfl
      · exact Or.inr (Or.inr hg)

theorem keyedBy_resolves {b b' : Broker} {h : HeldStage} {hs : List HeldStage}
    (hb : KeyedBy b (h :: hs)) (hr : Resolves b h b') : KeyedBy b' hs := by
  intro t ht
  have hold : b.keyOf t ≠ none ∧ ¬ (h.cache = t.cache ∧
      h.staged.duplicateId = t.staged.duplicateId ∧ h.staged.sequence = t.staged.sequence) := by
    simp only [keyOf] at ht ⊢
    by_cases href : h.cache = t.cache
    · rw [← href] at ht ⊢
      rcases hr.pending with ⟨hnone, heq⟩ | ⟨-, hpending⟩
      · rw [heq] at ht
        refine ⟨ht, fun hsame => ht ?_⟩
        have hsame' : (b.cache h.cache).pendingOf? t.staged
            = (b.cache h.cache).pendingOf? h.staged :=
          Cache.pendingOf?_congr (by rw [hsame.2.1]) hsame.2.2.symm
        rw [Cache.keyOf, hsame', hnone]
        rfl
      · rw [Cache.keyOf_resolved hpending] at ht
        split at ht
        · exact absurd rfl ht
        · rename_i hid
          exact ⟨ht, fun hsame => hid hsame.2.1⟩
    · rw [hr.others _ href] at ht
      exact ⟨ht, fun hsame => href hsame.1⟩
  obtain ⟨g, hg, hgt⟩ := hb t hold.1
  rcases List.mem_cons.1 hg with rfl | hg
  · exact absurd hgt hold.2
  · exact ⟨g, hg, hgt⟩

theorem keyedBy_resolvesAll {b b' : Broker} {hs gs : List HeldStage}
    (hb : KeyedBy b (hs ++ gs)) (hr : ResolvesAll b hs b') : KeyedBy b' gs := by
  induction hr with
  | nil => exact hb
  | cons hr _ ih => exact ih (keyedBy_resolves hb hr)

theorem KeyedBy.mono {b : Broker} {hs gs : List HeldStage} (h : KeyedBy b hs)
    (hsub : ∀ g ∈ hs, g ∈ gs) : KeyedBy b gs := fun t ht => by
  obtain ⟨g, hg, hgt⟩ := h t ht
  exact ⟨g, hsub g hg, hgt⟩

/-- Drawing keys for some of the stages and resolving all of them leaves no key. -/
theorem unkeyed_resolved {b b' : Broker} {hs gs : List (HeldStage × Bool)} (hb : Unkeyed b)
    (hsub : ∀ g ∈ hs.map (·.1), g ∈ gs.map (·.1))
    (hr : ResolvesAll (b.persistAll hs).1 (gs.map (·.1)) b') : Unkeyed b' := by
  have hkeyed : KeyedBy (b.persistAll hs).1 (gs.map (·.1) ++ []) := by
    refine (keyedBy_persistAll hb).mono fun g hg => ?_
    rw [List.append_nil] at hg ⊢
    exact hsub g hg
  exact keyedBy_resolvesAll hkeyed hr

theorem cache_storeAll (b : Broker) (x : Xid) (hs : List (HeldStage × Bool)) (ref : CacheRef) :
    (b.storeAll x hs).1.cache ref = b.cache ref :=
  storeAll_keeps (R := fun b b' => b'.cache ref = b.cache ref) (fun _ => rfl)
    (fun h h' => h'.trans h) (fun h _ b => cache_storePrepared b x h.1 ref) b

/-- A cache that is made on the way has no pending stage, as had none the one in its place. -/
theorem pending_openOfficeCache (b : Broker) (n : Nat) (a : Address) (ref : CacheRef) :
    ((b.openOfficeCache n a).cache ref).pending = (b.cache ref).pending ∧
      ((b.openOfficeCache n a).cache ref = b.cache ref ∨ (b.cache ref).pending = {}) := by
  rcases openOfficeCache_cases b n a with ⟨-, heq⟩ | ⟨hnone, heq⟩
  · rw [heq]
    exact ⟨rfl, Or.inl rfl⟩
  · have habsent := cache_of_get?_none hnone
    rw [heq, cache_setCache]
    by_cases href : CacheRef.office n a = ref
    · subst href
      rw [if_pos rfl, habsent]
      exact ⟨rfl, Or.inr rfl⟩
    · rw [if_neg href]
      exact ⟨rfl, Or.inl rfl⟩

/-- Between requests no pending stage has a commit key. -/
theorem unkeyed_move {P : Call → Prop} {v v' : View} (h : Move P v v')
    (hv : Unkeyed v.books) : Unkeyed v'.books := by
  have hsame : ∀ hs : List (HeldStage × Bool), ∀ g ∈ hs.map (·.1), g ∈ hs.map (·.1) :=
    fun _ _ hg => hg
  have hfirst : ∀ (hs : List (HeldStage × Bool)) (m : Nat),
      ∀ g ∈ (hs.take m).map (·.1), g ∈ hs.map (·.1) := fun hs m g hg => by
    rw [List.map_take] at hg
    exact List.mem_of_mem_take hg
  cases h with
  | @opened b os a =>
    intro t ht
    have hpending := (pending_openOfficeCache b 0 a t.cache).1
    refine hv t ?_
    simpa only [keyOf, Cache.keyOf, Cache.pendingOf?, hpending] using ht
  | begun x => exact hv
  | written => exact hv.of_cache fun ref => cache_writeNext ..
  | waits hc => exact hv
  | retries hready => exact hv
  | granted hgrant =>
    intro t ht
    rw [keyOf_granted hgrant] at ht
    exact hv t ht
  | @sent b b' h os hpersist =>
    have hb' : b' = (b.persistAll [(h, false)]).1 := by rw [hpersist]
    subst hb'
    exact unkeyed_resolved hv (hsame _) (resolvesAll_promoteAll ..)
  | refused m => exact unkeyed_resolved hv (hfirst _ m) (resolvesAll_dropAll ..)
  | registered howner => exact hv
  | prepared hstore =>
    obtain rfl := congrArg Prod.fst hstore
    exact hv.of_cache fun ref => cache_storeAll ..
  | @unprepared b _ _ _ x held _ _ m hstore =>
    obtain rfl := congrArg Prod.fst hstore
    have hstored : Unkeyed (b.storeAll x (held.take m)).1 :=
      KeyedBy.of_cache hv fun ref => cache_storeAll ..
    have hr : ∀ gs, ResolvesAll ((b.storeAll x (held.take m)).1.persistAll []).1 (gs.map (·.1))
        ((b.storeAll x (held.take m)).1.dropAll (some x) gs) := fun gs => resolvesAll_dropAll ..
    exact unkeyed_resolved hstored (fun g hg => by cases hg) (hr _)
  | @committed b b' l₁ l₂ x st held hlive hpersist =>
    have hb' : b' = (b.persistAll held).1 := by rw [hpersist]
    subst hb'
    exact unkeyed_resolved hv (hsame _) (resolvesAll_promoteAll ..)
  | undone hlive m => exact unkeyed_resolved hv (hfirst _ m) (resolvesAll_dropAll ..)

end Broker

/-! ## Custody -/

/-- The stages of the send under way and of all transactions. -/
def View.stages (v : View) : List HeldStage := v.loose ++ v.outlines.flatMap Outline.stages

/-- The stages of the send under way and of the transactions that have not been completed. -/
def View.live (v : View) : List HeldStage :=
  v.loose ++ (v.outlines.filter Outline.isLive).flatMap Outline.stages

/-- Whether the stage lies above the numbers that the caches began with. -/
def HeldStage.Above (floor : CacheRef → Nat) (h : HeldStage) : Prop :=
  floor h.cache ≤ h.staged.sequence

instance (floor : CacheRef → Nat) (h : HeldStage) : Decidable (h.Above floor) :=
  inferInstanceAs (Decidable (_ ≤ _))

/-- No two of the stages stand at one place, those below the floor left aside. -/
def Apart (floor : CacheRef → Nat) (hs : List HeldStage) : Prop :=
  ((hs.filter fun h => h.Above floor).map HeldStage.place).Nodup

theorem Apart.perm {floor : CacheRef → Nat} {hs gs : List HeldStage} (h : Apart floor hs)
    (hp : hs.Perm gs) : Apart floor gs :=
  ((hp.filter _).map _).nodup_iff.1 h

theorem Apart.sublist {floor : CacheRef → Nat} {hs gs : List HeldStage} (h : Apart floor hs)
    (hp : gs.Sublist hs) : Apart floor gs :=
  List.Nodup.sublist ((hp.filter _).map _) h

theorem above_of_place {floor : CacheRef → Nat} {h t : HeldStage} (ht : t.Above floor)
    (hplace : h.place = t.place) : h.Above floor := by
  simp only [HeldStage.place, Prod.mk.injEq] at hplace
  rw [HeldStage.Above, hplace.1, hplace.2]
  exact ht

theorem Apart.ne {floor : CacheRef → Nat} {hs gs : List HeldStage} (h : Apart floor (hs ++ gs))
    {g t : HeldStage} (hg : g ∈ hs) (ht : t ∈ gs) (habove : t.Above floor) :
    g.place ≠ t.place := by
  intro hplace
  have hgabove := above_of_place habove hplace
  rw [Apart, List.filter_append, List.map_append, List.nodup_append] at h
  refine h.2.2 g.place ?_ t.place ?_ hplace
  · exact List.mem_map_of_mem (List.mem_filter.2 ⟨hg, by simpa using hgabove⟩)
  · exact List.mem_map_of_mem (List.mem_filter.2 ⟨ht, by simpa using habove⟩)

/-- Every stage that is held and not resolved is pending in its cache, and no other holder has a
stage at its place. -/
structure Custody (floor : CacheRef → Nat) (v : View) : Prop where
  floor_le : ∀ ref, floor ref ≤ v.books.next ref
  below : ∀ h ∈ v.stages, h.staged.sequence < v.books.next h.cache
  apart : Apart floor v.stages
  kept : ∀ h ∈ v.live, h.Above floor → v.books.Open h

namespace Broker

theorem open_openOfficeCache {b : Broker} {n : Nat} {a : Address} {t : HeldStage}
    (ht : b.Open t) : (b.openOfficeCache n a).Open t := by
  rcases (pending_openOfficeCache b n a t.cache).2 with heq | hnone
  · rw [Open, heq]
    exact ht
  · obtain ⟨-, key, hk⟩ := ht
    rw [hnone] at hk
    cases hk

/-- Persisting and resolving some stages keeps the others pending. -/
theorem open_of_resolved {floor : CacheRef → Nat} {b b' : Broker}
    {ps hs : List (HeldStage × Bool)} {gs : List HeldStage} {t : HeldStage}
    (hr : ResolvesAll (b.persistAll ps).1 (hs.map (·.1)) b')
    (hapart : Apart floor (hs.map (·.1) ++ gs)) (hmem : t ∈ gs) (habove : t.Above floor)
    (ht : b.Open t) : b'.Open t :=
  open_of_resolvesAll hr ((open_persistAll b ps t).2 ht)
    fun _ hg => hapart.ne hg hmem habove

end Broker

theorem stages_perm (l₁ l₂ : List Outline) (o : Outline) :
    ((l₁ ++ o :: l₂).flatMap Outline.stages).Perm
      (o.stages ++ (l₁ ++ l₂).flatMap Outline.stages) := by
  simp only [List.flatMap_append, List.flatMap_cons]
  exact List.perm_append_comm_assoc ..

theorem mem_live {l₁ l₂ : List Outline} {o : Outline} {t : HeldStage} :
    t ∈ ((l₁ ++ o :: l₂).filter Outline.isLive).flatMap Outline.stages ↔
      (o.isLive = true ∧ t ∈ o.stages) ∨
        t ∈ ((l₁ ++ l₂).filter Outline.isLive).flatMap Outline.stages := by
  simp only [List.filter_append, List.flatMap_append, List.mem_append, List.filter_cons]
  by_cases ho : o.isLive = true
  · rw [if_pos ho, List.flatMap_cons, List.mem_append]
    constructor
    · rintro (h | h | h)
      · exact Or.inr (Or.inl h)
      · exact Or.inl ⟨ho, h⟩
      · exact Or.inr (Or.inr h)
    · rintro (⟨-, h⟩ | h | h)
      · exact Or.inr (Or.inl h)
      · exact Or.inl h
      · exact Or.inr (Or.inr h)
  · rw [if_neg ho]
    simp [ho]

theorem stages_of_live {os : List Outline} {t : HeldStage}
    (h : t ∈ (os.filter Outline.isLive).flatMap Outline.stages) :
    t ∈ os.flatMap Outline.stages := by
  simp only [List.mem_flatMap, List.mem_filter] at h ⊢
  obtain ⟨o, ⟨ho, -⟩, ht⟩ := h
  exact ⟨o, ho, ht⟩

namespace Broker

variable {P : Call → Prop} {floor : CacheRef → Nat}

/-- Completing a transaction, be it with its stages made visible or dropped, leaves custody of the
others. -/
theorem custody_complete {b b' : Broker} {l₁ l₂ : List Outline} {o o' : Outline}
    {ps : List (HeldStage × Bool)} {hs : List (HeldStage × Bool)}
    (hstages : hs.map (·.1) = o.stages) (hstages' : o'.stages = o.stages)
    (hlive : o'.isLive = false)
    (hr : ResolvesAll (b.persistAll ps).1 (hs.map (·.1)) b')
    (hnext : ∀ ref, b.next ref ≤ b'.next ref)
    (hv : Custody floor ⟨b, [], l₁ ++ o :: l₂⟩) :
    Custody floor ⟨b', [], l₁ ++ o' :: l₂⟩ := by
  have hall : (l₁ ++ o' :: l₂).flatMap Outline.stages = (l₁ ++ o :: l₂).flatMap Outline.stages := by
    simp only [List.flatMap_append, List.flatMap_cons, hstages']
  refine ⟨fun ref => Nat.le_trans (hv.floor_le ref) (hnext ref), ?_, ?_, ?_⟩
  · intro h hh
    rw [View.stages, hall] at hh
    exact Nat.lt_of_lt_of_le (hv.below h hh) (hnext _)
  · rw [View.stages, hall]
    exact hv.apart
  · intro t ht habove
    have hrest : t ∈ ((l₁ ++ l₂).filter Outline.isLive).flatMap Outline.stages := by
      rcases mem_live.1 ht with ⟨h, -⟩ | h
      · rw [hlive] at h
        cases h
      · exact h
    have hapart : Apart floor (hs.map (·.1) ++ (l₁ ++ l₂).flatMap Outline.stages) := by
      rw [hstages]
      exact hv.apart.perm (stages_perm ..)
    exact open_of_resolved hr hapart (stages_of_live hrest) habove
      (hv.kept t (mem_live.2 (Or.inr hrest)) habove)

/-- A change of the books that resolves nothing keeps custody, as long as holders keep what they
have. -/
theorem custody_of_open {v v' : View} (hv : Custody floor v)
    (hnext : ∀ ref, v.books.next ref ≤ v'.books.next ref)
    (hopen : ∀ t, v.books.Open t → v'.books.Open t)
    (hstages : v'.stages.Perm v.stages) (hlive : ∀ t ∈ v'.live, t ∈ v.live) :
    Custody floor v' :=
  ⟨fun ref => Nat.le_trans (hv.floor_le ref) (hnext ref),
    fun h hh => Nat.lt_of_lt_of_le (hv.below h (hstages.mem_iff.1 hh)) (hnext _),
    hv.apart.perm hstages.symm,
    fun t ht habove => hopen t (hv.kept t (hlive t ht) habove)⟩

/-- A stage that is granted has a number that no stage has had. -/
theorem custody_granted {b b' : Broker} {os : List Outline} {a : Address} {id : Bytes}
    {owner : Owner} {s : Staged}
    (hgrant : b.attemptStage (.office 0 a) id owner = (b', some (.staged s)))
    (hnext : ∀ ref, b.next ref ≤ b'.next ref) (hv : Custody floor ⟨b, [], os⟩) :
    Custody floor ⟨b', [⟨.office 0 a, s⟩], os⟩ := by
  obtain ⟨hseq, hnext'⟩ := sequence_granted hgrant
  refine ⟨fun ref => Nat.le_trans (hv.floor_le ref) (hnext ref), ?_, ?_, ?_⟩
  · intro t ht
    rcases List.mem_cons.1 ht with rfl | ht
    · show s.sequence < b'.next _
      rw [hnext', hseq]
      exact Nat.lt_succ_self _
    · exact Nat.lt_of_lt_of_le (hv.below t ht) (hnext _)
  · have hfresh : ∀ t ∈ os.flatMap Outline.stages,
        (⟨.office 0 a, s⟩ : HeldStage).place ≠ t.place := by
      intro t ht hplace
      have hlt := hv.below t (List.mem_append_right _ ht)
      simp only [HeldStage.place, Prod.mk.injEq] at hplace
      rw [← hplace.1, ← hplace.2, hseq] at hlt
      exact Nat.lt_irrefl _ hlt
    have hold : Apart floor (os.flatMap Outline.stages) := hv.apart
    show (List.map _ (List.filter _ (_ :: os.flatMap Outline.stages))).Nodup
    rw [List.filter_cons]
    split
    · rw [List.map_cons, List.nodup_cons]
      refine ⟨fun hmem => ?_, hold⟩
      obtain ⟨t, ht, heq⟩ := List.mem_map.1 hmem
      exact hfresh t (List.mem_filter.1 ht).1 heq.symm
    · exact hold
  · intro t ht habove
    refine (open_granted hgrant t).2 ?_
    rcases List.mem_cons.1 ht with rfl | ht
    · exact Or.inl rfl
    · exact Or.inr (hv.kept t ht habove)

/-- The stage of a send under way is resolved, whatever becomes of the send. -/
theorem custody_resolved {b b' : Broker} {h : HeldStage} {os : List Outline}
    {ks : List (HeldStage × Bool)}
    (hr : ResolvesAll (b.persistAll ks).1 ([(h, false)].map (·.1)) b')
    (hnext : ∀ ref, b.next ref ≤ b'.next ref) (hv : Custody floor ⟨b, [h], os⟩) :
    Custody floor ⟨b', [], os⟩ := by
  refine ⟨fun ref => Nat.le_trans (hv.floor_le ref) (hnext ref), fun t ht => ?_, ?_, ?_⟩
  · exact Nat.lt_of_lt_of_le (hv.below t (List.mem_append_right _ ht)) (hnext _)
  · exact hv.apart.sublist (List.sublist_append_right ..)
  · intro t ht habove
    exact open_of_resolved hr hv.apart (stages_of_live ht) habove
      (hv.kept t (List.mem_append_right _ ht) habove)

theorem custody_move {v v' : View} (h : Move P v v') (hlocal : v.Local)
    (hv : Custody floor v) : Custody floor v' := by
  have hnext := next_le_of_steps (steps_move h hlocal).1
  cases h with
  | opened a =>
    exact custody_of_open hv hnext (fun t ht => open_openOfficeCache ht) (.refl _) fun _ h => h
  | begun x =>
    refine custody_of_open hv hnext (fun t ht => ht) ?_ fun t ht => ?_
    · simp [View.stages, Outline.stages]
    · simpa [View.live, Outline.stages, Outline.isLive] using ht
  | written =>
    refine custody_of_open hv hnext (fun t ht => ?_) (.refl _) fun _ h => h
    simpa only [Open, cache_writeNext] using ht
  | waits hc => exact custody_of_open hv hnext (fun t ht => ht) (.refl _) fun _ h => h
  | retries hready => exact custody_of_open hv hnext (fun t ht => ht) (.refl _) fun _ h => h
  | granted hgrant => exact custody_granted hgrant hnext hv
  | @sent b b' h os hpersist =>
    obtain rfl : (b.persistAll [(h, false)]).1 = b' := congrArg Prod.fst hpersist
    exact custody_resolved (resolvesAll_promoteAll _ none [(h, false)]) hnext hv
  | @refused b h os m =>
    exact custody_resolved (resolvesAll_dropAll _ none [(h, false)]) hnext hv
  | @registered b h l₁ l₂ x held howner =>
    have hstages : (⟨x, .active, held ++ [(h, false)]⟩ : Outline).stages =
        (⟨x, .active, held⟩ : Outline).stages ++ [h] := by
      simp [Outline.stages]
    refine custody_of_open hv hnext (fun t ht => ht) ?_ fun t ht => ?_
    · refine (stages_perm ..).trans ?_
      rw [hstages, List.append_assoc]
      refine (List.perm_middle.trans ?_ : List.Perm _ _)
      exact (stages_perm ..).symm.cons h
    · rcases mem_live.1 ht with ⟨-, ht⟩ | ht
      · rw [hstages, List.mem_append, List.mem_singleton] at ht
        rcases ht with ht | rfl
        · exact List.mem_cons_of_mem _ (mem_live.2 (Or.inl ⟨rfl, ht⟩))
        · exact List.mem_cons_self ..
      · exact List.mem_cons_of_mem _ (mem_live.2 (Or.inr ht))
  | @prepared b b' l₁ l₂ x held marks hstore =>
    have hstages : (⟨some x, .prepared, marks⟩ : Outline).stages =
        (⟨some x, .active, held⟩ : Outline).stages := stages_storeAll hstore
    obtain rfl := congrArg Prod.fst hstore
    refine custody_of_open hv hnext (fun t ht => ?_) ?_ fun t ht => ?_
    · simpa only [Open, cache_storeAll] using ht
    · refine (stages_perm ..).trans ?_
      rw [hstages]
      exact (stages_perm ..).symm
    · rcases mem_live.1 ht with ⟨-, ht⟩ | ht
      · exact mem_live.2 (Or.inl ⟨rfl, hstages ▸ ht⟩)
      · exact mem_live.2 (Or.inr ht)
  | @unprepared b b' l₁ l₂ x held marks result m hstore =>
    have hmarks := stages_storeAll_take hstore
    obtain rfl := congrArg Prod.fst hstore
    have hstored : Custody floor ⟨(b.storeAll x (held.take m)).1, [],
        l₁ ++ ⟨some x, .active, held⟩ :: l₂⟩ := by
      refine custody_of_open hv (fun ref => ?_) (fun t ht => ?_) (.refl _) fun _ h => h
      · exact Nat.le_of_eq (by rw [next, next, cache_storeAll])
      · simpa only [Open, cache_storeAll] using ht
    have hr : ResolvesAll ((b.storeAll x (held.take m)).1.persistAll []).1
        ((marks ++ held.drop m).map (·.1))
        ((b.storeAll x (held.take m)).1.dropAll (some x) (marks ++ held.drop m)) :=
      resolvesAll_dropAll ..
    refine custody_complete (o := ⟨some x, .active, held⟩) hmarks hmarks rfl hr
      (fun ref => ?_) hstored
    refine Nat.le_trans (Nat.le_of_eq ?_) (hnext ref)
    rw [next, next, cache_storeAll]
  | @committed b b' l₁ l₂ x st held hlive hpersist =>
    have hb' : b' = (b.persistAll held).1 := by rw [hpersist]
    subst hb'
    exact custody_complete (o := ⟨x, st, held⟩) rfl rfl rfl (resolvesAll_promoteAll ..) hnext hv
  | @undone b l₁ l₂ x st held hlive m =>
    exact custody_complete (o := ⟨x, st, held⟩) rfl rfl rfl (resolvesAll_dropAll ..) hnext hv

/-- Custody and the absence of keys between requests are kept in every chain of moves. -/
theorem custody_moves {v v' : View} (h : Moves P v v') (hlocal : v.Local)
    (hkeys : Unkeyed v.books) (hv : Custody floor v) :
    v'.Local ∧ Unkeyed v'.books ∧ Custody floor v' := by
  induction h with
  | refl => exact ⟨hlocal, hkeys, hv⟩
  | tail _ h ih =>
    exact ⟨(steps_move h ih.1).2, unkeyed_move h ih.2.1, custody_move h ih.1 ih.2.2⟩

end Broker

end MessageRouting
