import MessageRouting.Proofs.Cache.TraceWindow
import MessageRouting.Proofs.Restart.StartOutcomes

/-!
# Calm caches

A cache is calm if its entries are in order and none of its pending stages has a
commit key. Commits disturb it and leave it calm again, and so does filling it
from the journal, whatever the journal holds.

Results:

* `calm_load`, `calm_recover`: a start leaves caches calm.
* `calm_promoted`, `calm_dropped`: so does completing a send or a transaction.
* `calm_move`: so does every move.
-/

namespace MessageRouting

open Relation (ReflGen)

/-! ## One cache -/

namespace Cache

/-- The visible entries are in order and no pending stage has a commit key. -/
structure Calm (c : Cache) : Prop extends Keyed c where
  unkeyed : ∀ t, c.keyOf t = none

/-- Without keys it is enough that the entries are in order. -/
theorem calm_of_sorted {c : Cache} (hsorted : Sorted c.visible)
    (hlt : ∀ e ∈ c.visible, e.1 < c.nextSequence) (hkeys : ∀ t, c.keyOf t = none) : Calm c where
  sorted := hsorted
  visible_lt := hlt
  key_lt := fun t key h => by rw [hkeys t] at h; cases h
  key_ne := fun t key h => by rw [hkeys t] at h; cases h
  key_inj := fun t u key h => by rw [hkeys t] at h; cases h
  unkeyed := hkeys

theorem calm_empty (a : Address) (n : Nat) : Calm { address := a, capacity := n } :=
  ⟨keyed_empty a n, fun _ => rfl⟩

theorem calm_staged {c c' : Cache} {id : Bytes} {owner : Owner} {s : Staged} (hc : Calm c)
    (h : c.attempt id owner = (some (.staged s), c')) : Calm c' :=
  ⟨keyed_change (.staged h) hc.toKeyed, fun t => (keyOf_staged h t).trans (hc.unkeyed t)⟩

theorem calm_recover {c : Cache} (hc : Calm c) (r : Record) (owner : Owner) :
    Calm (c.recover r owner).2 := by
  refine ⟨keyed_recover hc.toKeyed r owner, fun t => ?_⟩
  rw [keyOf_recover]
  split
  · rfl
  · exact hc.unkeyed t

theorem calm_passSequence {c : Cache} (hc : Calm c) (r : Record) : Calm (c.passSequence r) :=
  calm_of_sorted hc.sorted
    (fun e he => Nat.lt_of_lt_of_le (hc.visible_lt e he) (Nat.le_max_left ..)) hc.unkeyed

theorem calm_remember {c : Cache} (hc : Calm c) (r : Record) : Calm (c.remember r) := by
  refine calm_of_sorted (sorted_placeVisible hc.sorted) (fun e he => ?_) hc.unkeyed
  show e.1 < max c.nextSequence (r.sequence + 1)
  rcases mem_placeVisible he with rfl | he
  · exact Nat.lt_of_lt_of_le (Nat.lt_succ_self _) (Nat.le_max_right ..)
  · exact Nat.lt_of_lt_of_le (hc.visible_lt e he) (Nat.le_max_left ..)

theorem calm_load {c : Cache} (hc : Calm c) (rs : List Record) : Calm (c.load rs) := by
  have hremember := List.foldlRecOn (motive := Calm) (retained c.capacity rs) remember hc
    fun d hd r _ => calm_remember hd r
  exact List.foldlRecOn (motive := Calm) (surplus c.capacity rs) passSequence hremember
    fun d hd r _ => calm_passSequence hd r

end Cache

namespace Broker

variable {b b' : Broker}

/-! ## All caches -/

/-- All caches are calm. -/
def Calm (b : Broker) : Prop := ∀ ref, (b.cache ref).Calm

theorem Calm.keyed (hb : Calm b) : AllKeyed b := fun ref => (hb ref).toKeyed

theorem Calm.unkeyed (hb : Calm b) : Unkeyed b :=
  unkeyed_iff.2 fun t => (hb t.cache).unkeyed t.staged

theorem calm_of_unkeyed (hkeyed : AllKeyed b) (hunkeyed : Unkeyed b) : Calm b := fun ref =>
  ⟨hkeyed ref, fun s => unkeyed_iff.1 hunkeyed ⟨ref, s⟩⟩

theorem Calm.of_cache (hb : Calm b) (hcache : ∀ ref, b'.cache ref = b.cache ref) : Calm b' :=
  fun ref => by rw [hcache]; exact hb ref

theorem Calm.of_view (hb : Calm b) (hview : b'.view = b.view) : Calm b' :=
  hb.of_cache fun ref => congrArg (fun v : View => v.books.cache ref) hview

theorem calm_setCache (hb : Calm b) (ref : CacheRef) {c : Cache} (hc : c.Calm) :
    Calm (b.setCache ref c) := fun ref' => by
  rw [cache_setCache]
  split
  · exact hc
  · exact hb ref'

theorem calm_openCache (hb : Calm b) (ref : CacheRef) (a : Address) (capacity : Nat) :
    Calm (b.openCache ref a capacity) := by
  unfold openCache
  split
  · exact hb
  · exact calm_setCache hb ref (Cache.calm_empty ..)

theorem calm_attemptStage (hb : Calm b) (ref : CacheRef) (id : Bytes) (owner : Owner) :
    Calm (b.attemptStage ref id owner).1 := by
  unfold attemptStage
  split
  · rename_i s c hattempt
    exact calm_setCache hb ref (Cache.calm_staged (hb ref) hattempt)
  · exact hb

/-! ## Persisting and resolving -/

theorem keyed_persistAll (hb : AllKeyed b) (hs : List (HeldStage × Bool)) :
    AllKeyed (b.persistAll hs).1 :=
  persistAll_keeps (R := fun b b' => AllKeyed b → AllKeyed b') (fun _ => id)
    (fun h h' hb => h' (h hb)) (fun _ _ _ hb => keyed_persistStage hb rfl) b hb

theorem keyed_commitStage (hb : AllKeyed b) (h : HeldStage) : AllKeyed (b.commitStage h) := by
  rcases cache_commitStage b h with ⟨-, heq⟩ | ⟨p, c, hcommitted, hcache⟩
  · rw [heq]
    exact hb
  · exact keyed_of_setCache hb (.committed hcommitted) hcache

theorem keyed_rollbackStage (hb : AllKeyed b) (h : HeldStage) : AllKeyed (b.rollbackStage h) := by
  rcases rollbackStage_cases b h with ⟨-, heq⟩ | ⟨q, c, hq, hc, heq⟩
  · rw [heq]
    exact hb
  · refine keyed_of_setCache hb (.dropped hq hc) fun ref => ?_
    rw [heq, cache_wake, cache_log, cache_setCache]

theorem keyed_promoteAll (hb : AllKeyed b) (x : Option Xid) (hs : List (HeldStage × Bool)) :
    AllKeyed (b.promoteAll x hs) :=
  List.foldlRecOn (motive := AllKeyed) hs _ hb fun c hc h _ ref => by
    rw [cache_release]
    exact keyed_commitStage hc h.1 ref

theorem keyed_dropAll (hb : AllKeyed b) (x : Option Xid) (hs : List (HeldStage × Bool)) :
    AllKeyed (b.dropAll x hs) :=
  List.foldlRecOn (motive := AllKeyed) hs _ hb fun c hc h _ ref => by
    rw [cache_release]
    exact keyed_rollbackStage hc h.1 ref

/-- Stages that are persisted and made visible leave no key. -/
theorem calm_promoted (hb : Calm b) {x : Option Xid} {hs : List (HeldStage × Bool)} {c : Broker}
    (hp : b.persistAll hs = (c, .ok ())) : Calm (c.promoteAll x hs) := by
  obtain rfl : (b.persistAll hs).1 = c := congrArg Prod.fst hp
  exact calm_of_unkeyed (keyed_promoteAll (keyed_persistAll hb.keyed hs) x hs)
    (unkeyed_resolved hb.unkeyed (fun _ hg => hg) (resolvesAll_promoteAll ..))

/-- Neither do stages that are dropped when some of them have been persisted. -/
theorem calm_dropped (hb : Calm b) (x : Option Xid) (hs : List (HeldStage × Bool)) (m : Nat) :
    Calm ((b.persistAll (hs.take m)).1.dropAll x hs) := by
  refine calm_of_unkeyed (keyed_dropAll (keyed_persistAll hb.keyed _) x hs)
    (unkeyed_resolved hb.unkeyed (fun g hg => ?_) (resolvesAll_dropAll ..))
  rw [List.map_take] at hg
  exact List.mem_of_mem_take hg

theorem calm_commitStage (hb : Calm b) (h : HeldStage) : Calm (b.commitStage h) := by
  have hr : ResolvesAll (b.persistAll []).1 ([(h, false)].map (·.1)) (b.commitStage h) :=
    .cons (resolves_commitStage b h) (.nil _)
  exact calm_of_unkeyed (keyed_commitStage hb.keyed h)
    (unkeyed_resolved hb.unkeyed (fun _ hg => absurd hg (by simp)) hr)

theorem calm_rollbackStage (hb : Calm b) (h : HeldStage) : Calm (b.rollbackStage h) :=
  calm_dropped hb none [(h, false)] 0

theorem calm_move {P : Call → Prop} {v v' : View} (h : Move P v v') (hv : Calm v.books) :
    Calm v'.books := by
  cases h with
  | opened a => exact calm_openCache hv _ _ _
  | begun x => exact hv
  | written => exact hv.of_cache fun ref => cache_writeNext ..
  | waits hc => exact hv
  | retries hready => exact hv
  | granted hgrant =>
    obtain rfl := congrArg Prod.fst hgrant
    exact calm_attemptStage hv _ _ _
  | sent hpersist => exact calm_promoted hv hpersist
  | @refused b h os m => exact calm_dropped hv none [(h, false)] m
  | registered howner => exact hv
  | prepared hstore =>
    obtain rfl := congrArg Prod.fst hstore
    exact hv.of_cache fun ref => cache_storeAll ..
  | unprepared hstore =>
    obtain rfl := congrArg Prod.fst hstore
    exact calm_dropped (hv.of_cache fun ref => cache_storeAll ..) _ _ 0
  | committed hlive hpersist => exact calm_promoted hv hpersist
  | undone hlive m => exact calm_dropped hv _ _ m

theorem calm_reflGen {P : Call → Prop} {v v' : View} (h : ReflGen (Move P) v v')
    (hv : Calm v.books) : Calm v'.books := by
  cases h with
  | refl => exact hv
  | single h => exact calm_move h hv

end Broker

end MessageRouting
