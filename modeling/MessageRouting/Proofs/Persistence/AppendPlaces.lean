import Mathlib.Data.List.Perm.Subperm
import MessageRouting.Proofs.Persistence.AskedWrites

/-!
# Places of appended records

A cache numbers upwards from a floor, and draws a new number for each commit. So
a place in the journal is asked for once at most, whether the journal takes the
record or not: in async mode when the stage becomes visible, in mandatory mode
when its key is drawn, which is why a stage must not be persisted twice.

Results:

* `allotted_persistAll`, `allotted_promoteAll`, `allotted_dropAll`,
  `allotted_storeAll`: dealing with the stages of a transaction asks for no place
  again.
-/

namespace MessageRouting

/-- The address and the sequence that a record stands at. -/
def Record.place (r : Record) : Address × Nat := (r.address, r.sequence)

namespace Broker

variable {mode : PersistenceMode} {floor : CacheRef → Nat} {b b' : Broker}

/-! ## Keys that resolving leaves -/

theorem keyOf_of_resolves {h t : HeldStage} {k : Nat} (hr : Resolves b h b')
    (ht : b'.keyOf t = some k) : b.keyOf t = some k := by
  by_cases href : h.cache = t.cache
  · rcases hr.pending with ⟨-, heq⟩ | ⟨-, hpending⟩
    · rwa [keyOf, ← href, heq, href] at ht
    · rw [keyOf, ← href, Cache.keyOf_resolved hpending] at ht
      split at ht
      · cases ht
      · rwa [keyOf, ← href]
  · rwa [keyOf, hr.others _ href] at ht

/-! ## Records that are asked for -/

/-- The committed records that the journal has been or will be asked to add. -/
def additions (b : Broker) : List Record := b.requests.filterMap Entry.added?

/-- The prepared records that the journal has been or will be asked to add. -/
def deposits (b : Broker) : List PreparedRecord := b.requests.filterMap Entry.stored?

theorem Asks.additions {new : List Entry} (h : Asks b b' new) :
    b'.additions.Perm (b.additions ++ new.filterMap Entry.added?) := by
  have := h.filterMap Entry.added?
  rwa [List.filterMap_append] at this

theorem Asks.deposits {new : List Entry} (h : Asks b b' new) :
    b'.deposits.Perm (b.deposits ++ new.filterMap Entry.stored?) := by
  have := h.filterMap Entry.stored?
  rwa [List.filterMap_append] at this

/-- The records that are asked for have places of their own, numbered from the floor on, and the
prepared ones are those of `ps`. -/
structure Allotted (mode : PersistenceMode) (floor : CacheRef → Nat) (ps : List PreparedRecord)
    (b : Broker) : Prop where
  keeping : Keeping mode b
  addressed : Addressed b
  keyed : AllKeyed b
  floor_le : ∀ ref, floor ref ≤ b.next ref
  above : ∀ t k, b.keyOf t = some k → floor t.cache ≤ k
  apart : (b.additions.map Record.place).Nodup
  within : ∀ r ∈ b.additions,
    floor (.office 0 r.address) ≤ r.sequence ∧ r.sequence < b.next (.office 0 r.address)
  /-- In async mode the place of a key is asked for when the key is used. -/
  unused : mode = .async → ∀ r ∈ b.additions, ∀ t, t.cache = .office 0 r.address →
    b.keyOf t ≠ some r.sequence
  deposits : b.deposits.Perm ps

variable {ps : List PreparedRecord}

/-- Where no committed record is asked for and no key drawn, every record keeps its place. -/
theorem allotted_quiet (hb : Allotted mode floor ps b) (hsteps : Steps b b') {new : List Entry}
    (hasks : Asks b b' new) (hadded : new.filterMap Entry.added? = [])
    (hkeys : ∀ t k, b'.keyOf t = some k → b.keyOf t = some k) :
    Allotted mode floor (ps ++ new.filterMap Entry.stored?) b' := by
  have hadditions := hasks.additions
  rw [hadded, List.append_nil] at hadditions
  have hnext := next_le_of_steps hsteps
  exact {
    keeping := of_steps (fun _ _ => keeping_step) hsteps hb.keeping
    addressed := of_steps (fun _ _ => addressed_step) hsteps hb.addressed
    keyed := of_steps (fun _ _ => keyed_step) hsteps hb.keyed
    floor_le := fun ref => Nat.le_trans (hb.floor_le ref) (hnext ref)
    above := fun t k ht => hb.above t k (hkeys t k ht)
    apart := (hadditions.map _).nodup_iff.2 hb.apart
    within := fun r hr =>
      let hwithin := hb.within r (hadditions.mem_iff.1 hr)
      ⟨hwithin.1, Nat.lt_of_lt_of_le hwithin.2 (hnext _)⟩
    unused := fun hasync r hr t href ht =>
      hb.unused hasync r (hadditions.mem_iff.1 hr) t href (hkeys t _ ht)
    deposits := hasks.deposits.trans (hb.deposits.append_right _) }

/-- Where nothing is asked for, either. -/
theorem allotted_silent (hb : Allotted mode floor ps b) (hsteps : Steps b b')
    (hasks : Asks b b' []) (hkeys : ∀ t k, b'.keyOf t = some k → b.keyOf t = some k) :
    Allotted mode floor ps b' := by
  have := allotted_quiet hb hsteps hasks rfl hkeys
  rwa [List.filterMap_nil, List.append_nil] at this

/-- The key of a stage lies above the floor, and nobody has asked for its place. -/
theorem Allotted.key_fresh (hb : Allotted mode floor ps b) {h : HeldStage} (hh : h.AtOffice)
    {key m : Nat} (hdrawn : (b.cache h.cache).KeyDrawn h.staged key m)
    (hnone : mode = .mandatory → b.keyOf h = none) :
    floor h.cache ≤ key ∧ ∀ r ∈ b.additions, r.place ≠ (h.staged.recordAt key).place := by
  rcases hdrawn with ⟨hkey, -⟩ | ⟨-, rfl, -⟩
  · refine ⟨hb.above h key hkey, fun r hr hplace => ?_⟩
    obtain ⟨haddress, rfl⟩ := Prod.mk.inj hplace
    cases hmode : mode with
    | async => exact hb.unused hmode r hr h (hh.trans (by rw [haddress]; rfl)) hkey
    | mandatory =>
      have hkey' : b.keyOf h = _ := hkey
      rw [hnone hmode] at hkey'
      cases hkey'
  · refine ⟨hb.floor_le _, fun r hr hplace => ?_⟩
    obtain ⟨haddress, hsequence⟩ := Prod.mk.inj hplace
    have href : CacheRef.office 0 r.address = h.cache := by
      rw [haddress]
      exact hh.symm
    have hlt := (hb.within r hr).2
    rw [href, hsequence] at hlt
    exact Nat.lt_irrefl _ hlt

/-- A record that has been asked for or is that of a fresh key. -/
theorem Allotted.add (hb : Allotted mode floor ps b) {h : HeldStage} (hh : h.AtOffice)
    {key : Nat} (hfresh : floor h.cache ≤ key ∧
      ∀ r ∈ b.additions, r.place ≠ (h.staged.recordAt key).place)
    (hlt : key < b'.next h.cache) (hnext : ∀ ref, b.next ref ≤ b'.next ref) {new : List Entry}
    (hasks : Asks b b' new) (hnew : new.filterMap Entry.added? = [] ∨
      new.filterMap Entry.added? = [h.staged.recordAt key]) :
    (b'.additions.map Record.place).Nodup ∧ ∀ r ∈ b'.additions,
      floor (.office 0 r.address) ≤ r.sequence ∧ r.sequence < b'.next (.office 0 r.address) := by
  have hadditions := hasks.additions
  have hold : ∀ r ∈ b.additions, floor (.office 0 r.address) ≤ r.sequence ∧
      r.sequence < b'.next (.office 0 r.address) := fun r hr =>
    ⟨(hb.within r hr).1, Nat.lt_of_lt_of_le (hb.within r hr).2 (hnext _)⟩
  rcases hnew with hnew | hnew
  · rw [hnew, List.append_nil] at hadditions
    exact ⟨(hadditions.map _).nodup_iff.2 hb.apart,
      fun r hr => hold r (hadditions.mem_iff.1 hr)⟩
  · rw [hnew] at hadditions
    refine ⟨(hadditions.map _).nodup_iff.2 ?_, fun r hr => ?_⟩
    · rw [List.map_append, List.nodup_append]
      refine ⟨hb.apart, List.nodup_singleton _, fun p hp q hq hpq => ?_⟩
      obtain ⟨r, hr, rfl⟩ := List.mem_map.1 hp
      rw [List.map_singleton, List.mem_singleton] at hq
      exact hfresh.2 r hr (hpq.trans hq)
    · rcases List.mem_append.1 (hadditions.mem_iff.1 hr) with hr | hr
      · exact hold r hr
      · rw [List.mem_singleton.1 hr]
        rw [hh] at hfresh hlt
        exact ⟨hfresh.1, hlt⟩

/-! ## Persisting and promoting -/

/-- In mandatory mode a stage is persisted that has no key yet. -/
theorem allotted_persistStage (hb : Allotted mode floor ps b) {h : HeldStage} (hh : h.AtOffice)
    {result : Except JournalError Unit} (hp : b.persistStage h = (b', result))
    (hnone : mode = .mandatory → b.keyOf h = none) : Allotted mode floor ps b' := by
  have hstep : Step b b' := .persisted hh hp
  rcases asks_persistStage hb.keeping hh hp with rfl | ⟨key, c, hdrawn, hcache, hasks⟩
  · exact hb
  have hfresh := hb.key_fresh hh hdrawn.next hnone
  have hself : b'.next h.cache = c.nextSequence := by rw [next, hcache, if_pos rfl]
  have hlt : key < b'.next h.cache := hself ▸ (Cache.key_fresh (hb.keyed h.cache) hdrawn.next).1
  have hkeys : ∀ t k, b'.keyOf t = some k →
      b.keyOf t = some k ∨ t.cache = h.cache ∧ k = key := by
    intro t k ht
    rw [keyOf, hcache] at ht
    split at ht
    · rename_i href
      rw [Cache.keyOf_drawn hdrawn] at ht
      split at ht
      · exact .inr ⟨href.symm, (Option.some.inj ht).symm⟩
      · exact .inl (by rwa [keyOf, ← href])
    · exact .inl ht
  have hnext := next_le_of_step hstep
  obtain ⟨hapart, hwithin⟩ := hb.add hh hfresh hlt hnext hasks (by
    split
    · exact .inr rfl
    · exact .inl rfl)
  have hdeposits := hasks.deposits
  exact {
    keeping := keeping_step hstep hb.keeping
    addressed := addressed_step hstep hb.addressed
    keyed := keyed_step hstep hb.keyed
    floor_le := fun ref => Nat.le_trans (hb.floor_le ref) (hnext ref)
    above := fun t k ht => by
      rcases hkeys t k ht with ht | ⟨href, rfl⟩
      · exact hb.above t k ht
      · exact href ▸ hfresh.1
    apart := hapart
    within := hwithin
    unused := fun hasync r hr t href ht => by
      have hadditions := hasks.additions
      rw [if_neg (by simp [hasync]), List.filterMap_nil, List.append_nil] at hadditions
      have hr := hadditions.mem_iff.1 hr
      rcases hkeys t _ ht with ht | ⟨href', hseq⟩
      · exact hb.unused hasync r hr t href ht
      · refine hfresh.2 r hr (Prod.ext ?_ hseq)
        rw [href, hh] at href'
        exact (CacheRef.office.inj href').2
    deposits := by
      have hnone : (if mode = .mandatory then [Entry.add (h.staged.recordAt key)] else []).filterMap
          Entry.stored? = [] := by split <;> rfl
      rw [hnone, List.append_nil] at hdeposits
      exact hdeposits.trans hb.deposits }

theorem filterMap_entries (mode : PersistenceMode) (p : Promotion) (s : Staged) :
    (p.entries mode s).filterMap Entry.added? =
        (if mode = .async then [s.recordAt p.key] else []) ∧
      (p.entries mode s).filterMap Entry.stored? = [] := by
  have hprunes : ∀ evicted : List (Nat × Bytes),
      (evicted.map fun e => Entry.prune s.address e.1).filterMap Entry.added? = [] ∧
        (evicted.map fun e => Entry.prune s.address e.1).filterMap Entry.stored? = [] := by
    intro evicted
    induction evicted with
    | nil => exact ⟨rfl, rfl⟩
    | cons e rest ih => exact ih
  rw [Promotion.entries, List.filterMap_append, List.filterMap_append, (hprunes _).1,
    (hprunes _).2, List.append_nil, List.append_nil]
  split
  · exact ⟨rfl, rfl⟩
  · exact ⟨rfl, rfl⟩

/-- In mandatory mode nothing is asked for when a stage becomes visible but prunes. -/
theorem allotted_commitStage (hb : Allotted mode floor ps b) {h : HeldStage} (hh : h.AtOffice) :
    Allotted mode floor ps (b.commitStage h) := by
  have hstep : Step b (b.commitStage h) := .promoted hh
  rcases asks_commitStage hb.keeping hb.addressed hh with heq | ⟨p, c, hcommitted, hcache, hasks⟩
  · rwa [heq]
  have hkeys : ∀ t k, (b.commitStage h).keyOf t = some k → b.keyOf t = some k :=
    fun t k => keyOf_of_resolves (resolves_commitStage b h)
  obtain ⟨hadded, hstored⟩ := filterMap_entries mode p h.staged
  cases hmode : mode with
  | mandatory =>
    rw [hmode] at hadded hasks hstored
    subst hmode
    have := allotted_quiet hb (.single hstep) hasks (by rw [hadded]; rfl) hkeys
    rwa [hstored, List.append_nil] at this
  | async =>
    subst hmode
    have hself : (b.commitStage h).next h.cache = c.nextSequence := by
      rw [next, hcache, if_pos rfl]
    obtain ⟨hlt, -, -, hothers⟩ := Cache.key_fresh (hb.keyed h.cache) hcommitted.next
    have hfresh := hb.key_fresh hh hcommitted.next (by simp)
    have hnext := next_le_of_step hstep
    obtain ⟨hapart, hwithin⟩ := hb.add hh hfresh (hself ▸ hlt) hnext hasks (.inr hadded)
    have hdeposits := hasks.deposits
    rw [hstored, List.append_nil] at hdeposits
    exact {
      keeping := keeping_step hstep hb.keeping
      addressed := addressed_step hstep hb.addressed
      keyed := keyed_step hstep hb.keyed
      floor_le := fun ref => Nat.le_trans (hb.floor_le ref) (hnext ref)
      above := fun t k ht => hb.above t k (hkeys t k ht)
      apart := hapart
      within := hwithin
      unused := fun _ r hr t href ht => by
        have hr := hasks.additions.mem_iff.1 hr
        rw [hadded, if_pos rfl, List.mem_append, List.mem_singleton] at hr
        rcases hr with hr | rfl
        · exact hb.unused rfl r hr t href (hkeys t _ ht)
        · -- The stage itself is pending no longer, and no other has its key.
          have href : h.cache = t.cache := hh.trans href.symm
          rw [keyOf, hcache, if_pos href, Cache.keyOf_resolved hcommitted.pending] at ht
          split at ht
          · cases ht
          · rename_i hid
            exact hothers t.staged (Ne.symm hid) ht
      deposits := hdeposits.trans hb.deposits }

/-! ## All stages of a transaction -/

/-- Different stages are persisted one by one, none of which has a key before. -/
theorem allotted_persistAll {gs : List HeldStage} {hs : List (HeldStage × Bool)}
    (hb : Allotted mode floor ps b) (hby : KeyedBy b gs) (hgs : ∀ g ∈ gs, g.AtOffice)
    (hhs : ∀ h ∈ hs, h.1.AtOffice)
    (hnodup : ((gs ++ hs.map (·.1)).map (·.staged.record)).Nodup) :
    Allotted mode floor ps (b.persistAll hs).1 := by
  induction hs generalizing b gs with
  | nil => exact hb
  | cons h rest ih =>
    have hh := hhs h (by simp)
    have hnone : b.keyOf h.1 = none := by
      refine Decidable.byContradiction fun hkey => ?_
      obtain ⟨g, hg, href, hid, hseq⟩ := hby h.1 hkey
      rw [List.map_append, List.nodup_append] at hnodup
      refine hnodup.2.2 _ (List.mem_map_of_mem hg) h.1.staged.record (by simp) ?_
      have haddress : g.staged.address = h.1.staged.address := by
        rw [hgs g hg, hh] at href
        exact (CacheRef.office.inj href).2
      rw [Staged.record, Staged.record, Staged.recordAt, Staged.recordAt, haddress, hid, hseq]
    rcases hp : b.persistStage h.1 with ⟨c, result⟩
    have hc := allotted_persistStage hb hh hp fun _ => hnone
    simp only [persistAll, hp]
    cases result with
    | error e => exact hc
    | ok _ =>
      have hby' : KeyedBy c (gs ++ [h.1]) := by
        refine (keyedBy_persistStage hby hp).mono fun g hg => ?_
        rcases List.mem_cons.1 hg with rfl | hg
        · simp
        · simp [hg]
      refine ih hc hby' (fun g hg => ?_) (fun g hg => hhs g (by simp [hg])) (by simpa using hnodup)
      rcases List.mem_append.1 hg with hg | hg
      · exact hgs g hg
      · exact List.mem_singleton.1 hg ▸ hh

theorem filterMap_released (x : Option Xid) (h : HeldStage × Bool) :
    (released x h).filterMap Entry.added? = [] ∧ (released x h).filterMap Entry.stored? = [] := by
  unfold released
  split
  · split
    · exact ⟨rfl, rfl⟩
    · exact ⟨rfl, rfl⟩
  · exact ⟨rfl, rfl⟩

theorem allotted_release (hb : Allotted mode floor ps b) {h : HeldStage × Bool}
    (hh : h.1.AtOffice) (x : Option Xid) : Allotted mode floor ps (b.release x h) := by
  have := allotted_quiet hb (.single (.released hh x)) (asks_release hb.keeping hh x)
    (filterMap_released x h).1 fun t k ht => by rwa [keyOf, cache_release] at ht
  rwa [(filterMap_released x h).2, List.append_nil] at this

theorem allotted_promoteAll {hs : List (HeldStage × Bool)} (hb : Allotted mode floor ps b)
    (hhs : ∀ h ∈ hs, h.1.AtOffice) (x : Option Xid) :
    Allotted mode floor ps (b.promoteAll x hs) :=
  List.foldlRecOn (motive := Allotted mode floor ps) hs _ hb fun _ hc h hmem =>
    allotted_release (allotted_commitStage hc (hhs h hmem)) (hhs h hmem) x

theorem allotted_rollbackStage (hb : Allotted mode floor ps b) {h : HeldStage}
    (hh : h.AtOffice) : Allotted mode floor ps (b.rollbackStage h) :=
  allotted_silent hb (.single (.dropped hh)) (asks_rollbackStage b h)
    fun _ _ => keyOf_of_resolves (resolves_rollbackStage b h)

theorem allotted_dropAll {hs : List (HeldStage × Bool)} (hb : Allotted mode floor ps b)
    (hhs : ∀ h ∈ hs, h.1.AtOffice) (x : Option Xid) :
    Allotted mode floor ps (b.dropAll x hs) :=
  List.foldlRecOn (motive := Allotted mode floor ps) hs _ hb fun _ hc h hmem =>
    allotted_release (allotted_rollbackStage hc (hhs h hmem)) (hhs h hmem) x

/-- Storing a branch asks for prepared records of its first stages. -/
theorem allotted_storeAll {hs : List (HeldStage × Bool)} (hb : Allotted mode floor ps b)
    (hhs : ∀ h ∈ hs, h.1.AtOffice) (x : Xid) :
    ∃ k, Allotted mode floor (ps ++ (hs.take k).map fun h => ⟨x, h.1.staged.record⟩)
      (b.storeAll x hs).1 := by
  obtain ⟨k, hk⟩ := asks_storeAll hb.keeping hhs x
  have hentries : ∀ gs : List (HeldStage × Bool),
      (gs.map fun h => Entry.prepare x h.1.staged.record).filterMap Entry.added? = [] ∧
        (gs.map fun h => Entry.prepare x h.1.staged.record).filterMap Entry.stored? =
          gs.map fun h => ⟨x, h.1.staged.record⟩ := by
    intro gs
    induction gs with
    | nil => exact ⟨rfl, rfl⟩
    | cons g rest ih => exact ⟨ih.1, congrArg (List.cons _) ih.2⟩
  have := allotted_quiet hb (steps_storeAll hhs b x) hk (hentries _).1
    fun t k ht => by rwa [keyOf, cache_storeAll] at ht
  rw [(hentries _).2] at this
  exact ⟨k, this⟩

end Broker

end MessageRouting
