import MessageRouting.Proofs.Cache.Calmness
import MessageRouting.Proofs.Persistence.RolledBackRecords

/-!
# Records written beforehand

A post office in mandatory mode writes the record of a stage when it draws the
key, and makes the identifier visible afterwards. In between the record is that
of a stage which is pending under a key. If every stage whose key has been drawn
becomes visible, the settled journal holds what the caches show, between
requests, as it does in async mode.

Results:

* `matched_persistAll`, `matched_promoteAll`: records, visible identifiers and
  drawn keys match on the way.
* `recorded_perform`: between requests the settled journal holds the visible
  identifiers, unless a commit ends halfway.
-/

namespace MessageRouting

open Relation (ReflGen ReflTransGen)

namespace Ledger

/-- Prepared records are none of the committed ones. -/
theorem committed_applyAll_prepared {es : List Entry} (h : ∀ e ∈ es, e.isPrepared = true)
    (l : Ledger) : (l.applyAll es).committed = l.committed := by
  induction es generalizing l with
  | nil => rfl
  | cons e rest ih =>
    obtain ⟨he, hrest⟩ := List.forall_mem_cons.1 h
    refine (ih hrest (l.apply e)).trans ?_
    rw [committed_apply]
    cases e with
    | add r => cases he
    | prune a n => cases he
    | prepare x r => rfl
    | resolve x => rfl

/-- Entries that add nothing leave the committed records that they do not prune. -/
theorem mem_applyAll_of_unadded {es : List Entry} (h : ∀ s, .add s ∉ es) (l : Ledger) (r : Record) :
    r ∈ (l.applyAll es).committed ↔ r ∈ l.committed ∧ .prune r.address r.sequence ∉ es := by
  induction es generalizing l with
  | nil => simp [applyAll]
  | cons e rest ih =>
    have hrest : ∀ s, .add s ∉ rest := fun s hs => h s (by simp [hs])
    refine (ih hrest (l.apply e)).trans ?_
    cases e with
    | add s => exact absurd (by simp) (h s)
    | prune a n =>
      rw [mem_prune, List.mem_cons, not_or, and_assoc, Entry.prune.injEq]
    | prepare x s => simp [apply]
    | resolve x => simp [apply]

end Ledger

namespace Cache

variable {c c' : Cache} {s t : Staged}

/-- A stage that has its key, if it is pending, has it when another key is drawn. -/
theorem commitKey_drawn {key : Nat} (h : Drawn c s key c')
    (ht : s.duplicateId = t.duplicateId ∨ ∀ q, c.pendingOf? t = some q → q.commitKey ≠ none) :
    ∀ q, c'.pendingOf? t = some q → q.commitKey ≠ none := by
  intro q hq
  obtain ⟨p, -, hpending⟩ := h.pending
  obtain ⟨hget, hseq⟩ := pendingOf?_eq_some.1 hq
  rw [hpending] at hget
  split at hget
  · rw [← Option.some.inj hget]
    simp
  · rename_i hne
    exact ht.resolve_left hne q (pendingOf?_eq_some.2 ⟨hget, hseq⟩)

theorem commitKey_committed {p : Promotion} (h : Committed c s p c')
    (ht : ∀ q, c.pendingOf? t = some q → q.commitKey ≠ none) :
    ∀ q, c'.pendingOf? t = some q → q.commitKey ≠ none := by
  intro q hq
  obtain ⟨hget, hseq⟩ := pendingOf?_eq_some.1 hq
  rw [h.pending] at hget
  split at hget
  · cases hget
  · exact ht q (pendingOf?_eq_some.2 ⟨hget, hseq⟩)

/-- Stages of one identifier that are both pending under keys have one key. -/
theorem key_of_duplicateId (hs : s.duplicateId = t.duplicateId) {k l : Nat}
    (hk : c.keyOf s = some k) (hl : c.keyOf t = some l) : k = l := by
  have hget : ∀ {u : Staged} {n : Nat}, c.keyOf u = some n →
      ∃ q, c.pending.get? u.duplicateId = some q ∧ q.commitKey = some n := by
    intro u n hu
    obtain ⟨q, hq, hn⟩ := Option.bind_eq_some_iff.1 hu
    exact ⟨q, (pendingOf?_eq_some.1 hq).1, hn⟩
  obtain ⟨q, hq, hqk⟩ := hget hk
  obtain ⟨q', hq', hql⟩ := hget hl
  rw [hs, hq', Option.some.injEq] at hq
  rw [hq, hqk, Option.some.injEq] at hql
  exact hql

end Cache

namespace Broker

variable {P : Call → Prop} {b b' : Broker} {v v' : View}

theorem keyOf_of_unkeyed (h : Unkeyed b) (ref : CacheRef) (t : Staged) :
    (b.cache ref).keyOf t = none := unkeyed_iff.1 h ⟨ref, t⟩

/-! ## Records, visible identifiers and keys -/

/-- The committed records, but for those that are about to be pruned, are those of the visible
identifiers and of the stages that are pending under a key. -/
structure Matched (b : Broker) : Prop where
  filed : Filed .mandatory b
  takes : ∀ e : Entry, b.storage.Takes e.method
  unadded : ∀ r, .add r ∉ b.queue
  clear : ∀ a t k, (b.cache (.office 0 a)).keyOf t = some k → .prune a k ∉ b.queue
  mirror : ∀ a k id, ⟨a, k, id⟩ ∈ b.storage.ledger.committed ∧ .prune a k ∉ b.queue ↔
    (k, id) ∈ (b.cache (.office 0 a)).visible ∨
      ∃ t, (b.cache (.office 0 a)).keyOf t = some k ∧ t.duplicateId = id

/-- What is about prepared records only, and leaves visible identifiers and keys, leaves the
match. -/
theorem matched_quiet (hb : Matched b) (hsteps : Steps b b') {inline handed : List Entry}
    (hlogs : Logs b b' inline handed) (hprepared : ∀ e ∈ inline ++ handed, e.isPrepared = true)
    (hvisible : ∀ ref, (b'.cache ref).visible = (b.cache ref).visible)
    (hkeys : ∀ ref t, (b'.cache ref).keyOf t = (b.cache ref).keyOf t) : Matched b' := by
  have hledger : b'.storage.ledger.committed = b.storage.ledger.committed := by
    rw [hlogs.ledger]
    exact Ledger.committed_applyAll_prepared (fun e he => hprepared e (by simp [he])) _
  have hqueue : ∀ e, e.isPrepared = false → (e ∈ b'.queue ↔ e ∈ b.queue) := by
    intro e he
    rw [hlogs.queue, List.mem_append, or_iff_left]
    intro hmem
    rw [hprepared e (by simp [hmem])] at he
    cases he
  refine ⟨of_steps (fun _ _ => filed_step) hsteps hb.filed,
    fun e => hlogs.takes _ (hb.takes e), fun r => ?_, fun a t k ht => ?_, fun a k id => ?_⟩
  · rw [hqueue _ rfl]
    exact hb.unadded r
  · rw [hqueue _ rfl]
    rw [hkeys] at ht
    exact hb.clear a t k ht
  · simp only [hqueue _ (show (Entry.prune a k).isPrepared = false from rfl), hledger, hvisible,
      hkeys]
    exact hb.mirror a k id

/-- The record of a key that is drawn is that of a stage pending under it. -/
theorem matched_drawn (hb : Matched b) (hfiled : Filed .mandatory b') {h : HeldStage}
    (hh : h.AtOffice) {key : Nat} {c : Cache}
    (hdrawn : Cache.Drawn (b.cache h.cache) h.staged key c)
    (hcache : ∀ ref, b'.cache ref = if h.cache = ref then c else b.cache ref)
    (hlogs : Logs b b' [.add (h.staged.recordAt key)] []) : Matched b' := by
  obtain ⟨-, -, hvisible, hfresh⟩ := Cache.key_fresh (hb.filed.numbered.keyed h.cache) hdrawn.next
  have hqueue : b'.queue = b.queue := by rw [hlogs.queue, List.append_nil]
  have hunpruned : .prune h.staged.address key ∉ b.queue := by
    rcases hdrawn.next with ⟨hkey, -⟩ | ⟨-, hnew, -⟩
    · rw [hh] at hkey
      exact hb.clear _ _ _ hkey
    · intro hmem
      have hlt := hb.filed.numbered.prune_lt _ _ hmem
      rw [hh] at hnew
      exact Nat.lt_irrefl _ (hnew ▸ hlt)
  have hself : b'.cache (.office 0 h.staged.address) = c := by
    rw [← hh, hcache, if_pos rfl]
  have hother : ∀ {a : Address}, a ≠ h.staged.address →
      b'.cache (.office 0 a) = b.cache (.office 0 a) := by
    intro a ha
    rw [hcache, if_neg (hh.cache_ne ha)]
  -- A key belongs to its stage from now on, or it belonged to another one before.
  have hkeys : ∀ t k, c.keyOf t = some k → t.duplicateId = h.staged.duplicateId ∧ k = key ∨
      (b.cache (.office 0 h.staged.address)).keyOf t = some k := by
    intro t k ht
    rw [Cache.keyOf_drawn hdrawn] at ht
    split at ht
    · rename_i hsame
      exact Or.inl ⟨hsame.1, (Option.some.inj ht).symm⟩
    · rw [hh] at ht
      exact Or.inr ht
  rw [hh] at hdrawn hvisible hfresh
  refine ⟨hfiled, fun e => hlogs.takes _ (hb.takes e), ?_, fun a t k ht => ?_, fun a k id => ?_⟩
  · rw [hqueue]
    exact hb.unadded
  · rw [hqueue]
    by_cases ha : a = h.staged.address
    · subst ha
      rw [hself] at ht
      rcases hkeys t k ht with ⟨-, rfl⟩ | ht
      · exact hunpruned
      · exact hb.clear _ t k ht
    · rw [hother ha] at ht
      exact hb.clear a t k ht
  · have hmem : ⟨a, k, id⟩ ∈ b'.storage.ledger.committed ↔
        ⟨a, k, id⟩ = h.staged.recordAt key ∨ ⟨a, k, id⟩ ∈ b.storage.ledger.committed ∧
          (h.staged.recordAt key).samePlace ⟨a, k, id⟩ = false := by
      rw [hlogs.ledger]
      exact Ledger.mem_add hb.filed.ordered ..
    rw [hmem, hqueue]
    by_cases ha : a = h.staged.address
    · subst ha
      rw [hself, hdrawn.visible]
      constructor
      · rintro ⟨heq | ⟨hold, -⟩, hprune⟩
        · injection heq with _ hk hid
          refine Or.inr ⟨h.staged, ?_, hid.symm⟩
          rw [Cache.keyOf_drawn hdrawn, if_pos ⟨rfl, rfl⟩, hk]
        · rcases (hb.mirror _ k id).1 ⟨hold, hprune⟩ with hshown | ⟨t, ht, hid⟩
          · exact Or.inl hshown
          · exact Or.inr ⟨t, Cache.keyOf_drawn_of_some hdrawn ht, hid⟩
      · rintro (hshown | ⟨t, ht, rfl⟩)
        · obtain ⟨hold, hprune⟩ := (hb.mirror _ k id).2 (Or.inl hshown)
          refine ⟨Or.inr ⟨hold, ?_⟩, hprune⟩
          simp [Record.samePlace, Staged.recordAt, Ne.symm (hvisible _ hshown)]
        · rcases hkeys t k ht with ⟨hid, rfl⟩ | ht
          · exact ⟨Or.inl (by rw [hid]; rfl), hunpruned⟩
          · obtain ⟨hold, hprune⟩ := (hb.mirror _ k t.duplicateId).2 (Or.inr ⟨t, ht, rfl⟩)
            refine ⟨?_, hprune⟩
            by_cases hk : k = key
            · subst hk
              have hid : t.duplicateId = h.staged.duplicateId :=
                Decidable.byContradiction fun hne => hfresh t hne ht
              exact Or.inl (by rw [hid]; rfl)
            · exact Or.inr ⟨hold, by simp [Record.samePlace, Staged.recordAt, Ne.symm hk]⟩
    · rw [hother ha, ← hb.mirror a k id]
      have hplace : (h.staged.recordAt key).samePlace ⟨a, k, id⟩ = false := by
        simp [Record.samePlace, Staged.recordAt, Ne.symm ha]
      have hne : (⟨a, k, id⟩ : Record) ≠ h.staged.recordAt key :=
        fun heq => ha (congrArg Record.address heq)
      simp [hplace, hne]

/-- A stage that becomes visible under its key leaves the match. -/
theorem matched_promoted (hb : Matched b) (hfiled : Filed .mandatory b') {h : HeldStage}
    (hh : h.AtOffice) {p : Promotion} {c : Cache}
    (hcommitted : Cache.Committed (b.cache h.cache) h.staged p c)
    (hcache : ∀ ref, b'.cache ref = if h.cache = ref then c else b.cache ref)
    (hlogs : Logs b b' [] (p.evicted.map fun e => .prune h.staged.address e.1))
    (hkey : (b.cache h.cache).keyOf h.staged = some p.key) : Matched b' := by
  have hvisible := fun e => Cache.mem_visible_iff hcommitted (hb.filed.numbered.keyed h.cache) e
  have hevicted := fun e he => Cache.mem_visible_of_evicted hcommitted (e := e) he
  have hkeys := Cache.keyOf_resolved hcommitted.pending
  have hne := (hb.filed.numbered.keyed h.cache).key_ne
  have hself : b'.cache (.office 0 h.staged.address) = c := by
    rw [← hh, hcache, if_pos rfl]
  have hother : ∀ {a : Address}, a ≠ h.staged.address →
      b'.cache (.office 0 a) = b.cache (.office 0 a) := by
    intro a ha
    rw [hcache, if_neg (hh.cache_ne ha)]
  have hqueue : ∀ a k, .prune a k ∉ b'.queue ↔
      .prune a k ∉ b.queue ∧ (a = h.staged.address → ∀ e ∈ p.evicted, e.1 ≠ k) := by
    intro a k
    rw [hlogs.queue, List.mem_append, not_or]
    refine and_congr_right fun _ => ?_
    simp only [List.mem_map, Entry.prune.injEq, not_exists, not_and]
    exact ⟨fun hall ha e he => hall e he ha.symm, fun hall e he ha => hall ha.symm e he⟩
  have hledger : b'.storage.ledger = b.storage.ledger := hlogs.ledger
  rw [hh] at hvisible hevicted hkeys hne hkey
  refine ⟨hfiled, fun e => hlogs.takes _ (hb.takes e), fun r hr => ?_, fun a t k ht => ?_,
    fun a k id => ?_⟩
  · rw [hlogs.queue] at hr
    rcases List.mem_append.1 hr with hr | hr
    · exact hb.unadded r hr
    · obtain ⟨e, -, heq⟩ := List.mem_map.1 hr
      cases heq
  · rw [hqueue]
    by_cases ha : a = h.staged.address
    · subst ha
      rw [hself, hkeys] at ht
      split at ht
      · cases ht
      · exact ⟨hb.clear _ t k ht, fun _ e he => hne t k ht e (hevicted e he).1⟩
    · rw [hother ha] at ht
      exact ⟨hb.clear a t k ht, fun heq => absurd heq ha⟩
  · rw [hledger, hqueue, ← and_assoc, hb.mirror]
    by_cases ha : a = h.staged.address
    · subst ha
      rw [hself, hvisible]
      simp only [hkeys, true_implies, Prod.mk.injEq]
      constructor
      · rintro ⟨hshown | ⟨t, ht, rfl⟩, hevict⟩
        · exact Or.inl ⟨Or.inr hshown, hevict⟩
        · by_cases hid : h.staged.duplicateId = t.duplicateId
          · exact Or.inl ⟨Or.inl ⟨Cache.key_of_duplicateId hid.symm ht hkey, hid.symm⟩, hevict⟩
          · exact Or.inr ⟨t, by rw [if_neg hid]; exact ht, rfl⟩
      · rintro (⟨⟨rfl, rfl⟩ | hshown, hevict⟩ | ⟨t, ht, rfl⟩)
        · exact ⟨Or.inr ⟨h.staged, hkey, rfl⟩, hevict⟩
        · exact ⟨Or.inl hshown, hevict⟩
        · split at ht
          · cases ht
          · exact ⟨Or.inr ⟨t, ht, rfl⟩, fun e he => hne t k ht e (hevicted e he).1⟩
    · rw [hother ha, and_iff_left fun heq => absurd heq ha]

/-! ## All stages of a send or a transaction -/

/-- The stage has its key, if it is pending. -/
def Ready (b : Broker) (h : HeldStage) : Prop :=
  ∀ q, (b.cache h.cache).pendingOf? h.staged = some q → q.commitKey ≠ none

theorem Ready.key (h : Ready b g) {q : Pending}
    (hq : (b.cache g.cache).pendingOf? g.staged = some q) :
    ∃ key, (b.cache g.cache).keyOf g.staged = some key := by
  obtain ⟨key, hkey⟩ := Option.ne_none_iff_exists'.1 (h q hq)
  exact ⟨key, by rw [Cache.keyOf, hq]; exact hkey⟩

/-- A stage that has been persisted has its key, and others keep theirs. -/
theorem ready_persistStage {h : HeldStage} {result : Except JournalError Unit}
    (hp : b.persistStage h = (b', result)) : Ready b' h ∧ ∀ g, Ready b g → Ready b' g := by
  rcases cache_persistStage hp with ⟨hnone, hcache⟩ | ⟨key, c, hdrawn, hcache⟩
  · refine ⟨fun q hq => ?_, fun g hg => ?_⟩
    · rw [hcache, hnone] at hq
      cases hq
    · unfold Ready
      rw [hcache]
      exact hg
  · refine ⟨?_, fun g hg => ?_⟩
    · unfold Ready
      rw [hcache, if_pos rfl]
      exact Cache.commitKey_drawn hdrawn (Or.inl rfl)
    · unfold Ready
      rw [hcache]
      split
      · rename_i href
        refine Cache.commitKey_drawn hdrawn (Or.inr ?_)
        rw [href]
        exact hg
      · exact hg

theorem ready_commitStage (hg : Ready b g) (h : HeldStage) : Ready (b.commitStage h) g := by
  rcases cache_commitStage b h with ⟨-, heq⟩ | ⟨p, c, hcommitted, hcache⟩
  · rw [heq]
    exact hg
  · unfold Ready
    rw [hcache]
    split
    · rename_i href
      apply Cache.commitKey_committed hcommitted
      rw [href]
      exact hg
    · exact hg

theorem matched_persistStage (hb : Matched b) {h : HeldStage} (hh : h.AtOffice)
    (hp : b.persistStage h = (b', .ok ())) :
    Matched b' ∧ Ready b' h ∧ ∀ g, Ready b g → Ready b' g := by
  refine ⟨?_, ready_persistStage hp⟩
  have hfiled := filed_step (.persisted hh hp) hb.filed
  rcases logs_persistStage hb.filed.keeping hh hp with ⟨-, rfl, -⟩ |
    ⟨key, c, hdrawn, hcache, -, hlogs⟩
  · exact hb
  · rw [if_pos ⟨rfl, rfl⟩] at hlogs
    exact matched_drawn hb hfiled hh hdrawn hcache hlogs

/-- When all stages have been persisted, records, visible identifiers and keys match, and all
stages have their keys. -/
theorem matched_persistAll (hb : Matched b) {hs : List (HeldStage × Bool)}
    (hhs : ∀ h ∈ hs, h.1.AtOffice) (hp : b.persistAll hs = (b', .ok ())) :
    Matched b' ∧ (∀ h ∈ hs, Ready b' h.1) ∧ ∀ g, Ready b g → Ready b' g := by
  induction hs generalizing b with
  | nil =>
    cases hp
    exact ⟨hb, fun h hh => (by cases hh), fun _ hg => hg⟩
  | cons h rest ih =>
    rcases hstage : b.persistStage h.1 with ⟨c, result⟩
    simp only [persistAll, hstage] at hp
    cases result with
    | error e => cases hp
    | ok _ =>
      obtain ⟨hc, hself, hkept⟩ := matched_persistStage hb (hhs h (by simp)) hstage
      obtain ⟨hb', hrest, hkept'⟩ := ih hc (fun g hg => hhs g (by simp [hg])) hp
      refine ⟨hb', fun g hg => ?_, fun g hg => hkept' g (hkept g hg)⟩
      rcases List.mem_cons.1 hg with rfl | hg
      · exact hkept' _ hself
      · exact hrest g hg

theorem matched_commitStage (hb : Matched b) {h : HeldStage} (hh : h.AtOffice)
    (hready : Ready b h) :
    Matched (b.commitStage h) ∧ ∀ g, Ready b g → Ready (b.commitStage h) g := by
  refine ⟨?_, fun g hg => ready_commitStage hg h⟩
  have hfiled := filed_step (.promoted hh) hb.filed
  rcases logs_commitStage hb.filed.keeping hb.filed.addressed hh with ⟨-, heq⟩ |
    ⟨p, c, hcommitted, hcache, hlogs⟩
  · rw [heq]
    exact hb
  · obtain ⟨q, hq⟩ := hcommitted.pendingOf
    obtain ⟨key, hkey⟩ := hready.key hq
    obtain rfl := Cache.key_of_committed hcommitted hkey
    exact matched_promoted hb hfiled hh hcommitted hcache hlogs hkey

theorem prepared_releasedAll {x : Option Xid} {hs : List (HeldStage × Bool)} :
    ∀ e ∈ [] ++ hs.flatMap (released x), e.isPrepared = true := by
  intro e he
  obtain ⟨y, -, rfl⟩ := mem_released he
  rfl

theorem prepared_released {x : Option Xid} {h : HeldStage × Bool} :
    ∀ e ∈ [] ++ released x h, e.isPrepared = true := by
  intro e he
  have hmem : e ∈ [] ++ [h].flatMap (released x) := by simpa using he
  exact prepared_releasedAll e hmem

/-- When stages that have their keys become visible, records, visible identifiers and keys match. -/
theorem matched_promoteAll (hb : Matched b) {hs : List (HeldStage × Bool)}
    (hhs : ∀ h ∈ hs, h.1.AtOffice) (hready : ∀ h ∈ hs, Ready b h.1) (x : Option Xid) :
    Matched (b.promoteAll x hs) := by
  induction hs generalizing b with
  | nil => exact hb
  | cons h rest ih =>
    have hh := hhs h (by simp)
    obtain ⟨hpromoted, hkept⟩ := matched_commitStage hb hh (hready h (by simp))
    have hreleased : Matched ((b.commitStage h.1).release x h) := by
      refine matched_quiet hpromoted (.single (.released hh x))
        (logs_release hpromoted.filed.keeping hh x) prepared_released (fun ref => ?_)
        fun ref t => ?_
      · rw [cache_release]
      · rw [cache_release]
    refine ih hreleased (fun g hg => hhs g (by simp [hg])) fun g hg => ?_
    unfold Ready
    rw [cache_release]
    exact hkept g.1 (hready g (by simp [hg]))

/-- Stages that are persisted and become visible leave the match. -/
theorem matched_completed (hb : Matched b) {hs : List (HeldStage × Bool)}
    (hhs : ∀ h ∈ hs, h.1.AtOffice) (hp : b.persistAll hs = (b', .ok ())) (x : Option Xid) :
    Matched (b'.promoteAll x hs) := by
  obtain ⟨hb', hready, -⟩ := matched_persistAll hb hhs hp
  exact matched_promoteAll hb' hhs hready x

/-- Stages that are dropped when none has its key leave the match. -/
theorem matched_dropAll (hb : Matched b) (hunkeyed : Unkeyed b) {hs : List (HeldStage × Bool)}
    (hhs : ∀ h ∈ hs, h.1.AtOffice) (x : Option Xid) : Matched (b.dropAll x hs) := by
  have hnone : ∀ h ∈ ([] : List (HeldStage × Bool)).map (·.1), h ∈ hs.map (·.1) := nofun
  have hcleared : Unkeyed (b.dropAll x hs) :=
    unkeyed_resolved hunkeyed hnone (resolvesAll_dropAll b x hs)
  refine matched_quiet hb (steps_dropAll hhs b x) (logs_dropAll hb.filed.keeping hhs x)
    prepared_releasedAll (quiet_dropAll b x hs).visible fun ref t => ?_
  rw [keyOf_of_unkeyed hcleared, keyOf_of_unkeyed hunkeyed]

/-! ## Moves -/

/-- Between requests no stage has its key, and the records match the visible identifiers. -/
structure Recorded (v : View) : Prop where
  atOffice : v.Local
  unkeyed : Unkeyed v.books
  matched : Matched v.books

/-- What leaves records and visible identifiers as they are, when no stage has its key before and
after. -/
theorem matched_unkeyed (hb : Matched b) (hunkeyed : Unkeyed b) (hunkeyed' : Unkeyed b')
    (hsteps : Steps b b') {inline handed : List Entry} (hlogs : Logs b b' inline handed)
    (hprepared : ∀ e ∈ inline ++ handed, e.isPrepared = true)
    (hvisible : ∀ ref, (b'.cache ref).visible = (b.cache ref).visible) : Matched b' :=
  matched_quiet hb hsteps hlogs hprepared hvisible fun ref t => by
    rw [keyOf_of_unkeyed hunkeyed', keyOf_of_unkeyed hunkeyed]

theorem recorded_of_matched (h : Move P v v') (hv : Recorded v) (hmatched : Matched v'.books) :
    Recorded v' :=
  ⟨(steps_move h hv.atOffice).2, unkeyed_move h hv.unkeyed, hmatched⟩

theorem recorded_passes (h : Passes P v v') (hv : Recorded v) : Recorded v' := by
  apply recorded_of_matched h.move hv
  have hsteps := (steps_move h.move hv.atOffice).1
  have hunkeyed' := unkeyed_move h.move hv.unkeyed
  obtain ⟨hlocal, hunkeyed, hmatched⟩ := hv
  cases h with
  | opened a =>
    exact matched_unkeyed hmatched hunkeyed hunkeyed' hsteps (logs_openOfficeCache ..) (by simp)
      fun _ => visible_openOfficeCache ..
  | begun x => exact hmatched
  | waits hc =>
    exact matched_unkeyed hmatched hunkeyed hunkeyed' hsteps (logs_called ..) (by simp)
      fun _ => rfl
  | retries hready =>
    exact matched_unkeyed hmatched hunkeyed hunkeyed' hsteps (logs_called ..) (by simp)
      fun _ => rfl
  | granted hgrant =>
    refine matched_unkeyed hmatched hunkeyed hunkeyed' hsteps (logs_granted hgrant) (by simp) ?_
    obtain ⟨c, hattempt, rfl⟩ := attemptStage_granted hgrant
    obtain ⟨-, -, -, -, rfl⟩ := Cache.attempt_staged hattempt
    exact visible_of_set (fun ref => cache_setCache ..) rfl
  | sent hpersist => exact matched_completed hmatched (atOffice_loose hlocal.atOffice) hpersist none
  | @refused b h os m hearly =>
    obtain rfl : m = 0 := by
      apply hearly
      cases m with
      | zero => rfl
      | succ m =>
        obtain ⟨hok, -⟩ := persistStage_of_takes hmatched.takes h
        rcases hp : b.persistStage h with ⟨c, result⟩
        rw [hp] at hok
        obtain rfl : result = .ok () := hok
        rw [List.take_succ_cons, List.take_nil]
        simp only [persistAll, hp]
    exact matched_dropAll hmatched hunkeyed (atOffice_loose hlocal.atOffice) none
  | registered howner => exact hmatched

/-- A transaction that is completed, and not halfway, leaves the records of visible identifiers. -/
theorem recorded_ends (h : Ends False v v') (hv : Recorded v) : Recorded v' := by
  apply recorded_of_matched (P := Call.Routes) h.move hv
  have hsteps := (steps_move (P := Call.Routes) h.move hv.atOffice).1
  have hlocal' := (steps_move (P := Call.Routes) h.move hv.atOffice).2
  have hunkeyed' := unkeyed_move (P := Call.Routes) h.move hv.unkeyed
  obtain ⟨hlocal, hunkeyed, hmatched⟩ := hv
  -- Storing is about prepared records alone.
  have hstored : ∀ {b b' : Broker} {x : Xid} {hs marks : List (HeldStage × Bool)}
      {result : Except JournalError Unit}, Matched b → (∀ g ∈ hs, g.1.AtOffice) →
      b.storeAll x hs = (b', marks, result) → Matched b' := by
    intro b b' x hs marks result hb hhs hstore
    have hcache : ∀ ref, b'.cache ref = b.cache ref := by
      intro ref
      obtain rfl := congrArg Prod.fst hstore
      exact cache_storeAll ..
    obtain ⟨k, -, hlogs, -⟩ := logs_storeAll hb.filed.keeping hhs hstore
    have hsteps' : Steps b b' := by
      obtain rfl := congrArg Prod.fst hstore
      exact steps_storeAll hhs b x
    refine matched_quiet hb hsteps' hlogs (fun e he => ?_) (fun ref => by rw [hcache])
      fun ref t => by rw [hcache]
    rw [List.append_nil] at he
    obtain ⟨g, -, rfl⟩ := List.mem_map.1 he
    rfl
  cases h with
  | prepared hstore => exact hstored hmatched (atOffice_held hlocal.atOffice) hstore
  | @unprepared b b' l₁ l₂ x held marks result m hstore =>
    have hheld := atOffice_held hlocal.atOffice
    have hb' := hstored hmatched (fun g hg => hheld g (List.mem_of_mem_take hg)) hstore
    have hstoredUnkeyed : Unkeyed b' := by
      obtain rfl := congrArg Prod.fst hstore
      exact KeyedBy.of_cache hunkeyed fun ref => cache_storeAll ..
    exact matched_dropAll hb' hstoredUnkeyed (atOffice_held hlocal'.atOffice) (some x)
  | committed hlive hpersist =>
    exact matched_completed hmatched (atOffice_held hlocal.atOffice) hpersist _
  | undone hlive m hm =>
    obtain rfl := hm.resolve_right id
    exact matched_dropAll hmatched hunkeyed (atOffice_held hlocal.atOffice) _

/-- The writer prunes what is about to be pruned. -/
theorem matched_writeNext (hb : Matched b) : Matched (b.writeNext 0) := by
  have hfiled : Filed .mandatory (b.writeNext 0) := filed_step .written hb.filed
  rcases logs_writeNext b with ⟨-, heq⟩ |
    ⟨e, rest, hqueue, hrest, -, htakes, ⟨-, hledger⟩ | ⟨-, -, hnot⟩⟩
  · rw [heq]
    exact hb
  · have hnot : ∀ r, e ≠ .add r := fun r heq => hb.unadded r (by simp [hqueue, heq])
    refine ⟨hfiled, fun e => htakes _ (hb.takes e), fun r hr => ?_, fun a t k ht hmem => ?_,
      fun a k id => ?_⟩
    · rw [hrest] at hr
      exact hb.unadded r (by simp [hqueue, hr])
    · rw [cache_writeNext] at ht
      rw [hrest] at hmem
      exact hb.clear a t k ht (by simp [hqueue, hmem])
    · rw [cache_writeNext, ← hb.mirror a k id, hledger, hrest, hqueue, List.mem_cons, not_or]
      cases e with
      | add r => exact absurd rfl (hnot r)
      | prune a' n =>
        rw [Ledger.mem_prune, and_assoc, Entry.prune.injEq]
      | prepare x r => simp [Ledger.apply]
      | resolve x => simp [Ledger.apply]
  · exact absurd (hb.takes e) hnot

theorem recorded_written {os : List Outline} (hv : Recorded ⟨b, [], os⟩) :
    Recorded ⟨b.writeNext 0, [], os⟩ :=
  recorded_of_matched (.written (P := Call.Routes)) hv (matched_writeNext hv.matched)

/-! ## Requests -/

/-- What every move of a request keeps, the request keeps. -/
theorem keeps_perform {I : View → Prop} {c : Command} (hc : c.isTraffic = true)
    (hproper : Proper Call.Routes b) (hpasses : ∀ v v', Passes Call.Routes v v' → I v → I v')
    (hwritten : ∀ (b : Broker) os, I ⟨b, [], os⟩ → I ⟨b.writeNext 0, [], os⟩)
    (hends : Ends (c.endsHalfway (b.perform c).2 = true) b.view (b.perform c).1.view →
      I b.view → I (b.perform c).1.view)
    (hb : I b.view) : I (b.perform c).1.view := by
  cases hcompletion : c.isCompletion with
  | true =>
    rcases (Relation.reflGen_iff _ _ _).1 (ends_completion b hcompletion) with heq | h
    · rw [heq]
      exact hb
    · exact hends h hb
  | false =>
    cases hwriting : c.isWriting with
    | true =>
      obtain ⟨k, hk⟩ := writeSome_of_writing hc hwriting hproper.single
      rw [hk]
      clear hk hends hproper
      induction k generalizing b with
      | zero => exact hb
      | succ k ih =>
        refine ih ?_
        rw [view, books_writeNext, outlines_of_transactions (transactions_writeNext ..)]
        exact hwritten _ _ hb
    | false =>
      have h := passes_perform (P := Call.Routes) (fun _ h => h) hc hcompletion hwriting hproper
        fun _ h => routes_of_submits h
      generalize (b.perform c).1.view = v at h
      induction h with
      | refl => exact hb
      | tail _ hpass ih => exact hpasses _ _ hpass ih

theorem recorded_perform {c : Command} (hc : c.isTraffic = true) (hproper : Proper Call.Routes b)
    (hwhole : c.endsHalfway (b.perform c).2 = false) (hb : Recorded b.view) :
    Recorded (b.perform c).1.view :=
  keeps_perform hc hproper (fun _ _ => recorded_passes) (fun _ _ => recorded_written)
    (fun h => recorded_ends (h.imp fun hhalfway => by simp [hwhole] at hhalfway)) hb

/-- Between requests the committed records of the settled journal are the visible identifiers. -/
theorem Recorded.committed (hb : Recorded b.view) (a : Address) (k : Nat) (id : Bytes) :
    ⟨a, k, id⟩ ∈ b.settled.committed ↔ (k, id) ∈ (b.cache (.office 0 a)).visible := by
  have hmirror := hb.matched.mirror a k id
  have hunadded : ∀ r, .add r ∉ b.queue := by
    rw [← queue_books]
    exact hb.matched.unadded
  rw [settled, Ledger.mem_applyAll_of_unadded hunadded]
  rw [show b.view.books.queue = b.queue from queue_books b] at hmirror
  refine hmirror.trans (or_iff_left ?_)
  rintro ⟨t, ht, -⟩
  rw [keyOf_of_unkeyed hb.unkeyed] at ht
  cases ht

/-- A post office begins with the records of visible identifiers. -/
theorem Begun.recorded (hb : Begun .mandatory b) (htakes : ∀ e : Entry, b.storage.Takes e.method) :
    Recorded b.view := by
  have hqueue : b.view.books.queue = [] := (queue_books b).trans hb.queue
  refine ⟨hb.atOffice, hb.unkeyed, hb.filed, htakes, fun r => ?_, fun a t k _ => ?_,
    fun a k id => ?_⟩
  · rw [hqueue]
    exact List.not_mem_nil
  · rw [hqueue]
    exact List.not_mem_nil
  · rw [hqueue, and_iff_left List.not_mem_nil]
    refine (hb.mirror a k id).trans (or_iff_left ?_).symm
    rintro ⟨t, ht, -⟩
    rw [show (b.view.books.cache (.office 0 a)).keyOf t = none from
      keyOf_of_unkeyed hb.unkeyed ..] at ht
    cases ht

end Broker

end MessageRouting
