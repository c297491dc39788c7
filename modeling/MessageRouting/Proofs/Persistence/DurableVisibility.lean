import MessageRouting.Proofs.Persistence.ModeAgreement
import MessageRouting.Proofs.Persistence.OverlappingCommits
import MessageRouting.Proofs.Restart.NewestRecords

/-!
# Durability of visible identifiers

In mandatory mode a record is appended before its identifier becomes visible,
while prunes and deletions are left to the writer, so a crash may leave more
records in the journal than there were visible identifiers. If commits follow
one another, identifiers become visible in the order of their keys, and the
records that are too many are older than all visible identifiers: a start does
not take them in. The exception is a transaction that is rolled back after a
record of its own has been appended. It leaves that record stray.

Results:

* `lined_persistAll`: the keys of one commit come after all visible ones, in the
  order of its stages.
* `tracked_run`: every record is that of a visible identifier, or outdated.
* `visible_durable`: after a crash a start shows exactly what was visible.
-/

namespace MessageRouting

open Relation (ReflGen ReflTransGen)

/-! ## Keys older than all visible ones -/

namespace Cache

variable {c c' : Cache} {s : Staged} {p : Promotion} {n k : Nat}

/-- The key lies before those of `n` visible identifiers, and before all others. -/
structure Outdated (n : Nat) (c : Cache) (k : Nat) : Prop where
  full : n ≤ c.visible.length
  lt : ∀ e ∈ c.visible, k < e.1

variable (h : Committed c s p c') (hlt : ∀ e ∈ c.visible, e.1 < p.key) (hroom : c.capacity = n)

include h hlt hroom

/-- What a commit drops whose key comes after all the visible ones is outdated. -/
theorem outdated_evicted (hsorted : Sorted c.visible) {e : Nat × Bytes} (he : e ∈ c.visible) :
    e ∈ c'.visible ∨ c'.Outdated n e.1 := by
  have hvisible := visible_commit_of_lt h hlt
  rw [hroom] at hvisible
  have hsplit := List.take_append_drop (c.visible.length + 1 - n) c.visible
  rw [← hsplit, List.mem_append] at he
  rcases he with hdropped | hleft
  · right
    have hsome := List.length_pos_of_mem hdropped
    simp only [List.length_take] at hsome
    refine ⟨?_, fun f hf => ?_⟩
    · rw [hvisible, List.length_append, List.length_drop, List.length_singleton]
      omega
    · rw [hvisible, List.mem_append, List.mem_singleton] at hf
      rcases hf with hf | rfl
      · rw [← hsplit] at hsorted
        exact (List.pairwise_append.1 hsorted).2.2 e hdropped f hf
      · exact hlt e (List.mem_of_mem_take hdropped)
  · rw [hvisible]
    exact .inl (List.mem_append_left _ hleft)

/-- What is outdated stays so. -/
theorem outdated_committed (hn : 0 < n) (hk : c.Outdated n k) : c'.Outdated n k := by
  have hvisible := visible_commit_of_lt h hlt
  rw [hroom] at hvisible
  have hfull := hk.full
  refine ⟨?_, fun f hf => ?_⟩
  · rw [hvisible, List.length_append, List.length_drop, List.length_singleton]
    omega
  · rw [hvisible, List.mem_append, List.mem_singleton] at hf
    rcases hf with hf | rfl
    · exact hk.lt f (List.mem_of_mem_drop hf)
    · obtain ⟨e, he⟩ := List.exists_mem_of_length_pos (Nat.lt_of_lt_of_le hn hfull)
      exact Nat.lt_trans (hk.lt e he) (hlt e he)

end Cache

namespace Broker

variable {b b' : Broker} {n : Nat} {v v' : View} {P : Call → Prop}

/-! ## Records of what is not visible -/

/-- Every committed record is that of a visible identifier or of a stage that is pending under its
key, or it is outdated. -/
structure Explained (n : Nat) (b : Broker) : Prop where
  filed : Filed .mandatory b
  equipped : Equipped n b
  fits : ∀ a, (b.cache (.office 0 a)).visible.length ≤ n
  unadded : ∀ r, .add r ∉ b.queue
  records : ∀ a k id, ⟨a, k, id⟩ ∈ b.storage.ledger.committed →
    (k, id) ∈ (b.cache (.office 0 a)).visible ∨
      (∃ t, (b.cache (.office 0 a)).keyOf t = some k ∧ t.duplicateId = id) ∨
      (b.cache (.office 0 a)).Outdated n k

/-- Records stay explained where nothing becomes visible or ceases to be, no key is lost, and those
that are added belong to keys. -/
theorem Explained.mono (hb : Explained n b) (hsteps : Steps b b')
    (hqueue : ∀ r, .add r ∈ b'.queue → .add r ∈ b.queue)
    (hvisible : ∀ ref, (b'.cache ref).visible = (b.cache ref).visible)
    (hkeys : ∀ ref t k, (b.cache ref).keyOf t = some k → (b'.cache ref).keyOf t = some k)
    (hrecords : ∀ a k id, ⟨a, k, id⟩ ∈ b'.storage.ledger.committed →
      ⟨a, k, id⟩ ∈ b.storage.ledger.committed ∨
        ∃ t, (b'.cache (.office 0 a)).keyOf t = some k ∧ t.duplicateId = id) :
    Explained n b' where
  filed := of_steps (fun _ _ => filed_step) hsteps hb.filed
  equipped := of_steps (fun _ _ => equipped_step) hsteps hb.equipped
  fits a := hvisible (.office 0 a) ▸ hb.fits a
  unadded r hr := hb.unadded r (hqueue r hr)
  records a k id hr := by
    rcases hrecords a k id hr with hr | hkeyed
    · rcases hb.records a k id hr with hshown | ⟨t, ht, hid⟩ | hold
      · exact .inl (hvisible _ ▸ hshown)
      · exact .inr (.inl ⟨t, hkeys _ t k ht, hid⟩)
      · exact .inr (.inr ⟨hvisible _ ▸ hold.full, hvisible _ ▸ hold.lt⟩)
    · exact .inr (.inl hkeyed)

/-- What is about prepared records only, and leaves visible identifiers and keys, adds no
unexplained record. -/
theorem explained_quiet (hb : Explained n b) (hsteps : Steps b b') {inline handed : List Entry}
    (hlogs : Logs b b' inline handed) (hprepared : ∀ e ∈ inline ++ handed, e.isPrepared = true)
    (hvisible : ∀ ref, (b'.cache ref).visible = (b.cache ref).visible)
    (hkeys : ∀ ref t k, (b.cache ref).keyOf t = some k → (b'.cache ref).keyOf t = some k) :
    Explained n b' := by
  refine hb.mono hsteps (fun r hr => ?_) hvisible hkeys fun a k id hr => .inl ?_
  · rw [hlogs.queue, List.mem_append] at hr
    refine hr.resolve_right fun hmem => ?_
    have := hprepared _ (List.mem_append_right _ hmem)
    cases this
  · rwa [hlogs.ledger,
      Ledger.committed_applyAll_prepared fun e he => hprepared e (by simp [he])] at hr

/-- The record of a key that is drawn is that of a stage pending under it. -/
theorem explained_drawn (hb : Explained n b) (hstep : Step b b') {h : HeldStage}
    (hh : h.AtOffice) {key : Nat} {c : Cache}
    (hdrawn : Cache.Drawn (b.cache h.cache) h.staged key c)
    (hcache : ∀ ref, b'.cache ref = if h.cache = ref then c else b.cache ref)
    (hlogs : Logs b b' [.add (h.staged.recordAt key)] []) : Explained n b' := by
  refine hb.mono (.single hstep) (fun r hr => ?_) (visible_of_set hcache hdrawn.visible)
    (fun ref t k ht => ?_) fun a k id hr => ?_
  · rwa [hlogs.queue, List.append_nil] at hr
  · rw [hcache]
    split
    · rename_i href
      exact Cache.keyOf_drawn_of_some hdrawn (href ▸ ht)
    · exact ht
  · rw [hlogs.ledger] at hr
    rcases (Ledger.mem_add hb.filed.ordered ..).1 hr with heq | ⟨hr, -⟩
    · obtain ⟨rfl, rfl, rfl⟩ := Record.mk.inj heq
      refine .inr ⟨h.staged, ?_, rfl⟩
      rw [← hh, hcache, if_pos rfl, Cache.keyOf_drawn hdrawn, if_pos ⟨rfl, rfl⟩]
    · exact .inl hr

theorem explained_persistStage (hb : Explained n b) {h : HeldStage} (hh : h.AtOffice)
    (hp : b.persistStage h = (b', .ok ())) : Explained n b' := by
  rcases logs_persistStage hb.filed.keeping hh hp with ⟨-, rfl, -⟩ |
    ⟨key, c, hdrawn, hcache, -, hlogs⟩
  · exact hb
  · rw [if_pos ⟨rfl, rfl⟩] at hlogs
    exact explained_drawn hb (.persisted hh hp) hh hdrawn hcache hlogs

/-- A stage whose key comes after all visible ones makes outdated what it displaces. -/
theorem explained_commitStage (hn : 0 < n) (hb : Explained n b) {h : HeldStage} (hh : h.AtOffice)
    (hready : Ready b h)
    (hlast : ∀ k, b.keyOf h = some k → ∀ e ∈ (b.cache h.cache).visible, e.1 < k) :
    Explained n (b.commitStage h) := by
  have hstep : Step b (b.commitStage h) := .promoted hh
  rcases logs_commitStage hb.filed.keeping hb.filed.addressed hh with ⟨-, heq⟩ |
    ⟨p, c, hcommitted, hcache, hlogs⟩
  · rw [heq]
    exact hb
  have hkeyed := hb.filed.numbered.keyed h.cache
  obtain ⟨q, hq⟩ := hcommitted.pendingOf
  obtain ⟨key, hkey⟩ := hready.key hq
  obtain rfl := Cache.key_of_committed hcommitted hkey
  have hlt := hlast p.key hkey
  have hroom : (b.cache h.cache).capacity = n := by
    rw [hh] at hq ⊢
    rcases hb.equipped.cache h.staged.address with habsent | ⟨-, hcapacity⟩
    · rw [habsent] at hq
      cases hq
    · exact hcapacity
  have hkeys := Cache.keyOf_resolved hcommitted.pending
  refine ⟨filed_step hstep hb.filed, equipped_step hstep hb.equipped, fun a => ?_, fun r hr => ?_,
    fun a k id hr => ?_⟩
  · have hfits := hb.fits a
    rw [hcache]
    split
    · rename_i href
      rw [← href] at hfits
      rw [Cache.visible_commit_of_lt hcommitted hlt, hroom, List.length_append, List.length_drop,
        List.length_singleton]
      omega
    · exact hfits
  · rw [hlogs.queue, List.mem_append] at hr
    refine hb.unadded r (hr.resolve_right fun hmem => ?_)
    simp [Promotion.entries] at hmem
  · rw [hlogs.ledger] at hr
    have hold := hb.records a k id hr
    rw [hcache]
    split
    · rename_i href
      rw [← href] at hold
      rcases hold with hshown | ⟨t, ht, rfl⟩ | hold
      · exact (Cache.outdated_evicted hcommitted hlt hroom hkeyed.sorted hshown).imp_right .inr
      · by_cases hid : h.staged.duplicateId = t.duplicateId
        · obtain rfl := Cache.key_of_duplicateId hid hkey ht
          rw [Cache.visible_commit_of_lt hcommitted hlt, hid]
          exact .inl (by simp)
        · exact .inr (.inl ⟨t, by rw [hkeys, if_neg hid]; exact ht, rfl⟩)
      · exact .inr (.inr (Cache.outdated_committed hcommitted hlt hroom hn hold))
    · exact hold

/-- The writer, which adds no record, leaves no unexplained one. -/
theorem explained_writeNext (hb : Explained n b) : Explained n (b.writeNext 0) := by
  rcases logs_writeNext b with ⟨-, heq⟩ | ⟨e, rest, hqueue, hrest, -, -, hwritten⟩
  · rw [heq]
    exact hb
  refine hb.mono (.single .written) (fun r hr => ?_) (fun ref => by rw [cache_writeNext])
    (fun ref t k ht => by rwa [cache_writeNext]) fun a k id hr => .inl ?_
  · rw [hqueue]
    exact List.mem_cons_of_mem _ (hrest ▸ hr)
  · rcases hwritten with ⟨-, hledger⟩ | ⟨-, hledger, -⟩
    · have hunadded : ∀ s, .add s ∉ [e] := fun s hs => hb.unadded s (by
        rw [hqueue, List.mem_singleton.1 hs]
        exact List.mem_cons_self ..)
      rw [hledger] at hr
      exact ((Ledger.mem_applyAll_of_unadded hunadded ..).1 hr).1
    · rwa [hledger] at hr

/-! ## Keys of one commit -/

/-- Whoever has a key has it after those of all visible identifiers, and the stages that are listed
have theirs in the order of the list, with nobody else in between. -/
structure Lined (b : Broker) (hs : List HeldStage) : Prop where
  ready : ∀ h ∈ hs, Ready b h
  after : ∀ t k, b.keyOf t = some k → ∀ e ∈ (b.cache t.cache).visible, e.1 < k
  order : ∀ front h back, hs = front ++ h :: back → ∀ k, b.keyOf h = some k →
    ∀ t l, t.cache = h.cache → b.keyOf t = some l → l < k →
      ∃ g ∈ front, g.cache = h.cache ∧ b.keyOf g = some l

theorem Lined.of_cache {hs : List HeldStage} (hb : Lined b hs)
    (hcache : ∀ ref, b'.cache ref = b.cache ref) : Lined b' hs := by
  have hkeyOf : b'.keyOf = b.keyOf := funext fun t => by rw [keyOf, hcache, keyOf]
  refine ⟨fun h hh => ?_, fun t => ?_, ?_⟩
  · unfold Ready
    rw [hcache]
    exact hb.ready h hh
  · rw [hkeyOf, hcache]
    exact hb.after t
  · rw [hkeyOf]
    exact hb.order

theorem lined_nil (hunkeyed : Unkeyed b) : Lined b [] where
  ready := nofun
  after t k ht := by
    rw [unkeyed_iff.1 hunkeyed t] at ht
    cases ht
  order front h back hs := by simp at hs

/-- Drawing a key leaves the keys that have been drawn. -/
theorem keyOf_persistStage_some {h t : HeldStage} {k : Nat} {result : Except JournalError Unit}
    (hp : b.persistStage h = (b', result)) (ht : b.keyOf t = some k) : b'.keyOf t = some k := by
  rcases cache_persistStage hp with ⟨-, hcache⟩ | ⟨key, c, hdrawn, hcache⟩
  · rwa [keyOf, hcache]
  · rw [keyOf, hcache]
    split
    · rename_i href
      rw [keyOf, ← href] at ht
      exact Cache.keyOf_drawn_of_some hdrawn ht
    · exact ht

/-- A key that is drawn is the next number, and goes to a stage that is pending and has none. -/
theorem keyOf_of_persistStage {h t : HeldStage} {k : Nat} {result : Except JournalError Unit}
    (hp : b.persistStage h = (b', result)) (ht : b'.keyOf t = some k) :
    b.keyOf t = some k ∨ t.cache = h.cache ∧ k = b.next h.cache ∧ ¬ Ready b t := by
  rcases cache_persistStage hp with ⟨-, hcache⟩ | ⟨key, c, hdrawn, hcache⟩
  · rw [keyOf, hcache] at ht
    exact .inl ht
  · rw [keyOf, hcache] at ht
    split at ht
    · rename_i href
      rw [Cache.keyOf_drawn hdrawn] at ht
      split at ht
      · rename_i hsame
        obtain rfl := Option.some.inj ht
        have hpending : (b.cache t.cache).pendingOf? t.staged =
            (b.cache h.cache).pendingOf? h.staged := by
          rw [← href, Cache.pendingOf?_congr (by rw [hsame.1]) hsame.2]
        rcases hdrawn.next with ⟨hkey, -⟩ | ⟨hnone, hnew, -⟩
        · exact .inl ((keyOf_congr href.symm hsame.1 hsame.2).trans hkey)
        · refine .inr ⟨href.symm, hnew, fun hready => ?_⟩
          obtain ⟨q, hq, -⟩ := hdrawn.pending
          rw [Cache.keyOf, hq] at hnone
          exact hready q (hpending.trans hq) hnone
      · rw [href] at ht
        exact .inl ht
    · exact .inl ht

/-- A stage whose key is drawn goes to the end. -/
theorem lined_persistStage {hs : List HeldStage} (hkeyed : AllKeyed b) (hb : Lined b hs)
    (hby : KeyedBy b hs) {h : HeldStage} {result : Except JournalError Unit}
    (hp : b.persistStage h = (b', result)) : Lined b' (hs ++ [h]) := by
  obtain ⟨hself, hkept⟩ := ready_persistStage hp
  have hvisible := (quiet_persistStage hp).visible
  have hbelow : ∀ t k, b.keyOf t = some k → k < b.next t.cache := fun t k =>
    (hkeyed t.cache).key_lt t.staged k
  refine ⟨fun g hg => ?_, fun t k ht e he => ?_, ?_⟩
  · rcases List.mem_append.1 hg with hg | hg
    · exact hkept g (hb.ready g hg)
    · exact List.mem_singleton.1 hg ▸ hself
  · rw [hvisible] at he
    rcases keyOf_of_persistStage hp ht with ht | ⟨href, rfl, -⟩
    · exact hb.after t k ht e he
    · exact (hkeyed h.cache).visible_lt e (href ▸ he)
  intro front g back hsplit k hk t l href ht hlt
  rcases split_concat hsplit with ⟨back', -, rfl⟩ | ⟨rfl, rfl, -⟩
  · -- A stage from before has kept its key, and the new key is not below that.
    have hk := (keyOf_of_persistStage hp hk).resolve_right
      fun hnew => hnew.2.2 (hb.ready g (by simp))
    rcases keyOf_of_persistStage hp ht with ht | ⟨htref, rfl, -⟩
    · obtain ⟨g', hg', hg'ref, hg'key⟩ := hb.order front g back' rfl k hk t l href ht hlt
      exact ⟨g', hg', hg'ref, keyOf_persistStage_some hp hg'key⟩
    · have hbelow := hbelow g k hk
      rw [← href, htref] at hbelow
      omega
  · -- The stage at the end has the new key, or the one it had.
    have hk : k ≤ b.next g.cache := by
      rcases keyOf_of_persistStage hp hk with hk | ⟨-, rfl, -⟩
      · exact Nat.le_of_lt (hbelow g k hk)
      · exact Nat.le_refl _
    rcases keyOf_of_persistStage hp ht with ht | ⟨-, rfl, -⟩
    · obtain ⟨g', hg', hg'ref, hg'id, hg'seq⟩ := hby t (by simp [ht])
      exact ⟨g', hg', hg'ref.trans href,
        keyOf_persistStage_some hp ((keyOf_congr hg'ref hg'id hg'seq).trans ht)⟩
    · omega

/-- Keys that are drawn one after the other stand in that order, after all visible ones. -/
theorem lined_persistAll {gs : List HeldStage} {hs : List (HeldStage × Bool)}
    (hkeyed : AllKeyed b) (hb : Lined b gs) (hby : KeyedBy b gs)
    (hp : b.persistAll hs = (b', .ok ())) : Lined b' (gs ++ hs.map (·.1)) := by
  induction hs generalizing b gs with
  | nil =>
    cases hp
    simpa using hb
  | cons h rest ih =>
    rcases hstage : b.persistStage h.1 with ⟨c, result⟩
    simp only [persistAll, hstage] at hp
    cases result with
    | error e => cases hp
    | ok _ =>
      have hby' : KeyedBy c (gs ++ [h.1]) :=
        (keyedBy_persistStage hby hstage).mono fun g hg => by
          rcases List.mem_cons.1 hg with rfl | hg
          · simp
          · simp [hg]
      simpa using ih (keyed_persistStage hkeyed hstage)
        (lined_persistStage hkeyed hb hby hstage) hby' hp

/-- A commit takes away the key of its stage, and leaves all others. -/
theorem keyOf_commitStage {h t : HeldStage} {l : Nat} (hkeyed : AllKeyed b) (hready : Ready b h) :
    (b.commitStage h).keyOf t = some l ↔
      b.keyOf t = some l ∧ ¬ (t.cache = h.cache ∧ b.keyOf h = some l) := by
  rcases cache_commitStage b h with ⟨hnone, heq⟩ | ⟨p, c, hcommitted, hcache⟩
  · rw [heq]
    refine (and_iff_left fun hh => ?_).symm
    have hkey := hh.2
    rw [keyOf, Cache.keyOf, hnone] at hkey
    cases hkey
  obtain ⟨q, hq⟩ := hcommitted.pendingOf
  obtain ⟨key, hkey⟩ := hready.key hq
  rw [keyOf, hcache]
  split
  · rename_i href
    rw [Cache.keyOf_resolved hcommitted.pending, keyOf, keyOf, ← href]
    split
    · rename_i hid
      refine iff_of_false (by simp) fun hh => hh.2 ⟨rfl, ?_⟩
      rw [hkey, Cache.key_of_duplicateId hid hkey hh.1]
    · rename_i hid
      refine (and_iff_left_of_imp fun ht hh => hid ?_).symm
      exact (hkeyed h.cache).key_inj _ _ l hh.2 ht
  · rename_i href
    exact (and_iff_left fun hh => href hh.1.symm).symm

/-- Once the first stage has become visible, the others are left in their order. -/
theorem lined_commitStage {h : HeldStage} {hs : List HeldStage} (hkeyed : AllKeyed b)
    (hb : Lined b (h :: hs)) : Lined (b.commitStage h) hs := by
  have hready := hb.ready h (by simp)
  have hkeyOf := fun t l => keyOf_commitStage (t := t) (l := l) hkeyed hready
  have hshown : ∀ ref, ∀ e ∈ ((b.commitStage h).cache ref).visible,
      e ∈ (b.cache ref).visible ∨ ref = h.cache ∧ b.keyOf h = some e.1 := by
    intro ref e he
    rcases cache_commitStage b h with ⟨-, heq⟩ | ⟨p, c, hcommitted, hcache⟩
    · rw [heq] at he
      exact .inl he
    · obtain ⟨q, hq⟩ := hcommitted.pendingOf
      obtain ⟨key, hkey⟩ := hready.key hq
      rw [hcache] at he
      split at he
      · rename_i href
        rcases Cache.mem_visible_of_committed hcommitted he with rfl | he
        · refine .inr ⟨href.symm, ?_⟩
          rw [Cache.key_of_committed hcommitted hkey]
          exact hkey
        · exact .inl (href ▸ he)
      · exact .inl he
  refine ⟨fun g hg => ready_commitStage (hb.ready g (by simp [hg])) h, fun t l ht e he => ?_, ?_⟩
  · obtain ⟨ht, hne⟩ := (hkeyOf t l).1 ht
    rcases hshown _ e he with he | ⟨href, hkey⟩
    · exact hb.after t l ht e he
    · -- The first stage has the least key.
      rcases Nat.lt_trichotomy e.1 l with hlt | heq | hgt
      · exact hlt
      · exact absurd ⟨href, heq ▸ hkey⟩ hne
      · obtain ⟨g, hg, -⟩ := hb.order [] h hs rfl e.1 hkey t l href ht hgt
        cases hg
  · intro front g back hsplit k hk t l href ht hlt
    obtain ⟨hk, -⟩ := (hkeyOf g k).1 hk
    obtain ⟨ht, hne⟩ := (hkeyOf t l).1 ht
    obtain ⟨g', hg', hg'ref, hg'key⟩ :=
      hb.order (h :: front) g back (by rw [hsplit]; rfl) k hk t l href ht hlt
    refine ⟨g', ?_, hg'ref, (hkeyOf g' l).2 ⟨hg'key, fun hh => hne ⟨?_, hh.2⟩⟩⟩
    · refine (List.mem_cons.1 hg').resolve_left fun heq => hne ⟨?_, heq ▸ hg'key⟩
      rw [href, ← hg'ref, heq]
    · rw [href, ← hg'ref, hh.1]

/-! ## All stages of a send or a transaction -/

theorem explained_persistAll (hb : Explained n b) {hs : List (HeldStage × Bool)}
    (hhs : ∀ h ∈ hs, h.1.AtOffice) (hp : b.persistAll hs = (b', .ok ())) : Explained n b' := by
  induction hs generalizing b with
  | nil =>
    cases hp
    exact hb
  | cons h rest ih =>
    rcases hstage : b.persistStage h.1 with ⟨c, result⟩
    simp only [persistAll, hstage] at hp
    cases result with
    | error e => cases hp
    | ok _ =>
      exact ih (explained_persistStage hb (hhs h (by simp)) hstage)
        (fun g hg => hhs g (by simp [hg])) hp

/-- Stages that become visible in the order of their keys leave outdated records at most. -/
theorem explained_promoteAll (hn : 0 < n) (hb : Explained n b) {hs : List (HeldStage × Bool)}
    (hhs : ∀ h ∈ hs, h.1.AtOffice) (hlined : Lined b (hs.map (·.1))) (x : Option Xid) :
    Explained n (b.promoteAll x hs) := by
  induction hs generalizing b with
  | nil => exact hb
  | cons h rest ih =>
    have hh := hhs h (by simp)
    have hpromoted : Explained n (b.commitStage h.1) :=
      explained_commitStage hn hb hh (hlined.ready h.1 (by simp)) (hlined.after h.1)
    have hreleased : Explained n ((b.commitStage h.1).release x h) :=
      explained_quiet hpromoted (.single (.released hh x))
        (logs_release hpromoted.filed.keeping hh x) prepared_released
        (fun ref => by rw [cache_release]) fun ref t k ht => by rwa [cache_release]
    exact ih hreleased (fun g hg => hhs g (by simp [hg]))
      ((lined_commitStage hb.filed.numbered.keyed hlined).of_cache fun ref => cache_release ..)

/-- Stages that are persisted and become visible leave outdated records at most. -/
theorem explained_completed (hn : 0 < n) (hb : Explained n b) (hunkeyed : Unkeyed b)
    {hs : List (HeldStage × Bool)} (hhs : ∀ h ∈ hs, h.1.AtOffice)
    (hp : b.persistAll hs = (b', .ok ())) (x : Option Xid) : Explained n (b'.promoteAll x hs) :=
  explained_promoteAll hn (explained_persistAll hb hhs hp) hhs
    (lined_persistAll hb.filed.numbered.keyed (lined_nil hunkeyed) hunkeyed hp) x

/-- When no stage has a key, it is enough that visible identifiers stay and no record is added. -/
theorem explained_unkeyed (hb : Explained n b) (hunkeyed : Unkeyed b) (hsteps : Steps b b')
    {inline handed : List Entry} (hlogs : Logs b b' inline handed)
    (hprepared : ∀ e ∈ inline ++ handed, e.isPrepared = true)
    (hvisible : ∀ ref, (b'.cache ref).visible = (b.cache ref).visible) : Explained n b' :=
  explained_quiet hb hsteps hlogs hprepared hvisible fun ref t k ht => by
    rw [keyOf_of_unkeyed hunkeyed] at ht
    cases ht

/-- Stages that are dropped, none of whose records has been appended, leave nothing behind. -/
theorem explained_undone (hb : Explained n b) (hunkeyed : Unkeyed b)
    {hs : List (HeldStage × Bool)} (hhs : ∀ h ∈ hs, h.1.AtOffice) (x : Option Xid) (m : Nat)
    (hwrites : ((b.persistAll (hs.take m)).1.dropAll x hs).writes = b.writes) :
    Explained n ((b.persistAll (hs.take m)).1.dropAll x hs) := by
  obtain ⟨inline, hlogs, -⟩ := logs_undo hb.filed hunkeyed hhs x m
  obtain rfl : inline = [] := by simpa [hwrites] using hlogs.writes
  have hsteps : Steps b ((b.persistAll (hs.take m)).1.dropAll x hs) :=
    (steps_persistAll (fun h hh => hhs h (List.mem_of_mem_take hh)) b).trans
      (steps_dropAll hhs _ x)
  exact explained_unkeyed hb hunkeyed hsteps hlogs prepared_releasedAll
    ((quiet_persistAll ..).trans (quiet_dropAll ..)).visible

theorem explained_dropAll (hb : Explained n b) (hunkeyed : Unkeyed b)
    {hs : List (HeldStage × Bool)} (hhs : ∀ h ∈ hs, h.1.AtOffice) (x : Option Xid) :
    Explained n (b.dropAll x hs) :=
  explained_unkeyed hb hunkeyed (steps_dropAll hhs b x) (logs_dropAll hb.filed.keeping hhs x)
    prepared_releasedAll (quiet_dropAll b x hs).visible

theorem explained_storeAll (hb : Explained n b) (hunkeyed : Unkeyed b) {x : Xid}
    {hs marks : List (HeldStage × Bool)} {result : Except JournalError Unit}
    (hhs : ∀ h ∈ hs, h.1.AtOffice) (h : b.storeAll x hs = (b', marks, result)) :
    Explained n b' ∧ Unkeyed b' := by
  obtain ⟨k, -, hlogs, -⟩ := logs_storeAll hb.filed.keeping hhs h
  obtain rfl := congrArg Prod.fst h
  refine ⟨explained_unkeyed hb hunkeyed (steps_storeAll hhs b x) hlogs (fun e he => ?_)
    fun ref => by rw [cache_storeAll], KeyedBy.of_cache hunkeyed fun ref => cache_storeAll ..⟩
  rw [List.append_nil] at he
  obtain ⟨g, -, rfl⟩ := List.mem_map.1 he
  rfl

/-- A send that comes to nothing has no record appended. -/
theorem writes_refused (hb : Keeping .mandatory b) {h : HeldStage} (hh : h.AtOffice) (m : Nat)
    (hearly : (b.persistAll ([(h, false)].take m)).2 = .ok () → m = 0) (x : Option Xid) :
    ((b.persistAll ([(h, false)].take m)).1.dropAll x [(h, false)]).writes = b.writes := by
  have hhs : ∀ g ∈ [(h, false)], g.1.AtOffice := fun g hg => List.mem_singleton.1 hg ▸ hh
  suffices hlogs : Logs b (b.persistAll ([(h, false)].take m)).1 [] [] by
    have hdropped := hlogs.trans (logs_dropAll (hb.of_stations hlogs.stations) hhs x)
    simpa using hdropped.writes
  cases m with
  | zero => exact .refl b
  | succ m =>
    rw [List.take_succ_cons, List.take_nil] at hearly ⊢
    rcases hp : b.persistStage h with ⟨c, result⟩
    simp only [persistAll, hp] at hearly ⊢
    cases result with
    | ok _ => exact absurd (hearly rfl) (Nat.succ_ne_zero m)
    | error e =>
      rcases logs_persistStage hb hh hp with ⟨-, -, heq⟩ | ⟨key, c', -, -, -, hlogs⟩
      · cases heq
      · simpa using hlogs

end Broker

/-! ## Moves -/

/-- Whether the entry adds a record of the stage's identifier. -/
def Entry.adds (h : HeldStage) : Entry → Bool
  | .add r => r.address = h.staged.address && r.duplicateId = h.staged.duplicateId
  | _ => false

/-- A transaction has been rolled back, and in between a record of one of its stages has been
appended. -/
def View.Strands (v v' : View) : Prop :=
  ∃ t ∈ v.outlines.zip v'.outlines, t.1.isLive = true ∧ t.2.state = .rolledBack ∧
    ∃ h ∈ t.1.stages, ∃ e ∈ v'.books.writes.drop v.books.writes.length, e.adds h = true

namespace Broker

variable {b b' : Broker} {n : Nat} {v v' : View} {P : Call → Prop}

/-- Between requests no stage has its key, and every record is explained. -/
structure Tracked (n : Nat) (v : View) : Prop where
  atOffice : v.Local
  unkeyed : Unkeyed v.books
  explained : Explained n v.books

theorem tracked_of_explained (h : Move P v v') (hv : Tracked n v)
    (hexplained : Explained n v'.books) : Tracked n v' :=
  ⟨(steps_move h hv.atOffice).2, unkeyed_move h hv.unkeyed, hexplained⟩

theorem tracked_passes (hn : 0 < n) (h : Passes P v v') (hv : Tracked n v) : Tracked n v' := by
  apply tracked_of_explained h.move hv
  have hsteps := (steps_move h.move hv.atOffice).1
  obtain ⟨hlocal, hunkeyed, hexplained⟩ := hv
  cases h with
  | opened a =>
    exact explained_unkeyed hexplained hunkeyed hsteps (logs_openOfficeCache ..) (by simp)
      fun _ => visible_openOfficeCache ..
  | begun x => exact hexplained
  | waits hc =>
    exact explained_unkeyed hexplained hunkeyed hsteps (logs_called ..) (by simp) fun _ => rfl
  | retries hready =>
    exact explained_unkeyed hexplained hunkeyed hsteps (logs_called ..) (by simp) fun _ => rfl
  | granted hgrant =>
    refine explained_unkeyed hexplained hunkeyed hsteps (logs_granted hgrant) (by simp) ?_
    obtain ⟨c, hattempt, rfl⟩ := attemptStage_granted hgrant
    obtain ⟨-, -, -, -, rfl⟩ := Cache.attempt_staged hattempt
    exact visible_of_set (fun ref => cache_setCache ..) rfl
  | sent hpersist =>
    exact explained_completed hn hexplained hunkeyed (atOffice_loose hlocal.atOffice) hpersist none
  | refused m hearly =>
    exact explained_undone hexplained hunkeyed (atOffice_loose hlocal.atOffice) none m
      (writes_refused hexplained.filed.keeping (hlocal.atOffice _ (by simp)) m hearly none)
  | registered howner => exact hexplained

/-- A transaction that is completed leaves every record explained, unless it strands one. -/
theorem tracked_ends {halfway : Prop} (hn : 0 < n) (h : Ends halfway v v')
    (hstrands : ¬ v.Strands v') (hv : Tracked n v) : Tracked n v' := by
  apply tracked_of_explained (P := Call.Routes) h.move hv
  have hlocal' := (steps_move (P := Call.Routes) h.move hv.atOffice).2
  obtain ⟨hlocal, hunkeyed, hexplained⟩ := hv
  cases h with
  | prepared hstore =>
    exact (explained_storeAll hexplained hunkeyed (atOffice_held hlocal.atOffice) hstore).1
  | unprepared hstore =>
    have hheld := atOffice_held hlocal.atOffice
    obtain ⟨hstored, hunkeyed'⟩ := explained_storeAll hexplained hunkeyed
      (fun g hg => hheld g (List.mem_of_mem_take hg)) hstore
    exact explained_dropAll hstored hunkeyed' (atOffice_held hlocal'.atOffice) _
  | committed hlive hpersist =>
    exact explained_completed hn hexplained hunkeyed (atOffice_held hlocal.atOffice) hpersist _
  | @undone b l₁ l₂ x st held hlive m hm =>
    have hhs := atOffice_held hlocal.atOffice
    refine explained_undone hexplained hunkeyed hhs x m ?_
    obtain ⟨inline, hlogs, hinline⟩ := logs_undo hexplained.filed hunkeyed hhs x m
    suffices hnone : inline = [] by rw [hlogs.writes, hnone, List.append_nil]
    -- Whatever had been written would be a record of a stage that is dropped.
    refine List.eq_nil_iff_forall_not_mem.2 fun e he => hstrands ?_
    obtain ⟨-, h, hh, key, rfl, -⟩ := hinline e he
    refine ⟨(⟨x, st, held⟩, ⟨x, .rolledBack, held⟩), ?_, ?_, rfl, h.1, List.mem_map_of_mem hh,
      .add (h.1.staged.recordAt key), ?_, ?_⟩
    · rw [List.zip_append rfl]
      simp
    · rcases hlive with rfl | rfl <;> rfl
    · rw [hlogs.writes, List.drop_left]
      exact he
    · simp [Entry.adds, Staged.recordAt]

theorem tracked_written {os : List Outline} (hv : Tracked n ⟨b, [], os⟩) :
    Tracked n ⟨b.writeNext 0, [], os⟩ :=
  tracked_of_explained (.written (P := Call.Routes)) hv (explained_writeNext hv.explained)

/-! ## Requests -/

/-- The request rolls a transaction back after a record of one of its stages has been appended. -/
def Strands (b : Broker) (c : Command) : Prop := b.view.Strands (b.perform c).1.view

instance (b : Broker) (c : Command) : Decidable (b.Strands c) :=
  inferInstanceAs (Decidable (∃ _ ∈ _, _))

theorem tracked_perform (hn : 0 < n) {c : Command} (hc : c.isTraffic = true)
    (hproper : Proper Call.Routes b) (hstrands : ¬ b.Strands c) (hb : Tracked n b.view) :
    Tracked n (b.perform c).1.view :=
  keeps_perform hc hproper (fun _ _ => tracked_passes hn) (fun _ _ => tracked_written)
    (fun h => tracked_ends hn h hstrands) hb

theorem tracked_run (hn : 0 < n) {cs : List Command} (hcs : ∀ c ∈ cs, c.isTraffic = true)
    (hproper : Proper Call.Routes b) (hb : Tracked n b.view)
    (hstrands : b.Throughout (fun b c => ¬ b.Strands c) cs) : Tracked n (b.run cs).view :=
  keeps_run (I := fun b => Tracked n b.view)
    (fun _ _ hc hproper hstrands hb => tracked_perform hn hc hproper hstrands hb)
    hcs hproper hstrands hb

/-- A post office begins with the records of visible identifiers. -/
theorem Begun.tracked (hb : Begun .mandatory b) (hequipped : Equipped n b)
    (hfits : ∀ a, (b.cache (.office 0 a)).visible.length ≤ n) : Tracked n b.view := by
  have hqueue : b.view.books.queue = [] := (queue_books b).trans hb.queue
  refine ⟨hb.atOffice, hb.unkeyed, hb.filed, ⟨?_, hequipped.caches⟩, hfits, fun r => ?_,
    fun a k id hr => .inl ((hb.mirror a k id).1 hr)⟩
  · exact (congrArg Settings.idCacheCapacity (settings_books b 0)).trans hequipped.settings
  · rw [hqueue]
    exact List.not_mem_nil

end Broker

/-! ## Crashes -/

/-- When the records of an address are those of its visible identifiers, and older ones if there is
no room for more, the newest records are those of the visible identifiers. -/
theorem Ledger.newest_eq {l : Ledger} (hl : Ledger.Ordered l.committed) {n : Nat} {a : Address}
    {c : Cache} (hsorted : Cache.Sorted c.visible) (hfits : c.visible.length ≤ n)
    (hshown : ∀ k id, (k, id) ∈ c.visible → ⟨a, k, id⟩ ∈ l.committed)
    (hothers : ∀ k id, ⟨a, k, id⟩ ∈ l.committed → (k, id) ∈ c.visible ∨ c.Outdated n k) :
    (l.newest n a).map (fun r => (r.sequence, r.duplicateId)) = c.visible := by
  have hbefore : ∀ {k k' : Nat} {id id' : Bytes}, k < k' →
      (⟨a, k, id⟩ : Record).before ⟨a, k', id'⟩ = true := by
    intro k k' id id' hk
    simpa [Record.before] using hk
  obtain ⟨old, hold⟩ : ∃ old : List Record,
      old = l.committed.filter fun r => r.address = a ∧ (r.sequence, r.duplicateId) ∉ c.visible :=
    ⟨_, rfl⟩
  have houtdated : ∀ r ∈ old, r.address = a ∧ c.Outdated n r.sequence := by
    intro r hr
    rw [hold, List.mem_filter, decide_eq_true_eq] at hr
    obtain ⟨hr, rfl, hhidden⟩ := hr
    exact ⟨rfl, (hothers r.sequence r.duplicateId hr).resolve_left hhidden⟩
  -- The records of the address are the older ones, and then those of visible identifiers.
  have hrecords : l.records a = old ++ c.visible.map fun e => ⟨a, e.1, e.2⟩ := by
    refine Ledger.records_ext hl (List.pairwise_append.2 ⟨?_, ?_, ?_⟩) fun r => ?_
    · rw [hold]
      exact hl.filter _
    · exact List.pairwise_map.2 (hsorted.imp fun hef => hbefore hef)
    · intro r hr s hs
      obtain ⟨e, he, rfl⟩ := List.mem_map.1 hs
      obtain ⟨rfl, hout⟩ := houtdated r hr
      exact hbefore (hout.lt e he)
    · rw [List.mem_append, List.mem_map, hold, List.mem_filter, decide_eq_true_eq]
      constructor
      · rintro (⟨hr, ha, -⟩ | ⟨e, he, rfl⟩)
        · exact ⟨hr, ha⟩
        · exact ⟨hshown e.1 e.2 he, rfl⟩
      · rintro ⟨hr, rfl⟩
        by_cases hvisible : (r.sequence, r.duplicateId) ∈ c.visible
        · exact .inr ⟨_, hvisible, rfl⟩
        · exact .inl ⟨hr, rfl, hvisible⟩
  -- There are no older ones unless the others take all the room.
  have hdrop :
      (old ++ c.visible.map fun e => (⟨a, e.1, e.2⟩ : Record)).length - n = old.length := by
    rw [List.length_append, List.length_map]
    cases old with
    | nil => simpa using Nat.sub_eq_zero_of_le hfits
    | cons r rest =>
      have hfull := (houtdated r (by simp)).2.full
      omega
  rw [Ledger.newest, hrecords, hdrop, List.drop_left, List.map_map]
  exact List.map_id' c.visible

namespace Broker

variable {b : Broker} {n : Nat} {asked : List (HeldStage × Nat)} {cleared : List HeldStage}

/-- Whichever prunes and deletions have been written by then, the newest records of an address are
those of its visible identifiers. -/
theorem newest_tracked (htracked : Tracked n b.view) (hgrounded : Grounded ⟨b, asked, cleared⟩)
    {written : List Entry} (hwritten : written.Sublist b.queue) (a : Address) :
    ((b.storage.ledger.applyAll written).newest n a).map (fun r => (r.sequence, r.duplicateId)) =
      (b.cache (.office 0 a)).visible := by
  have hexplained := htracked.explained
  have hunadded : ∀ r, .add r ∉ written := fun r hr => hgrounded.unadded r (hwritten.subset hr)
  refine Ledger.newest_eq (Ledger.ordered_applyAll hgrounded.ordered _)
    (hgrounded.keyed (.office 0 a)).sorted (hexplained.fits a) (fun k id he => ?_)
    fun k id hr => ?_
  · refine (Ledger.mem_applyAll_of_unadded hunadded ..).2 ⟨hgrounded.shown a k id he, fun hk => ?_⟩
    exact (hgrounded.spent a k (hwritten.subset hk)).visible id he
  · have hr := ((Ledger.mem_applyAll_of_unadded hunadded ..).1 hr).1
    refine (hexplained.records a k id hr).imp_right fun h => h.resolve_left ?_
    rintro ⟨t, ht, -⟩
    rw [keyOf_of_unkeyed htracked.unkeyed] at ht
    cases ht

/-- A post office in mandatory mode. At any time, whichever sends and commits are under way and
whichever journal calls fail, every visible identifier has its record in the journal. A run of
requests is a course of that kind. If none of them rolls a transaction back after one of its records
has been appended, then after a crash, with whichever of the queued prunes and deletions written, a
start with as much room shows for every address exactly what was visible; it succeeds if it can read
the journal, and prune it where it has to. -/
theorem visible_durable {mailboxes : Table String Mailbox} {storage : Storage} {s : Settings}
    {k : Nat} {b₀ : Broker} (hpersist : s.persistIdCache = true ∧ s.duplicateDetection = true)
    (hmandatory : s.idCachePersistence = .mandatory) (entries : List Entry)
    (hentries : storage.ledger = ({} : Ledger).applyAll entries)
    (hstart : ({ mailboxes, storage } : Broker).start s = (b₀, .ok k)) :
    (∀ w, Overlaps ⟨b₀, [], []⟩ w → ∀ a n id,
        (n, id) ∈ (w.broker.cache (.office 0 a)).visible →
          ⟨a, n, id⟩ ∈ w.broker.storage.ledger.committed) ∧
      ∀ cs : List Command, (∀ c ∈ cs, c.isTraffic = true) →
        (∃ cleared, Overlaps ⟨b₀, [], []⟩ ⟨b₀.run cs, [], cleared⟩) ∧
        (b₀.Throughout (fun b c => ¬ b.Strands c) cs →
          ∀ written : List Entry, written.Sublist (b₀.run cs).queue →
          ∀ (storage₂ : Storage) (s₂ : Settings) (mailboxes₂ : Table String Mailbox),
            storage₂.ledger = (b₀.run cs).storage.ledger.applyAll written →
            s₂.persistIdCache = true → s₂.idCacheCapacity = s.idCacheCapacity →
            (∀ b₂ k₂, ({ mailboxes := mailboxes₂, storage := storage₂ } : Broker).start s₂ =
                (b₂, .ok k₂) →
              ∀ a, (b₂.cache (.office 0 a)).visible =
                ((b₀.run cs).cache (.office 0 a)).visible) ∧
            (Readable storage₂.failing storage₂.ledger → Prunable s₂.idCacheCapacity storage₂ →
              ∃ b₂, ({ mailboxes := mailboxes₂, storage := storage₂ } : Broker).start s₂ =
                (b₂, .ok 0))) := by
  have hordered := Ledger.ordered_of_entries hentries
  have hbegun : Begun .mandatory b₀ := hmandatory ▸ (begun_start hpersist hordered hstart).1
  have hn : 0 < s.idCacheCapacity := by
    have hsize := hpersist.2
    rw [Settings.duplicateDetection, decide_eq_true_eq] at hsize
    rw [Settings.idCacheCapacity]
    omega
  have hrestored := restored_start hpersist hordered hstart
  have htracked : Tracked s.idCacheCapacity b₀.view := by
    refine hbegun.tracked hrestored.equipped fun a => ?_
    rw [hrestored.visible, Cache.visible_load hordered, List.length_map]
    exact Ledger.length_newest_le ..
  refine ⟨fun w hw => (grounded_overlaps hw hbegun.grounded).shown, fun cs hcs => ?_⟩
  obtain ⟨cleared, hcourse⟩ := overlaps_run hbegun hcs
  refine ⟨⟨cleared, hcourse⟩, fun hstrands written hwritten storage₂ s₂ mailboxes₂ hledger hkept
    hroom => ?_⟩
  have hpersist₂ : s₂.persistIdCache = true ∧ s₂.duplicateDetection = true := by
    refine ⟨hkept, ?_⟩
    rw [Settings.duplicateDetection, decide_eq_true_eq]
    rw [← hroom, Settings.idCacheCapacity] at hn
    omega
  have hgrounded := grounded_overlaps hcourse hbegun.grounded
  have hafter := tracked_run hn hcs (hbegun.proper _) htracked hstrands
  refine ⟨fun b₂ k₂ hstart₂ a => ?_, fun hreadable hprunable =>
    start_of_prunable mailboxes₂ hpersist₂ hreadable hprunable⟩
  have hordered₂ : Ledger.Ordered storage₂.ledger.committed := by
    rw [hledger]
    exact Ledger.ordered_applyAll hgrounded.ordered written
  rw [(restored_start hpersist₂ hordered₂ hstart₂).visible, Cache.visible_load hordered₂, hroom,
    hledger]
  exact newest_tracked hafter hgrounded hwritten a

/-- A journal that fails to append now and then. -/
def flakyStorage : Storage where
  lapses := [none, none, some .append, none, none, some .append]

/-- Sends that displace each other, one whose record is not appended, a branch that is prepared and
committed, and a transaction that is rolled back because its record is not appended. -/
def unwrittenPrunes : List Command :=
  [.route 0 0 (messageTo "orders" 1) none true, .route 0 1 (messageTo "orders" 2) none true,
    .route 0 2 (messageTo "orders" 3) none true, .begin (some exampleXid),
    .route 0 3 (messageTo "orders" 4) (some 1) true, .prepareBranch (some 0) 1,
    .commitBranch (some 0) exampleXid, .begin none,
    .route 0 4 (messageTo "orders" 5) (some 2) true, .commit 2]

theorem visible_durable_flaky :
    let b₀ := (({ storage := flakyStorage } : Broker).start (earlierSettings 1)).1
    let b := b₀.run unwrittenPrunes
    let orders : Address := ⟨"orders"⟩
    b.queue = [.prune orders 2, .prune orders 4, .resolve exampleXid] ∧
      (⟨orders, 8, [4]⟩ : Record) ∈ b.storage.ledger.committed ∧
      ∃ b₂,
        ({ storage := { memory := b.storage.ledger.applyAll [.prune orders 2] } } : Broker).start
            (earlierSettings 1) = (b₂, .ok 0) ∧
          (b₂.cache (.office 0 orders)).visible = [(8, [4])] := by
  intro b₀ b orders
  have hstart : ({ storage := flakyStorage } : Broker).start (earlierSettings 1) = (b₀, .ok 0) := by
    decide +kernel
  have hdurable := visible_durable (s := earlierSettings 1) (by decide) rfl [] rfl hstart
  have hruns := hdurable.2 unwrittenPrunes
    (show ∀ c ∈ unwrittenPrunes, c.isTraffic = true by decide)
  have hvisible : (b.cache (.office 0 orders)).visible = [(8, [4])] := by decide +kernel
  have hqueue : b.queue = [.prune orders 2, .prune orders 4, .resolve exampleXid] := by
    decide +kernel
  have hledger : ∀ l : Ledger, ({ memory := l } : Storage).ledger = l := fun _ => rfl
  have hrestart := hruns.2 (by decide +kernel) [.prune orders 2]
    (show [.prune orders 2].Sublist b.queue by rw [hqueue]; decide)
    { memory := b.storage.ledger.applyAll [.prune orders 2] } (earlierSettings 1) {}
    (hledger _) rfl rfl
  obtain ⟨cleared, hcourse⟩ := hruns.1
  obtain ⟨b₂, hb₂⟩ := hrestart.2 ⟨List.not_mem_nil, fun _ => List.not_mem_nil, List.not_mem_nil⟩
    (.inr ⟨List.not_mem_nil, List.not_mem_nil⟩)
  refine ⟨hqueue, hdurable.1 _ hcourse orders 8 [4] ?_, b₂, hb₂, ?_⟩
  · rw [hvisible]
    simp
  · rw [hrestart.1 b₂ 0 hb₂, hvisible]

end Broker

end MessageRouting
