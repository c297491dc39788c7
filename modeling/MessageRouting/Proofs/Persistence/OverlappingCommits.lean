import MessageRouting.Proofs.Persistence.RecordsBeforehand

/-!
# Commits that overlap

Sends and completions of transactions that are under way at the same time take
turns stage by stage, and the journal answers an append some time after it has
been asked for it. In mandatory mode a stage becomes visible only once its
append has been answered, so every visible identifier has its record in the
journal at any time, whatever else is under way and whichever writes fail.

Results:

* `grounded_overlap`: a turn keeps the records of visible identifiers, of stages
  that may become visible, and of no pruned ones.
* `overlaps_run`: a run of requests is a course of such turns.
-/

namespace MessageRouting

open Relation (ReflGen ReflTransGen)

/-! ## Keys of one cache -/

namespace Cache

variable {c c' : Cache} {s t : Staged} {k : Nat} {id : Bytes}

/-- The key has been drawn, and only the identifier is or becomes visible at it. -/
structure Reserved (c : Cache) (k : Nat) (id : Bytes) : Prop where
  lt : k < c.nextSequence
  visible : ∀ id', (k, id') ∈ c.visible → id' = id
  pending : ∀ t, c.keyOf t = some k → t.duplicateId = id

/-- The key has been drawn, and nothing is or becomes visible at it any more. -/
structure Spent (c : Cache) (k : Nat) : Prop where
  lt : k < c.nextSequence
  visible : ∀ id, (k, id) ∉ c.visible
  pending : ∀ t, c.keyOf t ≠ some k

/-- The number of the stage has been given out, and if the stage is still pending, it has the
key. -/
structure Bound (c : Cache) (s : Staged) (k : Nat) : Prop where
  lt : s.sequence < c.nextSequence
  key : ∀ q, c.pendingOf? s = some q → q.commitKey = some k

theorem keyOf_of_drawn {next : Nat} (h : c.KeyDrawn s k next) :
    c.keyOf s = some k ∨ k = c.nextSequence :=
  h.imp And.left fun h => h.2.1

/-- The key of a stage after a change is one it had, or a new number. -/
theorem keyOf_change (h : Change c c') (ht : c'.keyOf t = some k) :
    c.keyOf t = some k ∨ k = c.nextSequence := by
  cases h with
  | staged h => exact .inl ((keyOf_staged h t).symm.trans ht)
  | drawn h =>
    rw [keyOf_drawn h] at ht
    split at ht
    · rename_i hsame
      obtain rfl := Option.some.inj ht
      refine (keyOf_of_drawn h.next).imp_left fun hkey => ?_
      rwa [keyOf, pendingOf?_congr (by rw [hsame.1]) hsame.2]
    · exact .inl ht
  | committed h =>
    rw [keyOf_resolved h.pending] at ht
    split at ht
    · cases ht
    · exact .inl ht
  | dropped hq h =>
    subst h
    rw [keyOf_resolved (fun id => Table.get?_erase ..)] at ht
    split at ht
    · cases ht
    · exact .inl ht

/-- An entry that is visible after a change was so before, or its stage had the key or a new
number. -/
theorem mem_visible_change (h : Change c c') (he : (k, id) ∈ c'.visible) :
    (k, id) ∈ c.visible ∨ k = c.nextSequence ∨ ∃ t, c.keyOf t = some k ∧ t.duplicateId = id := by
  cases h with
  | staged h =>
    obtain ⟨-, -, -, -, rfl⟩ := attempt_staged h
    exact .inl he
  | drawn h => exact .inl (h.visible ▸ he)
  | @committed s p h =>
    rcases mem_visible_of_committed h he with heq | he
    · obtain ⟨rfl, rfl⟩ := Prod.mk.inj heq
      rcases keyOf_of_drawn h.next with hkey | hnew
      · exact .inr (.inr ⟨s, hkey, rfl⟩)
      · exact .inr (.inl hnew)
    · exact .inl he
  | dropped hq h =>
    subst h
    exact .inl he

theorem reserved_change (h : Change c c') (hc : c.Reserved k id) : c'.Reserved k id := by
  have hold : k ≠ c.nextSequence := Nat.ne_of_lt hc.lt
  refine ⟨Nat.lt_of_lt_of_le hc.lt (next_le_of_change h), fun id' he => ?_, fun t ht => ?_⟩
  · rcases mem_visible_change h he with he | hnew | ⟨t, ht, rfl⟩
    · exact hc.visible id' he
    · exact absurd hnew hold
    · exact hc.pending t ht
  · exact hc.pending t ((keyOf_change h ht).resolve_right hold)

theorem spent_change (h : Change c c') (hc : c.Spent k) : c'.Spent k := by
  have hold : k ≠ c.nextSequence := Nat.ne_of_lt hc.lt
  refine ⟨Nat.lt_of_lt_of_le hc.lt (next_le_of_change h), fun id he => ?_, fun t ht => ?_⟩
  · rcases mem_visible_change h he with he | hnew | ⟨t, ht, -⟩
    · exact hc.visible id he
    · exact hold hnew
    · exact hc.pending t ht
  · exact hc.pending t ((keyOf_change h ht).resolve_right hold)

theorem bound_change (h : Change c c') (hc : c.Bound s k) : c'.Bound s k := by
  refine ⟨Nat.lt_of_lt_of_le hc.lt (next_le_of_change h), fun q hq => ?_⟩
  obtain ⟨q₀, hq₀, hkept⟩ := pendingOf?_of_change h hc.lt hq
  exact hkept k (hc.key q₀ hq₀)

/-- What a commit evicts was visible, so no stage had its key. -/
theorem spent_evicted {p : Promotion} {f : Nat × Bytes} (h : Committed c s p c') (hkeyed : Keyed c)
    (hf : f ∈ p.evicted) : c'.Spent f.1 := by
  have hold := (mem_visible_of_evicted h hf).1
  refine ⟨?_, fun id he => ?_, fun t ht => ?_⟩
  · exact Nat.lt_of_lt_of_le (hkeyed.visible_lt f hold) (key_fresh hkeyed h.next).2.1
  · exact ((mem_visible_iff h hkeyed _).1 he).2 f hf rfl
  · rw [keyOf_resolved h.pending] at ht
    split at ht
    · cases ht
    · exact hkeyed.key_ne t _ ht f hold rfl

/-- What a turn makes of a cache: nothing, or one that had not been made, or one operation. -/
inductive Becomes (c : Cache) : Cache → Prop where
  | same : Becomes c c
  | made (a : Address) (n : Nat) (h : c = absent) : Becomes c { address := a, capacity := n }
  | changed {c' : Cache} (h : Change c c') : Becomes c c'

theorem reserved_becomes (h : Becomes c c') (hc : c.Reserved k id) : c'.Reserved k id := by
  cases h with
  | same => exact hc
  | made a n h =>
    subst h
    exact ⟨hc.lt, nofun, nofun⟩
  | changed h => exact reserved_change h hc

theorem spent_becomes (h : Becomes c c') (hc : c.Spent k) : c'.Spent k := by
  cases h with
  | same => exact hc
  | made a n h =>
    subst h
    exact ⟨hc.lt, nofun, nofun⟩
  | changed h => exact spent_change h hc

theorem bound_becomes (h : Becomes c c') (hc : c.Bound s k) : c'.Bound s k := by
  cases h with
  | same => exact hc
  | made a n h =>
    subst h
    exact ⟨hc.lt, nofun⟩
  | changed h => exact bound_change h hc

end Cache

/-! ## Turns -/

/-- A broker with commits under way. -/
structure Underway where
  broker : Broker
  /-- The appends that the journal has been asked for and has not answered, each for the key that
  has been drawn for a stage. -/
  asked : List (HeldStage × Nat) := []
  /-- The stages that may become visible. -/
  cleared : List HeldStage := []

namespace Broker

/-- A stage of the first post office, whose number its cache has given out. -/
def Issued (b : Broker) (h : HeldStage) : Prop :=
  h.AtOffice ∧ h.staged.sequence < b.next h.cache

/-- One turn of somebody who sends or completes a transaction, or of the journal or the writer. -/
inductive Overlap : Underway → Underway → Prop where
  /-- Something is done to queues, bindings, hooks or transactions. -/
  | beside {b b' : Broker} {asked : List (HeldStage × Nat)} {cleared : List HeldStage}
    (h : b'.books = b.books) : Overlap ⟨b, asked, cleared⟩ ⟨b', asked, cleared⟩
  /-- Other journal calls fail from now on. -/
  | faulted {b : Broker} {asked : List (HeldStage × Nat)} {cleared : List HeldStage}
    (failing : List JournalMethod) (lapses : List (Option JournalMethod)) :
    Overlap ⟨b, asked, cleared⟩
      ⟨{ b with storage := { b.storage with failing, lapses } }, asked, cleared⟩
  /-- The cache of an address is made. -/
  | opened {b : Broker} {asked : List (HeldStage × Nat)} {cleared : List HeldStage} (a : Address) :
    Overlap ⟨b, asked, cleared⟩ ⟨b.openOfficeCache 0 a, asked, cleared⟩
  /-- Calls begin to wait or try again. -/
  | called {b : Broker} {asked : List (HeldStage × Nat)} {cleared : List HeldStage}
    (waiting ready : List Call) :
    Overlap ⟨b, asked, cleared⟩ ⟨{ b with waiting := waiting, ready := ready }, asked, cleared⟩
  /-- A stage is granted. -/
  | granted {b b' : Broker} {asked : List (HeldStage × Nat)} {cleared : List HeldStage}
    {a : Address} {id : Bytes} {owner : Owner} {s : Staged}
    (hgrant : b.attemptStage (.office 0 a) id owner = (b', some (.staged s))) :
    Overlap ⟨b, asked, cleared⟩ ⟨b', asked, cleared⟩
  /-- The key of a stage is drawn, and the journal is asked to append its record. -/
  | drawn {b : Broker} {asked : List (HeldStage × Nat)} {cleared : List HeldStage} {h : HeldStage}
    {key : Nat} {c : Cache} (hh : b.Issued h)
    (hdraw : (b.cache h.cache).drawKey h.staged = (some key, c)) :
    Overlap ⟨b, asked, cleared⟩ ⟨b.setCache h.cache c, (h, key) :: asked, cleared⟩
  /-- A stage that is not pending any more needs no record. -/
  | skipped {b : Broker} {asked : List (HeldStage × Nat)} {cleared : List HeldStage}
    {h : HeldStage} {c : Cache} (hh : b.Issued h)
    (hdraw : (b.cache h.cache).drawKey h.staged = (none, c)) :
    Overlap ⟨b, asked, cleared⟩ ⟨b, asked, h :: cleared⟩
  /-- The journal has appended a record, so its stage may become visible. -/
  | appended {b b' : Broker} {front back : List (HeldStage × Nat)} {cleared : List HeldStage}
    {h : HeldStage} {key : Nat}
    (hwrite : b.write .inline (.add (h.staged.recordAt key)) = (b', .ok ())) :
    Overlap ⟨b, front ++ (h, key) :: back, cleared⟩ ⟨b', front ++ back, h :: cleared⟩
  /-- An append fails. -/
  | failed {b b' : Broker} {front back : List (HeldStage × Nat)} {cleared : List HeldStage}
    {h : HeldStage} {key : Nat} {e : JournalError}
    (hwrite : b.write .inline (.add (h.staged.recordAt key)) = (b', .error e)) :
    Overlap ⟨b, front ++ (h, key) :: back, cleared⟩ ⟨b', front ++ back, cleared⟩
  /-- A stage becomes visible. -/
  | promoted {b : Broker} {asked : List (HeldStage × Nat)} {cleared : List HeldStage}
    {h : HeldStage} (hh : h ∈ cleared) :
    Overlap ⟨b, asked, cleared⟩ ⟨b.commitStage h, asked, cleared⟩
  /-- A stage is dropped. -/
  | dropped {b : Broker} {asked : List (HeldStage × Nat)} {cleared : List HeldStage}
    {h : HeldStage} (hh : h.AtOffice) :
    Overlap ⟨b, asked, cleared⟩ ⟨b.rollbackStage h, asked, cleared⟩
  /-- The record of a stage is written as prepared, or cannot be. -/
  | stored {b b' : Broker} {asked : List (HeldStage × Nat)} {cleared : List HeldStage}
    {h : HeldStage} {x : Xid} {result : Except JournalError Unit} (hh : h.AtOffice)
    (hs : b.storePrepared x h = (b', result)) :
    Overlap ⟨b, asked, cleared⟩ ⟨b', asked, cleared⟩
  /-- The prepared records of a branch are to be deleted. -/
  | released {b : Broker} {asked : List (HeldStage × Nat)} {cleared : List HeldStage}
    {h : HeldStage × Bool} (hh : h.1.AtOffice) (x : Option Xid) :
    Overlap ⟨b, asked, cleared⟩ ⟨b.release x h, asked, cleared⟩
  /-- The writer makes its next write. -/
  | written {b : Broker} {asked : List (HeldStage × Nat)} {cleared : List HeldStage} :
    Overlap ⟨b, asked, cleared⟩ ⟨b.writeNext 0, asked, cleared⟩

abbrev Overlaps : Underway → Underway → Prop := ReflTransGen Overlap

/-! ## Records of what is visible -/

/-- The stage may become visible: if it is pending still, it has a key, and the journal has its
record. -/
def Cleared (b : Broker) (h : HeldStage) : Prop :=
  h.AtOffice ∧ ∃ key, (b.cache h.cache).Bound h.staged key ∧
    ∀ q, (b.cache h.cache).pendingOf? h.staged = some q →
      h.staged.recordAt key ∈ b.storage.ledger.committed

/-- The journal has been asked to append the record of the stage, under a key that is the stage's
own. -/
structure Requested (b : Broker) (h : HeldStage) (key : Nat) : Prop where
  atOffice : h.AtOffice
  reserved : (b.cache h.cache).Reserved key h.staged.duplicateId
  bound : (b.cache h.cache).Bound h.staged key

/-- Every visible identifier has its record in the journal, and every stage that may become visible;
what is going to be pruned is neither. -/
structure Grounded (w : Underway) : Prop where
  keeping : Keeping .mandatory w.broker
  addressed : Addressed w.broker
  keyed : AllKeyed w.broker
  ordered : Ledger.Ordered w.broker.storage.ledger.committed
  unadded : ∀ r, .add r ∉ w.broker.queue
  spent : ∀ a k, .prune a k ∈ w.broker.queue → (w.broker.cache (.office 0 a)).Spent k
  shown : ∀ a k id, (k, id) ∈ (w.broker.cache (.office 0 a)).visible →
    ⟨a, k, id⟩ ∈ w.broker.storage.ledger.committed
  asked : ∀ p ∈ w.asked, w.broker.Requested p.1 p.2
  cleared : ∀ h ∈ w.cleared, w.broker.Cleared h

variable {b b' : Broker} {asked : List (HeldStage × Nat)} {cleared : List HeldStage}

theorem becomes_step (h : Step b b') (ref : CacheRef) :
    (b.cache ref).Becomes (b'.cache ref) := by
  rcases cache_step h ref with heq | ⟨a, -, habsent, heq⟩ | hchange
  · rw [heq]
    exact .same
  · rw [heq]
    exact .made a _ habsent
  · exact .changed hchange

theorem becomes_of_setCache {ref : CacheRef} {c : Cache} (hc : Cache.Change (b.cache ref) c)
    (hcache : ∀ ref', b'.cache ref' = if ref = ref' then c else b.cache ref') (ref' : CacheRef) :
    (b.cache ref').Becomes (b'.cache ref') := by
  rw [hcache]
  split
  · rename_i href
    exact .changed (href ▸ hc)
  · exact .same

theorem Requested.becomes {h : HeldStage} {key : Nat} (hb : b.Requested h key)
    (hbecomes : ∀ ref, (b.cache ref).Becomes (b'.cache ref)) : b'.Requested h key :=
  ⟨hb.atOffice, Cache.reserved_becomes (hbecomes _) hb.reserved,
    Cache.bound_becomes (hbecomes _) hb.bound⟩

/-- A stage stays cleared as long as its record stays. -/
theorem Cleared.becomes {h : HeldStage} (hb : b.Cleared h)
    (hbecomes : ∀ ref, (b.cache ref).Becomes (b'.cache ref))
    (hkept : ∀ key, (b.cache h.cache).keyOf h.staged = some key →
      h.staged.recordAt key ∈ b.storage.ledger.committed →
        h.staged.recordAt key ∈ b'.storage.ledger.committed) : b'.Cleared h := by
  obtain ⟨hh, key, hbound, hrecord⟩ := hb
  refine ⟨hh, key, Cache.bound_becomes (hbecomes _) hbound, fun q hq => ?_⟩
  obtain ⟨q₀, hq₀⟩ : ∃ q₀, (b.cache h.cache).pendingOf? h.staged = some q₀ := by
    have hbecome := hbecomes h.cache
    generalize b'.cache h.cache = c' at hbecome hq
    cases hbecome with
    | same => exact ⟨q, hq⟩
    | made a n _ => cases hq
    | changed hchange =>
      obtain ⟨q₀, hq₀, -⟩ := Cache.pendingOf?_of_change hchange hbound.lt hq
      exact ⟨q₀, hq₀⟩
  refine hkept key ?_ (hrecord q₀ hq₀)
  rw [Cache.keyOf, hq₀]
  exact hbound.key q₀ hq₀

/-- Everything stays grounded when the writer is handed nothing but prunes of what is spent, what is
visible has its record, and stages that may become visible keep theirs. -/
theorem Grounded.becomes (hw : Grounded ⟨b, asked, cleared⟩) (hkeeping : Keeping .mandatory b')
    (haddressed : Addressed b') (hkeyed : AllKeyed b')
    (hordered : Ledger.Ordered b'.storage.ledger.committed)
    (hbecomes : ∀ ref, (b.cache ref).Becomes (b'.cache ref)) (hunadded : ∀ r, .add r ∉ b'.queue)
    (hspent : ∀ a k, .prune a k ∈ b'.queue →
      .prune a k ∈ b.queue ∨ (b'.cache (.office 0 a)).Spent k)
    (hshown : ∀ a k id, (k, id) ∈ (b'.cache (.office 0 a)).visible →
      ⟨a, k, id⟩ ∈ b'.storage.ledger.committed)
    (hkept : ∀ h ∈ cleared, ∀ key, (b.cache h.cache).keyOf h.staged = some key →
      h.staged.recordAt key ∈ b.storage.ledger.committed →
        h.staged.recordAt key ∈ b'.storage.ledger.committed) :
    Grounded ⟨b', asked, cleared⟩ where
  keeping := hkeeping
  addressed := haddressed
  keyed := hkeyed
  ordered := hordered
  unadded := hunadded
  spent a k hk :=
    (hspent a k hk).elim (fun hk => Cache.spent_becomes (hbecomes _) (hw.spent a k hk)) id
  shown := hshown
  asked p hp := (hw.asked p hp).becomes hbecomes
  cleared h hh := (hw.cleared h hh).becomes hbecomes (hkept h hh)

/-- What changes no committed record and shows nothing new leaves everything grounded. -/
theorem grounded_quiet (hw : Grounded ⟨b, asked, cleared⟩) (hkeeping : Keeping .mandatory b')
    (haddressed : Addressed b') (hkeyed : AllKeyed b')
    (hbecomes : ∀ ref, (b.cache ref).Becomes (b'.cache ref)) {inline handed : List Entry}
    (hlogs : Logs b b' inline handed) (hprepared : ∀ e ∈ inline ++ handed, e.isPrepared = true)
    (hvisible : ∀ ref, (b'.cache ref).visible = (b.cache ref).visible) :
    Grounded ⟨b', asked, cleared⟩ := by
  have hledger : b'.storage.ledger.committed = b.storage.ledger.committed := by
    rw [hlogs.ledger]
    exact Ledger.committed_applyAll_prepared (fun e he => hprepared e (by simp [he])) _
  have hqueue : ∀ e, e.isPrepared = false → e ∈ b'.queue → e ∈ b.queue := by
    intro e he hmem
    rw [hlogs.queue, List.mem_append] at hmem
    refine hmem.resolve_right fun hmem => ?_
    rw [hprepared e (by simp [hmem])] at he
    cases he
  refine hw.becomes hkeeping haddressed hkeyed (hledger ▸ hw.ordered) hbecomes
    (fun r hr => hw.unadded r (hqueue _ rfl hr)) (fun a k hk => .inl (hqueue _ rfl hk))
    (fun a k id he => ?_) fun h hh key _ hrecord => ?_
  · rw [hvisible] at he
    rw [hledger]
    exact hw.shown a k id he
  · rwa [hledger]

/-- A step that changes no committed record and shows nothing new leaves everything grounded. -/
theorem grounded_step (hw : Grounded ⟨b, asked, cleared⟩) (h : Step b b')
    {inline handed : List Entry} (hlogs : Logs b b' inline handed)
    (hprepared : ∀ e ∈ inline ++ handed, e.isPrepared = true)
    (hvisible : ∀ ref, (b'.cache ref).visible = (b.cache ref).visible) :
    Grounded ⟨b', asked, cleared⟩ :=
  grounded_quiet hw (keeping_step h hw.keeping) (addressed_step h hw.addressed)
    (keyed_step h hw.keyed) (becomes_step h) hlogs hprepared hvisible

/-- A key that is drawn is the stage's own, and the record of another stage is not at its place. -/
theorem grounded_drawn (hw : Grounded ⟨b, asked, cleared⟩) {h : HeldStage} (hh : b.Issued h)
    {key : Nat} {c : Cache} (hdraw : (b.cache h.cache).drawKey h.staged = (some key, c)) :
    Grounded ⟨b.setCache h.cache c, (h, key) :: asked, cleared⟩ := by
  have hdrawn := Cache.drawKey_some hdraw
  have hcache := cache_setCache b h.cache (c := c)
  have hbecomes := becomes_of_setCache (.drawn hdrawn) hcache
  have haddressed : Addressed (b.setCache h.cache c) := by
    intro a d hd
    simp only [setCache, Table.get?_insert] at hd
    split at hd
    · rename_i href
      cases hd
      obtain ⟨q, hq, -⟩ := hdrawn.pending
      rw [hdrawn.address]
      rw [href] at hq ⊢
      exact address_of_pendingOf hw.addressed hq
    · exact hw.addressed a d hd
  have hquiet : Grounded ⟨b.setCache h.cache c, asked, cleared⟩ :=
    grounded_quiet hw (hw.keeping.of_stations rfl) haddressed
      (keyed_of_setCache hw.keyed (.drawn hdrawn) hcache) hbecomes (logs_setCache ..) (by simp)
      (visible_of_set hcache hdrawn.visible)
  refine { hquiet with asked := fun p hp => ?_ }
  rcases List.mem_cons.1 hp with rfl | hp
  · obtain ⟨hlt, hnext, hne, hfresh⟩ := Cache.key_fresh (hw.keyed h.cache) hdrawn.next
    have hself : (b.setCache h.cache c).cache h.cache = c := by rw [hcache, if_pos rfl]
    refine ⟨hh.1, ?_, ?_⟩
    · rw [hself]
      refine ⟨hlt, fun id' he => ?_, fun t ht => ?_⟩
      · rw [hdrawn.visible] at he
        exact absurd rfl (hne _ he)
      · rw [Cache.keyOf_drawn hdrawn] at ht
        split at ht
        · rename_i hsame
          exact hsame.1
        · exact Decidable.byContradiction fun hid => hfresh t hid ht
    · rw [hself]
      refine ⟨Nat.lt_of_lt_of_le hh.2 hnext, fun q hq => ?_⟩
      have hkey : c.keyOf h.staged = some key := by
        rw [Cache.keyOf_drawn hdrawn, if_pos ⟨rfl, rfl⟩]
      rwa [Cache.keyOf, hq] at hkey
  · exact hquiet.asked p hp

/-- The record of a stage leaves those of others, whose keys are different. -/
theorem mem_add_of_asked (hw : Grounded ⟨b, asked, cleared⟩) {h : HeldStage} {key : Nat}
    (hasked : b.Requested h key) {r : Record} (hr : r ∈ b.storage.ledger.committed)
    (hneeded : (r.sequence, r.duplicateId) ∈ (b.cache (.office 0 r.address)).visible ∨
      ∃ t, (b.cache (.office 0 r.address)).keyOf t = some r.sequence ∧
        t.duplicateId = r.duplicateId) :
    r ∈ (b.storage.ledger.apply (.add (h.staged.recordAt key))).committed := by
  rw [Ledger.mem_add hw.ordered]
  cases hplace : (h.staged.recordAt key).samePlace r with
  | false => exact .inr ⟨hr, rfl⟩
  | true =>
    obtain ⟨ra, rn, rid⟩ := r
    obtain ⟨rfl, rfl⟩ : h.staged.address = ra ∧ key = rn := Record.samePlace_iff.1 hplace
    have hreserved := hasked.reserved
    rw [hasked.atOffice] at hreserved
    have hid : rid = h.staged.duplicateId := by
      rcases hneeded with hshown | ⟨t, ht, htid⟩
      · exact hreserved.visible rid hshown
      · exact htid.symm.trans (hreserved.pending t ht)
    exact .inl (by rw [hid]; rfl)

theorem mem_of_answered {α : Type} {front back : List α} {x y : α} (h : x ∈ front ++ back) :
    x ∈ front ++ y :: back :=
  (List.mem_append.1 h).elim (List.mem_append_left _)
    fun h => List.mem_append_right _ (List.mem_cons_of_mem _ h)

/-- When a record has been appended its stage may become visible. -/
theorem grounded_appended {front back : List (HeldStage × Nat)} {h : HeldStage} {key : Nat}
    (hw : Grounded ⟨b, front ++ (h, key) :: back, cleared⟩)
    (hwrite : b.write .inline (.add (h.staged.recordAt key)) = (b', .ok ())) :
    Grounded ⟨b', front ++ back, h :: cleared⟩ := by
  have hasked := hw.asked (h, key) (by simp)
  have hcache : ∀ ref, b'.cache ref = b.cache ref := by
    obtain rfl := congrArg Prod.fst hwrite
    exact fun ref => cache_write ..
  have hbecomes : ∀ ref, (b.cache ref).Becomes (b'.cache ref) := fun ref => by
    rw [hcache]
    exact .same
  obtain hlogs : Logs b b' [.add (h.staged.recordAt key)] [] := by
    rcases logs_write hwrite with ⟨-, hlogs⟩ | ⟨⟨err, herr⟩, -⟩
    · exact hlogs
    · cases herr
  have hledger : b'.storage.ledger = b.storage.ledger.apply (.add (h.staged.recordAt key)) :=
    hlogs.ledger
  have hqueue : b'.queue = b.queue := by rw [hlogs.queue, List.append_nil]
  have haddressed : Addressed b' := by
    obtain rfl := congrArg Prod.fst hwrite
    exact hw.addressed
  have hordered : Ledger.Ordered b'.storage.ledger.committed := by
    rw [hledger]
    exact Ledger.ordered_apply hw.ordered _
  have hall : Grounded ⟨b', front ++ (h, key) :: back, cleared⟩ := by
    refine hw.becomes (hw.keeping.of_stations hlogs.stations) haddressed
      (fun ref => hcache ref ▸ hw.keyed ref) hordered hbecomes (hqueue ▸ hw.unadded)
      (fun a k hk => .inl (hqueue ▸ hk)) (fun a k id he => ?_) fun g hg k hk hrecord => ?_
    · rw [hcache] at he
      rw [hledger]
      exact mem_add_of_asked hw hasked (hw.shown a k id he) (.inl he)
    · rw [hledger]
      refine mem_add_of_asked hw hasked hrecord (.inr ⟨g.staged, ?_, rfl⟩)
      rw [(hw.cleared g hg).1] at hk
      exact hk
  refine { hall with asked := fun p hp => hall.asked p (mem_of_answered hp), cleared := ?_ }
  intro g hg
  rcases List.mem_cons.1 hg with rfl | hg
  · refine ⟨hasked.atOffice, key, hcache _ ▸ hasked.bound, fun q _ => ?_⟩
    rw [hledger, Ledger.mem_add hw.ordered]
    exact .inl rfl
  · exact hall.cleared g hg

theorem grounded_failed {front back : List (HeldStage × Nat)} {h : HeldStage} {key : Nat}
    {e : JournalError} (hw : Grounded ⟨b, front ++ (h, key) :: back, cleared⟩)
    (hwrite : b.write .inline (.add (h.staged.recordAt key)) = (b', .error e)) :
    Grounded ⟨b', front ++ back, cleared⟩ := by
  have hlogs : Logs b b' [] [] := by
    rcases logs_write hwrite with ⟨hok, -⟩ | ⟨-, hlogs⟩
    · cases hok
    · exact hlogs
  obtain rfl := congrArg Prod.fst hwrite
  have hquiet : Grounded ⟨(b.write .inline (.add (h.staged.recordAt key))).1,
      front ++ (h, key) :: back, cleared⟩ :=
    grounded_quiet hw (hw.keeping.of_stations hlogs.stations) hw.addressed hw.keyed
      (fun ref => .same) hlogs (by simp) fun ref => rfl
  exact { hquiet with asked := fun p hp => hquiet.asked p (mem_of_answered hp) }

/-- A stage that is not pending may be committed, which does nothing. -/
theorem cleared_skipped {h : HeldStage} {c : Cache} (hh : b.Issued h)
    (hdraw : (b.cache h.cache).drawKey h.staged = (none, c)) : b.Cleared h := by
  obtain ⟨hnone, -⟩ := Cache.drawKey_none hdraw
  have habsurd : ∀ q, (b.cache h.cache).pendingOf? h.staged ≠ some q := by
    intro q hq
    rw [hnone] at hq
    cases hq
  exact ⟨hh.1, 0, ⟨hh.2, fun q hq => absurd hq (habsurd q)⟩, fun q hq => absurd hq (habsurd q)⟩

/-- A stage becomes visible under the key of its record, and what it displaces is spent. -/
theorem grounded_promoted (hw : Grounded ⟨b, asked, cleared⟩) {h : HeldStage} (hh : h ∈ cleared) :
    Grounded ⟨b.commitStage h, asked, cleared⟩ := by
  obtain ⟨hoffice, key, hbound, hrecord⟩ := hw.cleared h hh
  have hstep : Step b (b.commitStage h) := .promoted hoffice
  rcases logs_commitStage hw.keeping hw.addressed hoffice with ⟨-, heq⟩ |
    ⟨p, c, hcommitted, hcache, hlogs⟩
  · rw [heq]
    exact hw
  obtain ⟨q, hq⟩ := hcommitted.pendingOf
  have hkey : p.key = key := Cache.key_of_committed hcommitted (by
    rw [Cache.keyOf, hq]
    exact hbound.key q hq)
  have hkeyed := hw.keyed h.cache
  have hledger : (b.commitStage h).storage.ledger = b.storage.ledger := hlogs.ledger
  have hmem : ∀ e, e ∈ (b.commitStage h).queue ↔
      e ∈ b.queue ∨ ∃ f ∈ p.evicted, e = .prune h.staged.address f.1 := by
    intro e
    rw [hlogs.queue, List.mem_append]
    exact or_congr_right (by simp [Promotion.entries, eq_comm])
  refine hw.becomes (keeping_step hstep hw.keeping) (addressed_step hstep hw.addressed)
    (keyed_step hstep hw.keyed) (hledger ▸ hw.ordered) (becomes_step hstep) (fun r hr => ?_)
    (fun a k hk => ?_) (fun a k id he => ?_) fun g hg k _ hk => hledger ▸ hk
  · rcases (hmem _).1 hr with hr | ⟨f, -, heq⟩
    · exact hw.unadded r hr
    · cases heq
  · rcases (hmem _).1 hk with hqueued | ⟨f, hf, heq⟩
    · exact .inl hqueued
    · cases heq
      rw [← hoffice, hcache, if_pos rfl]
      exact .inr (Cache.spent_evicted hcommitted hkeyed hf)
  · rw [hledger]
    rw [hcache] at he
    split at he
    · rename_i href
      rcases Cache.mem_visible_of_committed hcommitted he with heq | he
      · obtain ⟨rfl, rfl⟩ := Prod.mk.inj heq
        have ha : h.staged.address = a := hoffice.address href
        rw [← ha, hkey]
        exact hrecord q hq
      · exact hw.shown a k id (href ▸ he)
    · exact hw.shown a k id he

/-- The writer prunes what is spent. -/
theorem grounded_written (hw : Grounded ⟨b, asked, cleared⟩) :
    Grounded ⟨b.writeNext 0, asked, cleared⟩ := by
  have hstep : Step b (b.writeNext 0) := .written
  rcases logs_writeNext b with ⟨-, heq⟩ | ⟨e, rest, hqueue, hrest, -, -, hwritten⟩
  · rw [heq]
    exact hw
  have hkept : ∀ r ∈ b.storage.ledger.committed,
      ¬ (b.cache (.office 0 r.address)).Spent r.sequence →
        r ∈ (b.writeNext 0).storage.ledger.committed := by
    intro r hr hspent
    rcases hwritten with ⟨-, hledger⟩ | ⟨-, hledger, -⟩
    · rw [hledger]
      refine Ledger.mem_apply_of_not_touches hw.ordered hr fun htouches => ?_
      have hmem : e ∈ b.queue := by simp [hqueue]
      cases e with
      | add s => exact hw.unadded s hmem
      | prune a n =>
        obtain ⟨rfl, rfl⟩ := htouches
        exact hspent (hw.spent _ _ hmem)
      | prepare x s => exact htouches
      | resolve x => exact htouches
    · rw [hledger]
      exact hr
  have hmem : ∀ f ∈ (b.writeNext 0).queue, f ∈ b.queue := fun f hf => by
    rw [hqueue]
    exact List.mem_cons_of_mem _ (hrest ▸ hf)
  have hordered : Ledger.Ordered (b.writeNext 0).storage.ledger.committed := by
    obtain ⟨es, -, hledger⟩ := ledger_step hstep hw.keeping hw.addressed
    rw [hledger]
    exact Ledger.ordered_applyAll hw.ordered es
  refine hw.becomes (keeping_step hstep hw.keeping) (addressed_step hstep hw.addressed)
    (keyed_step hstep hw.keyed) hordered (becomes_step hstep)
    (fun r hr => hw.unadded r (hmem _ hr)) (fun a k hk => .inl (hmem _ hk))
    (fun a k id he => ?_) fun g hg k hk hrecord => ?_
  · rw [cache_writeNext] at he
    exact hkept _ (hw.shown a k id he) fun hspent => hspent.visible id he
  · refine hkept _ hrecord fun hspent => hspent.pending g.staged ?_
    rw [(hw.cleared g hg).1] at hk
    exact hk

/-! ## Courses of turns -/

theorem stations_books (b : Broker) : b.books.stations = b.stations := by
  simp only [stations, books, List.map_map]
  rfl

theorem grounded_books : Grounded ⟨b.books, asked, cleared⟩ ↔ Grounded ⟨b, asked, cleared⟩ := by
  constructor
  · intro hw
    exact { hw with
      keeping := hw.keeping.of_stations (stations_books b).symm
      unadded := fun r hr => hw.unadded r ((queue_books b).symm ▸ hr)
      spent := fun a k hk => hw.spent a k ((queue_books b).symm ▸ hk)
      asked := fun p hp => (hw.asked p hp).becomes fun _ => .same }
  · intro hw
    exact { hw with
      keeping := keeping_books hw.keeping
      unadded := fun r hr => hw.unadded r (queue_books b ▸ hr)
      spent := fun a k hk => hw.spent a k (queue_books b ▸ hk)
      asked := fun p hp => (hw.asked p hp).becomes fun _ => .same }

theorem Grounded.of_books (hw : Grounded ⟨b, asked, cleared⟩) (h : b'.books = b.books) :
    Grounded ⟨b', asked, cleared⟩ :=
  grounded_books.1 (h ▸ grounded_books.2 hw)

/-- Every turn leaves everything grounded. -/
theorem grounded_overlap {w w' : Underway} (h : Overlap w w') (hw : Grounded w) : Grounded w' := by
  cases h with
  | beside h => exact hw.of_books h
  | faulted failing lapses =>
    exact { hw with
      keeping := hw.keeping.of_stations rfl
      asked := fun p hp => (hw.asked p hp).becomes fun _ => .same }
  | opened a =>
    exact grounded_step hw (.opened a) (logs_openOfficeCache _ 0 a) (by simp)
      (visible_openOfficeCache _ 0 a)
  | called waiting ready =>
    exact grounded_step hw (.called waiting ready) (logs_called ..) (by simp) fun _ => rfl
  | granted hgrant =>
    refine grounded_step hw (.granted hgrant) (logs_granted hgrant) (by simp) ?_
    obtain ⟨c, hattempt, rfl⟩ := attemptStage_granted hgrant
    obtain ⟨-, -, -, -, rfl⟩ := Cache.attempt_staged hattempt
    exact visible_of_set (fun ref => cache_setCache ..) rfl
  | drawn hh hdraw => exact grounded_drawn hw hh hdraw
  | skipped hh hdraw =>
    refine { hw with cleared := fun g hg => ?_ }
    rcases List.mem_cons.1 hg with rfl | hg
    · exact cleared_skipped hh hdraw
    · exact hw.cleared g hg
  | appended hwrite => exact grounded_appended hw hwrite
  | failed hwrite => exact grounded_failed hw hwrite
  | promoted hh => exact grounded_promoted hw hh
  | @dropped b asked cleared h hh =>
    refine grounded_step hw (.dropped hh) (logs_rollbackStage b h) (by simp) ?_
    rcases rollbackStage_cases b h with ⟨-, heq⟩ | ⟨q, c, -, hc, heq⟩
    · rw [heq]
      exact fun _ => rfl
    · refine visible_of_set (c := c) (fun ref => ?_) (by rw [hc])
      rw [heq, cache_wake, cache_log, cache_setCache]
  | @stored b b' asked cleared h x result hh hs =>
    have hcache : ∀ ref, b'.cache ref = b.cache ref := by
      obtain rfl := congrArg Prod.fst hs
      exact fun ref => cache_storePrepared ..
    have hvisible : ∀ ref, (b'.cache ref).visible = (b.cache ref).visible := fun ref => by
      rw [hcache]
    rcases logs_storePrepared hw.keeping hh hs with ⟨-, hlogs⟩ | ⟨-, hlogs⟩
    · exact grounded_step hw (.stored hh hs) hlogs (by simp [Entry.isPrepared]) hvisible
    · exact grounded_step hw (.stored hh hs) hlogs (by simp) hvisible
  | released hh x =>
    refine grounded_step hw (.released hh x) (logs_release hw.keeping hh x) prepared_released ?_
    exact fun ref => by rw [cache_release]
  | written => exact grounded_written hw

theorem grounded_overlaps {w w' : Underway} (h : Overlaps w w') (hw : Grounded w) :
    Grounded w' := by
  induction h with
  | refl => exact hw
  | tail _ h ih => exact grounded_overlap h ih

/-- A post office begins with a record of everything that is visible. -/
theorem Begun.grounded (hb : Begun .mandatory b) : Grounded ⟨b, [], []⟩ where
  keeping := hb.keeping
  addressed := hb.addressed
  keyed := hb.keyed
  ordered := hb.ordered
  unadded r hr := by
    rw [hb.queue] at hr
    cases hr
  spent a k hk := by
    rw [hb.queue] at hk
    cases hk
  shown a k id he := (hb.mirror a k id).2 he
  asked := nofun
  cleared := nofun

/-! ## Requests as courses of turns -/

theorem Issued.step {h : HeldStage} (hh : b.Issued h) (hstep : Step b b') : b'.Issued h :=
  ⟨hh.1, Nat.lt_of_lt_of_le hh.2 (next_le_of_step hstep _)⟩

/-- A stage is persisted by drawing its key and asking for its record, which is answered next. -/
theorem overlaps_persistStage (hb : Keeping .mandatory b) {h : HeldStage} (hh : b.Issued h)
    {result : Except JournalError Unit} (hp : b.persistStage h = (b', result))
    (cleared : List HeldStage) :
    ∃ cleared', Overlaps ⟨b, [], cleared⟩ ⟨b', [], cleared'⟩ ∧ cleared ⊆ cleared' ∧
      (result = .ok () → h ∈ cleared') := by
  unfold persistStage at hp
  split at hp
  · rename_i c hdraw
    cases hp
    exact ⟨h :: cleared, .single (.skipped hh hdraw), List.subset_cons_self .., fun _ => by simp⟩
  · rename_i key c hdraw
    have hkeeping : Keeping .mandatory (b.setCache h.cache c) := hb.of_stations rfl
    simp only [hkeeping.persistenceOf hh.1] at hp
    have hdrawn : Overlap ⟨b, [], cleared⟩ ⟨b.setCache h.cache c, [] ++ (h, key) :: [], cleared⟩ :=
      .drawn hh hdraw
    cases result with
    | ok _ =>
      exact ⟨h :: cleared, (ReflTransGen.single hdrawn).tail (.appended hp),
        List.subset_cons_self .., fun _ => by simp⟩
    | error e =>
      exact ⟨cleared, (ReflTransGen.single hdrawn).tail (.failed hp), List.Subset.refl _, nofun⟩

theorem overlaps_persistAll (hb : Keeping .mandatory b) {hs : List (HeldStage × Bool)}
    (hhs : ∀ h ∈ hs, b.Issued h.1) (cleared : List HeldStage) :
    ∃ cleared', Overlaps ⟨b, [], cleared⟩ ⟨(b.persistAll hs).1, [], cleared'⟩ ∧
      cleared ⊆ cleared' ∧ ((b.persistAll hs).2 = .ok () → ∀ h ∈ hs, h.1 ∈ cleared') := by
  induction hs generalizing b cleared with
  | nil => exact ⟨cleared, .refl, List.Subset.refl _, fun _ h hh => absurd hh List.not_mem_nil⟩
  | cons h rest ih =>
    have hh := hhs h (by simp)
    rcases hp : b.persistStage h.1 with ⟨c, result⟩
    have hstep : Step b c := .persisted hh.1 hp
    obtain ⟨cleared₁, hover, hsub, hok⟩ := overlaps_persistStage hb hh hp cleared
    simp only [persistAll, hp]
    cases result with
    | error e => exact ⟨cleared₁, hover, hsub, fun hok => by cases hok⟩
    | ok _ =>
      obtain ⟨cleared₂, hovers, hsub₂, hall⟩ :=
        ih (keeping_step hstep hb) (fun g hg => (hhs g (by simp [hg])).step hstep) cleared₁
      refine ⟨cleared₂, hover.trans hovers, List.Subset.trans hsub hsub₂, fun hdone g hg => ?_⟩
      rcases List.mem_cons.1 hg with rfl | hg
      · exact hsub₂ (hok rfl)
      · exact hall hdone g hg

theorem overlaps_promoteAll {hs : List (HeldStage × Bool)} (hhs : ∀ h ∈ hs, h.1.AtOffice)
    (hcleared : ∀ h ∈ hs, h.1 ∈ cleared) (b : Broker) (x : Option Xid) :
    Overlaps ⟨b, [], cleared⟩ ⟨b.promoteAll x hs, [], cleared⟩ := by
  induction hs generalizing b with
  | nil => exact .refl
  | cons h rest ih =>
    have hpromoted : Overlap ⟨b, [], cleared⟩ ⟨b.commitStage h.1, [], cleared⟩ :=
      .promoted (hcleared h (by simp))
    exact ((ReflTransGen.single hpromoted).tail (.released (hhs h (by simp)) x)).trans
      (ih (fun g hg => hhs g (by simp [hg])) (fun g hg => hcleared g (by simp [hg])) _)

theorem overlaps_dropAll {hs : List (HeldStage × Bool)} (hhs : ∀ h ∈ hs, h.1.AtOffice)
    (b : Broker) (x : Option Xid) :
    Overlaps ⟨b, [], cleared⟩ ⟨b.dropAll x hs, [], cleared⟩ := by
  induction hs generalizing b with
  | nil => exact .refl
  | cons h rest ih =>
    have hh := hhs h (by simp)
    exact ((ReflTransGen.single (Overlap.dropped hh)).tail (.released hh x)).trans
      (ih (fun g hg => hhs g (by simp [hg])) _)

theorem overlaps_storeAll {hs : List (HeldStage × Bool)} (hhs : ∀ h ∈ hs, h.1.AtOffice)
    (b : Broker) (x : Xid) :
    Overlaps ⟨b, [], cleared⟩ ⟨(b.storeAll x hs).1, [], cleared⟩ :=
  storeAll_keeps (R := fun b b' => Overlaps ⟨b, [], cleared⟩ ⟨b', [], cleared⟩) (fun _ => .refl)
    .trans (fun h hh _ => .single (.stored (hhs h hh) rfl)) b

variable {P : Call → Prop} {floor : CacheRef → Nat} {v v' : View}

/-- The numbers of stages that are held have been given out. -/
theorem issued_of_mem (hlocal : v.Local) (hv : Custody floor v) {h : HeldStage}
    (hh : h ∈ v.stages) : v.books.Issued h :=
  ⟨hlocal.atOffice h hh, hv.below h hh⟩

theorem issued_held {l₁ l₂ : List Outline} {o : Outline}
    (hlocal : View.Local ⟨b, [], l₁ ++ o :: l₂⟩) (hv : Custody floor ⟨b, [], l₁ ++ o :: l₂⟩) :
    ∀ h ∈ o.held, b.Issued h.1 := fun h hh =>
  issued_of_mem hlocal hv (by
    simp only [View.stages, List.nil_append, List.flatMap_append, List.flatMap_cons,
      List.mem_append]
    exact .inr (.inl (List.mem_map_of_mem hh)))

/-- Stages that are persisted and made visible, all of them. -/
theorem overlaps_completed (hb : Keeping .mandatory b) {hs : List (HeldStage × Bool)}
    (hhs : ∀ h ∈ hs, b.Issued h.1) (hp : b.persistAll hs = (b', .ok ())) (x : Option Xid)
    (cleared : List HeldStage) :
    ∃ cleared', Overlaps ⟨b, [], cleared⟩ ⟨b'.promoteAll x hs, [], cleared'⟩ := by
  obtain ⟨cleared', hovers, -, hall⟩ := overlaps_persistAll hb hhs cleared
  rw [hp] at hovers hall
  exact ⟨cleared', hovers.trans (overlaps_promoteAll (fun h hh => (hhs h hh).1) (hall rfl) b' x)⟩

/-- Stages that are dropped when some have been persisted. -/
theorem overlaps_undone (hb : Keeping .mandatory b) {hs : List (HeldStage × Bool)}
    (hhs : ∀ h ∈ hs, b.Issued h.1) (m : Nat) (x : Option Xid) (cleared : List HeldStage) :
    ∃ cleared', Overlaps ⟨b, [], cleared⟩
      ⟨(b.persistAll (hs.take m)).1.dropAll x hs, [], cleared'⟩ := by
  obtain ⟨cleared', hovers, -⟩ :=
    overlaps_persistAll hb (fun h hh => hhs h (List.mem_of_mem_take hh)) cleared
  exact ⟨cleared', hovers.trans (overlaps_dropAll (fun h hh => (hhs h hh).1) _ x)⟩

/-- A move is a course of turns, in which nobody else has one. -/
theorem overlaps_move (h : Move P v v') (hlocal : v.Local) (hv : Custody floor v)
    (hb : Keeping .mandatory v.books) (cleared : List HeldStage) :
    ∃ cleared', Overlaps ⟨v.books, [], cleared⟩ ⟨v'.books, [], cleared'⟩ := by
  cases h with
  | opened a => exact ⟨cleared, .single (.opened a)⟩
  | begun x => exact ⟨cleared, .refl⟩
  | written => exact ⟨cleared, .single .written⟩
  | waits hc => exact ⟨cleared, .single (.called _ _)⟩
  | retries hready => exact ⟨cleared, .single (.called _ _)⟩
  | granted hgrant => exact ⟨cleared, .single (.granted hgrant)⟩
  | @sent b b' h os hpersist =>
    refine overlaps_completed hb (fun g hg => ?_) hpersist none cleared
    rw [List.mem_singleton.1 hg]
    exact issued_of_mem hlocal hv (by simp [View.stages])
  | @refused b h os m hearly =>
    refine overlaps_undone hb (fun g hg => ?_) m none cleared
    rw [List.mem_singleton.1 hg]
    exact issued_of_mem hlocal hv (by simp [View.stages])
  | registered howner => exact ⟨cleared, .refl⟩
  | @prepared b b' l₁ l₂ x held marks hstore =>
    obtain rfl := congrArg Prod.fst hstore
    exact ⟨cleared, overlaps_storeAll (fun h hh => (issued_held hlocal hv h hh).1) b x⟩
  | @unprepared b b' l₁ l₂ x held marks result m hstore =>
    have hhs := issued_held hlocal hv
    have hstages := stages_storeAll_take hstore
    obtain rfl := congrArg Prod.fst hstore
    refine ⟨cleared, (overlaps_storeAll (fun h hh => ?_) b x).trans
      (overlaps_dropAll (fun h hh => ?_) _ (some x))⟩
    · exact (hhs h (List.mem_of_mem_take hh)).1
    · obtain ⟨g, hg, hgh⟩ := List.mem_map.1 (hstages ▸ List.mem_map_of_mem hh)
      exact hgh ▸ (hhs g hg).1
  | committed hlive hpersist =>
    exact overlaps_completed hb (issued_held hlocal hv) hpersist _ cleared
  | undone hlive m => exact overlaps_undone hb (issued_held hlocal hv) m _ cleared

theorem overlaps_moves (h : Moves P v v') (hlocal : v.Local) (hkeys : Unkeyed v.books)
    (hv : Custody floor v) (hb : Keeping .mandatory v.books) (cleared : List HeldStage) :
    ∃ cleared', Overlaps ⟨v.books, [], cleared⟩ ⟨v'.books, [], cleared'⟩ := by
  induction h with
  | refl => exact ⟨cleared, .refl⟩
  | tail hmoves hmove ih =>
    obtain ⟨cleared₁, hovers⟩ := ih
    obtain ⟨hlocal₁, -, hv₁⟩ := custody_moves hmoves hlocal hkeys hv
    have hb₁ := (books_moves (fun _ _ => keeping_step) hmoves hlocal hb).1
    obtain ⟨cleared₂, hmore⟩ := overlaps_move hmove hlocal₁ hv₁ hb₁ cleared₁
    exact ⟨cleared₂, hovers.trans hmore⟩

theorem books_books (b : Broker) : b.books.books = b.books := by
  simp only [books, List.map_map, List.filter_filter, Bool.and_self]
  rfl

/-- A run of requests is a course of turns, whatever is asked for. -/
theorem overlaps_run (hb : Begun .mandatory b) {cs : List Command}
    (hcs : ∀ c ∈ cs, c.isTraffic = true) :
    ∃ cleared, Overlaps ⟨b, [], []⟩ ⟨b.run cs, [], cleared⟩ := by
  obtain ⟨cleared, hovers⟩ := overlaps_moves (moves_run hcs (hb.proper _)).1 hb.atOffice hb.unkeyed
    hb.custody (keeping_books hb.keeping) []
  exact ⟨cleared, (ReflTransGen.head (.beside (books_books b)) hovers).tail
    (.beside (books_books _).symm)⟩

end Broker

end MessageRouting
