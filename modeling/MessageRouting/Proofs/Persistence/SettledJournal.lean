import MessageRouting.Proofs.Persistence.OfficeWrites

/-!
# Settled journals

A journal is settled once the writer has made all writes that it has been
handed. What the journal will hold then is known at any time, from its ledger
and the writer's queue. In async mode, with a journal that takes every write,
the committed records of the settled journal are the visible identifiers.

Results:

* `journal_step`, `ledger_step`: in a step the journal takes some entries and
  the writer is handed some, or the writer writes.
* `mirrored_step`: the settled journal mirrors the caches.
* `flush_queue`: a flush leaves nothing to write.
-/

namespace MessageRouting.Broker

variable {mode : PersistenceMode} {b b' : Broker}

/-- The ledger once all writes are made that the writer has been handed. -/
def settled (b : Broker) : Ledger := b.storage.ledger.applyAll b.queue

/-! ## Steps -/

/-- In a step the journal takes some entries and the writer is handed some, or the writer makes
its next write. -/
theorem journal_step (h : Step b b') (hb : Keeping mode b) (haddressed : Addressed b) :
    (∃ inline handed, Logs b b' inline handed) ∨ b' = b.writeNext 0 := by
  cases h with
  | opened a => exact Or.inl ⟨_, _, logs_openOfficeCache b 0 a⟩
  | written => exact Or.inr rfl
  | called waiting ready => exact Or.inl ⟨_, _, logs_called b waiting ready⟩
  | granted hgrant => exact Or.inl ⟨_, _, logs_granted hgrant⟩
  | persisted hh hp =>
    rcases logs_persistStage hb hh hp with ⟨-, rfl, -⟩ | ⟨key, c, -, -, -, hlogs⟩
    · exact Or.inl ⟨_, _, .refl b'⟩
    · exact Or.inl ⟨_, _, hlogs⟩
  | @promoted h hh =>
    rcases logs_commitStage hb haddressed hh with ⟨-, heq⟩ | ⟨p, c, -, -, hlogs⟩
    · rw [heq]
      exact Or.inl ⟨_, _, .refl b⟩
    · exact Or.inl ⟨_, _, hlogs⟩
  | dropped hh => exact Or.inl ⟨_, _, logs_rollbackStage ..⟩
  | released hh x => exact Or.inl ⟨_, _, logs_release hb hh x⟩
  | stored hh hs =>
    rcases logs_storePrepared hb hh hs with ⟨-, hlogs⟩ | ⟨-, hlogs⟩
    · exact Or.inl ⟨_, _, hlogs⟩
    · exact Or.inl ⟨_, _, hlogs⟩

/-- The entries that the journal has taken in a step are those that its ledger shows. -/
theorem ledger_step (h : Step b b') (hb : Keeping mode b) (haddressed : Addressed b) :
    ∃ es, b'.writes = b.writes ++ es ∧ b'.storage.ledger = b.storage.ledger.applyAll es := by
  rcases journal_step h hb haddressed with ⟨inline, handed, hlogs⟩ | rfl
  · exact ⟨inline, hlogs.writes, hlogs.ledger⟩
  · rcases logs_writeNext b with ⟨-, heq⟩ |
      ⟨e, rest, -, -, -, -, ⟨hwrites, hledger⟩ | ⟨hwrites, hledger, -⟩⟩
    · rw [heq]
      exact ⟨[], by simp, rfl⟩
    · exact ⟨[e], hwrites, hledger⟩
    · exact ⟨[], by simp [hwrites], hledger⟩

theorem takes_step (h : Step b b') (hb : Keeping mode b) (haddressed : Addressed b)
    {m : JournalMethod} (htakes : b.storage.Takes m) : b'.storage.Takes m := by
  rcases journal_step h hb haddressed with ⟨inline, handed, hlogs⟩ | rfl
  · exact hlogs.takes m htakes
  · rcases logs_writeNext b with ⟨-, heq⟩ | ⟨e, rest, -, -, -, htakes', -⟩
    · rw [heq]
      exact htakes
    · exact htakes' m htakes

/-! ## The settled journal -/

/-- Entries that are handed over are in the settled journal, after those from before. -/
theorem Logs.settled {handed : List Entry} (h : Logs b b' [] handed) :
    b'.settled = b.settled.applyAll handed := by
  rw [Broker.settled, h.ledger, h.queue, Ledger.applyAll_append]
  rfl

/-- A write that the journal takes does not change what the settled journal holds. -/
theorem settled_writeNext (htakes : ∀ e ∈ b.queue, b.storage.Takes e.method) :
    (b.writeNext 0).settled = b.settled := by
  rcases logs_writeNext b with ⟨-, heq⟩ |
    ⟨e, rest, hqueue, hrest, -, -, ⟨-, hledger⟩ | ⟨-, -, hnot⟩⟩
  · rw [heq]
  · rw [settled, settled, hrest, hledger, hqueue]
    rfl
  · exact absurd (htakes e (by simp [hqueue])) hnot

/-! ## The mirror of the caches -/

/-- In async mode, with a journal that takes every write, the committed records of the settled
journal are the visible identifiers. -/
structure Mirrored (b : Broker) : Prop where
  keeping : Keeping .async b
  takes : ∀ e : Entry, b.storage.Takes e.method
  addressed : Addressed b
  keyed : AllKeyed b
  ordered : Ledger.Ordered b.storage.ledger.committed
  mirror : ∀ a k id, ⟨a, k, id⟩ ∈ b.settled.committed ↔ (k, id) ∈ (b.cache (.office 0 a)).visible

theorem Mirrored.of_same (hb : Mirrored b) (hcommitted : b'.settled.committed = b.settled.committed)
    (hvisible : ∀ ref, (b'.cache ref).visible = (b.cache ref).visible) (a : Address) (k : Nat)
    (id : Bytes) :
    ⟨a, k, id⟩ ∈ b'.settled.committed ↔ (k, id) ∈ (b'.cache (.office 0 a)).visible := by
  rw [hcommitted, hvisible]
  exact hb.mirror a k id

theorem visible_of_set {ref : CacheRef} {c : Cache}
    (hcache : ∀ ref', b'.cache ref' = if ref = ref' then c else b.cache ref')
    (hc : c.visible = (b.cache ref).visible) (ref' : CacheRef) :
    (b'.cache ref').visible = (b.cache ref').visible := by
  rw [hcache]
  split
  · rename_i href
    rw [hc, href]
  · rfl

theorem visible_openOfficeCache (b : Broker) (n : Nat) (a : Address) (ref : CacheRef) :
    ((b.openOfficeCache n a).cache ref).visible = (b.cache ref).visible := by
  rcases openOfficeCache_cases b n a with ⟨-, heq⟩ | ⟨hnone, heq⟩
  · rw [heq]
  · rw [heq]
    refine visible_of_set (fun ref' => cache_setCache ..) ?_ ref
    rw [cache_of_get?_none hnone]
    rfl

/-- A promotion enters in the cache and in the settled journal alike. -/
theorem mirror_promoted (hb : Mirrored b) {h : HeldStage} (hh : h.AtOffice) {p : Promotion}
    {c : Cache} (hcommitted : Cache.Committed (b.cache h.cache) h.staged p c)
    (hcache : ∀ ref, b'.cache ref = if h.cache = ref then c else b.cache ref)
    (hlogs : Logs b b' [] (p.entries .async h.staged)) (a : Address) (k : Nat) (id : Bytes) :
    ⟨a, k, id⟩ ∈ b'.settled.committed ↔ (k, id) ∈ (b'.cache (.office 0 a)).visible := by
  have hordered : Ledger.Ordered b.settled.committed := Ledger.ordered_applyAll hb.ordered _
  obtain ⟨-, -, hne, -⟩ := Cache.key_fresh (hb.keyed h.cache) hcommitted.next
  have hvisible := Cache.mem_visible_iff hcommitted (hb.keyed h.cache) (k, id)
  have hentries : p.entries .async h.staged = .add (h.staged.recordAt p.key) ::
      p.evicted.map fun e => .prune h.staged.address e.1 := rfl
  rw [hlogs.settled, hentries]
  show _ ∈ ((b.settled.apply (.add (h.staged.recordAt p.key))).applyAll _).committed ↔ _
  rw [Ledger.mem_prunes, Ledger.mem_add hordered, hcache]
  by_cases ha : a = h.staged.address
  · subst ha
    rw [if_pos (show h.cache = _ from hh), hvisible, hh]
    have hmirror := hb.mirror h.staged.address k id
    simp only [Staged.recordAt, Record.mk.injEq, Record.samePlace, hmirror, true_and,
      decide_true, Bool.true_and, Prod.mk.injEq]
    constructor
    · rintro ⟨⟨rfl, rfl⟩ | ⟨hmem, -⟩, hnot⟩
      · exact ⟨Or.inl ⟨rfl, rfl⟩, fun e he => Ne.symm (hnot e he)⟩
      · exact ⟨Or.inr hmem, fun e he => Ne.symm (hnot e he)⟩
    · rintro ⟨⟨rfl, rfl⟩ | hmem, hnot⟩
      · exact ⟨Or.inl ⟨rfl, rfl⟩, fun e he => Ne.symm (hnot e he)⟩
      · rw [hh] at hne
        exact ⟨Or.inr ⟨hmem, decide_eq_false (Ne.symm (hne _ hmem))⟩,
          fun e he => Ne.symm (hnot e he)⟩
  · rw [if_neg (hh.cache_ne ha), ← hb.mirror a k id]
    constructor
    · rintro ⟨heq | ⟨hmem, -⟩, -⟩
      · exact absurd (congrArg Record.address heq) ha
      · exact hmem
    · intro hmem
      refine ⟨Or.inr ⟨hmem, ?_⟩, fun e _ hsame => ha hsame.1⟩
      simp [Record.samePlace, Staged.recordAt, Ne.symm ha]

/-- The settled journal goes on mirroring the caches in every step. -/
theorem mirrored_step (h : Step b b') (hb : Mirrored b) : Mirrored b' := by
  have hordered : Ledger.Ordered b'.storage.ledger.committed := by
    obtain ⟨es, -, hledger⟩ := ledger_step h hb.keeping hb.addressed
    rw [hledger]
    exact Ledger.ordered_applyAll hb.ordered es
  refine ⟨keeping_step h hb.keeping, fun e => takes_step h hb.keeping hb.addressed (hb.takes e),
    addressed_step h hb.addressed, keyed_step h hb.keyed, hordered, ?_⟩
  cases h with
  | opened a =>
    refine hb.of_same ?_ fun ref => visible_openOfficeCache ..
    rw [(logs_openOfficeCache b 0 a).settled]
    rfl
  | written =>
    refine hb.of_same ?_ fun ref => by rw [cache_writeNext]
    rw [settled_writeNext fun e _ => hb.takes e]
  | called waiting ready => exact hb.mirror
  | @granted _ a id owner t hgrant =>
    have hlogs := logs_granted hgrant
    obtain ⟨c, hattempt, rfl⟩ := attemptStage_granted hgrant
    have hvisible : c.visible = (b.cache (.office 0 a)).visible := by
      obtain ⟨-, -, -, -, rfl⟩ := Cache.attempt_staged hattempt
      rfl
    exact hb.of_same (by rw [hlogs.settled]; rfl)
      (visible_of_set (fun ref => cache_setCache ..) hvisible)
  | persisted hh hp =>
    rcases logs_persistStage hb.keeping hh hp with ⟨-, rfl, -⟩ |
      ⟨key, c, hdrawn, hcache, -, hlogs⟩
    · exact hb.mirror
    · rw [if_neg fun hmode => by cases hmode.1] at hlogs
      exact hb.of_same (by rw [hlogs.settled]; rfl) (visible_of_set hcache hdrawn.visible)
  | @promoted h hh =>
    rcases logs_commitStage hb.keeping hb.addressed hh with ⟨-, heq⟩ |
      ⟨p, c, hcommitted, hcache, hlogs⟩
    · rw [heq]
      exact hb.mirror
    · exact mirror_promoted hb hh hcommitted hcache hlogs
  | @dropped h hh =>
    refine hb.of_same (by rw [(logs_rollbackStage b h).settled]; rfl) fun ref => ?_
    rcases rollbackStage_cases b h with ⟨-, heq⟩ | ⟨q, c, -, hc, heq⟩
    · rw [heq]
    · refine visible_of_set (c := c) (fun ref' => ?_) (by rw [hc]) ref
      rw [heq, cache_wake, cache_log, cache_setCache]
  | @released h hh x =>
    refine hb.of_same ?_ fun ref => by rw [cache_release]
    rw [(logs_release hb.keeping hh x).settled, Ledger.committed_applyAll]
    unfold released
    split
    · split <;> rfl
    · rfl
  | stored hh hs =>
    have hcache : ∀ ref, (b'.cache ref).visible = (b.cache ref).visible := fun ref => by
      obtain rfl := congrArg Prod.fst hs
      rw [cache_storePrepared]
    rcases logs_storePrepared hb.keeping hh hs with ⟨-, hlogs⟩ | ⟨-, hlogs⟩
    · refine hb.of_same ?_ hcache
      rw [settled, settled, hlogs.ledger, hlogs.queue, List.append_nil, Ledger.committed_applyAll,
        Ledger.committed_applyAll, Ledger.committed_applyAll]
      rfl
    · exact hb.of_same (by rw [hlogs.settled]; rfl) hcache

/-! ## Flushes -/

theorem length_queue_writeNext (b : Broker) :
    (b.writeNext 0).queue.length = b.queue.length - 1 := by
  rcases logs_writeNext b with ⟨hnil, heq⟩ | ⟨e, rest, hqueue, hrest, -⟩
  · rw [heq, hnil]
    rfl
  · rw [hqueue, hrest]
    rfl

/-- A flush leaves nothing to write. -/
theorem flush_queue (b : Broker) : (b.flush 0).queue = [] := by
  have hall : ∀ k (b : Broker), b.queue.length ≤ k → (b.writeSome 0 k).queue = [] := by
    intro k
    induction k with
    | zero =>
      intro b hb
      exact List.length_eq_zero_iff.1 (Nat.le_zero.1 hb)
    | succ k ih =>
      intro b hb
      refine ih _ ?_
      rw [length_queue_writeNext]
      omega
  exact hall _ b (Nat.le_refl _)

end MessageRouting.Broker
