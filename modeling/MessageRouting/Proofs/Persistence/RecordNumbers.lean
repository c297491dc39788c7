import MessageRouting.Proofs.Persistence.SettledJournal
import MessageRouting.Proofs.Stage.Custody

/-!
# Numbers of records

A committed record carries the commit key of its stage, and a key is drawn only
once. So a place in the journal is only ever given to one record, and nothing
that is written or waits to be written is numbered above what its cache has
drawn.

Results:

* `effect_step`: what a step does to caches and writes, in four cases.
* `numbered_step`: every record keeps its place to itself.
-/

namespace MessageRouting.Broker

variable {mode : PersistenceMode} {b b' : Broker}

/-- What has been written, and then what waits to be written. -/
def entries (b : Broker) : List Entry := b.writes ++ b.queue

theorem mem_entries_logs {inline handed : List Entry} (h : Logs b b' inline handed) (e : Entry) :
    e ∈ b'.entries ↔ e ∈ b.entries ∨ e ∈ inline ++ handed := by
  simp only [entries, h.writes, h.queue, List.mem_append]
  constructor
  · rintro ((h | h) | h | h)
    · exact Or.inl (Or.inl h)
    · exact Or.inr (Or.inl h)
    · exact Or.inl (Or.inr h)
    · exact Or.inr (Or.inr h)
  · rintro ((h | h) | h | h)
    · exact Or.inl (Or.inl h)
    · exact Or.inr (Or.inl h)
    · exact Or.inl (Or.inr h)
    · exact Or.inr (Or.inr h)

/-- The writer makes of what waits to be written what has been written, or drops it. -/
theorem entries_writeNext (b : Broker) {e : Entry} :
    (e ∈ (b.writeNext 0).entries → e ∈ b.entries) ∧
      (e ∈ (b.writeNext 0).queue → e ∈ b.queue) := by
  rcases logs_writeNext b with ⟨-, heq⟩ |
    ⟨f, rest, hqueue, hrest, -, -, ⟨hwrites, -⟩ | ⟨hwrites, -, -⟩⟩
  · rw [heq]
    exact ⟨id, id⟩
  · simp only [entries, hqueue, hrest, hwrites, List.append_assoc, List.singleton_append]
    exact ⟨id, List.mem_cons_of_mem f⟩
  · simp only [entries, hqueue, hrest, hwrites, List.mem_append, List.mem_cons]
    exact ⟨Or.imp_right Or.inr, Or.inr⟩

/-! ## Effects of steps -/

/-- What a step does to visible identifiers, to keys and to the journal. -/
inductive Effect (mode : PersistenceMode) (b b' : Broker) : Prop where
  /-- Nothing, but for prepared records. -/
  | quiet {inline handed : List Entry} (hlogs : Logs b b' inline handed)
    (hprepared : ∀ e ∈ inline ++ handed, e.isPrepared = true)
    (hvisible : ∀ ref, (b'.cache ref).visible = (b.cache ref).visible)
    (hkeys : ∀ ref t key, (b'.cache ref).keyOf t = some key → (b.cache ref).keyOf t = some key)
  /-- The writer makes its next write. -/
  | written (heq : b' = b.writeNext 0)
  /-- A key is drawn, and its record written perhaps. -/
  | drawn {h : HeldStage} {key : Nat} {c : Cache} {inline : List Entry} (hh : h.AtOffice)
    (hdrawn : Cache.Drawn (b.cache h.cache) h.staged key c)
    (hcache : ∀ ref, b'.cache ref = if h.cache = ref then c else b.cache ref)
    (hlogs : Logs b b' inline [])
    (hinline : ∀ e ∈ inline, mode = .mandatory ∧ e = .add (h.staged.recordAt key))
  /-- An identifier becomes visible. -/
  | promoted {h : HeldStage} {p : Promotion} {c : Cache} (hh : h.AtOffice)
    (hcommitted : Cache.Committed (b.cache h.cache) h.staged p c)
    (hcache : ∀ ref, b'.cache ref = if h.cache = ref then c else b.cache ref)
    (hlogs : Logs b b' [] (p.entries mode h.staged))

theorem effect_of_cache {inline handed : List Entry} (hlogs : Logs b b' inline handed)
    (hprepared : ∀ e ∈ inline ++ handed, e.isPrepared = true)
    (hcache : ∀ ref, b'.cache ref = b.cache ref) : Effect mode b b' := by
  refine .quiet hlogs hprepared (fun ref => by rw [hcache]) ?_
  intro ref t key ht
  rwa [hcache] at ht

theorem effect_step (h : Step b b') (hb : Keeping mode b) (haddressed : Addressed b) :
    Effect mode b b' := by
  cases h with
  | opened a =>
    refine .quiet (logs_openOfficeCache b 0 a) (by simp) (visible_openOfficeCache b 0 a) ?_
    intro ref t key ht
    have hpending := (pending_openOfficeCache b 0 a ref).1
    simp only [Cache.keyOf, Cache.pendingOf?, hpending] at ht ⊢
    exact ht
  | written => exact .written rfl
  | called waiting ready =>
    exact effect_of_cache (logs_called b waiting ready) (by simp) fun _ => rfl
  | @granted _ a id owner s hgrant =>
    refine .quiet (logs_granted hgrant) (by simp) ?_ ?_
    · obtain ⟨c, hattempt, rfl⟩ := attemptStage_granted hgrant
      obtain ⟨-, -, -, -, rfl⟩ := Cache.attempt_staged hattempt
      exact visible_of_set (fun ref => cache_setCache ..) rfl
    · intro ref t key ht
      show b.keyOf ⟨ref, t⟩ = some key
      rw [← keyOf_granted hgrant]
      exact ht
  | @persisted _ h result hh hp =>
    rcases logs_persistStage hb hh hp with ⟨-, rfl, -⟩ | ⟨key, c, hdrawn, hcache, -, hlogs⟩
    · exact effect_of_cache (.refl _) (by simp) fun _ => rfl
    · refine .drawn hh hdrawn hcache hlogs ?_
      intro e he
      split at he
      · rename_i hmode
        exact ⟨hmode.1, List.mem_singleton.1 he⟩
      · cases he
  | @promoted h hh =>
    rcases logs_commitStage hb haddressed hh with ⟨-, heq⟩ | ⟨p, c, hcommitted, hcache, hlogs⟩
    · rw [heq]
      exact effect_of_cache (.refl _) (by simp) fun _ => rfl
    · exact .promoted hh hcommitted hcache hlogs
  | @dropped h hh =>
    refine .quiet (logs_rollbackStage b h) (by simp) ?_ ?_
    · rcases rollbackStage_cases b h with ⟨-, heq⟩ | ⟨q, c, -, hc, heq⟩
      · rw [heq]
        exact fun _ => rfl
      · refine visible_of_set (c := c) (fun ref => ?_) (by rw [hc])
        rw [heq, cache_wake, cache_log, cache_setCache]
    · intro ref t key ht
      have hresolves := resolves_rollbackStage b h
      by_cases href : h.cache = ref
      · subst href
        rcases hresolves.pending with ⟨-, heq⟩ | ⟨-, hpending⟩
        · rwa [heq] at ht
        · rw [Cache.keyOf_resolved hpending] at ht
          split at ht
          · cases ht
          · exact ht
      · rwa [hresolves.others ref href] at ht
  | @released h hh x =>
    refine effect_of_cache (logs_release hb hh x) ?_ fun ref => cache_release ..
    intro e he
    unfold released at he
    split at he
    · split at he
      · rw [List.nil_append, List.mem_singleton] at he
        rw [he]
        rfl
      · cases he
    · cases he
  | @stored _ h x result hh hs =>
    have hcache : ∀ ref, b'.cache ref = b.cache ref := by
      intro ref
      obtain rfl := congrArg Prod.fst hs
      exact cache_storePrepared ..
    rcases logs_storePrepared hb hh hs with ⟨-, hlogs⟩ | ⟨-, hlogs⟩
    · refine effect_of_cache hlogs ?_ hcache
      intro e he
      rw [List.append_nil, List.mem_singleton] at he
      rw [he]
      rfl
    · exact effect_of_cache hlogs (by simp) hcache

/-! ## Places of records -/

/-- Records and prunes are numbered below what their caches have drawn, and a place belongs to one
record. -/
structure Numbered (b : Broker) : Prop where
  keyed : AllKeyed b
  add_lt : ∀ r, .add r ∈ b.entries → r.sequence < b.next (.office 0 r.address)
  prune_lt : ∀ a n, .prune a n ∈ b.queue → n < b.next (.office 0 a)
  one : ∀ r s, .add r ∈ b.entries → .add s ∈ b.entries → r.samePlace s = true → r = s
  key : ∀ r, .add r ∈ b.entries → ∀ t, (b.cache (.office 0 r.address)).keyOf t = some r.sequence →
    t.duplicateId = r.duplicateId

/-- When no record is added and no key drawn, everything keeps its number. -/
theorem numbered_quiet (hb : Numbered b) (hkeyed : AllKeyed b')
    (hnext : ∀ ref, b.next ref ≤ b'.next ref) (hadd : ∀ r, .add r ∈ b'.entries → .add r ∈ b.entries)
    (hprune : ∀ a n, .prune a n ∈ b'.queue → .prune a n ∈ b.queue)
    (hkeys : ∀ ref t key, (b'.cache ref).keyOf t = some key → (b.cache ref).keyOf t = some key) :
    Numbered b' := by
  refine ⟨hkeyed, fun r hr => ?_, fun a n hn => ?_, fun r s hr hs => ?_, fun r hr t ht => ?_⟩
  · exact Nat.lt_of_lt_of_le (hb.add_lt r (hadd r hr)) (hnext _)
  · exact Nat.lt_of_lt_of_le (hb.prune_lt a n (hprune a n hn)) (hnext _)
  · exact hb.one r s (hadd r hr) (hadd s hs)
  · exact hb.key r (hadd r hr) t (hkeys _ _ _ ht)

/-- When a key is drawn, its record has its place to itself. -/
theorem numbered_drawn (hb : Numbered b) (hkeyed : AllKeyed b')
    (hnext : ∀ ref, b.next ref ≤ b'.next ref) {h : HeldStage} (hh : h.AtOffice) {key : Nat}
    (hdrawn : (b.cache h.cache).KeyDrawn h.staged key (b'.next h.cache))
    (hadd : ∀ r, .add r ∈ b'.entries → .add r ∈ b.entries ∨ r = h.staged.recordAt key)
    (hprune : ∀ a n, .prune a n ∈ b'.queue → n < b.next (.office 0 a))
    (hkeys : ∀ ref t k, (b'.cache ref).keyOf t = some k →
      (b.cache ref).keyOf t = some k ∨
        ref = h.cache ∧ t.duplicateId = h.staged.duplicateId ∧ k = key) : Numbered b' := by
  obtain ⟨hlt, -, -, hfresh⟩ := Cache.key_fresh (hb.keyed h.cache) hdrawn
  -- A record at the place of the new one was added for the same stage.
  have hold : ∀ r, .add r ∈ b.entries → r.samePlace (h.staged.recordAt key) = true →
      r = h.staged.recordAt key := by
    rintro ⟨a, n, id⟩ hr hplace
    obtain ⟨ha, hn⟩ := Record.samePlace_iff.1 hplace
    have ha' : a = h.staged.address := ha
    have hn' : n = key := hn
    subst ha' hn'
    have hkey : (b.cache (.office 0 h.staged.address)).keyOf h.staged = some n := by
      rw [hh] at hdrawn
      rcases hdrawn with ⟨hkey, -⟩ | ⟨-, hnew, -⟩
      · exact hkey
      · have hbelow : n < b.next (.office 0 h.staged.address) := hb.add_lt _ hr
        exact absurd hbelow (by rw [hnew]; exact Nat.lt_irrefl _)
    have hid : h.staged.duplicateId = id := hb.key _ hr h.staged hkey
    rw [← hid]
    rfl
  refine ⟨hkeyed, fun r hr => ?_, fun a n hn => ?_, fun r s hr hs hplace => ?_, fun r hr t ht => ?_⟩
  · rcases hadd r hr with hr | rfl
    · exact Nat.lt_of_lt_of_le (hb.add_lt r hr) (hnext _)
    · rw [hh] at hlt
      exact hlt
  · exact Nat.lt_of_lt_of_le (hprune a n hn) (hnext _)
  · rcases hadd r hr with hr | rfl
    · rcases hadd s hs with hs | rfl
      · exact hb.one r s hr hs hplace
      · exact hold r hr hplace
    · rcases hadd s hs with hs | rfl
      · have hplace' : s.samePlace (h.staged.recordAt key) = true := by
          obtain ⟨ha, hn⟩ := Record.samePlace_iff.1 hplace
          exact Record.samePlace_iff.2 ⟨ha.symm, hn.symm⟩
        exact (hold s hs hplace').symm
      · rfl
  · rcases hkeys _ _ _ ht with ht | ⟨href, hid, hseq⟩
    · rcases hadd r hr with hr | rfl
      · exact hb.key r hr t ht
      · have hkey : (b.cache h.cache).keyOf t = some key := by
          rw [hh]
          exact ht
        exact Decidable.byContradiction fun hne => hfresh t hne hkey
    · rcases hadd r hr with hr | rfl
      · have hrecord : r = h.staged.recordAt key := by
          apply hold r hr
          apply Record.samePlace_iff.2 ⟨?_, hseq⟩
          rw [hh] at href
          injection href with _ ha
        rw [hid, hrecord]
        rfl
      · exact hid

theorem numbered_step (h : Step b b') (hkeeping : Keeping mode b) (haddressed : Addressed b)
    (hb : Numbered b) : Numbered b' := by
  have hkeyed := keyed_step h hb.keyed
  have hnext := next_le_of_step h
  rcases effect_step h hkeeping haddressed with
    ⟨hlogs, hprepared, -, hkeys⟩ | rfl | ⟨hh, hdrawn, hcache, hlogs, hinline⟩ |
    ⟨hh, hcommitted, hcache, hlogs⟩
  · have hplain : ∀ e, e.isPrepared = false → e ∈ b'.entries → e ∈ b.entries := by
      intro e he hmem
      rcases (mem_entries_logs hlogs e).1 hmem with hmem | hmem
      · exact hmem
      · rw [hprepared e hmem] at he
        cases he
    refine numbered_quiet hb hkeyed hnext (fun r => hplain _ rfl) (fun a n hn => ?_) hkeys
    rw [hlogs.queue] at hn
    rcases List.mem_append.1 hn with hn | hn
    · exact hn
    · cases hprepared _ (List.mem_append_right _ hn)
  · refine numbered_quiet hb hkeyed hnext (fun r => (entries_writeNext b).1)
      (fun a n => (entries_writeNext b).2) fun ref t key ht => ?_
    rwa [cache_writeNext] at ht
  · rename_i g key c inline
    have hself : b'.next g.cache = c.nextSequence := by rw [next, hcache, if_pos rfl]
    refine numbered_drawn hb hkeyed hnext hh (hself ▸ hdrawn.next) ?_ ?_ ?_
    · intro r hr
      rcases (mem_entries_logs hlogs _).1 hr with hr | hr
      · exact Or.inl hr
      · rw [List.append_nil] at hr
        have heq := (hinline _ hr).2
        exact Or.inr (by injection heq)
    · intro a n hn
      rw [hlogs.queue, List.append_nil] at hn
      exact hb.prune_lt a n hn
    · intro ref t k ht
      rw [hcache] at ht
      split at ht
      · rename_i href
        rw [Cache.keyOf_drawn hdrawn] at ht
        split at ht
        · rename_i hsame
          exact Or.inr ⟨href.symm, hsame.1, (Option.some.inj ht).symm⟩
        · exact Or.inl (href ▸ ht)
      · exact Or.inl ht
  · rename_i g p c
    have hself : b'.next g.cache = c.nextSequence := by rw [next, hcache, if_pos rfl]
    refine numbered_drawn hb hkeyed hnext hh (hself ▸ hcommitted.next) ?_ ?_ ?_
    · intro r hr
      rcases (mem_entries_logs hlogs _).1 hr with hr | hr
      · exact Or.inl hr
      · rcases p.mem_entries (List.nil_append (p.entries mode g.staged) ▸ hr) with heq | ⟨f, -, heq⟩
        · exact Or.inr (by injection heq)
        · cases heq
    · intro a n hn
      rw [hlogs.queue] at hn
      rcases List.mem_append.1 hn with hn | hn
      · exact hb.prune_lt a n hn
      · rcases p.mem_entries hn with heq | ⟨e, he, heq⟩
        · cases heq
        · cases heq
          have hlt := (hb.keyed g.cache).visible_lt e (Cache.mem_visible_of_evicted hcommitted he).1
          rw [hh] at hlt
          exact hlt
    · intro ref t k ht
      rw [hcache] at ht
      split at ht
      · rename_i href
        rw [Cache.keyOf_resolved hcommitted.pending] at ht
        split at ht
        · cases ht
        · exact Or.inl (href ▸ ht)
      · exact Or.inl ht

end MessageRouting.Broker
