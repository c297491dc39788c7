import MessageRouting.Proofs.Cache.TraceWindow
import MessageRouting.Proofs.Persistence.RecordNumbers

/-!
# Stray records

In mandatory mode the record of a stage is written when its key is drawn. If
the stage is dropped after that, its record is in the journal and nobody knows
of it: no identifier is visible at its number, no stage has that key, and no
write is to come for it. Such a record stays for good.

Results:

* `stray_dropped`: what a transaction has written before it is rolled back is
  left stray.
* `stray_step`: a stray record stays in the journal.
-/

namespace MessageRouting

/-- Whether the entry is about the place of the record. -/
def Entry.Touches (r : Record) : Entry → Prop
  | .add s => s.address = r.address ∧ s.sequence = r.sequence
  | .prune a n => a = r.address ∧ n = r.sequence
  | _ => False

theorem Ledger.mem_apply_of_not_touches {l : Ledger} (hl : Ordered l.committed) {r : Record}
    (hr : r ∈ l.committed) {e : Entry} (he : ¬ e.Touches r) : r ∈ (l.apply e).committed := by
  cases e with
  | add s =>
    rw [mem_add hl]
    refine Or.inr ⟨hr, ?_⟩
    cases hplace : s.samePlace r with
    | false => rfl
    | true => exact absurd (Record.samePlace_iff.1 hplace) he
  | prune a n =>
    rw [mem_prune]
    exact ⟨hr, fun h => he ⟨h.1.symm, h.2.symm⟩⟩
  | prepare x s => exact hr
  | resolve x => exact hr

theorem Ledger.mem_applyAll_of_not_touches {l : Ledger} (hl : Ordered l.committed) {r : Record}
    (hr : r ∈ l.committed) {es : List Entry} (hes : ∀ e ∈ es, ¬ e.Touches r) :
    r ∈ (l.applyAll es).committed := by
  induction es generalizing l with
  | nil => exact hr
  | cons e rest ih =>
    exact ih (ordered_apply hl e) (mem_apply_of_not_touches hl hr (hes e (by simp)))
      fun f hf => hes f (by simp [hf])

theorem Entry.not_touches_of_isPrepared {e : Entry} (he : e.isPrepared = true) (r : Record) :
    ¬ e.Touches r := by
  cases e <;> simp_all [isPrepared, Touches]

namespace Broker

variable {mode : PersistenceMode} {b b' : Broker} {r : Record}

/-! ## Strays stay -/

/-- The record is in the journal, and nobody knows of it. -/
structure Stray (r : Record) (b : Broker) : Prop where
  ordered : Ledger.Ordered b.storage.ledger.committed
  here : r ∈ b.storage.ledger.committed
  sequence_lt : r.sequence < b.next (.office 0 r.address)
  visible : ∀ e ∈ (b.cache (.office 0 r.address)).visible, e.1 ≠ r.sequence
  unkeyed : ∀ t, (b.cache (.office 0 r.address)).keyOf t ≠ some r.sequence
  queue : ∀ e ∈ b.queue, ¬ e.Touches r

/-- A key that is drawn is not that of a stray record. -/
theorem Stray.key_ne (hb : Stray r b) {h : HeldStage} (hh : h.AtOffice) {key next : Nat}
    (hdrawn : (b.cache h.cache).KeyDrawn h.staged key next) :
    ¬ (h.staged.address = r.address ∧ key = r.sequence) := by
  rintro ⟨haddress, rfl⟩
  have hlt := hb.sequence_lt
  rw [hh, haddress] at hdrawn
  rcases hdrawn with ⟨hkey, -⟩ | ⟨-, hnew, -⟩
  · exact hb.unkeyed h.staged hkey
  · unfold Broker.next at hlt
    omega

theorem stray_prepared {inline handed : List Entry} (hlogs : Logs b b' inline handed)
    (hprepared : ∀ e ∈ inline ++ handed, e.isPrepared = true) (hb : Stray r b) :
    r ∈ b'.storage.ledger.committed ∧ ∀ e ∈ b'.queue, ¬ e.Touches r := by
  constructor
  · rw [hlogs.ledger]
    exact Ledger.mem_applyAll_of_not_touches hb.ordered hb.here fun e he =>
      Entry.not_touches_of_isPrepared (hprepared e (List.mem_append_left _ he)) r
  · rw [hlogs.queue]
    intro e he
    rcases List.mem_append.1 he with he | he
    · exact hb.queue e he
    · exact Entry.not_touches_of_isPrepared (hprepared e (List.mem_append_right _ he)) r

theorem here_writeNext (hb : Stray r b) : r ∈ (b.writeNext 0).storage.ledger.committed := by
  rcases logs_writeNext b with ⟨-, heq⟩ |
    ⟨e, rest, hqueue, -, -, -, ⟨-, hledger⟩ | ⟨-, hledger, -⟩⟩
  · rw [heq]
    exact hb.here
  · rw [hledger]
    exact Ledger.mem_apply_of_not_touches hb.ordered hb.here (hb.queue e (by simp [hqueue]))
  · rw [hledger]
    exact hb.here

/-- What a stray record is to one cache. -/
theorem Stray.of_setCache (hb : Stray r b) {h : HeldStage} {c : Cache}
    (hcache : ∀ ref, b'.cache ref = if h.cache = ref then c else b.cache ref)
    (hvisible : h.cache = .office 0 r.address → ∀ e ∈ c.visible, e.1 ≠ r.sequence)
    (hkeys : h.cache = .office 0 r.address → ∀ t, c.keyOf t ≠ some r.sequence) :
    (∀ e ∈ (b'.cache (.office 0 r.address)).visible, e.1 ≠ r.sequence) ∧
      ∀ t, (b'.cache (.office 0 r.address)).keyOf t ≠ some r.sequence := by
  rw [hcache]
  split
  · rename_i href
    exact ⟨hvisible href, hkeys href⟩
  · exact ⟨hb.visible, hb.unkeyed⟩

theorem stray_keyDrawn (hb : Stray r b) {h : HeldStage} (hh : h.AtOffice) {key : Nat} {c : Cache}
    (hdrawn : Cache.Drawn (b.cache h.cache) h.staged key c)
    (hcache : ∀ ref, b'.cache ref = if h.cache = ref then c else b.cache ref) :
    (∀ e ∈ (b'.cache (.office 0 r.address)).visible, e.1 ≠ r.sequence) ∧
      ∀ t, (b'.cache (.office 0 r.address)).keyOf t ≠ some r.sequence := by
  have hother := hb.key_ne hh hdrawn.next
  refine hb.of_setCache hcache (fun href => ?_) fun href t ht => ?_
  · rw [hdrawn.visible, href]
    exact hb.visible
  · rw [Cache.keyOf_drawn hdrawn] at ht
    split at ht
    · exact hother ⟨hh.address href, Option.some.inj ht⟩
    · rw [href] at ht
      exact hb.unkeyed t ht

theorem stray_promoted (hb : Stray r b) {h : HeldStage} (hh : h.AtOffice) {p : Promotion}
    {c : Cache} (hcommitted : Cache.Committed (b.cache h.cache) h.staged p c)
    (hcache : ∀ ref, b'.cache ref = if h.cache = ref then c else b.cache ref) :
    (∀ e ∈ (b'.cache (.office 0 r.address)).visible, e.1 ≠ r.sequence) ∧
      ∀ t, (b'.cache (.office 0 r.address)).keyOf t ≠ some r.sequence := by
  have hother := hb.key_ne hh hcommitted.next
  refine hb.of_setCache hcache (fun href e he => ?_) fun href t ht => ?_
  · rcases Cache.mem_visible_of_committed hcommitted he with rfl | he
    · exact fun hkey => hother ⟨hh.address href, hkey⟩
    · rw [href] at he
      exact hb.visible e he
  · rw [Cache.keyOf_resolved hcommitted.pending] at ht
    split at ht
    · cases ht
    · rw [href] at ht
      exact hb.unkeyed t ht

/-- What a promotion hands over does not touch a stray record. -/
theorem not_touches_entries (hb : Stray r b) {h : HeldStage} (hh : h.AtOffice) {p : Promotion}
    {c : Cache} (hcommitted : Cache.Committed (b.cache h.cache) h.staged p c) {e : Entry}
    (he : e ∈ p.entries mode h.staged) : ¬ e.Touches r := by
  rcases p.mem_entries he with rfl | ⟨f, hf, rfl⟩
  · exact hb.key_ne hh hcommitted.next
  · rintro ⟨haddress, hkey⟩
    have hold := (Cache.mem_visible_of_evicted hcommitted hf).1
    rw [hh, haddress] at hold
    exact hb.visible f hold hkey

/-- A stray record stays in the journal. -/
theorem stray_step (h : Step b b') (hkeeping : Keeping mode b) (haddressed : Addressed b)
    (hb : Stray r b) : Stray r b' := by
  have hnext := Nat.lt_of_lt_of_le hb.sequence_lt (next_le_of_step h (.office 0 r.address))
  have hordered : Ledger.Ordered b'.storage.ledger.committed := by
    obtain ⟨es, -, hledger⟩ := ledger_step h hkeeping haddressed
    rw [hledger]
    exact Ledger.ordered_applyAll hb.ordered es
  rcases effect_step h hkeeping haddressed with
    ⟨hlogs, hprepared, hvisible, hkeys⟩ | rfl | ⟨hh, hdrawn, hcache, hlogs, hinline⟩ |
    ⟨hh, hcommitted, hcache, hlogs⟩
  · obtain ⟨hhere, hqueue⟩ := stray_prepared hlogs hprepared hb
    refine ⟨hordered, hhere, hnext, ?_, fun t ht => hb.unkeyed t (hkeys _ t _ ht), hqueue⟩
    rw [hvisible]
    exact hb.visible
  · refine ⟨hordered, here_writeNext hb, hnext, ?_, fun t ht => ?_,
      fun e he => hb.queue e ((entries_writeNext b).2 he)⟩
    · rw [cache_writeNext]
      exact hb.visible
    · rw [cache_writeNext] at ht
      exact hb.unkeyed t ht
  · obtain ⟨hvisible, hunkeyed⟩ := stray_keyDrawn hb hh hdrawn hcache
    refine ⟨hordered, ?_, hnext, hvisible, hunkeyed, ?_⟩
    · rw [hlogs.ledger]
      apply Ledger.mem_applyAll_of_not_touches hb.ordered hb.here
      intro e he
      rw [(hinline e he).2]
      exact hb.key_ne hh hdrawn.next
    · rw [hlogs.queue, List.append_nil]
      exact hb.queue
  · obtain ⟨hvisible, hunkeyed⟩ := stray_promoted hb hh hcommitted hcache
    refine ⟨hordered, ?_, hnext, hvisible, hunkeyed, ?_⟩
    · rw [hlogs.ledger]
      exact hb.here
    · rw [hlogs.queue]
      intro e he
      rcases List.mem_append.1 he with he | he
      · exact hb.queue e he
      · exact not_touches_entries hb hh hcommitted he

/-! ## Where strays come from -/

/-- Each of the entries adds a record that is in the journal, under the key of a pending stage; all
keys come from `floor` on. -/
structure Backed (floor : CacheRef → Nat) (b : Broker) (es : List Entry) : Prop where
  ordered : Ledger.Ordered b.storage.ledger.committed
  keyed : AllKeyed b
  floor_le : ∀ ref, floor ref ≤ b.next ref
  keys : ∀ t key, b.keyOf t = some key → floor t.cache ≤ key
  backed : ∀ e ∈ es, ∃ r t, e = .add r ∧ r ∈ b.storage.ledger.committed ∧
    (b.cache (.office 0 r.address)).keyOf t = some r.sequence ∧ t.duplicateId = r.duplicateId

/-- A record under a key that has been drawn stays when another key is drawn and its record
written. -/
theorem mem_add_of_keyOf (hordered : Ledger.Ordered b.storage.ledger.committed)
    {h : HeldStage} (hh : h.AtOffice) {key next : Nat}
    (hkeyed : (b.cache h.cache).Keyed) (hdrawn : (b.cache h.cache).KeyDrawn h.staged key next)
    {r : Record} (hr : r ∈ b.storage.ledger.committed) {t : Staged}
    (hkey : (b.cache (.office 0 r.address)).keyOf t = some r.sequence)
    (hid : t.duplicateId = r.duplicateId) :
    r ∈ (b.storage.ledger.apply (.add (h.staged.recordAt key))).committed := by
  rw [Ledger.mem_add hordered]
  cases hplace : (h.staged.recordAt key).samePlace r with
  | false => exact Or.inr ⟨hr, rfl⟩
  | true =>
    -- The same place means the same key, which only a stage of the same identifier has.
    obtain ⟨haddress, hseq⟩ : h.staged.address = r.address ∧ key = r.sequence :=
      Record.samePlace_iff.1 hplace
    obtain ⟨-, -, -, hfresh⟩ := Cache.key_fresh hkeyed hdrawn
    have hkey' : (b.cache h.cache).keyOf t = some key := by
      rw [hh, haddress, hseq]
      exact hkey
    have hid' : t.duplicateId = h.staged.duplicateId :=
      Decidable.byContradiction fun hne => hfresh t hne hkey'
    obtain ⟨ra, rn, rid⟩ := r
    refine Or.inl ?_
    simp only [Staged.recordAt, Record.mk.injEq]
    exact ⟨haddress.symm, hseq.symm, hid.symm.trans hid'⟩

/-- Drawing a key and writing the record adds to what is backed. -/
theorem backed_drawn {floor : CacheRef → Nat} {es inline : List Entry} (hb : Backed floor b es)
    {h : HeldStage} (hh : h.AtOffice) {key : Nat} {c : Cache}
    (hdrawn : Cache.Drawn (b.cache h.cache) h.staged key c)
    (hcache : ∀ ref, b'.cache ref = if h.cache = ref then c else b.cache ref)
    (hlogs : Logs b b' inline [])
    (hinline : inline = [] ∨ inline = [.add (h.staged.recordAt key)]) :
    Backed floor b' (es ++ inline) := by
  obtain ⟨-, hnext, -, -⟩ := Cache.key_fresh (hb.keyed h.cache) hdrawn.next
  have hold : ∀ ref t k, (b.cache ref).keyOf t = some k → (b'.cache ref).keyOf t = some k := by
    intro ref t k ht
    rw [hcache]
    split
    · rename_i href
      exact Cache.keyOf_drawn_of_some hdrawn (href ▸ ht)
    · exact ht
  constructor
  case ordered =>
    rw [hlogs.ledger]
    exact Ledger.ordered_applyAll hb.ordered _
  case keyed => exact keyed_of_setCache hb.keyed (.drawn hdrawn) hcache
  case floor_le =>
    intro ref
    rw [next, hcache]
    split
    · rename_i href
      exact href ▸ Nat.le_trans (hb.floor_le h.cache) hnext
    · exact hb.floor_le ref
  case keys =>
    intro t k ht
    rw [keyOf, hcache] at ht
    split at ht
    · rename_i href
      rw [Cache.keyOf_drawn hdrawn] at ht
      split at ht
      · rw [← href, ← Option.some.inj ht]
        rcases hdrawn.next with ⟨hkey, -⟩ | ⟨-, hnew, -⟩
        · exact hb.keys h key hkey
        · rw [hnew]
          exact hb.floor_le h.cache
      · rw [href] at ht
        exact hb.keys t k ht
    · exact hb.keys t k ht
  case backed =>
    intro e he
    rw [hlogs.ledger]
    rcases List.mem_append.1 he with he | he
    · obtain ⟨r, t, rfl, hr, hkey, hid⟩ := hb.backed e he
      refine ⟨r, t, rfl, ?_, hold _ t _ hkey, hid⟩
      rcases hinline with rfl | rfl
      · exact hr
      · exact mem_add_of_keyOf hb.ordered hh (hb.keyed h.cache) hdrawn.next hr hkey hid
    · rcases hinline with rfl | rfl
      · cases he
      · rw [List.mem_singleton.1 he]
        refine ⟨_, h.staged, rfl, ?_, ?_, rfl⟩
        · show _ ∈ (b.storage.ledger.apply (.add (h.staged.recordAt key))).committed
          rw [Ledger.mem_add hb.ordered]
          exact Or.inl rfl
        · show (b'.cache (.office 0 h.staged.address)).keyOf h.staged = some key
          rw [← hh, hcache, if_pos rfl, Cache.keyOf_drawn hdrawn, if_pos ⟨rfl, rfl⟩]

theorem backed_persistAll {floor : CacheRef → Nat} {es : List Entry} (hkeeping : Keeping mode b)
    {hs : List (HeldStage × Bool)} (hhs : ∀ h ∈ hs, h.1.AtOffice) (hb : Backed floor b es) :
    ∃ inline, Logs b (b.persistAll hs).1 inline [] ∧
      Backed floor (b.persistAll hs).1 (es ++ inline) := by
  induction hs generalizing b es with
  | nil => exact ⟨[], .refl b, by rwa [List.append_nil]⟩
  | cons h rest ih =>
    rcases hp : b.persistStage h.1 with ⟨c, result⟩
    have hh := hhs h (by simp)
    have hfirst : ∃ inline, Logs b c inline [] ∧ Backed floor c (es ++ inline) := by
      rcases logs_persistStage hkeeping hh hp with ⟨-, rfl, -⟩ | ⟨key, d, hdrawn, hcache, -, hlogs⟩
      · exact ⟨[], .refl c, by rwa [List.append_nil]⟩
      · refine ⟨_, hlogs, backed_drawn hb hh hdrawn hcache hlogs ?_⟩
        split
        · exact Or.inr rfl
        · exact Or.inl rfl
    obtain ⟨inline, hlogs, hbacked⟩ := hfirst
    simp only [persistAll, hp]
    cases result with
    | error err => exact ⟨inline, hlogs, hbacked⟩
    | ok _ =>
      obtain ⟨more, hmore, hall⟩ := ih (hkeeping.of_stations hlogs.stations)
        (fun g hg => hhs g (by simp [hg])) hbacked
      refine ⟨inline ++ more, by simpa using hlogs.trans hmore, ?_⟩
      rwa [← List.append_assoc]

/-- What a transaction has written before its stages are dropped is left stray. -/
theorem stray_dropped (hkeeping : Keeping mode b) (hnumbered : Numbered b)
    (hordered : Ledger.Ordered b.storage.ledger.committed) (hunkeyed : Unkeyed b)
    {hs : List (HeldStage × Bool)} (hhs : ∀ h ∈ hs, h.1.AtOffice) (x : Option Xid) (m : Nat) :
    ∃ inline, Logs b ((b.persistAll (hs.take m)).1.dropAll x hs) inline (hs.flatMap (released x)) ∧
      ∀ e ∈ inline, ∃ r, e = .add r ∧ Stray r ((b.persistAll (hs.take m)).1.dropAll x hs) := by
  have hstart : Backed b.next b [] := by
    refine ⟨hordered, hnumbered.keyed, fun _ => Nat.le_refl _, fun t key ht => ?_, by simp⟩
    obtain ⟨g, hg, -⟩ := hunkeyed t (by rw [ht]; simp)
    cases hg
  obtain ⟨inline, hlogs, hbacked⟩ :=
    backed_persistAll hkeeping (fun g hg => hhs g (List.mem_of_mem_take hg)) hstart
  have hsub : ∀ g ∈ (hs.take m).map (·.1), g ∈ hs.map (·.1) := by
    intro g hg
    rw [List.map_take] at hg
    exact List.mem_of_mem_take hg
  have hcleared := unkeyed_resolved hunkeyed hsub (resolvesAll_dropAll _ x hs)
  have hquiet := quiet_dropAll (b.persistAll (hs.take m)).1 x hs
  have hnext := next_le_of_steps (steps_dropAll hhs (b.persistAll (hs.take m)).1 x)
  have hdropped := logs_dropAll (hkeeping.of_stations hlogs.stations) hhs x
  generalize (b.persistAll (hs.take m)).1.dropAll x hs = b'' at hcleared hquiet hnext hdropped ⊢
  generalize (b.persistAll (hs.take m)).1 = b' at hlogs hbacked hquiet hnext hdropped
  refine ⟨inline, by simpa using hlogs.trans hdropped, fun e he => ?_⟩
  obtain ⟨r, t, rfl, hr, hkey, -⟩ := hbacked.backed e (by simpa using he)
  have hfloor : b.next (.office 0 r.address) ≤ r.sequence :=
    hbacked.keys ⟨.office 0 r.address, t⟩ r.sequence hkey
  have hledger : b''.storage.ledger = b'.storage.ledger := hdropped.ledger
  refine ⟨r, rfl, ?_, ?_, ?_, ?_, fun u hu => ?_, fun f hf => ?_⟩
  · rw [hledger]
    exact hbacked.ordered
  · rw [hledger]
    exact hr
  · exact Nat.lt_of_lt_of_le ((hbacked.keyed _).key_lt t _ hkey) (hnext _)
  · rw [hquiet.visible]
    exact (hbacked.keyed _).key_ne t _ hkey
  · obtain ⟨g, hg, -⟩ := hcleared ⟨.office 0 r.address, u⟩ (by rw [keyOf, hu]; simp)
    cases hg
  · rw [hdropped.queue, hlogs.queue, List.append_nil] at hf
    rcases List.mem_append.1 hf with hf | hf
    · cases f with
      | add s =>
        rintro ⟨haddress, hseq⟩
        have hlt := hnumbered.add_lt s (List.mem_append_right _ hf)
        rw [haddress] at hlt
        omega
      | prune a n =>
        rintro ⟨rfl, rfl⟩
        have hlt := hnumbered.prune_lt _ _ hf
        omega
      | prepare x s => exact id
      | resolve x => exact id
    · obtain ⟨g, -, hg⟩ := List.mem_flatMap.1 hf
      unfold released at hg
      split at hg
      · split at hg
        · rw [List.mem_singleton.1 hg]
          exact id
        · cases hg
      · cases hg

end Broker

end MessageRouting
