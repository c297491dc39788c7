import MessageRouting.Proofs.Cache.Soundness
import MessageRouting.Proofs.Stage.Custody

/-!
# The window of a cache

A cache remembers the identifiers that became visible last, as many as it has
room for. Read off the trace alone: an identifier is granted again only after
so many others became visible, and from its grant until it is resolved nobody
else is granted it. Both rest on commits that enter in the order in which their
keys are drawn.

Results:

* `queued_persistAll`: keys drawn one after the other stand in that order, after
  all visible ones.
* `window_move`: every move keeps the window.
-/

namespace MessageRouting

/-! ## Reading the trace -/

/-- Whether the event tells that a stage is granted or that it becomes visible. -/
def Event.isMark : Event → Bool
  | .granted _ => true
  | .promoted _ _ => true
  | _ => false

/-- The identifiers that became visible in a cache, in order. -/
def promotedIds (ref : CacheRef) (trace : List Event) : List Bytes :=
  trace.filterMap fun
    | .promoted h _ => if h.cache = ref then some h.staged.duplicateId else none
    | _ => none

/-- Since the identifier last became visible in a cache, `n` others have become visible there. -/
def Spaced (n : Nat) (ref : CacheRef) (id : Bytes) (trace : List Event) : Prop :=
  ∀ t₁ h p t₂, trace = t₁ ++ .promoted h p :: t₂ → h.cache = ref → h.staged.duplicateId = id →
    ∃ ids : List Bytes, ids.Nodup ∧ ids.length = n ∧ id ∉ ids ∧ ∀ i ∈ ids, i ∈ promotedIds ref t₂

/-- The stage has been granted, and since then nobody has been granted its identifier. -/
def Standing (h : HeldStage) (trace : List Event) : Prop :=
  ∃ t₁ t₂, trace = t₁ ++ .granted h :: t₂ ∧
    ∀ g, .granted g ∈ t₂ → ¬ (g.cache = h.cache ∧ g.staged.duplicateId = h.staged.duplicateId)

theorem promotedIds_append (ref : CacheRef) (t₁ t₂ : List Event) :
    promotedIds ref (t₁ ++ t₂) = promotedIds ref t₁ ++ promotedIds ref t₂ :=
  List.filterMap_append ..

/-- Where an element stands in a list with one element more. -/
theorem split_concat {α : Type} {l t₁ t₂ : List α} {e x : α} (h : l ++ [e] = t₁ ++ x :: t₂) :
    (∃ t, t₂ = t ++ [e] ∧ l = t₁ ++ x :: t) ∨ (t₁ = l ∧ x = e ∧ t₂ = []) := by
  rcases List.eq_nil_or_concat t₂ with rfl | ⟨t, f, rfl⟩
  · obtain ⟨rfl, hx⟩ := List.append_inj' h rfl
    exact Or.inr ⟨rfl, (List.cons.inj hx).1.symm, rfl⟩
  · rw [List.concat_eq_append, ← List.cons_append, ← List.append_assoc] at h
    obtain ⟨rfl, hf⟩ := List.append_inj' h rfl
    refine Or.inl ⟨t, ?_, rfl⟩
    rw [List.concat_eq_append, (List.cons.inj hf).1]

theorem standing_concat {h : HeldStage} {trace : List Event} {e : Event}
    (hs : Standing h trace)
    (he : ∀ g, e = .granted g →
      ¬ (g.cache = h.cache ∧ g.staged.duplicateId = h.staged.duplicateId)) :
    Standing h (trace ++ [e]) := by
  obtain ⟨t₁, t₂, rfl, hnone⟩ := hs
  refine ⟨t₁, t₂ ++ [e], by simp, fun g hg => ?_⟩
  rcases List.mem_append.1 hg with hg | hg
  · exact hnone g hg
  · exact he g (List.mem_singleton.1 hg).symm

/-- An identifier that is not among the last `n` has had `n` others after it. -/
theorem spaced_of_not_mem {n : Nat} {ref : CacheRef} {id : Bytes} {trace : List Event}
    {last : List Bytes}
    (hlast : last = (promotedIds ref trace).drop ((promotedIds ref trace).length - n))
    (hnodup : last.Nodup) (hid : id ∉ last) : Spaced n ref id trace := by
  rintro t₁ h p t₂ rfl href rfl
  have hids : promotedIds ref (t₁ ++ .promoted h p :: t₂) =
      promotedIds ref t₁ ++ h.staged.duplicateId :: promotedIds ref t₂ := by
    rw [promotedIds_append]
    simp only [promotedIds, List.filterMap_cons, href, if_true]
  rw [hids, List.length_append, List.length_cons] at hlast
  have hafter : n ≤ (promotedIds ref t₂).length := by
    refine Nat.le_of_not_lt fun hlt => hid ?_
    rw [hlast, List.drop_append_of_le_length (by omega)]
    simp
  have heq : last = (promotedIds ref t₂).drop ((promotedIds ref t₂).length - n) := by
    rw [hlast, List.drop_append, List.drop_eq_nil_of_le (by omega), List.nil_append,
      show (promotedIds ref t₁).length + ((promotedIds ref t₂).length + 1) - n
        - (promotedIds ref t₁).length = (promotedIds ref t₂).length - n + 1 by omega,
      List.drop_succ_cons]
  refine ⟨last, hnodup, ?_, hid, fun i hi => ?_⟩
  · rw [heq, List.length_drop]
    omega
  · rw [heq] at hi
    exact List.mem_of_mem_drop hi

/-- With one identifier more the last ones are the last of those and the new one. -/
theorem withNewest_drop {n : Nat} (hn : 0 < n) (ids : List Bytes) (id : Bytes) :
    Cache.withNewest n (ids.drop (ids.length - n)) id =
      (ids ++ [id]).drop ((ids ++ [id]).length - n) := by
  simp only [Cache.withNewest, List.length_drop, List.length_append, List.length_singleton]
  rw [List.drop_append_of_le_length (by omega), List.drop_drop]
  congr 2
  omega

namespace Broker

/-- The grants and promotions in the trace. -/
def marks (b : Broker) : List Event := b.trace.filter Event.isMark

/-! ## Steps that leave no mark -/

/-- No stage is granted or made visible. -/
structure Quiet (b b' : Broker) : Prop where
  marks : b'.marks = b.marks
  visible : ∀ ref, (b'.cache ref).visible = (b.cache ref).visible
  opens : ∀ t, b'.Open t → b.Open t

theorem Quiet.refl (b : Broker) : Quiet b b := ⟨rfl, fun _ => rfl, fun _ h => h⟩

theorem Quiet.trans {b₁ b₂ b₃ : Broker} (h : Quiet b₁ b₂) (h' : Quiet b₂ b₃) : Quiet b₁ b₃ :=
  ⟨h'.marks.trans h.marks, fun ref => (h'.visible ref).trans (h.visible ref),
    fun t ht => h.opens t (h'.opens t ht)⟩

theorem marks_log_of_not {b : Broker} {e : Event} (h : e.isMark = false) :
    (b.log e).marks = b.marks := by
  simp [log, marks, h]

theorem marks_log {b : Broker} {e : Event} (h : e.isMark = true) :
    (b.log e).marks = b.marks ++ [e] := by
  simp [log, marks, h]

@[simp] theorem marks_write (b : Broker) (caller : JournalCaller) (e : Entry) :
    (b.write caller e).1.marks = b.marks := by
  simp only [write]
  rw [marks_log_of_not rfl]
  rfl

@[simp] theorem marks_submitFor (b : Broker) (ref : CacheRef) (e : Entry) :
    (b.submitFor ref e).marks = b.marks := by
  cases ref <;> rfl

theorem marks_pruneEvicted (b : Broker) (ref : CacheRef) (a : Address)
    (evicted : List (Nat × Bytes)) :
    (evicted.foldl (fun b e => b.submitFor ref (.prune a e.1)) b).marks = b.marks := by
  induction evicted generalizing b with
  | nil => rfl
  | cons e rest ih => rw [List.foldl_cons, ih, marks_submitFor]

theorem quiet_openOfficeCache (b : Broker) (n : Nat) (a : Address) :
    Quiet b (b.openOfficeCache n a) := by
  rcases openOfficeCache_cases b n a with ⟨-, heq⟩ | ⟨hnone, heq⟩
  · rw [heq]
    exact .refl b
  · have habsent := cache_of_get?_none hnone
    rw [heq]
    refine ⟨rfl, fun ref => ?_, fun t ht => ?_⟩
    · rw [cache_setCache]
      split
      · rename_i href
        rw [← href, habsent]
        rfl
      · rfl
    · rw [Open, cache_setCache] at ht
      split at ht
      · obtain ⟨-, key, hk⟩ := ht
        cases hk
      · exact ht

theorem quiet_of_cache {b b' : Broker} (hmarks : b'.marks = b.marks)
    (hcache : ∀ ref, b'.cache ref = b.cache ref) : Quiet b b' :=
  ⟨hmarks, fun ref => by rw [hcache], fun t ht => by rwa [Open, hcache] at ht⟩

theorem quiet_writeNext (b : Broker) (n : Nat) : Quiet b (b.writeNext n) := by
  refine quiet_of_cache ?_ fun ref => cache_writeNext ..
  unfold writeNext
  split
  · rfl
  · exact marks_write ..

theorem quiet_release (b : Broker) (x : Option Xid) (h : HeldStage × Bool) :
    Quiet b (b.release x h) := by
  refine quiet_of_cache ?_ fun ref => cache_release ..
  unfold release
  split
  · split
    · exact marks_submitFor ..
    · rfl
  · rfl

theorem quiet_storePrepared {b b' : Broker} {x : Xid} {h : HeldStage}
    {result : Except JournalError Unit} (hs : b.storePrepared x h = (b', result)) :
    Quiet b b' := by
  obtain rfl : (b.storePrepared x h).1 = b' := congrArg Prod.fst hs
  refine quiet_of_cache ?_ fun ref => cache_storePrepared ..
  unfold storePrepared
  split
  · exact marks_write ..
  · rfl

theorem quiet_persistStage {b b' : Broker} {h : HeldStage} {result : Except JournalError Unit}
    (hp : b.persistStage h = (b', result)) : Quiet b b' := by
  refine ⟨?_, fun ref => ?_, fun t ht => (open_persistStage hp t).1 ht⟩
  · rcases persistStage_cases hp with ⟨-, rfl, -⟩ | ⟨key, c, -, ⟨-, hwrite⟩ | ⟨-, rfl, -⟩⟩
    · rfl
    · obtain rfl := congrArg Prod.fst hwrite
      exact marks_write ..
    · rfl
  · rcases cache_persistStage hp with ⟨-, hcache⟩ | ⟨key, c, hdrawn, hcache⟩
    · rw [hcache]
    · rw [hcache]
      split
      · rename_i href
        rw [hdrawn.visible, href]
      · rfl

theorem quiet_rollbackStage (b : Broker) (h : HeldStage) : Quiet b (b.rollbackStage h) := by
  refine ⟨?_, fun ref => ?_, fun t ht => open_antitone (resolves_rollbackStage b h) ht⟩
  · rcases rollbackStage_cases b h with ⟨-, heq⟩ | ⟨q, c, -, -, heq⟩
    · rw [heq]
    · rw [heq]
      exact marks_log_of_not rfl
  · rcases rollbackStage_cases b h with ⟨-, heq⟩ | ⟨q, c, -, rfl, heq⟩
    · rw [heq]
    · rw [heq, cache_wake, cache_log, cache_setCache]
      split
      · rename_i href
        rw [← href]
      · rfl

theorem quiet_persistAll (b : Broker) (hs : List (HeldStage × Bool)) :
    Quiet b (b.persistAll hs).1 :=
  persistAll_keeps .refl .trans (fun _ _ _ => quiet_persistStage rfl) b

theorem quiet_storeAll (b : Broker) (x : Xid) (hs : List (HeldStage × Bool)) :
    Quiet b (b.storeAll x hs).1 :=
  storeAll_keeps .refl .trans (fun _ _ _ => quiet_storePrepared rfl) b

theorem quiet_dropAll (b : Broker) (x : Option Xid) (hs : List (HeldStage × Bool)) :
    Quiet b (b.dropAll x hs) := by
  induction hs generalizing b with
  | nil => exact .refl b
  | cons h rest ih =>
    exact ((quiet_rollbackStage b h.1).trans (quiet_release _ x h)).trans (ih _)

/-! ## The window -/

/-- What the caches of the first post office and the marks in the trace tell of each other. -/
structure Window (n : Nat) (b : Broker) : Prop where
  recent : ∀ a, (b.cache (.office 0 a)).visibleIds =
    (promotedIds (.office 0 a) b.marks).drop ((promotedIds (.office 0 a) b.marks).length - n)
  standing : ∀ h, b.Open h → Standing h b.marks
  spaced : ∀ t₁ h t₂, b.marks = t₁ ++ .granted h :: t₂ →
    Spaced n h.cache h.staged.duplicateId t₁
  founded : ∀ t₁ h p t₂, b.marks = t₁ ++ .promoted h p :: t₂ → Standing h t₁

theorem window_quiet {n : Nat} {b b' : Broker} (h : Quiet b b') (hb : Window n b) :
    Window n b' := by
  refine ⟨fun a => ?_, fun t ht => ?_, ?_, ?_⟩
  · rw [h.marks, Cache.visibleIds, h.visible]
    exact hb.recent a
  · rw [h.marks]
    exact hb.standing t (h.opens t ht)
  · rw [h.marks]
    exact hb.spaced
  · rw [h.marks]
    exact hb.founded

theorem window_granted {n : Nat} {b b' : Broker} {a : Address} {id : Bytes} {owner : Owner}
    {s : Staged} (hgrant : b.attemptStage (.office 0 a) id owner = (b', some (.staged s)))
    (hsound : AllSound b) (hb : Window n b) : Window n b' := by
  have hopen := open_granted hgrant
  obtain ⟨c, hattempt, rfl⟩ := attemptStage_granted hgrant
  obtain ⟨-, hindex, hpending, rfl, rfl⟩ := Cache.attempt_staged hattempt
  have hmarks := marks_log (b := b.setCache (.office 0 a) { b.cache (.office 0 a) with
      pending := (b.cache (.office 0 a)).pending.insert id
        ⟨owner, (b.cache (.office 0 a)).nextSequence, none⟩
      nextSequence := (b.cache (.office 0 a)).nextSequence + 1 })
    (e := .granted ⟨.office 0 a, ⟨(b.cache (.office 0 a)).address, id,
      (b.cache (.office 0 a)).nextSequence, owner⟩⟩) rfl
  have hnew : Spaced n (.office 0 a) id b.marks := by
    refine spaced_of_not_mem (hb.recent a) (Cache.nodup_visibleIds (hsound _)) fun hmem => ?_
    obtain ⟨e, he, rfl⟩ := List.mem_map.1 hmem
    rw [((hsound _).index e.2 e.1).2 he] at hindex
    cases hindex
  refine ⟨fun a' => ?_, fun t ht => ?_, fun t₁ h t₂ hsplit => ?_, fun t₁ h p t₂ hsplit => ?_⟩
  · have hvisible : ∀ ref, ((b.setCache (.office 0 a) { b.cache (.office 0 a) with
        pending := (b.cache (.office 0 a)).pending.insert id
          ⟨owner, (b.cache (.office 0 a)).nextSequence, none⟩
        nextSequence := (b.cache (.office 0 a)).nextSequence + 1 }).cache ref).visible =
          (b.cache ref).visible := fun ref => by
      rw [cache_setCache]
      split
      · rename_i href
        rw [← href]
      · rfl
    rw [hmarks, cache_log, Cache.visibleIds, hvisible, promotedIds_append]
    simp only [promotedIds, List.filterMap_cons, List.filterMap_nil, List.append_nil]
    exact hb.recent a'
  · rw [hmarks]
    rcases (hopen t).1 ht with rfl | ht
    · exact ⟨b.marks, [], rfl, fun g hg => by cases hg⟩
    · refine standing_concat (hb.standing t ht) fun g hg hsame => ?_
      -- A pending stage of the same identifier would have stood in the way.
      cases hg
      obtain ⟨-, key, hk⟩ := ht
      rw [← hsame.1, ← hsame.2, hpending] at hk
      cases hk
  · rw [hmarks] at hsplit
    rcases split_concat hsplit with ⟨t, -, hold⟩ | ⟨rfl, hnewest, -⟩
    · exact hb.spaced t₁ h t hold
    · cases hnewest
      exact hnew
  · rw [hmarks] at hsplit
    rcases split_concat hsplit with ⟨t, -, hold⟩ | ⟨-, hnewest, -⟩
    · exact hb.founded t₁ h p t hold
    · cases hnewest

/-- Committing a pending stage makes its identifier visible. -/
theorem commitStage_open {b : Broker} {h : HeldStage} (hopen : b.Open h) :
    ∃ p c, Cache.Committed (b.cache h.cache) h.staged p c ∧
      (∀ ref, (b.commitStage h).cache ref = if h.cache = ref then c else b.cache ref) ∧
      (b.commitStage h).marks = b.marks ++ [.promoted h p] := by
  obtain ⟨q, hq, -⟩ := Cache.pendingOf?_of_holds hopen
  rcases commitStage_cases b h with ⟨hnone, -⟩ | ⟨p, c, b₁, hcommitted, rfl, heq⟩
  · rw [hnone] at hq
    cases hq
  have hlog : (((b.setCache h.cache c).log (.promoted h p)).wake h.cache).marks
      = b.marks ++ [.promoted h p] := marks_log rfl
  refine ⟨p, c, hcommitted, fun ref => ?_, ?_⟩
  · rw [heq, cache_pruneEvicted]
    split
    · rw [cache_submitFor, cache_wake, cache_log, cache_setCache]
    · rw [cache_wake, cache_log, cache_setCache]
  · rw [heq, marks_pruneEvicted]
    split
    · rw [marks_submitFor, hlog]
    · exact hlog

/-- The commit of a stage whose key comes after all visible ones. -/
theorem window_promoted {n : Nat} {b : Broker} {h : HeldStage} {k : Nat} (hn : 0 < n)
    (hopen : b.Open h) (hkey : b.keyOf h = some k)
    (hlast : ∀ e ∈ (b.cache h.cache).visible, e.1 < k) (hroom : Equipped n b)
    (hb : Window n b) : Window n (b.commitStage h) := by
  have hanti := fun t => open_antitone (t := t) (resolves_commitStage b h)
  obtain ⟨p, c, hcommitted, hcache, hmarks⟩ := commitStage_open hopen
  have hpkey := Cache.key_of_committed hcommitted hkey
  refine ⟨fun a => ?_, fun t ht => ?_, fun t₁ g t₂ hsplit => ?_, fun t₁ g r t₂ hsplit => ?_⟩
  · rw [hmarks, hcache, promotedIds_append]
    by_cases href : h.cache = .office 0 a
    · have hcapacity : (b.cache h.cache).capacity = n := by
        rcases hroom.cache a with habsent | ⟨-, hcapacity⟩
        · obtain ⟨-, key, hk⟩ := hopen
          rw [href, habsent] at hk
          cases hk
        · rw [href]
          exact hcapacity
      have hrecent := hb.recent a
      rw [← href] at hrecent ⊢
      rw [if_pos rfl, Cache.visibleIds_commit_of_lt hcommitted (by rw [hpkey]; exact hlast),
        hcapacity, hrecent, withNewest_drop hn]
      simp only [promotedIds, List.filterMap_cons, if_true, List.filterMap_nil]
    · rw [if_neg href]
      simp only [promotedIds, List.filterMap_cons, href, if_false, List.filterMap_nil,
        List.append_nil]
      exact hb.recent a
  · rw [hmarks]
    exact standing_concat (hb.standing t (hanti t ht)) fun g hg => by cases hg
  · rw [hmarks] at hsplit
    rcases split_concat hsplit with ⟨t, -, hold⟩ | ⟨-, hnewest, -⟩
    · exact hb.spaced t₁ g t hold
    · cases hnewest
  · rw [hmarks] at hsplit
    rcases split_concat hsplit with ⟨t, -, hold⟩ | ⟨rfl, hnewest, -⟩
    · exact hb.founded t₁ g r t hold
    · cases hnewest
      exact hb.standing h hopen

/-! ## Commits in the order of their keys -/

/-- Pending stages that have commit keys, in their order and after those of all visible entries. -/
structure Queued (b : Broker) (hs : List HeldStage) : Prop where
  opens : ∀ h ∈ hs, b.Open h
  nodup : hs.Nodup
  after : ∀ h ∈ hs, ∃ k, b.keyOf h = some k ∧ ∀ e ∈ (b.cache h.cache).visible, e.1 < k
  order : hs.Pairwise fun h g => h.cache = g.cache → ∀ k l,
    b.keyOf h = some k → b.keyOf g = some l → k < l

theorem queued_of_cache {b b' : Broker} {hs : List HeldStage} (h : Queued b hs)
    (hcache : ∀ ref, b'.cache ref = b.cache ref) : Queued b' hs := by
  constructor
  case opens => simpa only [Open, hcache] using h.opens
  case nodup => exact h.nodup
  case after => simpa only [keyOf, hcache] using h.after
  case order => simpa only [keyOf, hcache] using h.order

/-- Two pending stages of one cache are for two identifiers. -/
theorem duplicateId_ne_of_open {b : Broker} {h g : HeldStage} (hh : b.Open h) (hg : b.Open g)
    (hne : h ≠ g) (href : h.cache = g.cache) :
    h.staged.duplicateId ≠ g.staged.duplicateId := by
  intro hid
  unfold Open at hh hg
  rw [← href] at hg
  have hstaged := Cache.eq_of_holds hh hg hid
  cases h
  cases g
  subst href hstaged
  exact hne rfl

/-- Once the first of them has been committed, the others are left in their order. -/
theorem queued_commitStage {b : Broker} {h : HeldStage} {hs : List HeldStage}
    (hb : Queued b (h :: hs)) : Queued (b.commitStage h) hs := by
  have hopen : b.Open h := hb.opens h (by simp)
  obtain ⟨hfirst, hrest⟩ := List.pairwise_cons.1 hb.order
  obtain ⟨hnew, hnodup⟩ := List.nodup_cons.1 hb.nodup
  have hid : ∀ g ∈ hs, h.cache = g.cache → h.staged.duplicateId ≠ g.staged.duplicateId :=
    fun g hg => duplicateId_ne_of_open hopen (hb.opens g (by simp [hg])) fun heq => hnew (heq ▸ hg)
  obtain ⟨p, c, hcommitted, hcache, -⟩ := commitStage_open hopen
  have hkeyOf : ∀ g ∈ hs, (b.commitStage h).keyOf g = b.keyOf g := by
    intro g hg
    rw [keyOf, hcache]
    split
    · rename_i href
      rw [Cache.keyOf_resolved hcommitted.pending, if_neg (hid g hg href), href]
      rfl
    · rfl
  constructor
  case opens =>
    intro g hg
    have hg' := hb.opens g (by simp [hg])
    unfold Open at hg' ⊢
    rw [hcache]
    split
    · rename_i href
      rw [← href] at hg'
      exact (Cache.holds_resolved hcommitted.address hcommitted.pending).2
        ⟨hg', (hid g hg href).symm⟩
    · exact hg'
  case nodup => exact hnodup
  case after =>
    intro g hg
    obtain ⟨k, hk, hlt⟩ := hb.after g (by simp [hg])
    refine ⟨k, by rw [hkeyOf g hg, hk], fun e he => ?_⟩
    rw [hcache] at he
    split at he
    · rename_i href
      obtain ⟨k₀, hk₀, -⟩ := hb.after h (by simp)
      have hpkey := Cache.key_of_committed hcommitted hk₀
      rcases Cache.mem_visible_of_committed hcommitted he with rfl | he
      · rw [hpkey]
        exact hfirst g hg href k₀ k hk₀ hk
      · exact hlt e (href ▸ he)
    · exact hlt e he
  case order =>
    refine List.Pairwise.imp_of_mem (fun hg hg' hgg' href k l hk hl => ?_) hrest
    rw [hkeyOf _ hg] at hk
    rw [hkeyOf _ hg'] at hl
    exact hgg' href k l hk hl

/-! ## Drawing keys in order -/

theorem keyed_of_setCache {b b' : Broker} (hb : AllKeyed b) {ref : CacheRef} {c : Cache}
    (hc : Cache.Change (b.cache ref) c)
    (hcache : ∀ ref', b'.cache ref' = if ref = ref' then c else b.cache ref') : AllKeyed b' := by
  intro ref'
  rw [hcache]
  split
  · exact Cache.keyed_change hc (hb ref)
  · exact hb ref'

theorem keyed_persistStage {b b' : Broker} (hb : AllKeyed b) {h : HeldStage}
    {result : Except JournalError Unit} (hp : b.persistStage h = (b', result)) : AllKeyed b' := by
  rcases cache_persistStage hp with ⟨-, hcache⟩ | ⟨key, c, hdrawn, hcache⟩
  · exact fun ref => by rw [hcache]; exact hb ref
  · exact keyed_of_setCache hb (.drawn hdrawn) hcache

/-- Persisting a stage leaves the keys of the others. -/
theorem keyOf_persistStage {b b' : Broker} {h t : HeldStage} {result : Except JournalError Unit}
    (hp : b.persistStage h = (b', result))
    (hne : h.cache = t.cache → h.staged.duplicateId ≠ t.staged.duplicateId) :
    b'.keyOf t = b.keyOf t := by
  rcases cache_persistStage hp with ⟨-, hcache⟩ | ⟨key, c, hdrawn, hcache⟩
  · rw [keyOf, hcache]
    rfl
  · rw [keyOf, hcache]
    split
    · rename_i href
      rw [Cache.keyOf_drawn hdrawn, if_neg fun hsame => hne href hsame.1.symm, href]
      rfl
    · rfl

/-- Persisting a pending stage without a key gives it the next number of its cache. -/
theorem keyOf_persisted {b b' : Broker} {h : HeldStage} {result : Except JournalError Unit}
    (hp : b.persistStage h = (b', result)) (hopen : b.Open h) (hkey : b.keyOf h = none) :
    b'.keyOf h = some (b.next h.cache) := by
  obtain ⟨q, hq, -⟩ := Cache.pendingOf?_of_holds hopen
  rcases cache_persistStage hp with ⟨hnone, -⟩ | ⟨key, c, hdrawn, hcache⟩
  · rw [hnone] at hq
    cases hq
  · rcases hdrawn.next with ⟨hk, -⟩ | ⟨-, hk, -⟩
    · rw [keyOf, hk] at hkey
      cases hkey
    · rw [keyOf, hcache, if_pos rfl, Cache.keyOf_drawn hdrawn, if_pos ⟨rfl, rfl⟩, hk]
      rfl

/-- Persisting a stage that has a key leaves all keys. -/
theorem keyOf_persisted_again {b b' : Broker} {h : HeldStage} {k : Nat}
    {result : Except JournalError Unit} (hp : b.persistStage h = (b', result))
    (hkey : b.keyOf h = some k) (t : HeldStage) : b'.keyOf t = b.keyOf t := by
  rcases cache_persistStage hp with ⟨-, hcache⟩ | ⟨key, c, hdrawn, hcache⟩
  · rw [keyOf, hcache]
    rfl
  · rw [keyOf, hcache]
    split
    · rename_i href
      rw [Cache.keyOf_drawn hdrawn]
      split
      · rename_i hsame
        have hold : b.keyOf t = b.keyOf h := keyOf_congr href.symm hsame.1 hsame.2
        rcases hdrawn.next with ⟨hk, -⟩ | ⟨hk, -⟩
        · rw [hold, keyOf, hk]
        · rw [keyOf, hk] at hkey
          cases hkey
      · rw [href]
        rfl
    · rfl

theorem eraseDups_of_nodup {l : List HeldStage} (h : l.Nodup) : l.eraseDups = l := by
  induction l with
  | nil => rfl
  | cons a rest ih =>
    obtain ⟨hnew, hrest⟩ := List.nodup_cons.1 h
    have hall : rest.filter (fun g => !g == a) = rest :=
      List.filter_eq_self.2 fun g hg => by simpa using fun heq : g = a => hnew (heq ▸ hg)
    rw [List.eraseDups_cons, hall, ih hrest]

theorem queued_nil (b : Broker) : Queued b [] :=
  ⟨fun h hh => absurd hh (by simp), List.nodup_nil, fun h hh => absurd hh (by simp), .nil⟩

/-- A stage whose key is drawn goes to the end. -/
theorem queued_persistStage {b b' : Broker} {q : List HeldStage} {h : HeldStage}
    {result : Except JournalError Unit} (hkeyed : AllKeyed b) (hb : Queued b q)
    (hopen : b.Open h) (hkey : b.keyOf h = none) (hnew : h ∉ q)
    (hp : b.persistStage h = (b', result)) : Queued b' (q ++ [h]) := by
  have hopens := open_persistStage hp
  have hvisible := (quiet_persistStage hp).visible
  have hhead := keyOf_persisted hp hopen hkey
  have hkeyOf : ∀ g ∈ q, b'.keyOf g = b.keyOf g := fun g hg =>
    keyOf_persistStage hp (duplicateId_ne_of_open hopen (hb.opens g hg) fun heq => hnew (heq ▸ hg))
  constructor
  case opens =>
    intro g hg
    rcases List.mem_append.1 hg with hg | hg
    · exact (hopens g).2 (hb.opens g hg)
    · rw [List.mem_singleton.1 hg]
      exact (hopens h).2 hopen
  case nodup =>
    exact List.nodup_append.2 ⟨hb.nodup, by simp, fun g hg t ht heq =>
      hnew (List.mem_singleton.1 ht ▸ heq ▸ hg)⟩
  case after =>
    intro g hg
    rw [hvisible]
    rcases List.mem_append.1 hg with hg | hg
    · rw [hkeyOf g hg]
      exact hb.after g hg
    · rw [List.mem_singleton.1 hg]
      exact ⟨_, hhead, (hkeyed h.cache).visible_lt⟩
  case order =>
    refine List.pairwise_append.2 ⟨?_, List.pairwise_singleton .., ?_⟩
    · refine hb.order.imp_of_mem fun hg hg' hlt href k l hk hl => ?_
      rw [hkeyOf _ hg] at hk
      rw [hkeyOf _ hg'] at hl
      exact hlt href k l hk hl
    · intro g hg t ht href k l hk hl
      obtain rfl := List.mem_singleton.1 ht
      rw [hkeyOf g hg] at hk
      rw [hhead, Option.some.injEq, ← href] at hl
      rw [← hl]
      exact (hkeyed g.cache).key_lt g.staged k hk

/-- Keys drawn one after the other stand in that order, after all visible ones. A stage that is
persisted again keeps its place. -/
theorem queued_persistAll {b b' : Broker} {q : List HeldStage} {hs : List (HeldStage × Bool)}
    (hkeyed : AllKeyed b) (hb : Queued b q) (hopen : ∀ h ∈ hs, b.Open h.1)
    (hkeys : ∀ h ∈ hs, h.1 ∉ q → b.keyOf h.1 = none) (hp : b.persistAll hs = (b', .ok ())) :
    Queued b' (q ++ ((hs.map (·.1)).filter (· ∉ q)).eraseDups) := by
  induction hs generalizing b q with
  | nil =>
    cases hp
    simpa using hb
  | cons h rest ih =>
    rcases hstage : b.persistStage h.1 with ⟨c, result⟩
    simp only [persistAll, hstage] at hp
    cases result with
    | error e => cases hp
    | ok _ =>
      have hc := keyed_persistStage hkeyed hstage
      have hopen' : ∀ g ∈ rest, c.Open g.1 := fun g hg =>
        (open_persistStage hstage g.1).2 (hopen g (by simp [hg]))
      by_cases hmem : h.1 ∈ q
      · obtain ⟨k, hk, -⟩ := hb.after h.1 hmem
        have hsame := keyOf_persisted_again hstage hk
        have hq : Queued c q := by
          constructor
          case opens => exact fun g hg => (open_persistStage hstage g).2 (hb.opens g hg)
          case nodup => exact hb.nodup
          case after => simpa only [hsame, (quiet_persistStage hstage).visible] using hb.after
          case order => simpa only [hsame] using hb.order
        have hrest := ih hc hq hopen' (fun g hg hne => by
          rw [hsame]
          exact hkeys g (by simp [hg]) hne) hp
        rwa [List.map_cons, List.filter_cons_of_neg (by simpa using hmem)]
      · have hkey := hkeys h (by simp) hmem
        have hq := queued_persistStage hkeyed hb (hopen h (by simp)) hkey hmem hstage
        have hrest := ih hc hq hopen' (fun g hg hne => by
          simp only [List.mem_append, List.mem_singleton, not_or] at hne
          rw [keyOf_persistStage hstage (duplicateId_ne_of_open (hopen h (by simp))
            (hopen g (by simp [hg])) (Ne.symm hne.2))]
          exact hkeys g (by simp [hg]) hne.1) hp
        have hfilter : (fun g => !g == h.1 && decide (g ∉ q)) = fun g => decide (g ∉ q ++ [h.1]) :=
          funext fun g => by by_cases hg : g = h.1 <;> simp [hg]
        rw [List.map_cons, List.filter_cons_of_pos (by simpa using hmem), List.eraseDups_cons,
          List.filter_filter, hfilter]
        rwa [List.append_assoc, List.singleton_append] at hrest

/-- Stages that are made visible in the order of their keys keep the window. -/
theorem window_promoteAll {n : Nat} (hn : 0 < n) {x : Option Xid} {hs : List (HeldStage × Bool)}
    {b : Broker} (hatoffice : ∀ h ∈ hs, h.1.AtOffice) (hqueued : Queued b (hs.map (·.1)))
    (hroom : Equipped n b) (hb : Window n b) : Window n (b.promoteAll x hs) := by
  induction hs generalizing b with
  | nil => exact hb
  | cons h rest ih =>
    have hh := hatoffice h (by simp)
    obtain ⟨k, hk, hlast⟩ := hqueued.after h.1 (by simp)
    have hcommitted := window_promoted hn (hqueued.opens h.1 (by simp)) hk hlast hroom hb
    have hroom' := equipped_step (Step.released hh x) (equipped_step (Step.promoted hh) hroom)
    refine ih (fun g hg => hatoffice g (by simp [hg])) ?_ hroom'
      (window_quiet (quiet_release _ x h) hcommitted)
    exact queued_of_cache (queued_commitStage hqueued) fun ref => cache_release ..

/-- A completion that persists its stages and makes them visible keeps the window. -/
theorem window_complete {n : Nat} (hn : 0 < n) {b b' : Broker} {hs : List (HeldStage × Bool)}
    (x : Option Xid) (hopen : ∀ h ∈ hs, b.Open h.1)
    (hapart : ((hs.map (·.1)).map HeldStage.place).Nodup) (hkeys : Unkeyed b)
    (hatoffice : ∀ h ∈ hs, h.1.AtOffice) (hsound : AllSound b) (hroom : Equipped n b)
    (hb : Window n b) (hp : b.persistAll hs = (b', .ok ())) : Window n (b'.promoteAll x hs) := by
  have hqueued := queued_persistAll (fun ref => (hsound ref).toKeyed) (queued_nil b) hopen
    (fun h _ _ => unkeyed_iff.1 hkeys h.1) hp
  have hnodup : (hs.map (·.1)).Nodup :=
    List.Pairwise.of_map HeldStage.place (fun _ _ hne heq => hne (heq ▸ rfl)) hapart
  have hall : (hs.map (·.1)).filter (· ∉ []) = hs.map (·.1) :=
    List.filter_eq_self.2 fun g _ => by simp
  rw [hall, eraseDups_of_nodup hnodup, List.nil_append] at hqueued
  obtain rfl : (b.persistAll hs).1 = b' := congrArg Prod.fst hp
  exact window_promoteAll hn hatoffice hqueued
    (of_steps (fun _ _ => equipped_step) (steps_persistAll hatoffice b) hroom)
    (window_quiet (quiet_persistAll b hs) hb)

end Broker

/-! ## Moves -/

/-- Every stage counts: no cache had a number before. -/
def noFloor : CacheRef → Nat := fun _ => 0

theorem apart_noFloor {hs : List HeldStage} (h : Apart noFloor hs) :
    (hs.map HeldStage.place).Nodup := by
  have hall : hs.filter (fun h => h.Above noFloor) = hs :=
    List.filter_eq_self.2 fun h _ => by simp [HeldStage.Above, noFloor]
  rwa [Apart, hall] at h

theorem above_noFloor (h : HeldStage) : h.Above noFloor := Nat.zero_le _

/-- What the caches of one post office and those who hold stages tell of each other. -/
structure Guarded (n : Nat) (v : View) : Prop where
  atOffice : v.Local
  unkeyed : Broker.Unkeyed v.books
  custody : Custody noFloor v
  sound : Broker.AllSound v.books
  equipped : Broker.Equipped n v.books
  window : Broker.Window n v.books

theorem Guarded.loose_open {n : Nat} {b : Broker} {h : HeldStage} {os : List Outline}
    (hv : Guarded n ⟨b, [h], os⟩) : b.Open h :=
  hv.custody.kept h (by simp [View.live]) (above_noFloor h)

/-- The stages of a transaction that has not been completed are pending, all at different places. -/
theorem Guarded.held_open {n : Nat} {b : Broker} {l₁ l₂ : List Outline} {o : Outline}
    (hv : Guarded n ⟨b, [], l₁ ++ o :: l₂⟩) (ho : o.isLive = true) :
    (∀ h ∈ o.held, b.Open h.1) ∧ ((o.held.map (·.1)).map HeldStage.place).Nodup ∧
      ∀ h ∈ o.held, h.1.AtOffice := by
  refine ⟨fun h hh => hv.custody.kept h.1 ?_ (above_noFloor _), ?_,
    fun h hh => hv.atOffice.atOffice h.1 ?_⟩
  · exact mem_live.2 (Or.inl ⟨ho, List.mem_map_of_mem hh⟩)
  · have hall := apart_noFloor (hv.custody.apart.perm (stages_perm ..))
    rw [List.map_append] at hall
    exact (List.nodup_append.1 hall).1
  · exact (stages_perm ..).mem_iff.2 (List.mem_append_left _ (List.mem_map_of_mem hh))

namespace Broker

variable {P : Call → Prop} {n : Nat}

/-- Every move keeps the window. -/
theorem window_move (hn : 0 < n) {v v' : View} (h : Move P v v') (hv : Guarded n v) :
    Window n v'.books := by
  have hb := hv.window
  cases h with
  | opened a => exact window_quiet (quiet_openOfficeCache ..) hb
  | begun x => exact hb
  | written => exact window_quiet (quiet_writeNext ..) hb
  | @waits b os c hc => exact window_quiet (b := b) (quiet_of_cache rfl fun _ => rfl) hb
  | @retries b os calls hready => exact window_quiet (b := b) (quiet_of_cache rfl fun _ => rfl) hb
  | granted hgrant => exact window_granted hgrant hv.sound hb
  | @sent b b' h os hpersist =>
    refine window_complete hn none (fun g hg => ?_) (by simp) hv.unkeyed (fun g hg => ?_) hv.sound
      hv.equipped hb hpersist
    · rw [List.mem_singleton.1 hg]
      exact hv.loose_open
    · rw [List.mem_singleton.1 hg]
      exact hv.atOffice.atOffice h (by simp)
  | refused m => exact window_quiet ((quiet_persistAll ..).trans (quiet_dropAll ..)) hb
  | registered howner => exact hb
  | prepared hstore =>
    obtain rfl := congrArg Prod.fst hstore
    exact window_quiet (quiet_storeAll ..) hb
  | unprepared hstore =>
    obtain rfl := congrArg Prod.fst hstore
    exact window_quiet ((quiet_storeAll ..).trans (quiet_dropAll ..)) hb
  | @committed b b' l₁ l₂ x st held hlive hpersist =>
    obtain ⟨hopen, hapart, hatoffice⟩ := hv.held_open (o := ⟨x, st, held⟩) (by
      rcases hlive with rfl | rfl <;> rfl)
    exact window_complete hn x hopen hapart hv.unkeyed hatoffice hv.sound hv.equipped hb hpersist
  | undone hlive m => exact window_quiet ((quiet_persistAll ..).trans (quiet_dropAll ..)) hb

theorem guarded_move (hn : 0 < n) {v v' : View} (h : Move P v v') (hv : Guarded n v) :
    Guarded n v' := by
  obtain ⟨hsteps, hlocal⟩ := steps_move h hv.atOffice
  exact ⟨hlocal, unkeyed_move h hv.unkeyed, custody_move h hv.atOffice hv.custody,
    of_steps (fun _ _ => sound_step) hsteps hv.sound,
    of_steps (fun _ _ => equipped_step) hsteps hv.equipped, window_move hn h hv⟩

end Broker

end MessageRouting
