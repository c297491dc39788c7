import MessageRouting.Proofs.Broker.TrafficMoves
import MessageRouting.Proofs.Cache.TraceWindow

/-!
# Keepers of stages

Every stage that is pending has a keeper: the send that has been granted it, or
the transaction it is owned by. A transaction that commits keeps its word for
all stages it has taken, so an identifier whose routing call went well becomes
visible for its owner or is with its transaction.

Results:

* `owned_move`, `honoured_move`: pending stages have keepers, and committed
  transactions have made their stages visible.
* `secured_attempt`: a routing call that ends well has its identifier secured.
-/

namespace MessageRouting

/-- A stage of the identifier at a cache, for the owner. -/
def HeldStage.IsFor (h : HeldStage) (ref : CacheRef) (id : Bytes) (owner : Owner) : Prop :=
  h.cache = ref ∧ h.staged.duplicateId = id ∧ h.staged.owner = owner

/-- Every pending stage is with the send under way, or with the transaction that owns it. -/
def Owned (v : View) : Prop :=
  ∀ h, v.books.Open h → h ∈ v.loose ∨ ∃ i o, v.outlines[i]? = some o ∧ o.isLive = true ∧
    h ∈ o.stages ∧ h.staged.owner = .transaction (i + 1)

/-- Committed transactions have made all their stages visible. -/
def Honoured (v : View) : Prop :=
  ∀ o ∈ v.outlines, o.state = .committed → ∀ h ∈ o.stages, ∃ p, .promoted h p ∈ v.books.marks

/-- The identifier has become visible for its owner, or is with the transaction that owns it. -/
def Secured (v : View) (ref : CacheRef) (id : Bytes) (owner : Owner) : Prop :=
  (∃ h p, .promoted h p ∈ v.books.marks ∧ h.IsFor ref id owner) ∨
    ∃ i o, owner = .transaction (i + 1) ∧ v.outlines[i]? = some o ∧
      ∃ h ∈ o.stages, h.IsFor ref id owner

/-! ## Outlines in a move -/

/-- What a move may make of an outline: it takes further stages, or is completed for good. -/
structure Outline.Grows (o o' : Outline) : Prop where
  xid : o'.xid = o.xid
  stages : ∀ h ∈ o.stages, h ∈ o'.stages
  completed : o.isLive = false → o' = o

theorem Outline.Grows.refl (o : Outline) : o.Grows o := ⟨rfl, fun _ h => h, fun _ => rfl⟩

theorem Outline.Grows.trans {o₁ o₂ o₃ : Outline} (h : o₁.Grows o₂) (h' : o₂.Grows o₃) :
    o₁.Grows o₃ := by
  refine ⟨h'.xid.trans h.xid, fun t ht => h'.stages t (h.stages t ht), fun ho => ?_⟩
  obtain rfl := h.completed ho
  exact h'.completed ho

theorem getElem?_replaced (l₁ l₂ : List Outline) (o o' : Outline) (i : Nat) :
    (l₁ ++ o' :: l₂)[i]? = if i = l₁.length then some o' else (l₁ ++ o :: l₂)[i]? := by
  rcases Nat.lt_trichotomy i l₁.length with hlt | rfl | hgt
  · rw [if_neg (by omega), List.getElem?_append_left hlt, List.getElem?_append_left hlt]
  · simp
  · rw [if_neg (by omega), List.getElem?_append_right (by omega),
      List.getElem?_append_right (by omega)]
    obtain ⟨k, hk⟩ : ∃ k, i - l₁.length = k + 1 := ⟨i - l₁.length - 1, by omega⟩
    rw [hk, List.getElem?_cons_succ, List.getElem?_cons_succ]

/-- The transaction that is found changed is the one that has been replaced. -/
theorem replaced_of_ne {l₁ l₂ : List Outline} {p p' o o' : Outline} {i : Nat}
    (hold : (l₁ ++ p :: l₂)[i]? = some o) (hnew : (l₁ ++ p' :: l₂)[i]? = some o') (hne : o' ≠ o) :
    o = p ∧ o' = p' := by
  rw [getElem?_replaced l₁ l₂ p p'] at hnew
  split at hnew
  · rename_i hi
    subst hi
    exact ⟨by simpa using hold.symm, (Option.some.inj hnew).symm⟩
  · rw [hold, Option.some.injEq] at hnew
    exact absurd hnew.symm hne

/-- A transaction that grows is found grown, and the others as they were. -/
theorem grows_replaced {l₁ l₂ : List Outline} {o o' q : Outline} {i : Nat}
    (hq : (l₁ ++ o :: l₂)[i]? = some q) (h : o.Grows o') :
    ∃ q', (l₁ ++ o' :: l₂)[i]? = some q' ∧ q.Grows q' := by
  rw [getElem?_replaced l₁ l₂ o o']
  by_cases hi : i = l₁.length
  · subst hi
    rw [List.getElem?_append_right (Nat.le_refl _), Nat.sub_self, List.getElem?_cons_zero,
      Option.some.injEq] at hq
    exact ⟨o', if_pos rfl, hq ▸ h⟩
  · rw [if_neg hi]
    exact ⟨q, hq, .refl q⟩

namespace Broker

variable {P : Call → Prop} {n : Nat}

/-- In a move every outline grows, or stays. -/
theorem outline_move {v v' : View} (h : Move P v v') {i : Nat} {o : Outline}
    (ho : v.outlines[i]? = some o) : ∃ o', v'.outlines[i]? = some o' ∧ o.Grows o' := by
  cases h with
  | begun x =>
    obtain ⟨hi, -⟩ := List.getElem?_eq_some_iff.1 ho
    refine ⟨o, ?_, .refl o⟩
    show (_ ++ _)[i]? = _
    rw [List.getElem?_append_left hi]
    exact ho
  | registered howner =>
    refine grows_replaced ho ⟨rfl, fun h hh => ?_, fun h => by cases h⟩
    rw [Outline.stages, List.map_append]
    exact List.mem_append_left _ hh
  | prepared hstore =>
    refine grows_replaced ho ⟨rfl, fun h hh => ?_, fun h => by cases h⟩
    rw [Outline.stages, stages_storeAll hstore]
    exact hh
  | unprepared hstore =>
    refine grows_replaced ho ⟨rfl, fun h hh => ?_, fun h => by cases h⟩
    rw [Outline.stages, stages_storeAll_take hstore]
    exact hh
  | committed hlive hpersist =>
    refine grows_replaced ho ⟨rfl, fun h hh => hh, fun h => ?_⟩
    rcases hlive with rfl | rfl <;> cases h
  | undone hlive m =>
    refine grows_replaced ho ⟨rfl, fun h hh => hh, fun h => ?_⟩
    rcases hlive with rfl | rfl <;> cases h
  | opened a => exact ⟨o, ho, .refl o⟩
  | written => exact ⟨o, ho, .refl o⟩
  | waits hc => exact ⟨o, ho, .refl o⟩
  | retries hready => exact ⟨o, ho, .refl o⟩
  | granted hgrant => exact ⟨o, ho, .refl o⟩
  | sent hpersist => exact ⟨o, ho, .refl o⟩
  | refused m => exact ⟨o, ho, .refl o⟩

theorem outline_moves {v v' : View} (h : Moves P v v') {i : Nat} {o : Outline}
    (ho : v.outlines[i]? = some o) : ∃ o', v'.outlines[i]? = some o' ∧ o.Grows o' := by
  induction h with
  | refl => exact ⟨o, ho, .refl o⟩
  | tail _ h ih =>
    obtain ⟨o₁, ho₁, hg₁⟩ := ih
    obtain ⟨o₂, ho₂, hg₂⟩ := outline_move h ho₁
    exact ⟨o₂, ho₂, hg₁.trans hg₂⟩

/-! ## Marks in a step -/

/-- What the trace tells of stages stays there. -/
theorem marks_step {b b' : Broker} (h : Step b b') {e : Event} (he : e ∈ b.marks) :
    e ∈ b'.marks := by
  have hquiet : ∀ {b b' : Broker}, Quiet b b' → e ∈ b.marks → e ∈ b'.marks :=
    fun hq he => by rw [hq.marks]; exact he
  cases h with
  | opened a => exact hquiet (quiet_openOfficeCache ..) he
  | written => exact hquiet (quiet_writeNext ..) he
  | called waiting ready => exact he
  | granted hgrant =>
    obtain ⟨c, -, rfl⟩ := attemptStage_granted hgrant
    rw [marks_log rfl]
    exact List.mem_append_left _ he
  | persisted hh hp => exact hquiet (quiet_persistStage hp) he
  | @promoted h hh =>
    rcases commitStage_cases b h with ⟨-, heq⟩ | ⟨p, c, b₁, -, rfl, heq⟩
    · rwa [heq]
    · have hlog : (((b.setCache h.cache c).log (.promoted h p)).wake h.cache).marks
          = b.marks ++ [.promoted h p] := marks_log rfl
      rw [heq, marks_pruneEvicted]
      split
      · rw [marks_submitFor, hlog]
        exact List.mem_append_left _ he
      · rw [hlog]
        exact List.mem_append_left _ he
  | dropped hh => exact hquiet (quiet_rollbackStage ..) he
  | released hh x => exact hquiet (quiet_release ..) he
  | stored hh hs => exact hquiet (quiet_storePrepared hs) he

theorem marks_steps {b b' : Broker} (h : Steps b b') {e : Event} (he : e ∈ b.marks) :
    e ∈ b'.marks := of_steps (I := fun b => e ∈ b.marks) (fun _ _ h he => marks_step h he) h he

theorem secured_move {v v' : View} (h : Move P v v') (hlocal : v.Local) {ref : CacheRef}
    {id : Bytes} {owner : Owner} (hv : Secured v ref id owner) : Secured v' ref id owner := by
  rcases hv with ⟨g, p, hg, hfor⟩ | ⟨i, o, howner, ho, g, hg, hfor⟩
  · exact Or.inl ⟨g, p, marks_steps (steps_move h hlocal).1 hg, hfor⟩
  · obtain ⟨o', ho', hgrows⟩ := outline_move h ho
    exact Or.inr ⟨i, o', howner, ho', g, hgrows.stages g hg, hfor⟩

/-- All of the stages become visible. -/
theorem promoted_promoteAll {x : Option Xid} {hs : List (HeldStage × Bool)} {b : Broker}
    (hopen : ∀ h ∈ hs, b.Open h.1) (hapart : ((hs.map (·.1)).map HeldStage.place).Nodup)
    (hatoffice : ∀ h ∈ hs, h.1.AtOffice) :
    ∀ h ∈ hs, ∃ p, .promoted h.1 p ∈ (b.promoteAll x hs).marks := by
  induction hs generalizing b with
  | nil => exact fun h hh => absurd hh (by simp)
  | cons g rest ih =>
    simp only [List.map_cons, List.nodup_cons] at hapart
    have hrest : ∀ h ∈ rest, h.1.AtOffice := fun h hh => hatoffice h (by simp [hh])
    have hresolves : Resolves b g.1 ((b.commitStage g.1).release x g) :=
      (resolves_commitStage b g.1).of_cache fun ref => cache_release ..
    intro h hh
    rcases List.mem_cons.1 hh with rfl | hh
    · obtain ⟨p, -, -, -, hmarks⟩ := commitStage_open (hopen h (by simp))
      refine ⟨p, marks_steps (steps_promoteAll hrest _ x) ?_⟩
      rw [(quiet_release _ x h).marks, hmarks]
      simp
    · refine ih (fun h hh => open_of_resolves hresolves (hopen h (by simp [hh])) fun heq => ?_)
        hapart.2 hrest h hh
      exact hapart.1 (heq ▸ List.mem_map_of_mem (List.mem_map_of_mem hh))

/-! ## Keepers in a move -/

/-- Completing a transaction leaves the stages of the others with them. -/
theorem owned_complete {b b' : Broker} {l₁ l₂ : List Outline} {o o' : Outline}
    (hanti : ∀ t, b'.Open t → b.Open t) (hgone : ∀ t ∈ o.stages, ¬ b'.Open t)
    (hv : Owned ⟨b, [], l₁ ++ o :: l₂⟩) : Owned ⟨b', [], l₁ ++ o' :: l₂⟩ := by
  intro t ht
  rcases hv t (hanti t ht) with hloose | ⟨i, q, hq, hlive, hmem, howner⟩
  · cases hloose
  · refine Or.inr ⟨i, q, ?_, hlive, hmem, howner⟩
    show (l₁ ++ o' :: l₂)[i]? = _
    rw [getElem?_replaced l₁ l₂ o o', if_neg]
    · exact hq
    · rintro rfl
      have heq : o = q := by simpa using hq
      exact hgone t (heq ▸ hmem) ht

/-- A send that resolves its stage leaves the others with their transactions. -/
theorem owned_sent {b b' : Broker} {h : HeldStage} {os : List Outline}
    (hanti : ∀ t, b'.Open t → b.Open t) (hgone : ¬ b'.Open h) (hv : Owned ⟨b, [h], os⟩) :
    Owned ⟨b', [], os⟩ := by
  intro t ht
  rcases hv t (hanti t ht) with hloose | hkept
  · obtain rfl : t = h := by simpa using hloose
    exact absurd ht hgone
  · exact Or.inr hkept

theorem owned_quiet {b b' : Broker} {hs : List HeldStage} {os : List Outline}
    (hanti : ∀ t, b'.Open t → b.Open t) (hv : Owned ⟨b, hs, os⟩) : Owned ⟨b', hs, os⟩ :=
  fun t ht => hv t (hanti t ht)

/-- The stages of a transaction stay with it as long as it is not completed. -/
theorem owned_replaced {b : Broker} {hs : List HeldStage} {l₁ l₂ : List Outline}
    {o o' : Outline} (hstages : ∀ t ∈ o.stages, t ∈ o'.stages) (hlive : o'.isLive = true)
    (hv : Owned ⟨b, hs, l₁ ++ o :: l₂⟩) : Owned ⟨b, hs, l₁ ++ o' :: l₂⟩ := by
  intro t ht
  rcases hv t ht with hloose | ⟨i, q, hq, hqlive, hmem, howner⟩
  · exact Or.inl hloose
  · by_cases hi : i = l₁.length
    · refine Or.inr ⟨i, o', ?_, hlive, hstages t ?_, howner⟩
      · show (l₁ ++ o' :: l₂)[i]? = _
        rw [getElem?_replaced l₁ l₂ o o', if_pos hi]
      · have heq : o = q := by
          subst hi
          simpa using hq
        rw [heq]
        exact hmem
    · refine Or.inr ⟨i, q, ?_, hqlive, hmem, howner⟩
      show (l₁ ++ o' :: l₂)[i]? = _
      rw [getElem?_replaced l₁ l₂ o o', if_neg hi]
      exact hq

theorem owned_move {v v' : View} (h : Move P v v') (hv : Owned v) : Owned v' := by
  cases h with
  | opened a => exact owned_quiet (quiet_openOfficeCache ..).opens hv
  | begun x =>
    intro t ht
    rcases hv t ht with hloose | ⟨i, o, ho, hrest⟩
    · cases hloose
    · obtain ⟨hi, -⟩ := List.getElem?_eq_some_iff.1 ho
      refine Or.inr ⟨i, o, ?_, hrest⟩
      show (_ ++ _)[i]? = _
      rw [List.getElem?_append_left hi]
      exact ho
  | written => exact owned_quiet (quiet_writeNext ..).opens hv
  | waits hc => exact hv
  | retries hready => exact hv
  | granted hgrant =>
    intro t ht
    rcases (open_granted hgrant t).1 ht with rfl | ht
    · exact Or.inl (by simp)
    · exact Or.inr ((hv t ht).resolve_left (by simp))
  | @sent b b' h os hpersist =>
    obtain rfl : (b.persistAll [(h, false)]).1 = b' := congrArg Prod.fst hpersist
    have hr := resolvesAll_promoteAll (b.persistAll [(h, false)]).1 none [(h, false)]
    exact owned_sent (fun t ht => (open_persistAll ..).1 (open_antitone_all hr ht))
      (not_open_of_resolvesAll hr (by simp)) hv
  | @refused b h os m =>
    have hr := resolvesAll_dropAll (b.persistAll ([(h, false)].take m)).1 none [(h, false)]
    exact owned_sent (fun t ht => (open_persistAll ..).1 (open_antitone_all hr ht))
      (not_open_of_resolvesAll hr (by simp)) hv
  | @registered b h l₁ l₂ x held howner =>
    have hstages : (⟨x, .active, held ++ [(h, false)]⟩ : Outline).stages =
        (⟨x, .active, held⟩ : Outline).stages ++ [h] := by
      simp [Outline.stages]
    have hkept : Owned ⟨b, [h], l₁ ++ ⟨x, .active, held ++ [(h, false)]⟩ :: l₂⟩ :=
      owned_replaced (fun t ht => by rw [hstages]; exact List.mem_append_left _ ht) rfl hv
    intro t ht
    rcases hkept t ht with hloose | hkept
    · obtain rfl : t = h := by simpa using hloose
      exact Or.inr ⟨l₁.length, ⟨x, .active, held ++ [(t, false)]⟩, by simp, rfl,
        by rw [hstages]; simp, howner⟩
    · exact Or.inr hkept
  | @prepared b b' l₁ l₂ x held marks hstore =>
    obtain rfl : (b.storeAll x held).1 = b' := congrArg Prod.fst hstore
    refine owned_replaced (fun t ht => ?_) rfl (owned_quiet (quiet_storeAll ..).opens hv)
    rw [Outline.stages, stages_storeAll hstore]
    exact ht
  | @unprepared b b' l₁ l₂ x held marks result m hstore =>
    obtain rfl : (b.storeAll x (held.take m)).1 = b' := congrArg Prod.fst hstore
    have hr := resolvesAll_dropAll (b.storeAll x (held.take m)).1 (some x) (marks ++ held.drop m)
    refine owned_complete
      (fun t ht => (quiet_storeAll ..).opens t (open_antitone_all hr ht))
      (fun t ht => not_open_of_resolvesAll hr ?_) hv
    rw [stages_storeAll_take hstore]
    exact ht
  | @committed b b' l₁ l₂ x st held hlive hpersist =>
    obtain rfl : (b.persistAll held).1 = b' := congrArg Prod.fst hpersist
    have hr := resolvesAll_promoteAll (b.persistAll held).1 x held
    exact owned_complete (o := ⟨x, st, held⟩)
      (fun t ht => (open_persistAll ..).1 (open_antitone_all hr ht))
      (fun t ht => not_open_of_resolvesAll hr ht) hv
  | @undone b l₁ l₂ x st held hlive m =>
    have hr := resolvesAll_dropAll (b.persistAll (held.take m)).1 x held
    exact owned_complete (o := ⟨x, st, held⟩)
      (fun t ht => (open_persistAll ..).1 (open_antitone_all hr ht))
      (fun t ht => not_open_of_resolvesAll hr ht) hv

/-- Marks stay, and so does the word of committed transactions. -/
theorem honoured_replaced {b b' : Broker} {hs hs' : List HeldStage} {l₁ l₂ : List Outline}
    {o o' : Outline} (hmarks : ∀ e ∈ b.marks, e ∈ b'.marks)
    (ho : o'.state = .committed → ∀ h ∈ o'.stages, ∃ p, .promoted h p ∈ b'.marks)
    (hv : Honoured ⟨b, hs, l₁ ++ o :: l₂⟩) : Honoured ⟨b', hs', l₁ ++ o' :: l₂⟩ := by
  intro q hq hstate h hh
  have hother : q ∈ l₁ ++ o :: l₂ → ∃ p, .promoted h p ∈ b'.marks := fun hq => by
    obtain ⟨p, hp⟩ := hv q hq hstate h hh
    exact ⟨p, hmarks _ hp⟩
  rcases List.mem_append.1 hq with hq | hq
  · exact hother (List.mem_append_left _ hq)
  · rcases List.mem_cons.1 hq with rfl | hq
    · exact ho hstate h hh
    · exact hother (List.mem_append_right _ (List.mem_cons_of_mem _ hq))

theorem honoured_move {v v' : View} (h : Move P v v') (hg : Guarded n v) (hv : Honoured v) :
    Honoured v' := by
  have hmarks := fun e => marks_steps (e := e) (steps_move h hg.atOffice).1
  have hsame : v'.outlines = v.outlines → Honoured v' := fun heq o ho hstate t ht => by
    obtain ⟨p, hp⟩ := hv o (heq ▸ ho) hstate t ht
    exact ⟨p, hmarks _ hp⟩
  cases h with
  | opened a => exact hsame rfl
  | begun x =>
    intro o ho hstate t ht
    rcases List.mem_append.1 ho with ho | ho
    · exact hv o ho hstate t ht
    · obtain rfl := List.mem_singleton.1 ho
      cases ht
  | written => exact hsame rfl
  | waits hc => exact hsame rfl
  | retries hready => exact hsame rfl
  | granted hgrant => exact hsame rfl
  | sent hpersist => exact hsame rfl
  | refused m => exact hsame rfl
  | registered howner => exact honoured_replaced hmarks (fun h => by cases h) hv
  | prepared hstore => exact honoured_replaced hmarks (fun h => by cases h) hv
  | unprepared hstore => exact honoured_replaced hmarks (fun h => by cases h) hv
  | @committed b b' l₁ l₂ x st held hlive hpersist =>
    obtain ⟨hopen, hapart, hatoffice⟩ := hg.held_open (o := ⟨x, st, held⟩) (by
      rcases hlive with rfl | rfl <;> rfl)
    refine honoured_replaced hmarks (fun _ t ht => ?_) hv
    obtain ⟨h, hh, rfl⟩ := List.mem_map.1 ht
    obtain rfl : (b.persistAll held).1 = b' := congrArg Prod.fst hpersist
    exact promoted_promoteAll (fun h hh => (open_persistAll ..).2 (hopen h hh)) hapart hatoffice
      h hh
  | undone hlive m => exact honoured_replaced hmarks (fun h => by cases h) hv

end Broker

/-- Stages are guarded and kept. -/
structure Fair (n : Nat) (v : View) : Prop where
  guarded : Guarded n v
  owned : Owned v
  honoured : Honoured v

namespace Broker

variable {P : Call → Prop} {n : Nat}

theorem fair_moves (hn : 0 < n) {v v' : View} (h : Moves P v v') (hv : Fair n v) : Fair n v' := by
  induction h with
  | refl => exact hv
  | tail _ h ih =>
    exact ⟨guarded_move hn h ih.guarded, owned_move h ih.owned,
      honoured_move h ih.guarded ih.honoured⟩

theorem secured_moves (hn : 0 < n) {v v' : View} (h : Moves P v v') (hv : Fair n v)
    {ref : CacheRef} {id : Bytes} {owner : Owner} (hs : Secured v ref id owner) :
    Secured v' ref id owner := by
  induction h with
  | refl => exact hs
  | tail hfirst h ih => exact secured_move h (fair_moves hn hfirst hv).guarded.atOffice ih

/-! ## Routing calls that end well -/

theorem attemptStage_outcome (b : Broker) (ref : CacheRef) (id : Bytes) (owner : Owner) :
    (b.attemptStage ref id owner).2 = ((b.cache ref).attempt id owner).1 := by
  unfold attemptStage
  rcases (b.cache ref).attempt id owner with ⟨o, c⟩
  rcases o with - | o
  · rfl
  · cases o <;> rfl

theorem finish_routed {b b' : Broker} {r : Routing} {staged acceptedDuplicate : Bool}
    {o : RoutingOutcome} (h : b.finish r staged acceptedDuplicate = (b', .routed o)) :
    b.dispatch r.delivery r.transaction = (b', .ok ()) := by
  unfold finish at h
  rcases hdispatch : b.dispatch r.delivery r.transaction with ⟨c, result⟩
  rw [hdispatch] at h
  cases result with
  | error e => cases h
  | ok _ =>
    cases h
    rfl

theorem open_books {b : Broker} {h : HeldStage} : b.books.Open h ↔ b.Open h := Iff.rfl

/-- A delivery that goes well with its stage has the identifier secured. -/
theorem secured_dispatch {b b' : Broker} {d : Delivery} {h : HeldStage}
    {transaction : Option Nat} (hd : d.stage = some h) (hopen : b.Open h) (hh : h.AtOffice)
    (howner : ∀ n, transaction = some n → h.staged.owner = .transaction n)
    (hdispatch : b.dispatch d transaction = (b', .ok ())) :
    Secured b'.view h.cache h.staged.duplicateId h.staged.owner := by
  rcases dispatch_staged hd hdispatch with ⟨-, -, -, c, hc, hbooks⟩ |
    ⟨k, l₁, l₂, x, held, htx, -, -, hlen, -, hsplit⟩ | ⟨e, m, herror, -⟩
  · obtain rfl : (b.books.persistAll [(h, false)]).1 = c := congrArg Prod.fst hc
    have hkept : (b.books.persistAll [(h, false)]).1.Open h := (open_persistAll ..).2 hopen
    have hall : ∀ g ∈ [(h, false)], ∃ p,
        .promoted g.1 p ∈
          ((b.books.persistAll [(h, false)]).1.promoteAll none [(h, false)]).marks :=
      promoted_promoteAll (fun g hg => by rw [List.mem_singleton.1 hg]; exact hkept) (by simp)
        fun g hg => by rw [List.mem_singleton.1 hg]; exact hh
    obtain ⟨p, hp⟩ := hall (h, false) (by simp)
    refine Or.inl ⟨h, p, ?_, rfl, rfl, rfl⟩
    show _ ∈ b'.books.marks
    rw [hbooks]
    exact hp
  · refine Or.inr ⟨l₁.length, ⟨x, .active, held ++ [(h, false)]⟩, ?_, ?_, h, ?_, rfl, rfl, rfl⟩
    · rw [howner k htx, hlen]
    · show b'.outlines[l₁.length]? = _
      rw [hsplit]
      simp
    · simp [Outline.stages]
  · cases herror

/-- A routing call that rejects duplicates and ends well has its identifier secured. -/
theorem secured_attempt {b b' : Broker} {c : Call} {r : Routing} {o : RoutingOutcome}
    (hn : 0 < n) (hv : Fair n b.view) (hc : c.Routes) (hr : c.purpose = .route r)
    (hreject : r.rejectDuplicates = true) (henabled : (b.cache c.cache).enabled = true)
    (h : b.attempt c = (b', some (.routed o))) :
    Secured b'.view c.cache c.duplicateId c.owner := by
  have hmoves := moves_of_passes (passes_attempt Call.Routes hc (b := b))
  rw [h] at hmoves
  obtain ⟨r', hr', -, hstage, hcache, -, howner⟩ := hc
  obtain rfl : r = r' := by
    rw [hr] at hr'
    injection hr'
  have houtcome := attemptStage_outcome b c.cache c.duplicateId c.owner
  rcases hattempt : b.attemptStage c.cache c.duplicateId c.owner with ⟨b₁, out⟩
  rw [hattempt] at houtcome
  dsimp only at houtcome
  rcases out with - | out
  · simp only [attempt, hattempt] at h
    cases h
  cases out with
  | staged s =>
    rw [attempt_of_granted hr hattempt, Prod.mk.injEq, Option.some.injEq] at h
    obtain ⟨hsowner, hsid⟩ := owner_attemptStage hattempt
    have hdispatch := finish_routed (Prod.ext h.1 h.2)
    have hopen : b₁.Open ⟨c.cache, s⟩ := (open_granted hattempt _).2 (Or.inl rfl)
    have hhome : HeldStage.AtOffice ⟨c.cache, s⟩ := by
      rw [hcache] at hattempt ⊢
      exact atOffice_granted hattempt hv.guarded.atOffice.addressed
    have hsecured := secured_dispatch rfl hopen hhome (fun k hk => ?_) hdispatch
    · rw [hsowner, hsid] at hsecured
      exact hsecured
    · simp only at hk
      rw [hk] at howner
      rw [hsowner, howner]
  | duplicate =>
    simp only [attempt, hattempt, hr, continueRouting, hreject, if_true, rejectDuplicate] at h
    cases h
  | alreadyStaged =>
    -- The stage that is there already is the owner's, and so with its transaction.
    obtain ⟨q, hq, hqowner⟩ := Cache.attempt_alreadyStaged (Prod.ext houtcome.symm rfl)
    have hopen : b.Open
        ⟨c.cache, ⟨(b.cache c.cache).address, c.duplicateId, q.sequence, q.owner⟩⟩ :=
      ⟨rfl, q.commitKey, hq⟩
    rcases hv.owned _ (open_books.2 hopen) with hloose | ⟨i, o', ho', -, hmem, howner'⟩
    · cases hloose
    · rw [hqowner] at hmem howner'
      exact secured_moves hn hmoves hv
        (Or.inr ⟨i, o', howner', ho', _, hmem, rfl, rfl, rfl⟩)
  | disabled =>
    have hdisabled : (b.cache c.cache).attempt c.duplicateId c.owner = (some .disabled, _) :=
      Prod.ext houtcome.symm rfl
    exact absurd hdisabled (Cache.attempt_ne_disabled henabled)

end Broker

end MessageRouting
