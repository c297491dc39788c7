import MessageRouting.Proofs.Persistence.BranchRecords

/-!
# Prepared records

Preparing a branch writes a record of each of its stages at once; completing it
has all prepared records of its xid deleted, by the writer. As long as no two
transactions have one xid, and deletions go well, the settled journal holds
exactly the records of the branches that are prepared.

Results:

* `pledged_moves`: so it is in every run.
* `Pledged.pledges`: the records of a prepared branch are those of its stages.
-/

namespace MessageRouting

open Relation (ReflTransGen)

namespace Outline

/-- The records of the branch that stand in the settled journal as prepared. -/
def pledges (o : Outline) : List PreparedRecord :=
  match o.xid with
  | some x => if o.isLive then (o.held.filter (·.2)).map fun h => ⟨x, h.1.staged.record⟩ else []
  | none => []

theorem xid_of_mem_pledges {o : Outline} {p : PreparedRecord} (h : p ∈ o.pledges) :
    o.xid = some p.xid := by
  unfold pledges at h
  split at h
  · rename_i x hx
    split at h
    · obtain ⟨g, -, rfl⟩ := List.mem_map.1 h
      exact hx
    · cases h
  · cases h

theorem pledges_of_not_live {o : Outline} (h : o.isLive = false) : o.pledges = [] := by
  unfold pledges
  rw [h]
  split <;> rfl

theorem pledges_of_unmarked {o : Outline} (h : ∀ g ∈ o.held, g.2 = false) : o.pledges = [] := by
  have hnone : o.held.filter (·.2) = [] := List.filter_eq_nil_iff.2 fun g hg => by simp [h g hg]
  unfold pledges
  rw [hnone]
  split
  · split <;> rfl
  · rfl

/-- A prepared branch whose stages all stand in the journal has their records there. -/
theorem pledges_of_marked {x : Xid} {held : List (HeldStage × Bool)}
    (h : ∀ g ∈ held, g.2 = true) :
    (⟨some x, .prepared, held⟩ : Outline).pledges = held.map fun g => ⟨x, g.1.staged.record⟩ := by
  show List.map _ (held.filter (·.2)) = _
  rw [List.filter_eq_self.2 h]

end Outline

/-- The xids of the transactions, in order. -/
def View.xids (v : View) : List Xid := v.outlines.filterMap Outline.xid

namespace Broker

variable {mode : PersistenceMode} {b b' : Broker}

/-! ## The settled journal -/

theorem settled_prepared (b : Broker) :
    b.settled.prepared = b.queue.foldl Ledger.preparedAfter b.storage.ledger.prepared :=
  Ledger.prepared_applyAll ..

/-- What is written and handed over changes prepared records only as far as it tells of them. -/
theorem prepared_of_logs {inline handed : List Entry} (h : Logs b b' inline handed)
    (hinline : inline.filter Entry.isPrepared = []) :
    b'.settled.prepared =
      (handed.filter Entry.isPrepared).foldl Ledger.preparedAfter b.settled.prepared := by
  have hledger : b'.storage.ledger.prepared = b.storage.ledger.prepared := by
    rw [h.ledger, Ledger.prepared_applyAll, ← Ledger.preparedAll_filter, hinline]
    rfl
  rw [Ledger.preparedAll_filter, settled_prepared, settled_prepared, hledger, h.queue,
    List.foldl_append]

/-- Deleting the prepared records of a branch leaves those of the others. -/
theorem perm_released {o : Outline} {ps rest : List PreparedRecord} (hlive : o.isLive = true)
    (hps : ps.Perm (o.pledges ++ rest)) (hrest : ∀ p ∈ rest, o.xid ≠ some p.xid) :
    ((o.held.flatMap (released o.xid)).foldl Ledger.preparedAfter ps).Perm rest := by
  cases hx : o.xid with
  | none =>
    have hpledges : o.pledges = [] := by rw [Outline.pledges, hx]
    have hreleased : o.held.flatMap (released none) = [] := List.flatMap_eq_nil_iff.2 fun _ _ => rfl
    rw [hreleased]
    rwa [hpledges] at hps
  | some x =>
    have hothers : rest.filter (fun p => p.xid ≠ x) = rest := List.filter_eq_self.2 fun p hp => by
      have hne : p.xid ≠ x := fun heq => hrest p hp (by rw [hx, heq])
      simpa using hne
    have hown : o.pledges.filter (fun p => p.xid ≠ x) = [] :=
      List.filter_eq_nil_iff.2 fun p hp => by
      have heq := o.xid_of_mem_pledges hp
      rw [hx, Option.some.injEq] at heq
      simp [heq]
    have hfiltered : (ps.filter fun p => p.xid ≠ x).Perm rest := by
      have h := hps.filter fun p => p.xid ≠ x
      rwa [List.filter_append, hown, hothers] at h
    -- Once one stage has had the records deleted, the others find nothing to delete.
    have hagain : ∀ (hs : List (HeldStage × Bool)) (qs : List PreparedRecord), qs.Perm rest →
        ((hs.flatMap (released (some x))).foldl Ledger.preparedAfter qs).Perm rest := by
      intro hs
      induction hs with
      | nil => intro qs hqs; exact hqs
      | cons h more ih =>
        intro qs hqs
        rw [List.flatMap_cons, List.foldl_append]
        refine ih _ ?_
        unfold released
        dsimp only
        split
        · have hq := hqs.filter fun p => p.xid ≠ x
          rwa [hothers] at hq
        · exact hqs
    have hpledges : o.pledges = (o.held.filter (·.2)).map fun h => ⟨x, h.1.staged.record⟩ := by
      rw [Outline.pledges, hx]
      exact if_pos hlive
    rw [hpledges] at hps
    generalize o.held = held at hps
    induction held with
    | nil => simpa using hps
    | cons h more ih =>
      rw [List.flatMap_cons, List.foldl_append]
      cases hmark : h.2 with
      | false =>
        rw [List.filter_cons, hmark] at hps
        have hnone : released (some x) h = [] := by simp [released, hmark]
        rw [hnone]
        exact ih hps
      | true =>
        have hone : released (some x) h = [.resolve x] := by simp [released, hmark]
        rw [hone]
        exact hagain more _ hfiltered

theorem preparedAll_stores (x : Xid) (hs : List (HeldStage × Bool)) (ps : List PreparedRecord) :
    (hs.map fun h => Entry.prepare x h.1.staged.record).foldl Ledger.preparedAfter ps =
      ps ++ hs.map fun h => ⟨x, h.1.staged.record⟩ := by
  induction hs generalizing ps with
  | nil => simp
  | cons g rest ih =>
    rw [List.map_cons, List.foldl_cons, ih, List.map_cons]
    simp [Ledger.preparedAfter]

/-- Storing stages of a branch adds their records, as long as none is about to be deleted. -/
theorem prepared_of_stored {x : Xid} {hs : List (HeldStage × Bool)} {handed : List Entry}
    (hlogs : Logs b b' (hs.map fun h => .prepare x h.1.staged.record) handed)
    (hx : .resolve x ∉ b.queue) :
    ∃ ps, ps.Perm (b.settled.prepared ++ hs.map fun h => ⟨x, h.1.staged.record⟩) ∧
      b'.settled.prepared = handed.foldl Ledger.preparedAfter ps := by
  refine ⟨b.queue.foldl Ledger.preparedAfter
    (b.storage.ledger.prepared ++ hs.map fun h => ⟨x, h.1.staged.record⟩), ?_, ?_⟩
  · rw [settled_prepared]
    refine Ledger.preparedAll_append (fun q hq => ?_) _
    obtain ⟨g, -, rfl⟩ := List.mem_map.1 hq
    exact hx
  · rw [settled_prepared, hlogs.ledger, hlogs.queue, Ledger.prepared_applyAll, preparedAll_stores,
      List.foldl_append]

/-- The writer's next write does not change the prepared records of the settled journal. -/
theorem prepared_writeNext (hdelete : b.storage.Takes .delete)
    (hstore : ∀ x r, .prepare x r ∉ b.queue) :
    (b.writeNext 0).settled.prepared = b.settled.prepared := by
  rcases logs_writeNext b with ⟨-, heq⟩ |
    ⟨e, rest, hqueue, hrest, -, -, ⟨-, hledger⟩ | ⟨-, hledger, hnot⟩⟩
  · rw [heq]
  · rw [settled_prepared, settled_prepared, hrest, hledger, hqueue, Ledger.prepared_apply]
    rfl
  · rw [settled_prepared, settled_prepared, hrest, hledger, hqueue]
    cases e with
    | add r => rfl
    | prune a n => rfl
    | prepare x r => exact absurd (by simp [hqueue]) (hstore x r)
    | resolve x => exact absurd hdelete hnot

end Broker

/-! ## Prepared branches -/

/-- The settled journal holds the records of the prepared branches, and what is about to be deleted
belongs to branches that have been completed. -/
structure Pledged (mode : PersistenceMode) (v : View) : Prop where
  keeping : v.books.Keeping mode
  takes : v.books.storage.Takes .delete
  atOffice : v.Local
  unmarked : ∀ o ∈ v.outlines, o.state = .active → ∀ h ∈ o.held, h.2 = false
  marked : ∀ o ∈ v.outlines, o.state = .prepared → ∀ h ∈ o.held, h.2 = true
  resolving : ∀ x, .resolve x ∈ v.books.queue → ∃ o ∈ v.outlines, o.xid = some x ∧ o.isLive = false
  storing : ∀ x r, .prepare x r ∉ v.books.queue
  records : v.books.settled.prepared.Perm (v.outlines.flatMap Outline.pledges)

namespace Broker

variable {P : Call → Prop} {mode : PersistenceMode}

theorem pledges_perm (l₁ l₂ : List Outline) (o : Outline) :
    ((l₁ ++ o :: l₂).flatMap Outline.pledges).Perm
      (o.pledges ++ (l₁ ++ l₂).flatMap Outline.pledges) := by
  simp only [List.flatMap_append, List.flatMap_cons]
  exact List.perm_append_comm_assoc ..

/-- With different xids the records of one branch are told from those of the others. -/
theorem xid_ne_of_nodup {l₁ l₂ : List Outline} {o : Outline}
    (h : ((l₁ ++ o :: l₂).filterMap Outline.xid).Nodup) {x : Xid} (hx : o.xid = some x) :
    ∀ g ∈ l₁ ++ l₂, g.xid ≠ some x := by
  rw [List.filterMap_append, List.filterMap_cons, hx, List.nodup_append] at h
  obtain ⟨-, hsecond, hapart⟩ := h
  rw [List.nodup_cons] at hsecond
  intro g hg hgx
  rcases List.mem_append.1 hg with hg | hg
  · exact hapart x (List.mem_filterMap.2 ⟨g, hg, hgx⟩) x (by simp) rfl
  · exact hsecond.1 (List.mem_filterMap.2 ⟨g, hg, hgx⟩)

/-- With different xids a transaction is known by its own. -/
theorem eq_of_xid {os : List Outline} (h : (os.filterMap Outline.xid).Nodup) {o g : Outline}
    (ho : o ∈ os) (hg : g ∈ os) {x : Xid} (hx : o.xid = some x) (hgx : g.xid = some x) : g = o := by
  obtain ⟨l₁, l₂, rfl⟩ := List.append_of_mem ho
  rcases mem_middle.1 hg with rfl | hg
  · rfl
  · exact absurd hgx (xid_ne_of_nodup h hx g hg)

theorem xids_view (b : Broker) : b.view.xids = b.transactions.filterMap (·.xid) := by
  show (b.transactions.map Transaction.outline).filterMap Outline.xid = _
  rw [List.filterMap_map]
  rfl

/-- A move leaves every transaction its xid. -/
theorem xid_move {v v' : View} (h : Move P v v') :
    v.outlines.map Outline.xid <+: v'.outlines.map Outline.xid := by
  have hsame : ∀ {l₁ l₂ : List Outline} {o o' : Outline}, o'.xid = o.xid →
      (l₁ ++ o :: l₂).map Outline.xid <+: (l₁ ++ o' :: l₂).map Outline.xid := by
    intro l₁ l₂ o o' ho
    simp only [List.map_append, List.map_cons, ho, List.prefix_refl]
  cases h with
  | begun x => exact ⟨_, (List.map_append ..).symm⟩
  | registered howner => exact hsame rfl
  | prepared hstore => exact hsame rfl
  | unprepared hstore => exact hsame rfl
  | committed hlive hpersist => exact hsame rfl
  | undone hlive m => exact hsame rfl
  | _ => exact List.prefix_refl _

theorem xid_moves {v v' : View} (h : Moves P v v') :
    v.outlines.map Outline.xid <+: v'.outlines.map Outline.xid := by
  induction h with
  | refl => exact List.prefix_refl _
  | tail _ hmove ih => exact ih.trans (xid_move hmove)

theorem xid_of_moves {v v' : View} (h : Moves P v v') {i : Nat} {o o' : Outline}
    (hold : v.outlines[i]? = some o) (hnew : v'.outlines[i]? = some o') : o'.xid = o.xid := by
  obtain ⟨later, hlater⟩ := xid_moves h
  obtain ⟨hi, -⟩ := List.getElem?_eq_some_iff.1 hold
  have hget : (v.outlines.map Outline.xid ++ later)[i]? = (v'.outlines.map Outline.xid)[i]? :=
    congrArg (·[i]?) hlater
  rw [List.getElem?_append_left (by simpa using hi), List.getElem?_map, List.getElem?_map, hold,
    hnew] at hget
  exact (Option.some.inj hget).symm

/-- The first stages of a branch that have been stored are those with a record. -/
theorem pledges_markFirst {held : List (HeldStage × Bool)} (hheld : ∀ g ∈ held, g.2 = false)
    (x : Xid) (k : Nat) : (⟨some x, .active, markFirst k held⟩ : Outline).pledges =
      (held.take k).map fun h => ⟨x, h.1.staged.record⟩ := by
  simp only [Outline.pledges, Outline.isLive, filter_markFirst hheld, List.map_map]
  rfl

theorem marked_of_pledged {v : View} (hv : Pledged mode v) : Marked mode v :=
  ⟨hv.keeping, hv.takes, hv.atOffice, fun o ho => ⟨hv.unmarked o ho, hv.marked o ho⟩, hv.storing⟩

/-- What is about to be deleted of completed branches stays so when one more is completed. -/
theorem resolving_completed {b b' : Broker} {l₁ l₂ : List Outline} {o o' : Outline}
    (hresolving : ∀ x, .resolve x ∈ b.queue →
      ∃ g ∈ l₁ ++ o :: l₂, g.xid = some x ∧ g.isLive = false)
    (hlive : o.isLive = true) (hlive' : o'.isLive = false) {inline handed : List Entry}
    (hlogs : Logs b b' inline handed) {hs : List (HeldStage × Bool)}
    (hhanded : handed.filter Entry.isPrepared = hs.flatMap (released o'.xid)) (x : Xid)
    (hx : .resolve x ∈ b'.queue) : ∃ g ∈ l₁ ++ o' :: l₂, g.xid = some x ∧ g.isLive = false := by
  rw [hlogs.queue] at hx
  rcases List.mem_append.1 hx with hx | hx
  · obtain ⟨g, hg, hgx, hglive⟩ := hresolving x hx
    refine ⟨g, mem_middle.2 (Or.inr ((mem_middle.1 hg).resolve_left ?_)), hgx, hglive⟩
    rintro rfl
    rw [hlive] at hglive
    cases hglive
  · obtain ⟨y, hy, heq⟩ := resolves_of_handed hhanded hx rfl
    cases heq
    exact ⟨o', by simp, hy, hlive'⟩

/-- When a branch is completed, its records go and those of the others stay. -/
theorem records_completed {l₁ l₂ : List Outline} {o o' : Outline} {ps : List PreparedRecord}
    (hrecords : ps.Perm ((l₁ ++ o :: l₂).flatMap Outline.pledges))
    (hnodup : ((l₁ ++ o' :: l₂).filterMap Outline.xid).Nodup) (hlive : o.isLive = true)
    (hlive' : o'.isLive = false) (hx : o'.xid = o.xid) :
    ((o.held.flatMap (released o.xid)).foldl Ledger.preparedAfter ps).Perm
      ((l₁ ++ o' :: l₂).flatMap Outline.pledges) := by
  have hrest : ∀ p ∈ (l₁ ++ l₂).flatMap Outline.pledges, o.xid ≠ some p.xid := by
    intro p hp hxp
    obtain ⟨g, hg, hpg⟩ := List.mem_flatMap.1 hp
    exact xid_ne_of_nodup hnodup (hx.trans hxp) g hg (g.xid_of_mem_pledges hpg)
  have hleft := perm_released hlive (hrecords.trans (pledges_perm l₁ l₂ o)) hrest
  have hnew := pledges_perm l₁ l₂ o'
  rw [Outline.pledges_of_not_live hlive', List.nil_append] at hnew
  exact hleft.trans hnew.symm

/-- What is about to be deleted belongs to completed branches, if nothing handed over is about
prepared records. -/
theorem resolving_quiet {b b' : Broker} {os os' : List Outline}
    (hresolving : ∀ x, .resolve x ∈ b.queue → ∃ o ∈ os, o.xid = some x ∧ o.isLive = false)
    {inline handed : List Entry} (hlogs : Logs b b' inline handed)
    (hhanded : handed.filter Entry.isPrepared = [])
    (hsame : ∀ o ∈ os, o.isLive = false → o ∈ os') (x : Xid) (hx : .resolve x ∈ b'.queue) :
    ∃ o ∈ os', o.xid = some x ∧ o.isLive = false := by
  rw [hlogs.queue] at hx
  rcases List.mem_append.1 hx with hx | hx
  · obtain ⟨o, ho, hox, hlive⟩ := hresolving x hx
    exact ⟨o, hsame o ho hlive, hox, hlive⟩
  · exact absurd rfl (List.filter_eq_nil_iff.1 hhanded _ hx)

/-- A completed transaction is another than one that changes before its completion. -/
theorem mem_of_completed {l₁ l₂ : List Outline} {o o' : Outline} (ho : o.isLive = true) :
    ∀ g ∈ l₁ ++ o :: l₂, g.isLive = false → g ∈ l₁ ++ o' :: l₂ := by
  intro g hg hlive
  refine mem_middle.2 (Or.inr ((mem_middle.1 hg).resolve_left ?_))
  rintro rfl
  rw [ho] at hlive
  cases hlive

/-- As long as no two transactions have one xid, the settled journal goes on holding the records of
the prepared branches. -/
theorem pledged_move {v v' : View} (h : Move P v v') (hnodup : v'.xids.Nodup)
    (hv : Pledged mode v) : Pledged mode v' := by
  have hmarks := marked_move h (marked_of_pledged hv)
  suffices hnew : (∀ x, .resolve x ∈ v'.books.queue →
      ∃ o ∈ v'.outlines, o.xid = some x ∧ o.isLive = false) ∧
      v'.books.settled.prepared.Perm (v'.outlines.flatMap Outline.pledges) from
    ⟨hmarks.keeping, hmarks.takes, hmarks.atOffice, fun o ho => (hmarks.tells o ho).1,
      fun o ho => (hmarks.tells o ho).2, hnew.1, hmarks.storing, hnew.2⟩
  have hresolving := hv.resolving
  have hrecords := hv.records
  have hunmarked := hv.unmarked
  -- Nothing of a branch that is not completed is about to be deleted.
  have hunresolved : ∀ {l₁ l₂ : List Outline} {o o' : Outline} {x : Xid},
      v.outlines = l₁ ++ o :: l₂ → v'.outlines = l₁ ++ o' :: l₂ → o'.xid = some x →
        o.isLive = true → .resolve x ∉ v.books.queue := by
    intro l₁ l₂ o o' x hold hnew hx hlive hmem
    obtain ⟨g, hg, hgx, hglive⟩ := hresolving x hmem
    rw [hold] at hg
    rw [View.xids, hnew] at hnodup
    rcases mem_middle.1 hg with rfl | hg
    · rw [hlive] at hglive
      cases hglive
    · exact xid_ne_of_nodup hnodup hx g hg hgx
  rcases branch_move h hv.keeping hv.atOffice with
    ⟨hlogs, hinline, hhanded, houtlines⟩ | ⟨hbooks, houtlines⟩ | ⟨x, hbooks, houtlines⟩ |
    ⟨hbooks, -, hold, hnew⟩ | ⟨hlogs, hold, hnew⟩ | ⟨k, hlogs, hold, hnew⟩ |
    ⟨hlive, hdone, hlogs, hinline, hhanded, hold, hnew⟩
  · rw [houtlines]
    refine ⟨resolving_quiet hresolving hlogs hhanded fun _ ho _ => ho, ?_⟩
    rw [prepared_of_logs hlogs hinline, hhanded]
    exact hrecords
  · rw [houtlines, hbooks, prepared_writeNext hv.takes hv.storing]
    exact ⟨fun x hx => hresolving x (queue_writeNext hx), hrecords⟩
  · rw [hbooks, houtlines]
    refine ⟨fun y hy => ?_, ?_⟩
    · obtain ⟨o, ho, hox⟩ := hresolving y hy
      exact ⟨o, List.mem_append_left _ ho, hox⟩
    · have hnone : (⟨x, .active, []⟩ : Outline).pledges = [] :=
        Outline.pledges_of_unmarked fun h hh => by cases hh
      rw [List.flatMap_append, List.flatMap_singleton, hnone, List.append_nil]
      exact hrecords
  · rename_i l₁ l₂ x held g
    rw [hold] at hresolving hrecords hunmarked
    have hold' := pledges_perm l₁ l₂ ⟨x, .active, held⟩
    have hnew' := pledges_perm l₁ l₂ ⟨x, .active, held ++ [(g, false)]⟩
    have hmarked' := hmarks.tells ⟨x, .active, held ++ [(g, false)]⟩
      (hnew ▸ mem_middle.2 (.inl rfl))
    rw [Outline.pledges_of_unmarked (hunmarked _ (mem_middle.2 (.inl rfl)) rfl)] at hold'
    rw [Outline.pledges_of_unmarked (hmarked'.1 rfl)] at hnew'
    rw [hbooks, hnew]
    refine ⟨fun y hy => ?_, (hrecords.trans hold').trans hnew'.symm⟩
    obtain ⟨o, ho, hox, hlive⟩ := hresolving y hy
    exact ⟨o, mem_of_completed rfl o ho hlive, hox, hlive⟩
  · rename_i l₁ l₂ x held
    obtain ⟨ps, hperm, hprepared⟩ := prepared_of_stored hlogs (hunresolved hold hnew rfl rfl)
    rw [hold] at hresolving hrecords hunmarked
    have hold' := pledges_perm l₁ l₂ ⟨some x, .active, held⟩
    rw [Outline.pledges_of_unmarked (hunmarked _ (mem_middle.2 (.inl rfl)) rfl)] at hold'
    have hnew' := pledges_perm l₁ l₂ ⟨some x, .prepared, held.map fun h => (h.1, true)⟩
    rw [Outline.pledges_of_marked (by simp), List.map_map] at hnew'
    rw [hnew, hprepared]
    refine ⟨resolving_quiet hresolving hlogs rfl (mem_of_completed rfl), ?_⟩
    exact (hperm.trans ((hrecords.trans hold').append_right _)).trans
      (List.perm_append_comm.trans hnew'.symm)
  · rename_i l₁ l₂ x held
    obtain ⟨ps, hperm, hprepared⟩ := prepared_of_stored hlogs (hunresolved hold hnew rfl rfl)
    rw [hold] at hresolving hrecords hunmarked
    have hfalse := hunmarked _ (mem_middle.2 (.inl rfl)) rfl
    have hold' := pledges_perm l₁ l₂ ⟨some x, .active, held⟩
    rw [Outline.pledges_of_unmarked hfalse] at hold'
    -- For the rollback the branch is as if it had been prepared with the marks it has by then.
    have hnew' := pledges_perm l₁ l₂ ⟨some x, .active, markFirst k held⟩
    rw [pledges_markFirst hfalse] at hnew'
    have hstored : ps.Perm
        ((l₁ ++ ⟨some x, .active, markFirst k held⟩ :: l₂).flatMap Outline.pledges) :=
      (hperm.trans ((hrecords.trans hold').append_right _)).trans
        (List.perm_append_comm.trans hnew'.symm)
    rw [View.xids, hnew] at hnodup
    rw [hnew, hprepared]
    exact ⟨resolving_completed hresolving rfl rfl hlogs (filter_released ..),
      records_completed hstored hnodup rfl rfl rfl⟩
  · rename_i l₁ l₂ x st st' held inline handed
    rw [hold] at hresolving hrecords
    rw [View.xids, hnew] at hnodup
    have hislive : (⟨x, st, held⟩ : Outline).isLive = true := by
      rcases hlive with rfl | rfl <;> rfl
    have hcompleted : (⟨x, st', held⟩ : Outline).isLive = false := by
      rcases hdone with rfl | rfl <;> rfl
    rw [hnew, prepared_of_logs hlogs hinline, hhanded]
    exact ⟨resolving_completed hresolving hislive hcompleted hlogs hhanded,
      records_completed hrecords hnodup hislive hcompleted rfl⟩

theorem nodup_of_moves {v v' : View} (h : Moves P v v') (hnodup : v'.xids.Nodup) :
    v.xids.Nodup := by
  have hxids : ∀ w : View, w.xids = (w.outlines.map Outline.xid).filterMap id := fun w => by
    rw [List.filterMap_map]
    rfl
  rw [hxids] at hnodup ⊢
  exact hnodup.sublist ((xid_moves h).sublist.filterMap id)

/-- The records of the prepared branches stay in the settled journal in every run. -/
theorem pledged_moves {v v' : View} (h : Moves P v v') (hnodup : v'.xids.Nodup)
    (hv : Pledged mode v) : Pledged mode v' := by
  induction h with
  | refl => exact hv
  | tail _ hmove ih =>
    exact pledged_move hmove hnodup (ih (nodup_of_moves (.single hmove) hnodup))

end Broker

/-- The records of a prepared branch are those of its stages. -/
theorem Pledged.pledges {mode : PersistenceMode} {v : View} (hv : Pledged mode v) {o : Outline}
    (ho : o ∈ v.outlines) (hstate : o.state = .prepared) {x : Xid} (hx : o.xid = some x) :
    o.pledges = o.stages.map fun h => ⟨x, h.staged.record⟩ := by
  have hall : o.held.filter (·.2) = o.held := List.filter_eq_self.2 (hv.marked o ho hstate)
  rw [Outline.pledges, hx]
  dsimp only
  rw [if_pos (by simp [Outline.isLive, hstate]), hall, Outline.stages, List.map_map]
  rfl

end MessageRouting
