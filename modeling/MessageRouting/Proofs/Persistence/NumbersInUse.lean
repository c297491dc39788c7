import MessageRouting.Proofs.Persistence.AppendPlaces
import MessageRouting.Proofs.Routing.ServedCalls

/-!
# Numbers in use

A post office that is used asks for no place in the journal twice. All stages
that it deals with are told apart by their records, so no commit persists one of
them twice; and prepared records are asked for when a branch leaves the active
state, which it does once.

Results:

* `unrepeated_move`: a move asks for no committed record at a place that has been
  asked for, and for no prepared record again.
* `unrepeated_perform`: nor does a request.
-/

namespace MessageRouting

/-- The stages of the transaction, unless it is active. -/
def Outline.decided (o : Outline) : List HeldStage := if o.state = .active then [] else o.stages

/-- The stages of the transactions that are not active any more. -/
def View.decided (v : View) : List HeldStage := v.outlines.flatMap Outline.decided

/-- What stages stand in the journal as if prepared. -/
def recordsOf (hs : List HeldStage) : List Record := hs.map (·.staged.record)

theorem subperm_map {α β : Type} {l l' : List α} (h : l.Subperm l') (f : α → β) :
    (l.map f).Subperm (l'.map f) := by
  obtain ⟨m, hperm, hsub⟩ := h
  exact ⟨m.map f, hperm.map f, hsub.map f⟩

theorem nodup_of_subperm {α : Type} {l l' : List α} (h : l.Subperm l') (hl' : l'.Nodup) :
    l.Nodup := by
  obtain ⟨m, hperm, hsub⟩ := h
  exact hperm.nodup_iff.1 (hl'.sublist hsub)

theorem Outline.decided_sublist (o : Outline) : o.decided.Sublist o.stages := by
  unfold decided
  split
  · exact List.nil_sublist _
  · exact .refl _

theorem View.decided_sublist (v : View) : v.decided.Sublist v.stages := by
  refine List.Sublist.trans ?_ (List.sublist_append_right v.loose _)
  unfold decided
  induction v.outlines with
  | nil => exact .slnil
  | cons o rest ih => exact o.decided_sublist.append ih

theorem decided_perm (l₁ l₂ : List Outline) (o : Outline) :
    ((l₁ ++ o :: l₂).flatMap Outline.decided).Perm
      (o.decided ++ (l₁ ++ l₂).flatMap Outline.decided) := by
  simp only [List.flatMap_append, List.flatMap_cons]
  exact List.perm_append_comm_assoc ..

/-- The records of decided stages once one transaction has another outline. -/
theorem subperm_decided {l₁ l₂ : List Outline} {o o' : Outline} {rs more : List Record}
    (h : rs.Subperm (recordsOf ((l₁ ++ o :: l₂).flatMap Outline.decided)))
    (hmore : (recordsOf o.decided ++ more).Subperm (recordsOf o'.decided)) :
    (rs ++ more).Subperm (recordsOf ((l₁ ++ o' :: l₂).flatMap Outline.decided)) := by
  have hold := (decided_perm l₁ l₂ o).map (·.staged.record)
  have hnew := (decided_perm l₁ l₂ o').map (·.staged.record)
  rw [List.map_append] at hold hnew
  have hswap : (recordsOf o.decided ++ recordsOf ((l₁ ++ l₂).flatMap Outline.decided) ++ more).Perm
      (recordsOf o.decided ++ more ++ recordsOf ((l₁ ++ l₂).flatMap Outline.decided)) := by
    rw [List.append_assoc, List.append_assoc]
    exact List.perm_append_comm.append_left _
  refine ((h.trans hold.subperm).append (List.Subperm.refl more)).trans (hswap.subperm.trans ?_)
  exact (hmore.append (List.Subperm.refl _)).trans hnew.symm.subperm

/-- The stages of an active transaction are decided when it leaves that state. -/
theorem subperm_stages {o o' : Outline} {rs : List Record} (ho : o.state = .active)
    (ho' : o'.state ≠ .active) (hrs : rs.Sublist (recordsOf o'.stages)) :
    (recordsOf o.decided ++ rs).Subperm (recordsOf o'.decided) := by
  rw [Outline.decided, if_pos ho, Outline.decided, if_neg ho']
  exact hrs.subperm

/-- Decided stages stay so. -/
theorem subperm_kept {o o' : Outline} (hstages : o'.stages = o.stages)
    (ho' : o'.state = .active → o.state = .active) :
    (recordsOf o.decided ++ []).Subperm (recordsOf o'.decided) := by
  rw [List.append_nil, Outline.decided, Outline.decided]
  split
  · exact List.nil_subperm
  · rename_i ho
    rw [if_neg fun h => ho (ho' h), hstages]

namespace Broker

variable {P : Call → Prop} {mode : PersistenceMode} {floor : CacheRef → Nat} {l : Ledger}
  {b b' : Broker} {v v' : View}

/-- In a life that began with the ledger `l` in the journal, no place has been asked for twice; the
prepared records, those from before included, are records of decided stages, each stage having one
at most. -/
structure Unrepeated (l : Ledger) (mode : PersistenceMode) (floor : CacheRef → Nat) (v : View) :
    Prop where
  atOffice : v.Local
  unkeyed : Unkeyed v.books
  custody : Custody floor v
  recounted : v.books.storage.ledger = l.applyAll v.books.writes
  apart : (recordsOf v.stages).Nodup
  allotted : ∃ ps, Allotted mode floor ps v.books ∧
    ((l.prepared ++ ps).map (·.record)).Subperm (recordsOf v.decided)

/-! ## Stages -/

/-- After a move there are stages from before, or one besides that has been granted. -/
theorem subperm_stages_move (h : Move P v v') :
    v'.stages.Subperm v.stages ∨
      ∃ a id owner s, v.books.attemptStage (.office 0 a) id owner = (v'.books, some (.staged s)) ∧
        v'.stages = ⟨.office 0 a, s⟩ :: v.stages := by
  have hreplaced : ∀ {b b' : Broker} {l₁ l₂ : List Outline} {o o' : Outline},
      o'.stages = o.stages →
        (⟨b', [], l₁ ++ o' :: l₂⟩ : View).stages.Subperm (⟨b, [], l₁ ++ o :: l₂⟩ : View).stages := by
    intro b b' l₁ l₂ o o' ho
    refine List.Perm.subperm ((stages_perm l₁ l₂ o').trans ?_)
    rw [ho]
    exact (stages_perm l₁ l₂ o).symm
  cases h with
  | begun x => exact .inl (List.Perm.subperm (by simp [View.stages, Outline.stages]))
  | granted hgrant => exact .inr ⟨_, _, _, _, hgrant, rfl⟩
  | sent _ => exact .inl (List.sublist_append_right ..).subperm
  | refused _ _ => exact .inl (List.sublist_append_right ..).subperm
  | @registered b h l₁ l₂ x held howner =>
    have hstages : (⟨x, .active, held ++ [(h, false)]⟩ : Outline).stages =
        (⟨x, .active, held⟩ : Outline).stages ++ [h] := by
      simp [Outline.stages]
    refine .inl (List.Perm.subperm ((stages_perm ..).trans ?_))
    rw [hstages, List.append_assoc]
    exact List.perm_middle.trans ((stages_perm ..).symm.cons h)
  | prepared hstore => exact .inl (hreplaced (stages_storeAll hstore))
  | unprepared hstore => exact .inl (hreplaced (stages_storeAll_take hstore))
  | committed _ _ => exact .inl (hreplaced rfl)
  | undone _ _ => exact .inl (hreplaced rfl)
  | _ => exact .inl (List.Subperm.refl _)

/-- Stages go on being told apart by their records: one that is granted has a number that no stage
has had. -/
theorem apart_move (h : Move P v v') (hlocal : v.Local) (hcustody : Custody floor v)
    (hv : (recordsOf v.stages).Nodup) : (recordsOf v'.stages).Nodup := by
  rcases subperm_stages_move h with hsub | ⟨a, id, owner, s, hgrant, hstages⟩
  · exact nodup_of_subperm (subperm_map hsub _) hv
  · rw [hstages]
    refine List.nodup_cons.2 ⟨fun hmem => ?_, hv⟩
    obtain ⟨t, ht, hrecord⟩ := List.mem_map.1 hmem
    have hat := atOffice_granted hgrant hlocal.addressed
    obtain ⟨haddress, hsequence, -⟩ := Record.mk.inj hrecord
    have href : t.cache = .office 0 a := by
      rw [show CacheRef.office 0 a = .office 0 s.address from hat, ← haddress]
      exact hlocal.atOffice t ht
    have hbelow := hcustody.below t ht
    rw [href, hsequence, (sequence_granted hgrant).1] at hbelow
    exact Nat.lt_irrefl _ hbelow

/-- The stages that one transaction holds are told apart by their records. -/
theorem apart_held {l₁ l₂ : List Outline} {o : Outline} {hs : List (HeldStage × Bool)}
    (hv : (recordsOf (⟨b, [], l₁ ++ o :: l₂⟩ : View).stages).Nodup) (hhs : hs.Sublist o.held) :
    (recordsOf ([] ++ hs.map (·.1))).Nodup := by
  have hall : (recordsOf ((l₁ ++ o :: l₂).flatMap Outline.stages)).Nodup := hv
  rw [recordsOf, ((stages_perm l₁ l₂ o).map _).nodup_iff, List.map_append,
    List.nodup_append] at hall
  exact hall.1.sublist ((hhs.map _).map _)

/-! ## Moves -/

variable {ps : List PreparedRecord}

/-- Drawing keys of different stages and dropping stages, maybe others. -/
theorem allotted_undone (hb : Allotted mode floor ps b) (hunkeyed : Unkeyed b)
    {hs gs : List (HeldStage × Bool)} (hhs : ∀ h ∈ hs, h.1.AtOffice) (hgs : ∀ h ∈ gs, h.1.AtOffice)
    (hapart : (recordsOf ([] ++ hs.map (·.1))).Nodup) (x : Option Xid) :
    Allotted mode floor ps ((b.persistAll hs).1.dropAll x gs) :=
  allotted_dropAll (allotted_persistAll hb hunkeyed (by simp) hhs hapart) hgs x

/-- Drawing keys of different stages and making them visible. -/
theorem allotted_completed (hb : Allotted mode floor ps b) (hunkeyed : Unkeyed b)
    {hs : List (HeldStage × Bool)} (hhs : ∀ h ∈ hs, h.1.AtOffice)
    (hapart : (recordsOf ([] ++ hs.map (·.1))).Nodup) (hp : b.persistAll hs = (b', .ok ()))
    (x : Option Xid) : Allotted mode floor ps (b'.promoteAll x hs) := by
  have hpersisted := allotted_persistAll hb hunkeyed (by simp) hhs hapart
  rw [hp] at hpersisted
  exact allotted_promoteAll hpersisted hhs x

/-- The records of the first stages of a branch, as they are stored. -/
theorem stored_sublist (x : Xid) {hs : List (HeldStage × Bool)} {gs : List HeldStage} (k : Nat)
    (hsub : (hs.map (·.1)).Sublist gs) :
    (((hs.take k).map fun h => (⟨x, h.1.staged.record⟩ : PreparedRecord)).map
      (·.record)).Sublist (recordsOf gs) := by
  have hrecords := (((List.take_sublist k hs).map (·.1)).trans hsub).map (·.staged.record)
  rw [List.map_map] at hrecords ⊢
  exact hrecords

/-- Prepared records are still those of decided stages when a transaction decides the stages that
it stores. -/
theorem subperm_storing {l₁ l₂ : List Outline} {o o' : Outline} {qs more : List PreparedRecord}
    (hqs : (qs.map (·.record)).Subperm (recordsOf (⟨b, [], l₁ ++ o :: l₂⟩ : View).decided))
    (hmore : (recordsOf o.decided ++ more.map (·.record)).Subperm (recordsOf o'.decided)) :
    ((qs ++ more).map (·.record)).Subperm
      (recordsOf (⟨b', [], l₁ ++ o' :: l₂⟩ : View).decided) := by
  rw [List.map_append]
  exact subperm_decided hqs hmore

theorem subperm_completing {l₁ l₂ : List Outline} {o o' : Outline} {qs : List PreparedRecord}
    (hqs : (qs.map (·.record)).Subperm (recordsOf (⟨b, [], l₁ ++ o :: l₂⟩ : View).decided))
    (hstages : o'.stages = o.stages) (ho' : o'.state = .active → o.state = .active) :
    (qs.map (·.record)).Subperm (recordsOf (⟨b', [], l₁ ++ o' :: l₂⟩ : View).decided) := by
  rw [← List.append_nil qs]
  exact subperm_storing hqs (subperm_kept hstages ho')

/-- A move asks for no place again, and for prepared records of a branch that it decides. -/
theorem allotted_move (h : Move P v v') (hv : Unrepeated l mode floor v) :
    ∃ ps, Allotted mode floor ps v'.books ∧
      ((l.prepared ++ ps).map (·.record)).Subperm (recordsOf v'.decided) := by
  have hlocal := hv.atOffice
  have hsteps := (steps_move h hlocal).1
  have hlocal' := (steps_move h hlocal).2
  have hunkeyed := hv.unkeyed
  have hapart := hv.apart
  obtain ⟨ps, hb, hps⟩ := hv.allotted
  cases h with
  | @opened b os a =>
    refine ⟨ps, allotted_silent hb hsteps (asks_openOfficeCache ..) fun t k ht => ?_, hps⟩
    have hpending := (pending_openOfficeCache b 0 a t.cache).1
    simpa only [keyOf, Cache.keyOf, Cache.pendingOf?, hpending] using ht
  | begun x =>
    refine ⟨ps, hb, ?_⟩
    simpa [View.decided, Outline.decided, List.flatMap_append] using hps
  | written =>
    exact ⟨ps, allotted_silent hb hsteps (asks_writeNext _)
      fun t k ht => by rwa [keyOf, cache_writeNext] at ht, hps⟩
  | waits hc =>
    exact ⟨ps, allotted_silent hb hsteps ((logs_called ..).asks_handed rfl) fun _ _ ht => ht, hps⟩
  | retries hready =>
    exact ⟨ps, allotted_silent hb hsteps ((logs_called ..).asks_handed rfl) fun _ _ ht => ht, hps⟩
  | granted hgrant =>
    exact ⟨ps, allotted_silent hb hsteps (asks_granted hgrant)
      fun t k ht => by rwa [keyOf_granted hgrant] at ht, hps⟩
  | sent hpersist =>
    exact ⟨ps, allotted_completed hb hunkeyed (atOffice_loose hlocal.atOffice)
      (List.nodup_singleton _) hpersist none, hps⟩
  | @refused b h os m hearly =>
    have hloose := atOffice_loose hlocal.atOffice
    refine ⟨ps, allotted_undone hb hunkeyed (fun g hg => hloose g (List.mem_of_mem_take hg)) hloose
      ?_ none, hps⟩
    exact (List.nodup_singleton h.staged.record).sublist (((List.take_sublist m _).map _).map _)
  | @registered b h l₁ l₂ x held howner =>
    refine ⟨ps, hb, ?_⟩
    have hactive : ∀ hs, (⟨x, .active, hs⟩ : Outline).decided = [] := fun hs => if_pos rfl
    simp only [View.decided, List.flatMap_append, List.flatMap_cons, hactive] at hps ⊢
    exact hps
  | @prepared b b' l₁ l₂ x held marks hstore =>
    obtain ⟨k, hk⟩ := allotted_storeAll hb (atOffice_held hlocal.atOffice) x
    rw [hstore] at hk
    refine ⟨_, hk, ?_⟩
    rw [← List.append_assoc]
    refine subperm_storing hps (subperm_stages rfl (by simp) (stored_sublist x k ?_))
    rw [Outline.stages, stages_storeAll hstore]
  | @unprepared b b' l₁ l₂ x held marks result m hstore =>
    have hheld := atOffice_held hlocal.atOffice
    obtain ⟨k, hk⟩ := allotted_storeAll hb
      (fun g hg => hheld g (List.mem_of_mem_take (i := m) hg)) x
    rw [hstore] at hk
    refine ⟨_, allotted_dropAll hk (atOffice_held hlocal'.atOffice) _, ?_⟩
    rw [← List.append_assoc]
    refine subperm_storing hps (subperm_stages rfl (by simp) (stored_sublist x k ?_))
    rw [Outline.stages, stages_storeAll_take hstore]
    exact (List.take_sublist m held).map _
  | @committed b b' l₁ l₂ x st held hlive hpersist =>
    exact ⟨ps, allotted_completed hb hunkeyed (atOffice_held hlocal.atOffice)
      (apart_held hapart (.refl _)) hpersist _, subperm_completing hps rfl (by simp)⟩
  | @undone b l₁ l₂ x st held hlive m =>
    have hheld := atOffice_held hlocal.atOffice
    exact ⟨ps, allotted_undone hb hunkeyed (fun g hg => hheld g (List.mem_of_mem_take hg)) hheld
      (apart_held hapart (List.take_sublist m held)) _, subperm_completing hps rfl (by simp)⟩

/-- A move leaves every place asked for once. -/
theorem unrepeated_move (h : Move P v v') (hv : Unrepeated l mode floor v) :
    Unrepeated l mode floor v' := by
  obtain ⟨hsteps, hlocal⟩ := steps_move h hv.atOffice
  obtain ⟨ps, hb, -⟩ := hv.allotted
  have hrecounted := of_steps
    (I := fun b => (Keeping mode b ∧ Addressed b) ∧ b.storage.ledger = l.applyAll b.writes)
    (fun b b' hstep hb => by
      obtain ⟨es, hwrites, hledger⟩ := ledger_step hstep hb.1.1 hb.1.2
      refine ⟨⟨keeping_step hstep hb.1.1, addressed_step hstep hb.1.2⟩, ?_⟩
      rw [hledger, hwrites, hb.2, Ledger.applyAll_append])
    hsteps ⟨⟨hb.keeping, hb.addressed⟩, hv.recounted⟩
  exact ⟨hlocal, unkeyed_move h hv.unkeyed, custody_move h hv.atOffice hv.custody, hrecounted.2,
    apart_move h hv.atOffice hv.custody hv.apart, allotted_move h hv⟩

theorem unrepeated_moves (h : Moves P v v') (hv : Unrepeated l mode floor v) :
    Unrepeated l mode floor v' := by
  induction h with
  | refl => exact hv
  | tail _ hmove ih => exact unrepeated_move hmove ih

end Broker

/-! ## Requests -/

namespace Broker

variable {mode : PersistenceMode} {floor : CacheRef → Nat} {l : Ledger} {b : Broker}

/-- Whatever stands in for the storage, as long as the records are the same. -/
theorem unrepeated_storage {v : View} (hv : Unrepeated l mode floor v) (storage : Storage)
    (hledger : storage.ledger = v.books.storage.ledger) :
    Unrepeated l mode floor { v with books := { v.books with storage } } := by
  obtain ⟨ps, hb, hps⟩ := hv.allotted
  have hlocal := hv.atOffice
  have hcustody := hv.custody
  exact ⟨⟨hlocal.addressed, hlocal.atOffice⟩, hv.unkeyed,
    ⟨hcustody.floor_le, hcustody.below, hcustody.apart, hcustody.kept⟩,
    hledger.trans hv.recounted, hv.apart, ps,
    ⟨hb.keeping.of_stations rfl, hb.addressed, hb.keyed, hb.floor_le, hb.above, hb.apart, hb.within,
      hb.unused, hb.deposits⟩, hps⟩

/-- A request leaves every place asked for once. -/
theorem unrepeated_perform {c : Command} (hc : c.isUse = true) (hproper : Proper Call.Routes b)
    (hb : Unrepeated l mode floor b.view) :
    Proper Call.Routes (b.perform c).1 ∧ Unrepeated l mode floor (b.perform c).1.view := by
  by_cases hfailing : ∃ methods, c = .failing methods
  · obtain ⟨methods, rfl⟩ := hfailing
    exact ⟨⟨hproper.single, hproper.calls⟩,
      unrepeated_storage hb { b.storage with failing := methods } rfl⟩
  · have htraffic : c.isTraffic = true := by
      cases c with
      | failing methods => exact absurd ⟨methods, rfl⟩ hfailing
      | _ => simpa [Command.isUse] using hc
    have hmoves := moves_perform (fun _ h => h) htraffic hproper fun _ h => routes_of_submits h
    exact ⟨proper_of_moves hproper hmoves, unrepeated_moves hmoves hb⟩

theorem unrepeated_run {cs : List Command} (hcs : ∀ c ∈ cs, c.isUse = true)
    (hproper : Proper Call.Routes b) (hb : Unrepeated l mode floor b.view) :
    Unrepeated l mode floor (b.run cs).view := by
  induction cs generalizing b with
  | nil => exact hb
  | cons c rest ih =>
    obtain ⟨hproper', hb'⟩ := unrepeated_perform (hcs c (by simp)) hproper hb
    exact ih (fun d hd => hcs d (by simp [hd])) hproper' hb'

end Broker

end MessageRouting
