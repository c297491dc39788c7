import MessageRouting.Proofs.Persistence.RolledBackRecords
import MessageRouting.Proofs.Restart.FoundIdentifiers
import MessageRouting.Proofs.Stage.Keepers

/-!
# Stages in line

A transaction takes its stages in the order in which they are granted, and a
cache numbers upwards, so those that one cache has granted stand in the order of
their sequences. Together with custody, keepers and sound caches this is all
that there is to know of pending identifiers between two requests: each is held
by one transaction that has not been completed, at one place among its stages.

Results:

* `aligned_move`: stages stay in line.
* `tidy_run`: so does everything else, in every run.
* `Tidy.holder`, `Tidy.held`: an identifier is pending just as long as such a
  transaction holds it.
-/

namespace MessageRouting

open Relation (ReflTransGen)

/-- Of the stages that one cache has granted, each has a higher sequence than those before it. -/
def Ascending (hs : List HeldStage) : Prop :=
  hs.Pairwise fun h g => h.cache = g.cache → h.staged.sequence < g.staged.sequence

/-- The stages of each transaction are in line, and a stage that is about to be used comes after
all of them. -/
structure Aligned (v : View) : Prop where
  loose : ∀ h ∈ v.loose, ∀ g ∈ v.outlines.flatMap Outline.stages,
    g.cache = h.cache → g.staged.sequence < h.staged.sequence
  ascending : ∀ o ∈ v.outlines, Ascending o.stages

theorem aligned_of_ascending {b : Broker} {os : List Outline}
    (h : ∀ o ∈ os, Ascending o.stages) : Aligned ⟨b, [], os⟩ :=
  ⟨fun _ hg => absurd hg List.not_mem_nil, h⟩

/-- A transaction that has the same stages as before leaves everything in line. -/
theorem aligned_replaced {b b' : Broker} {l₁ l₂ : List Outline} {o o' : Outline}
    (hv : Aligned ⟨b, [], l₁ ++ o :: l₂⟩) (hstages : o'.stages = o.stages) :
    Aligned ⟨b', [], l₁ ++ o' :: l₂⟩ := by
  apply aligned_of_ascending
  apply forall_middle hv.ascending
  rw [hstages]
  exact id

namespace Broker

variable {P : Call → Prop} {n : Nat}

/-- Stages stay in line. -/
theorem aligned_move {v v' : View} (h : Move P v v') (hcustody : Custody noFloor v)
    (hv : Aligned v) : Aligned v' := by
  cases h with
  | opened a => exact aligned_of_ascending hv.ascending
  | begun x =>
    apply aligned_of_ascending
    intro o ho
    rcases List.mem_append.1 ho with ho | ho
    · exact hv.ascending o ho
    · rw [List.mem_singleton.1 ho]
      exact List.Pairwise.nil
  | written => exact aligned_of_ascending hv.ascending
  | waits hc => exact aligned_of_ascending hv.ascending
  | retries hready => exact aligned_of_ascending hv.ascending
  | @granted b b' os a id owner s hgrant =>
    refine ⟨fun h hh g hg href => ?_, hv.ascending⟩
    obtain rfl := List.mem_singleton.1 hh
    have hlt := hcustody.below g (List.mem_append_right _ hg)
    rw [href] at hlt
    rw [(sequence_granted hgrant).1]
    exact hlt
  | sent hpersist => exact aligned_of_ascending hv.ascending
  | refused m => exact aligned_of_ascending hv.ascending
  | @registered b h l₁ l₂ x held howner =>
    apply aligned_of_ascending
    apply forall_middle hv.ascending
    intro hascending
    have hstages : (⟨x, .active, held ++ [(h, false)]⟩ : Outline).stages =
        (⟨x, .active, held⟩ : Outline).stages ++ [h] := by
      simp [Outline.stages]
    rw [hstages]
    refine List.pairwise_append.2 ⟨hascending, List.pairwise_singleton .., fun g hg t ht => ?_⟩
    rw [List.mem_singleton.1 ht]
    apply hv.loose h (by simp) g
    exact List.mem_flatMap.2 ⟨_, by simp, hg⟩
  | prepared hstore => exact aligned_replaced hv (stages_storeAll hstore)
  | unprepared hstore => exact aligned_replaced hv (stages_storeAll_take hstore)
  | committed hlive hpersist => exact aligned_replaced hv rfl
  | undone hlive m => exact aligned_replaced hv rfl

/-! ## Between two requests -/

/-- Everything that holds of stages and of prepared records between two requests, if the caches have
room for `n` identifiers, the journal was in order at the start, and it takes every write. -/
structure Tidy (mode : PersistenceMode) (n : Nat) (b : Broker) : Prop where
  proper : Proper Call.Routes b
  filed : Filed mode b.books
  takes : ∀ e : Entry, b.storage.Takes e.method
  pledged : Pledged mode b.view
  xids : (b.transactions.filterMap (·.xid)).Nodup
  custody : Custody noFloor b.view
  owned : Owned b.view
  aligned : Aligned b.view
  sound : AllSound b
  equipped : Equipped n b.books
  unkeyed : Unkeyed b

variable {mode : PersistenceMode}

theorem Tidy.atOffice {b : Broker} (hb : Tidy mode n b) : b.view.Local := hb.pledged.atOffice

/-- Everything that holds between two requests depends on the books and on the transactions. -/
theorem Tidy.of_view {b b' : Broker} (hb : Tidy mode n b) (hview : b'.view = b.view) :
    Tidy mode n b' := by
  have hbooks : b'.books = b.books := congrArg View.books hview
  have hcaches : ∀ ref, b'.cache ref = b.cache ref := fun ref => by
    rw [← cache_books, hbooks, cache_books]
  have hstorage : b'.books.storage = b.books.storage := congrArg Broker.storage hbooks
  refine ⟨?_, hbooks ▸ hb.filed, hstorage ▸ hb.takes, hview ▸ hb.pledged, ?_, hview ▸ hb.custody,
    hview ▸ hb.owned, hview ▸ hb.aligned, fun ref => hcaches ref ▸ hb.sound ref,
    hbooks ▸ hb.equipped, hb.unkeyed.of_cache hcaches⟩
  · rw [← proper_books, hbooks, proper_books]
    exact hb.proper
  · rw [← xids_view, hview, xids_view]
    exact hb.xids

/-- What holds between two requests still holds after any others. -/
theorem tidy_run {b : Broker} (hb : Tidy mode n b) {cs : List Command}
    (hcs : ∀ c ∈ cs, c.isTraffic = true)
    (hxids : ((b.run cs).transactions.filterMap (·.xid)).Nodup) : Tidy mode n (b.run cs) := by
  obtain ⟨hmoves, hproper⟩ := moves_run hcs hb.proper
  have hview : ∀ {v : View}, Moves Call.Routes b.view v →
      (v.Local ∧ Unkeyed v.books ∧ Custody noFloor v) ∧ Owned v ∧ Aligned v := by
    intro v h
    induction h with
    | refl => exact ⟨⟨hb.atOffice, hb.unkeyed, hb.custody⟩, hb.owned, hb.aligned⟩
    | tail hfirst h ih =>
      obtain ⟨hkept, howned, haligned⟩ := ih
      exact ⟨custody_moves (.single h) hkept.1 hkept.2.1 hkept.2.2, owned_move h howned,
        aligned_move h hkept.2.2 haligned⟩
  obtain ⟨⟨-, hunkeyed, hcustody⟩, howned, haligned⟩ := hview hmoves
  -- Prepared records need the xids to be different, so this part is about the run as a whole.
  have hpledged : Pledged mode (b.run cs).view :=
    pledged_moves hmoves (by rw [xids_view]; exact hxids) hb.pledged
  obtain ⟨hfiled, htakes, hsound, hequipped⟩ := (books_moves
    (I := fun b => Filed mode b ∧ (∀ e : Entry, b.storage.Takes e.method) ∧ AllSound b ∧
      Equipped n b)
    (fun _ _ hstep hI => ⟨filed_step hstep hI.1,
      fun e => takes_step hstep hI.1.keeping hI.1.addressed (hI.2.1 e), sound_step hstep hI.2.2.1,
      equipped_step hstep hI.2.2.2⟩)
    hmoves hb.atOffice ⟨hb.filed, hb.takes, hb.sound, hb.equipped⟩).1
  exact ⟨hproper, hfiled, htakes, hpledged, hxids, hcustody, howned, haligned, hsound, hequipped,
    hunkeyed⟩

theorem tidy_perform {b : Broker} (hb : Tidy mode n b) {c : Command} (hc : c.isTraffic = true)
    (hxids : ((b.perform c).1.transactions.filterMap (·.xid)).Nodup) :
    Tidy mode n (b.perform c).1 := by
  have hcs : ∀ d ∈ [c], d.isTraffic = true := List.forall_mem_singleton.2 hc
  exact tidy_run hb hcs hxids

/-! ## Pending identifiers -/

variable {b : Broker}

theorem mem_stages {i : Nat} {o : Outline} {h : HeldStage} (ho : b.outlines[i]? = some o)
    (hh : h ∈ o.stages) : h ∈ b.view.stages :=
  List.mem_flatMap.2 ⟨o, List.mem_of_getElem? ho, hh⟩

/-- A stage of a transaction that has not been completed is pending. -/
theorem Tidy.opens (hb : Tidy mode n b) {i : Nat} {o : Outline} (ho : b.outlines[i]? = some o)
    (hlive : o.isLive = true) {h : HeldStage} (hh : h ∈ o.stages) : b.Open h := by
  apply hb.custody.kept h _ (above_noFloor h)
  exact List.mem_flatMap.2 ⟨o, List.mem_filter.2 ⟨List.mem_of_getElem? ho, hlive⟩, hh⟩

/-- No stage belongs to two transactions. -/
theorem Tidy.index_eq (hb : Tidy mode n b) {i j : Nat} {o p : Outline}
    (ho : b.outlines[i]? = some o) (hp : b.outlines[j]? = some p) {h : HeldStage}
    (hh : h ∈ o.stages) (hg : h ∈ p.stages) : i = j := by
  have hnodup : (b.outlines.flatMap Outline.stages).Nodup :=
    (apart_noFloor hb.custody.apart).of_map
  have hapart := List.pairwise_iff_getElem.1 (List.nodup_flatMap.1 hnodup).2
  obtain ⟨hi, rfl⟩ := List.getElem?_eq_some_iff.1 ho
  obtain ⟨hj, rfl⟩ := List.getElem?_eq_some_iff.1 hp
  rcases Nat.lt_trichotomy i j with hlt | heq | hgt
  · exact absurd hg (hapart i j hi hj hlt hh)
  · exact heq
  · exact absurd hh (hapart j i hj hi hgt hg)

/-- What a transaction that has not been completed holds is pending for that transaction. -/
theorem Tidy.held (hb : Tidy mode n b) {i : Nat} {o : Outline} (ho : b.outlines[i]? = some o)
    (hlive : o.isLive = true) {h : HeldStage} (hh : h ∈ o.stages) :
    ∃ q, (b.cache h.cache).pending.get? h.staged.duplicateId = some q ∧
      q.owner = .transaction (i + 1) := by
  have hopen := hb.opens ho hlive hh
  rcases hb.owned h hopen with hloose | ⟨j, p, hp, -, hmem, howner⟩
  · cases hloose
  · obtain rfl := hb.index_eq ho hp hh hmem
    obtain ⟨key, hkey⟩ := hopen.2
    exact ⟨_, hkey, howner⟩

/-- An identifier that is pending is not visible. -/
theorem Tidy.not_visible (hb : Tidy mode n b) {ref : CacheRef} {id : Bytes} {q : Pending}
    (hq : (b.cache ref).pending.get? id = some q) :
    (b.cache ref).index.get? id = none ∧ id ∉ (b.cache ref).visibleIds := by
  have hnone := (hb.sound ref).apart id q hq
  refine ⟨hnone, fun hmem => ?_⟩
  obtain ⟨⟨key, _⟩, hkey, rfl⟩ := List.mem_map.1 hmem
  rw [((hb.sound ref).index _ key).2 hkey] at hnone
  cases hnone

end Broker

end MessageRouting
