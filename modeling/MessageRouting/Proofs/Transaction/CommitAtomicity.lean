import MessageRouting.Proofs.Broker.BetweenRequests
import MessageRouting.Proofs.Routing.MessagePlacement
import MessageRouting.Proofs.Routing.UnitsOfWork

/-!
# Commits are all or nothing

A commit offers messages to queues and draws keys first, and makes identifiers
visible only once all that has gone well. Since no stage has a key between two
requests, the keys drawn are in the order of the deliveries, and so are the
identifiers that become visible. If a queue refuses a message, or a record
cannot be written, each queue that has taken a message is asked for it back, and
no identifier becomes visible.

Results:

* `promotes_promoteAll`: stages that have been persisted become visible in
  their order.
* `commit_atomic`: a transaction that only delivers is committed as a whole, or
  it leaves nothing behind.
-/

namespace MessageRouting

/-- The stage that the event tells to have become visible. -/
def Event.promotion? : Event → Option HeldStage
  | .promoted h _ => some h
  | _ => none

/-- The stages of the deliveries, in order. -/
def Transaction.stages (t : Transaction) : List HeldStage := t.deliveries.filterMap (·.stage)

theorem Transaction.stages_outline (t : Transaction) : t.outline.stages = t.stages := by
  simp only [outline, Outline.stages, slots, stages, deliveries, pending, List.filterMap_map,
    List.map_filterMap, List.filterMap_filterMap]
  refine congrArg (fun f => List.filterMap f t.operations) (funext fun op => ?_)
  cases op with
  | hook h => rfl
  | delivery d => cases hd : d.delivery.stage <;> simp [Operation.held?, Operation.delivery?, hd]

/-- Operations that are all deliveries. -/
theorem Transaction.operations_of_deliveries {t : Transaction}
    (h : ∀ op ∈ t.operations, ∃ d, op = .delivery d) : t.operations = t.pending.map .delivery := by
  rw [pending, List.map_filterMap]
  refine ((List.filterMap_congr fun op hop => ?_).trans List.filterMap_some).symm
  obtain ⟨d, rfl⟩ := h op hop
  rfl

namespace Broker

variable {b b' : Broker} {n : Nat}

/-! ## Promotions -/

/-- The stages that have become visible, in order. -/
def promotions (b : Broker) : List HeldStage := b.trace.filterMap Event.promotion?

theorem promotions_marks (b : Broker) : b.promotions = b.marks.filterMap Event.promotion? := by
  unfold promotions marks
  rw [List.filterMap_filter]
  refine congrArg (fun f => List.filterMap f b.trace) (funext fun e => ?_)
  cases e <;> rfl

theorem promotions_of_marks (h : b'.marks = b.marks) : b'.promotions = b.promotions := by
  rw [promotions_marks, promotions_marks, h]

theorem promotions_books (b : Broker) : b.books.promotions = b.promotions :=
  promotions_of_marks (marks_books b)

/-- The identifiers visible in a cache once the stages have become visible one after the other. -/
def visibleAfter (b : Broker) (hs : List HeldStage) (ref : CacheRef) : List Bytes :=
  ((hs.filter fun h => h.cache = ref).map fun h => h.staged.duplicateId).foldl
    (Cache.withNewest (b.cache ref).capacity) (b.cache ref).visibleIds

/-- Stages have become visible one after the other, each as the newest of its cache. -/
structure Promotes (b b' : Broker) (hs : List HeldStage) : Prop where
  promotions : b'.promotions = b.promotions ++ hs
  capacity : ∀ ref, (b'.cache ref).capacity = (b.cache ref).capacity
  visible : ∀ ref, (b'.cache ref).visibleIds = b.visibleAfter hs ref

theorem promotes_nil (hmarks : b'.marks = b.marks)
    (hcapacity : ∀ ref, (b'.cache ref).capacity = (b.cache ref).capacity)
    (hvisible : ∀ ref, (b'.cache ref).visible = (b.cache ref).visible) : Promotes b b' [] :=
  ⟨by rw [promotions_of_marks hmarks, List.append_nil], hcapacity,
    fun ref => by rw [Cache.visibleIds, hvisible]; rfl⟩

theorem Promotes.trans {b₁ b₂ b₃ : Broker} {hs gs : List HeldStage} (h : Promotes b₁ b₂ hs)
    (h' : Promotes b₂ b₃ gs) : Promotes b₁ b₃ (hs ++ gs) := by
  refine ⟨?_, fun ref => (h'.capacity ref).trans (h.capacity ref), fun ref => ?_⟩
  · rw [h'.promotions, h.promotions, List.append_assoc]
  · rw [h'.visible, visibleAfter, h.capacity, h.visible, visibleAfter, visibleAfter,
      ← List.foldl_append, ← List.map_append, ← List.filter_append]

theorem promotes_of_cache (hmarks : b'.marks = b.marks)
    (hcache : ∀ ref, b'.cache ref = b.cache ref) : Promotes b b' [] :=
  promotes_nil hmarks (fun ref => by rw [hcache]) fun ref => by rw [hcache]

/-- The first of several stages in the order of their keys enters as the newest. -/
theorem promotes_commitStage {h : HeldStage} {hs : List HeldStage} (hb : Queued b (h :: hs)) :
    Promotes b (b.commitStage h) [h] := by
  obtain ⟨p, c, hcommitted, hcache, hmarks⟩ := commitStage_open (hb.opens h (by simp))
  obtain ⟨k, hk, hlast⟩ := hb.after h (by simp)
  have hpkey := Cache.key_of_committed hcommitted hk
  refine ⟨?_, fun ref => ?_, fun ref => ?_⟩
  · rw [promotions_marks, hmarks, List.filterMap_append, ← promotions_marks]
    rfl
  · rw [hcache]
    split
    · rename_i href
      rw [hcommitted.capacity, href]
    · rfl
  · rw [hcache, visibleAfter]
    by_cases href : h.cache = ref
    · subst href
      rw [if_pos rfl, Cache.visibleIds_commit_of_lt hcommitted (by rw [hpkey]; exact hlast)]
      simp
    · rw [if_neg href]
      simp [href]

/-- A stage that has been resolved is not pending, whatever else is resolved later. -/
theorem pendingOf?_resolved {h g : HeldStage} (hr : Resolves b h b')
    (hg : g = h ∨ (b.cache g.cache).pendingOf? g.staged = none) :
    (b'.cache g.cache).pendingOf? g.staged = none := by
  by_cases href : h.cache = g.cache
  · rw [← href] at hg ⊢
    rcases hr.pending with ⟨hnone, heq⟩ | ⟨-, hpending⟩
    · rw [heq]
      rcases hg with rfl | hg
      · exact hnone
      · exact hg
    · by_cases hid : h.staged.duplicateId = g.staged.duplicateId
      · exact Cache.pendingOf?_of_get?_none (by rw [hpending, if_pos hid])
      · rcases hg with rfl | hg
        · exact absurd rfl hid
        · exact (Cache.pendingOf?_congr (by rw [hpending, if_neg hid]) rfl).trans hg
  · rw [hr.others _ href]
    rcases hg with rfl | hg
    · exact absurd rfl href
    · exact hg

/-- Stages that have been persisted in some order become visible in that order. The stages in `done`
have been resolved, and committing them again changes nothing. -/
theorem promotes_promoteAll {x : Option Xid} {hs : List (HeldStage × Bool)} (done : List HeldStage)
    (hdone : ∀ h ∈ done, (b.cache h.cache).pendingOf? h.staged = none)
    (hb : Queued b ((hs.map (·.1)).filter (· ∉ done)).eraseDups) :
    Promotes b (b.promoteAll x hs) ((hs.map (·.1)).filter (· ∉ done)).eraseDups := by
  induction hs generalizing b done with
  | nil => exact promotes_of_cache rfl fun _ => rfl
  | cons h rest ih =>
    have hrelease := promotes_of_cache (quiet_release (b.commitStage h.1) x h).marks
      fun ref => cache_release ..
    have hcache : ∀ ref, ((b.commitStage h.1).release x h).cache ref =
        (b.commitStage h.1).cache ref := fun ref => cache_release ..
    show Promotes b (((b.commitStage h.1).release x h).promoteAll x rest) _
    by_cases hmem : h.1 ∈ done
    · have hsame : b.commitStage h.1 = b := by
        rcases commitStage_cases b h.1 with ⟨-, heq⟩ | ⟨p, c, -, hcommitted, -⟩
        · exact heq
        · obtain ⟨q, hq⟩ := hcommitted.pendingOf
          rw [hdone h.1 hmem] at hq
          cases hq
      rw [hsame] at hcache hrelease ⊢
      rw [List.map_cons, List.filter_cons_of_neg (by simpa using hmem)] at hb ⊢
      exact hrelease.trans (ih done (fun g hg => by rw [hcache]; exact hdone g hg)
        (queued_of_cache hb hcache))
    · have hfilter : (fun g => !g == h.1 && decide (g ∉ done)) =
          fun g => decide (g ∉ h.1 :: done) :=
        funext fun g => by by_cases hg : g = h.1 <;> simp [hg]
      rw [List.map_cons, List.filter_cons_of_pos (by simpa using hmem), List.eraseDups_cons,
        List.filter_filter, hfilter] at hb ⊢
      have hresolved : ∀ g ∈ h.1 :: done,
          (((b.commitStage h.1).release x h).cache g.cache).pendingOf? g.staged = none := by
        intro g hg
        rw [hcache]
        exact pendingOf?_resolved (resolves_commitStage b h.1)
          ((List.mem_cons.1 hg).imp_right (hdone g))
      exact (promotes_commitStage hb).trans (hrelease.trans
        (ih _ hresolved (queued_of_cache (queued_commitStage hb) hcache)))

/-- Drawing keys makes nothing visible. -/
theorem promotes_persistAll (b : Broker) (hs : List (HeldStage × Bool)) :
    Promotes b (b.persistAll hs).1 [] := by
  have hquiet := quiet_persistAll b hs
  refine promotes_nil hquiet.marks (fun ref => ?_) hquiet.visible
  induction hs generalizing b with
  | nil => rfl
  | cons h rest ih =>
    rcases hp : b.persistStage h.1 with ⟨c, result⟩
    have hcapacity : (c.cache ref).capacity = (b.cache ref).capacity := by
      rcases cache_persistStage hp with ⟨-, hcache⟩ | ⟨key, d, hdrawn, hcache⟩
      · rw [hcache]
      · rw [hcache]
        split
        · rename_i href
          rw [hdrawn.capacity, href]
        · rfl
    simp only [persistAll, hp]
    cases result with
    | error e => exact hcapacity
    | ok _ => exact (ih c (quiet_persistAll ..)).trans hcapacity

/-- Stages without keys that are persisted and then made visible become visible in their order. -/
theorem promotes_completed {c : Broker} (x : Option Xid) {hs : List (HeldStage × Bool)}
    (hcalm : Calm b) (hopen : ∀ h ∈ hs, b.Open h.1) (hp : b.persistAll hs = (c, .ok ())) :
    Promotes b (c.promoteAll x hs) (hs.map (·.1)).eraseDups := by
  have hqueued := queued_persistAll hcalm.keyed (queued_nil b) hopen
    (fun h _ _ => unkeyed_iff.1 hcalm.unkeyed h.1) hp
  have hpersisted := promotes_persistAll b hs
  rw [hp] at hpersisted
  have hall : (hs.map (·.1)).filter (· ∉ []) = hs.map (·.1) :=
    List.filter_eq_self.2 fun g _ => by simp
  have hpromoted := promotes_promoteAll (x := x) [] (by simp) hqueued
  rw [hall] at hpromoted
  exact hpersisted.trans hpromoted

/-! ## Commits -/

/-- The transaction has been committed: all its messages have been offered to all their queues and
been taken, and all its stages have become visible. -/
structure Fulfilled (b b' : Broker) (n : Nat) : Prop where
  state : (b'.transaction n).state = .committed
  offers : b'.offers = b.offers ++ (b.transaction n).deliveries.flatMap Delivery.offers
  withdrawals : b'.withdrawals = b.withdrawals
  promotes : Promotes b b' (b.transaction n).stages.eraseDups
  resolved : ∀ h ∈ (b.transaction n).stages, ¬ b'.Open h

/-- The transaction has come to nothing: what queues have taken they have been asked for, and caches
show what they showed before. -/
structure Revoked (b b' : Broker) (n : Nat) (e : TransactionError) : Prop where
  state : (b'.transaction n).state = .rolledBack
  mail : ∃ os ws rs, b'.offers = b.offers ++ os ∧ b'.withdrawals = b.withdrawals ++ ws ∧
    b'.lost = b.lost ++ rs ∧ ws.Perm (taken os) ∧ Hindrance (b.transaction n) n os rs e
  promotions : b'.promotions = b.promotions
  visible : ∀ ref, (b'.cache ref).visible = (b.cache ref).visible
  resolved : ∀ h ∈ (b.transaction n).stages, ¬ b'.Open h

theorem state_of_outlines {o : Outline} (hn : b.Has n)
    (h : b'.outlines = b.outlines.set (n - 1) o) : (b'.transaction n).state = o.state := by
  obtain ⟨i, rfl⟩ := Nat.exists_eq_add_one.2 hn.1
  have hi : b'.outlines[i]? = some o := by
    rw [h, Nat.add_sub_cancel, List.getElem?_set_self]
    rw [outlines, List.length_map]
    exact Nat.lt_of_succ_le hn.2
  rw [eq_of_outline hi]
  rfl

section
variable (hb : Quiescent b) (hlive : (b.transaction n).isLive = true)
  (hops : ∀ op ∈ (b.transaction n).operations, ∃ d, op = .delivery d)
  (hopen : ∀ h ∈ (b.transaction n).stages, b.Open h)
include hb hlive hops

include hopen in
theorem fulfilled_of_ok (hok : (b.commit n).2 = .ok ()) : Fulfilled b (b.commit n).1 n := by
  have hstate : (b.transaction n).state = .active ∨ (b.transaction n).state = .prepared := by
    simpa [Transaction.isLive] using hlive
  have hstages : (b.transaction n).outline.held.map (·.1) = (b.transaction n).stages :=
    (b.transaction n).stages_outline
  obtain ⟨-, hmail⟩ | ⟨e, _, _, _, herror, -⟩ :=
    mail_commit hlive (Transaction.operations_of_deliveries hops) (hb.unplaced n hlive)
  swap
  · rw [hok] at herror
    cases herror
  obtain ⟨c, -, hpersist, hbooks, houtlines⟩ | ⟨e, _, herror, -⟩ := view_commit hstate
  swap
  · rw [hok] at herror
    cases herror
  obtain ⟨hoffers, hwithdrawals⟩ := Prod.mk.inj hmail
  have hpromotes := promotes_completed (b := b.books) (b.transaction n).xid hb.calm
    (fun h hh => hopen h.1 (hstages ▸ List.mem_map_of_mem hh)) hpersist
  have hresolved := resolvesAll_promoteAll c (b.transaction n).xid (b.transaction n).outline.held
  rw [← hbooks, hstages] at hpromotes hresolved
  constructor
  case state => exact state_of_outlines (has_of_isLive hlive) houtlines
  case offers => rw [hoffers, Transaction.deliveries, List.flatMap_map]
  case withdrawals => exact hwithdrawals
  case promotes =>
    refine ⟨?_, hpromotes.capacity, hpromotes.visible⟩
    rw [← promotions_books, hpromotes.promotions, promotions_books]
  case resolved =>
    intro h hh
    have hclosed : ¬ (b.commit n).1.books.Open h := not_open_of_resolvesAll hresolved hh
    exact hclosed

theorem revoked_of_error {e : TransactionError} (herror : (b.commit n).2 = .error e) :
    Revoked b (b.commit n).1 n e := by
  have hstate : (b.transaction n).state = .active ∨ (b.transaction n).state = .prepared := by
    simpa [Transaction.isLive] using hlive
  have hstages : (b.transaction n).outline.held.map (·.1) = (b.transaction n).stages :=
    (b.transaction n).stages_outline
  obtain ⟨hok, -⟩ | ⟨e', os, ws, rs, herror', hmail, hlost, hperm, hhindrance⟩ :=
    mail_commit hlive (Transaction.operations_of_deliveries hops) (hb.unplaced n hlive)
  · rw [hok] at herror
    cases herror
  obtain ⟨c, hok, -⟩ | ⟨_, m, -, hbooks, houtlines⟩ := view_commit hstate
  · rw [hok] at herror
    cases herror
  obtain rfl : e = e' := Except.error.inj (herror.symm.trans herror')
  obtain ⟨hoffers, hwithdrawals⟩ := Prod.mk.inj hmail
  have hquiet := (quiet_persistAll b.books ((b.transaction n).outline.held.take m)).trans
    (quiet_dropAll _ (b.transaction n).xid (b.transaction n).outline.held)
  have hresolved := resolvesAll_dropAll
    (b.books.persistAll ((b.transaction n).outline.held.take m)).1 (b.transaction n).xid
    (b.transaction n).outline.held
  rw [← hbooks] at hquiet
  rw [← hbooks, hstages] at hresolved
  constructor
  case state => exact state_of_outlines (has_of_isLive hlive) houtlines
  case mail => exact ⟨os, ws, rs, hoffers, hwithdrawals, hlost, hperm, hhindrance⟩
  case promotions =>
    rw [← promotions_books, promotions_of_marks hquiet.marks, promotions_books]
  case visible => exact hquiet.visible
  case resolved =>
    intro h hh
    have hclosed : ¬ (b.commit n).1.books.Open h := not_open_of_resolvesAll hresolved hh
    exact hclosed

end

/-- In every run, a transaction that only delivers and whose stages are pending is fulfilled or
revoked by its commit, whatever fails. What it delivers is what it was given, in order. -/
theorem commit_atomic {mailboxes : Table String Mailbox} {storage : Storage}
    {cs ds : List Command} {n : Nat} {b₀ b : Broker}
    (hearlier : ({ mailboxes, storage } : Broker).run cs = b₀) (hrun : b₀.run ds = b)
    (hlive : (b.transaction n).isLive = true)
    (hops : ∀ op ∈ (b.transaction n).operations, ∃ d, op = .delivery d)
    (hopen : ∀ h ∈ (b.transaction n).stages, b.Open h) :
    (b₀.transaction n).deliveries <+: (b.transaction n).deliveries ∧
      ((b.commit n).2 = .ok () ∧ Fulfilled b (b.commit n).1 n ∨
        ∃ e, (b.commit n).2 = .error e ∧ Revoked b (b.commit n).1 n e) := by
  have hquiescent : Quiescent b := by
    have hwhole := quiescent_run mailboxes storage (cs ++ ds)
    rwa [run_append, hearlier, hrun] at hwhole
  refine ⟨hrun ▸ deliveries_run b₀ ds n, ?_⟩
  cases hresult : (b.commit n).2 with
  | ok _ => exact Or.inl ⟨rfl, fulfilled_of_ok hquiescent hlive hops hopen hresult⟩
  | error e => exact Or.inr ⟨e, rfl, revoked_of_error hquiescent hlive hops hresult⟩

/-- A queue that refuses the second message it is offered. -/
def hesitant : Table String Mailbox :=
  ({} : Table String Mailbox).insert "hesitant" { lapses := [none, some .full] }

/-- Two queues of one address, and the first of two sends of a transaction. -/
def sendToBoth : List Command :=
  [.openPlain oneIdentifier, .bind (some 0) (.ofQueue ⟨"orders"⟩ "free"),
    .bind (some 0) (.ofQueue ⟨"orders"⟩ "hesitant"), .begin none,
    .route 0 0 (messageTo "orders" 1) (some 1) true]

theorem commit_atomic_hesitant :
    let b := (({ mailboxes := hesitant } : Broker).run sendToBoth).run
      [.route 0 1 (messageTo "orders" 2) (some 1) true]
    let b' := (b.commit 1).1
    (b.transaction 1).stages.length = 2 ∧ (b'.transaction 1).state = .rolledBack ∧
      b'.offers = [⟨"free", 1, none⟩, ⟨"hesitant", 1, none⟩, ⟨"free", 2, none⟩,
        ⟨"hesitant", 2, some .full⟩] ∧
      b'.withdrawals.Perm [("free", 1), ("hesitant", 1), ("free", 2)] ∧
      ∀ ref, (b'.cache ref).visible = (b.cache ref).visible := by
  intro b b'
  have hkinds : ∀ op ∈ (b.transaction 1).operations, op.delivery?.isSome = true := by
    decide +kernel
  have hops : ∀ op ∈ (b.transaction 1).operations, ∃ d, op = .delivery d := fun op hop => by
    cases op with
    | delivery d => exact ⟨d, rfl⟩
    | hook h => cases hkinds _ hop
  have hopen : ∀ h ∈ (b.transaction 1).stages, b.Open h := by decide +kernel
  have hfailed : (b.commit 1).2.isOk = false := by decide +kernel
  have hbefore : b.offers = [] ∧ b.withdrawals = [] := by decide +kernel
  obtain ⟨-, ⟨hok, -⟩ | ⟨e, -, hrevoked⟩⟩ :=
    commit_atomic (show ({ mailboxes := hesitant } : Broker).run sendToBoth = _ from rfl) rfl
      (by decide +kernel) hops hopen
  · rw [hok] at hfailed
    cases hfailed
  obtain ⟨os, ws, rs, hos, hws, -, hperm, -⟩ := hrevoked.mail
  rw [hbefore.1, List.nil_append] at hos
  rw [hbefore.2, List.nil_append] at hws
  have hoffered : b'.offers = [⟨"free", 1, none⟩, ⟨"hesitant", 1, none⟩, ⟨"free", 2, none⟩,
    ⟨"hesitant", 2, some .full⟩] := by decide +kernel
  refine ⟨by decide +kernel, hrevoked.state, hoffered, ?_, hrevoked.visible⟩
  rw [← hos, hoffered] at hperm
  rw [hws]
  exact hperm

end Broker

end MessageRouting
