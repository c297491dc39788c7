import MessageRouting.Proofs.Restart.BranchSurvival
import MessageRouting.Proofs.Transaction.RollbackOnly

/-!
# Branches that a desk keeps

A desk is entrusted with a branch when it has prepared it, or when a start has
recovered it. It keeps one branch under an xid: a branch that is prepared later
under the xid of another takes the place of that one, which then stays prepared
for good as far as the desk is concerned. All others are there until the desk is
called to complete them.

Results:

* `orderly_called`, `orderly_start`: every branch that a desk keeps is prepared
  and stands under its own xid.
* `branch_kept`: a branch is kept until its completion is called for, which
  completes it and no other; calls for it that come later are refused.
* `first_displaced`: of two branches of one xid the desk forgets the first.
-/

namespace MessageRouting

/-- What a desk can be called for. -/
inductive DeskCall where
  | prepare (n : Nat)
  | commit (x : Xid)
  | rollback (x : Xid)

/-- The xid of the branch that the call completes. -/
def DeskCall.completes? : DeskCall → Option Xid
  | .prepare _ => none
  | .commit x => some x
  | .rollback x => some x

namespace Broker

open Relation (ReflTransGen)

variable {b b' : Broker} {d : Option Nat} {x : Xid} {n : Nat}

/-! ## What a desk keeps -/

/-- Whether there is such a desk. -/
def HasDesk (b : Broker) (d : Option Nat) : Prop := ∀ k ∈ d, k < b.offices.length

/-- The transaction that the desk keeps under an xid. -/
def kept? (b : Broker) (d : Option Nat) (x : Xid) : Option Nat := (b.deskAt d).branches.get? x

theorem kept_setBranches (hd : b.HasDesk d) (t : Table Xid Nat) (x : Xid) :
    (b.setBranches d t).kept? d x = t.get? x := by
  cases d with
  | none => rfl
  | some k =>
    rw [kept?, setBranches, setDesk, deskAt, office_modifyOffice _ _ _ (hd k rfl), if_pos rfl]

theorem kept_of_fixtures (h : b'.fixtures = b.fixtures) (x : Xid) :
    b'.kept? d x = b.kept? d x := by
  rw [kept?, kept?, deskAt_of_fixtures h]

theorem hasDesk_of_fixtures (h : b'.fixtures = b.fixtures) (hd : b.HasDesk d) : b'.HasDesk d := by
  have hoffices := congrArg List.length (congrArg (·.2.2) h)
  simp only [fixtures, List.length_map] at hoffices
  exact fun k hk => hoffices ▸ hd k hk

theorem hasDesk_setBranches (hd : b.HasDesk d) (t : Table Xid Nat) :
    (b.setBranches d t).HasDesk d := by
  cases d with
  | none => exact hd
  | some k =>
    intro j hj
    rw [setBranches, setDesk, modifyOffice, List.length_modify]
    exact hd j hj

/-- The desk is there, and every branch it keeps is prepared and stands under its own xid. -/
structure Orderly (d : Option Nat) (b : Broker) : Prop where
  desk : b.HasDesk d
  kept : ∀ x n, b.kept? d x = some n →
    (b.transaction n).state = .prepared ∧ (b.transaction n).xid = some x

/-- Nothing is kept under two xids. -/
theorem Orderly.xid_eq (h : Orderly d b) {y : Xid} (hx : b.kept? d x = some n)
    (hy : b.kept? d y = some n) : y = x :=
  Option.some.inj ((h.kept y n hy).2.symm.trans (h.kept x n hx).2)

/-! ## Preparing -/

theorem xids_ends {halfway : Prop} {v v' : View} (h : Ends halfway v v') :
    v'.outlines.map Outline.xid = v.outlines.map Outline.xid := by
  cases h <;> simp

/-- Preparing gives no transaction another xid. -/
theorem xid_prepare (b : Broker) (n m : Nat) :
    ((b.prepare n).1.transaction m).xid = (b.transaction m).xid := by
  have hxids : (b.prepare n).1.view.outlines.map Outline.xid = b.view.outlines.map Outline.xid := by
    rcases (Relation.reflGen_iff _ _ _).1 (ends_prepare True b n) with heq | hends
    · rw [heq]
    · exact xids_ends hends
  cases m with
  | zero => rfl
  | succ i =>
    have hi := congrArg (fun l => l[i]?) hxids
    simp only [view, outlines, List.getElem?_map, Option.map_map] at hi
    simp only [transaction, List.getD_eq_getElem?_getD]
    cases hb' : (b.prepare n).1.transactions[i]? <;> cases hb : b.transactions[i]? <;>
      simp_all [Transaction.outline]

/-- A transaction that has been prepared is a branch, and prepared then. -/
theorem prepared_of_ok (h : (b.prepare n).2 = .ok ()) :
    ((b.prepare n).1.transaction n).state = .prepared ∧ ∃ x, (b.transaction n).xid = some x := by
  unfold prepare at h ⊢
  split at h
  · cases h
  · rename_i hxid
    rw [if_neg hxid]
    refine ⟨?_, Option.ne_none_iff_exists'.1 (by simpa using hxid)⟩
    split at h
    · cases h
    · rename_i hrequire
      have hactive : (b.transaction n).state = .active := by
        simpa using state_of_require hrequire
      have hn := has_of_active_or_prepared (.inl hactive)
      split at h
      · cases h
      · have hcalled := has_callUntilFailure hn .beforePrepare (b.operationIndexes n)
        split at h
        · cases h
        · rename_i heq
          rw [heq] at hcalled
          rw [transaction_setState_self hcalled]

/-- A prepared transaction cannot be prepared once more. -/
theorem prepare_of_prepared (h : (b.transaction n).state = .prepared) :
    (b.prepare n).1 = b ∧ ∃ e, (b.prepare n).2 = .error e := by
  have hrequire : (b.transaction n).require n [.active] .prepare =
      .error (.invalidState n (b.transaction n).state .prepare) := by
    rw [Transaction.require, if_neg (by simp [h])]
  unfold prepare
  split
  · exact ⟨rfl, _, rfl⟩
  · rw [hrequire]
    exact ⟨rfl, _, rfl⟩

/-! ## Completing -/

theorem state_of_set (hn : b.Has n) {s : TransactionState}
    (h : b'.outlines = b.outlines.set (n - 1) { (b.transaction n).outline with state := s }) :
    (b'.transaction n).state = s := by
  obtain ⟨i, rfl⟩ := Nat.exists_eq_add_one.2 hn.1
  have hi : b'.outlines[i]? = some { (b.transaction (i + 1)).outline with state := s } := by
    have hlt : i < b.outlines.length := by
      rw [outlines, List.length_map]
      exact hn.2
    rw [h, Nat.add_sub_cancel, List.getElem?_set_self hlt]
  exact (congrArg Outline.state (eq_of_outline hi)).symm

/-! ## Calls on a desk -/

/-- What a call on the desk does, and how it ends. -/
def called (b : Broker) (d : Option Nat) : DeskCall → Broker × Except TransactionError Unit
  | .prepare n => b.prepareBranch d n
  | .commit x => b.commitBranch d x
  | .rollback x => b.rollbackBranch d x

/-- How a call ends that completes the transaction. A commit that comes to nothing has rolled it
back. -/
inductive Ending (n : Nat) : DeskCall → Broker × Except TransactionError Unit → Prop where
  | committed {x : Xid} {b : Broker} (h : (b.transaction n).state = .committed) :
    Ending n (.commit x) (b, .ok ())
  | failed {x : Xid} {b : Broker} {e : TransactionError}
    (h : (b.transaction n).state = .rolledBack) : Ending n (.commit x) (b, .error e)
  | rolledBack {x : Xid} {b : Broker} (h : (b.transaction n).state = .rolledBack) :
    Ending n (.rollback x) (b, .ok ())

/-- A call completes the transaction kept under the xid, and no other; it is kept no longer then,
and whatever else is kept stays so. -/
structure Completes (d : Option Nat) (x : Xid) (n : Nat) (q : DeskCall) (b : Broker) : Prop where
  ending : Ending n q (b.called d q)
  others : ∀ m, m ≠ n → (b.called d q).1.transaction m = b.transaction m
  kept : ∀ y, (b.called d q).1.kept? d y = if y = x then none else b.kept? d y

theorem prepareBranch_cases (b : Broker) (d : Option Nat) (n : Nat) :
    (∃ e, b.prepareBranch d n = ((b.prepare n).1, .error e)) ∨
      ∃ x, (b.transaction n).xid = some x ∧ (b.prepare n).2 = .ok () ∧
        b.prepareBranch d n = ((b.prepare n).1.setBranches d
          (((b.prepare n).1.deskAt d).branches.insert x n), .ok ()) := by
  have hok := prepared_of_ok (b := b) (n := n)
  have hxid := xid_prepare b n n
  unfold prepareBranch
  rcases hprepare : b.prepare n with ⟨c, _ | _⟩
  · exact .inl ⟨_, rfl⟩
  · rw [hprepare] at hok hxid
    obtain ⟨x, hx⟩ := (hok rfl).2
    refine .inr ⟨x, hx, rfl, ?_⟩
    dsimp only at hxid ⊢
    rw [hxid, hx]

theorem takeBranch_kept (hx : b.kept? d x = some n) :
    b.takeBranch d x = (b.setBranches d ((b.deskAt d).branches.erase x), .ok n) := by
  rw [takeBranch, show (b.deskAt d).branches.get? x = some n from hx]

theorem called_unknown {q : DeskCall} (hq : q.completes? = some x) (hx : b.kept? d x = none) :
    b.called d q = (b, .error (.refused (.unknownXid x))) := by
  have htake : b.takeBranch d x = (b, .error (.refused (.unknownXid x))) := by
    rw [takeBranch, show (b.deskAt d).branches.get? x = none from hx]
  cases q with
  | prepare n => cases hq
  | commit y =>
    cases hq
    rw [called, commitBranch, htake]
  | rollback y =>
    cases hq
    rw [called, rollbackBranch, htake]

/-- Completing a branch changes no other transaction. -/
theorem Orderly.completes (h : Orderly d b) (hx : b.kept? d x = some n) {q : DeskCall}
    (hq : q.completes? = some x) : Completes d x n q b := by
  have htake := takeBranch_kept hx
  have htransactions : (b.setBranches d ((b.deskAt d).branches.erase x)).transactions =
      b.transactions := transactions_setDesk ..
  have hkept := kept_setBranches h.desk ((b.deskAt d).branches.erase x)
  generalize b.setBranches d ((b.deskAt d).branches.erase x) = c at htake htransactions hkept
  have hsame := transaction_of_transactions htransactions
  have hlive : (c.transaction n).state = .active ∨ (c.transaction n).state = .prepared :=
    .inr (by rw [hsame]; exact (h.kept x n hx).1)
  have hn := has_of_active_or_prepared hlive
  have herased : ∀ y, c.kept? d y = if y = x then none else b.kept? d y := fun y => by
    rw [hkept, Table.get?_erase, kept?]
    simp only [eq_comm]
  cases q with
  | prepare m => cases hq
  | commit y =>
    cases hq
    have hcall : b.called d (.commit x) = c.commit n := by rw [called, commitBranch, htake]
    refine ⟨?_, fun m hm => ?_, fun y => ?_⟩
    · rw [hcall]
      rcases view_commit hlive with ⟨-, hok, -, -, houtlines⟩ | ⟨e, -, herror, -, houtlines⟩
      · rw [show c.commit n = ((c.commit n).1, .ok ()) from Prod.ext rfl hok]
        exact .committed (state_of_set hn houtlines)
      · rw [show c.commit n = ((c.commit n).1, .error e) from Prod.ext rfl herror]
        exact .failed (state_of_set hn houtlines)
    · rw [hcall, transaction_commit_of_ne c hm, hsame]
    · rw [hcall, kept_of_fixtures (fixtures_commit ..), herased]
  | rollback y =>
    cases hq
    have hrollback : c.rollback n = (c.undo n, .ok ()) := by
      unfold rollback Transaction.require
      rw [if_pos (by simpa using hlive)]
    have hcall : b.called d (.rollback x) = c.rollback n := by rw [called, rollbackBranch, htake]
    refine ⟨?_, fun m hm => ?_, fun y => ?_⟩
    · rw [hcall, hrollback]
      exact .rolledBack (state_undo hn)
    · rw [hcall, transaction_rollback_of_ne c hm, hsame]
    · rw [hcall, kept_of_fixtures (fixtures_rollback ..), herased]

/-- A call to prepare a branch does so, and the desk keeps it if that succeeds. -/
structure Prepares (d : Option Nat) (n : Nat) (b : Broker) : Prop where
  desk : (b.called d (.prepare n)).1.HasDesk d
  transaction : ∀ m,
    (b.called d (.prepare n)).1.transaction m = (b.prepare n).1.transaction m
  kept : (∃ e, (b.called d (.prepare n)).2 = .error e) ∧
      (∀ y, (b.called d (.prepare n)).1.kept? d y = b.kept? d y) ∨
    ∃ x, (b.transaction n).xid = some x ∧ (b.prepare n).2 = .ok () ∧
      (b.called d (.prepare n)).2 = .ok () ∧
      ∀ y, (b.called d (.prepare n)).1.kept? d y = if y = x then some n else b.kept? d y

theorem prepares (hd : b.HasDesk d) (n : Nat) : Prepares d n b := by
  have hdesk := hasDesk_of_fixtures (fixtures_prepare b n) hd
  have hkept := kept_of_fixtures (d := d) (fixtures_prepare b n)
  rcases prepareBranch_cases b d n with ⟨e, h⟩ | ⟨x, hx, hok, h⟩
  · refine ⟨?_, fun m => ?_, .inl ⟨⟨e, ?_⟩, fun y => ?_⟩⟩ <;> rw [called, h]
    · exact hdesk
    · exact hkept y
  · refine ⟨?_, fun m => ?_, .inr ⟨x, hx, hok, ?_, fun y => ?_⟩⟩ <;> rw [called, h]
    · exact hasDesk_setBranches hdesk _
    · exact transaction_of_transactions (transactions_setDesk ..) m
    · rw [kept_setBranches hdesk, Table.get?_insert, ← hkept, kept?]
      simp only [eq_comm]

theorem hasDesk_completing (hd : b.HasDesk d) {q : DeskCall} (hq : q.completes? = some x) :
    (b.called d q).1.HasDesk d := by
  cases hx : b.kept? d x with
  | none =>
    rw [called_unknown hq hx]
    exact hd
  | some n =>
    have htaken := hasDesk_setBranches hd ((b.deskAt d).branches.erase x)
    cases q with
    | prepare m => cases hq
    | commit y =>
      cases hq
      rw [called, commitBranch, takeBranch_kept hx]
      exact hasDesk_of_fixtures (fixtures_commit ..) htaken
    | rollback y =>
      cases hq
      rw [called, rollbackBranch, takeBranch_kept hx]
      exact hasDesk_of_fixtures (fixtures_rollback ..) htaken

theorem Orderly.prepared (h : Orderly d b) (n : Nat) : Orderly d (b.called d (.prepare n)).1 := by
  obtain ⟨hdesk, htransaction, hkept⟩ := prepares h.desk n
  have hold : ∀ y m, b.kept? d y = some m →
      ((b.called d (.prepare n)).1.transaction m).state = .prepared ∧
        ((b.called d (.prepare n)).1.transaction m).xid = some y := fun y m hy => by
    obtain ⟨hstate, hxid⟩ := h.kept y m hy
    rw [htransaction, xid_prepare]
    refine ⟨?_, hxid⟩
    by_cases hm : m = n
    · subst hm
      rw [(prepare_of_prepared hstate).1, hstate]
    · rw [transaction_prepare_of_ne b hm, hstate]
  refine ⟨hdesk, fun y m hy => ?_⟩
  rcases hkept with ⟨-, hsame⟩ | ⟨x, hx, hok, -, hnew⟩
  · exact hold y m (hsame y ▸ hy)
  · rw [hnew] at hy
    split at hy
    · cases hy
      subst_vars
      rw [htransaction, xid_prepare]
      exact ⟨(prepared_of_ok hok).1, hx⟩
    · exact hold y m hy

theorem Orderly.completed (h : Orderly d b) {q : DeskCall} (hq : q.completes? = some x) :
    Orderly d (b.called d q).1 := by
  refine ⟨hasDesk_completing h.desk hq, fun y m hy => ?_⟩
  cases hx : b.kept? d x with
  | none =>
    rw [called_unknown hq hx] at hy ⊢
    exact h.kept y m hy
  | some n =>
    obtain ⟨-, hothers, hkept⟩ := h.completes hx hq
    rw [hkept] at hy
    split at hy
    · cases hy
    · rename_i hne
      have hm : m ≠ n := fun heq => hne (h.xid_eq hx (heq ▸ hy))
      rw [hothers m hm]
      exact h.kept y m hy

/-- Every call leaves what the desk keeps prepared, each branch under its own xid. -/
theorem orderly_called (h : Orderly d b) (q : DeskCall) : Orderly d (b.called d q).1 := by
  cases q with
  | prepare n => exact h.prepared n
  | commit x => exact h.completed rfl
  | rollback x => exact h.completed rfl

/-! ## Courses of calls -/

/-- The desk is called as is allowed, or something happens that leaves alone what it keeps. -/
inductive Managed (d : Option Nat) (allowed : Broker → DeskCall → Prop) (b : Broker) :
    Broker → Prop where
  | called (q : DeskCall) (hq : allowed b q) : Managed d allowed b (b.called d q).1
  | elsewhere {b' : Broker} (hdesk : b'.HasDesk d) (hkept : ∀ x, b'.kept? d x = b.kept? d x)
    (hsame : ∀ x n, b.kept? d x = some n →
      (b'.transaction n).state = (b.transaction n).state ∧
        (b'.transaction n).xid = (b.transaction n).xid) : Managed d allowed b b'

variable {allowed : Broker → DeskCall → Prop}

theorem orderly_managed (h : Orderly d b) (hstep : Managed d allowed b b') : Orderly d b' := by
  cases hstep with
  | called q => exact orderly_called h q
  | elsewhere hdesk hkept hsame =>
    refine ⟨hdesk, fun x n hx => ?_⟩
    rw [hkept] at hx
    rw [(hsame x n hx).1, (hsame x n hx).2]
    exact h.kept x n hx

theorem orderly_course (h : Orderly d b) (hcourse : ReflTransGen (Managed d allowed) b b') :
    Orderly d b' := by
  induction hcourse with
  | refl => exact h
  | tail _ hstep ih => exact orderly_managed ih hstep

/-- The call prepares no transaction but `n` under the xid. -/
def Yields (d : Option Nat) (x : Xid) (n : Option Nat) (b : Broker) (q : DeskCall) : Prop :=
  ∀ m, q = .prepare m → (b.transaction m).xid = some x → some m ≠ n →
    ∃ e, (b.called d q).2 = .error e

/-- The call does not complete the branch kept under the xid, and puts no other in its place. -/
def Spares (d : Option Nat) (x : Xid) (n : Nat) (b : Broker) (q : DeskCall) : Prop :=
  q.completes? ≠ some x ∧ Yields d x (some n) b q

/-- What a call makes of what is kept under an xid. -/
theorem kept_called (h : Orderly d b) (q : DeskCall) (x : Xid) :
    (b.called d q).1.kept? d x = b.kept? d x ∨
      q.completes? = some x ∧ (b.called d q).1.kept? d x = none ∨
      ∃ m, q = .prepare m ∧ (b.transaction m).xid = some x ∧ (b.called d q).2 = .ok () ∧
        (b.called d q).1.kept? d x = some m := by
  have hcompleted : ∀ y, q.completes? = some y →
      (b.called d q).1.kept? d x = b.kept? d x ∨
        q.completes? = some x ∧ (b.called d q).1.kept? d x = none := fun y hq => by
    cases hy : b.kept? d y with
    | none => exact .inl (by rw [called_unknown hq hy])
    | some n =>
      rw [(h.completes hy hq).kept]
      by_cases hxy : x = y
      · subst hxy
        exact .inr ⟨hq, if_pos rfl⟩
      · exact .inl (if_neg hxy)
  cases q with
  | commit y => exact (hcompleted y rfl).imp_right .inl
  | rollback y => exact (hcompleted y rfl).imp_right .inl
  | prepare m =>
    rcases (prepares h.desk m).kept with ⟨-, hsame⟩ | ⟨y, hy, -, hok, hnew⟩
    · exact .inl (hsame x)
    · rw [hnew]
      split
      · subst_vars
        exact .inr (.inr ⟨m, rfl, hy, hok, rfl⟩)
      · exact .inl rfl

theorem kept_spared (h : Orderly d b) (hx : b.kept? d x = some n)
    (hstep : Managed d (Spares d x n) b b') : b'.kept? d x = some n := by
  cases hstep with
  | elsewhere hdesk hkept hsame => rw [hkept, hx]
  | called q hq =>
    rcases kept_called h q x with hsame | ⟨hc, -⟩ | ⟨m, rfl, hm, hok, hnew⟩
    · rw [hsame, hx]
    · exact absurd hc hq.1
    · by_cases hmn : some m = some n
      · rw [hnew, hmn]
      · obtain ⟨e, he⟩ := hq.2 m rfl hm hmn
        rw [hok] at he
        cases he

/-- As long as no other branch is prepared under the xid, none is kept there. -/
theorem kept_yielded (h : Orderly d b) (hx : b.kept? d x = none)
    (hstep : Managed d (Yields d x none) b b') : b'.kept? d x = none := by
  cases hstep with
  | elsewhere hdesk hkept hsame => rw [hkept, hx]
  | called q hq =>
    rcases kept_called h q x with hsame | ⟨-, hnone⟩ | ⟨m, rfl, hm, hok, -⟩
    · rw [hsame, hx]
    · exact hnone
    · obtain ⟨e, he⟩ := hq m rfl hm (by simp)
      rw [hok] at he
      cases he

/-! ## Starts -/

section

variable {mailboxes : Table String Mailbox} {storage : Storage} {s : Settings} {k : Nat}
  (hpersist : s.persistIdCache = true ∧ s.duplicateDetection = true)
  (hordered : Ledger.Ordered storage.ledger.committed)
  (h : ({ mailboxes, storage } : Broker).start s = (b, .ok k))

include hpersist hordered h

/-- Every branch that a start has recovered is kept at the desk of the post office. -/
theorem recovered_kept (hn : b.Has n) :
    ∃ y, (b.transaction n).xid = some y ∧ b.kept? (some 0) y = some n := by
  obtain ⟨i, rfl⟩ := Nat.exists_eq_add_one.2 hn.1
  have ht : b.transactions[i]? = some (b.transaction (i + 1)) := by
    simp only [transaction, List.getD_eq_getElem?_getD]
    rw [List.getElem?_eq_getElem hn.2]
    rfl
  obtain ⟨branch, hbranch, htransaction⟩ := (transaction_start hpersist hordered h).1 ht
  refine ⟨branch.1, by rw [htransaction]; rfl, ?_⟩
  exact (branches_start hpersist hordered h _ _).2 ⟨i, branch.2, hbranch, rfl⟩

/-- After a start the desk keeps prepared branches, each under its own xid. -/
theorem orderly_start : Orderly (some 0) b := by
  refine ⟨fun j hj => ?_, fun x n hx => ?_⟩
  · cases hj
    rw [(begun_start hpersist hordered h).1.keeping.single]
    exact Nat.one_pos
  · obtain ⟨i, rs, hbranch, rfl⟩ := (branches_start hpersist hordered h x n).1 hx
    have ht := (transaction_start hpersist hordered h).2 ⟨_, hbranch, rfl⟩
    simp only [transaction, List.getD_eq_getElem?_getD, ht, Option.getD_some]
    exact ⟨rfl, rfl⟩

end

/-- A desk that nothing has been entrusted to yet, but for what a start has recovered. -/
inductive Founded : Option Nat → Broker → Prop where
  | empty {d : Option Nat} {b : Broker} (hdesk : b.HasDesk d) (hnone : ∀ x, b.kept? d x = none) :
    Founded d b
  | started {mailboxes : Table String Mailbox} {storage : Storage} {s : Settings} {k : Nat}
    {b : Broker} (hpersist : s.persistIdCache = true ∧ s.duplicateDetection = true)
    (hordered : Ledger.Ordered storage.ledger.committed)
    (h : ({ mailboxes, storage } : Broker).start s = (b, .ok k)) : Founded (some 0) b

theorem Founded.orderly (h : Founded d b) : Orderly d b := by
  cases h with
  | empty hdesk hnone => exact ⟨hdesk, fun x n hx => by rw [hnone] at hx; cases hx⟩
  | started hpersist hordered h => exact orderly_start hpersist hordered h

/-- The desk has been entrusted with a branch: it has just prepared the branch, after whatever
calls, or a start has recovered it. -/
inductive Entrusted : Option Nat → Xid → Nat → Broker → Prop where
  | prepared {d : Option Nat} {x : Xid} {n : Nat} {b₀ b : Broker} (h₀ : Founded d b₀)
    (hcourse : ReflTransGen (Managed d fun _ _ => True) b₀ b)
    (hx : (b.transaction n).xid = some x) (hok : (b.called d (.prepare n)).2 = .ok ()) :
    Entrusted d x n (b.called d (.prepare n)).1
  | recovered {mailboxes : Table String Mailbox} {storage : Storage} {s : Settings} {k : Nat}
    {x : Xid} {n : Nat} {b : Broker}
    (hpersist : s.persistIdCache = true ∧ s.duplicateDetection = true)
    (hordered : Ledger.Ordered storage.ledger.committed)
    (h : ({ mailboxes, storage } : Broker).start s = (b, .ok k)) (hn : b.Has n)
    (hx : (b.transaction n).xid = some x) : Entrusted (some 0) x n b

theorem Entrusted.kept (h : Entrusted d x n b) : Orderly d b ∧ b.kept? d x = some n := by
  cases h with
  | prepared h₀ hcourse hx hok =>
    have horderly := orderly_course h₀.orderly hcourse
    refine ⟨horderly.prepared n, ?_⟩
    rcases (prepares horderly.desk n).kept with ⟨⟨e, he⟩, -⟩ | ⟨y, hy, -, -, hnew⟩
    · rw [hok] at he
      cases he
    · obtain rfl := Option.some.inj (hx.symm.trans hy)
      rw [hnew, if_pos rfl]
  | recovered hpersist hordered h hn hx =>
    obtain ⟨y, hy, hkept⟩ := recovered_kept hpersist hordered h hn
    obtain rfl := Option.some.inj (hx.symm.trans hy)
    exact ⟨orderly_start hpersist hordered h, hkept⟩

/-- A branch that a desk has been entrusted with is kept, and listed, until the desk is called to
complete it or prepares another transaction of its xid. The call completes it and nothing else, and
from then on calls for the xid are refused, with nothing done, until a branch of that xid is
prepared. -/
theorem branch_kept (h : Entrusted d x n b)
    (hcourse : ReflTransGen (Managed d (Spares d x n)) b b') :
    (b'.kept? d x = some n ∧ x ∈ (b'.deskAt d).xids) ∧
      ∀ q, q.completes? = some x → Completes d x n q b' ∧
        ∀ c, ReflTransGen (Managed d (Yields d x none)) (b'.called d q).1 c →
          ∀ q', q'.completes? = some x →
            c.called d q' = (c, .error (.refused (.unknownXid x))) := by
  have hkept : Orderly d b' ∧ b'.kept? d x = some n := by
    induction hcourse with
    | refl => exact h.kept
    | tail _ hstep ih => exact ⟨orderly_managed ih.1 hstep, kept_spared ih.1 ih.2 hstep⟩
  obtain ⟨horderly, hx⟩ := hkept
  refine ⟨⟨hx, mem_xids.2 ⟨n, hx⟩⟩, fun q hq => ?_⟩
  have hcompletes := horderly.completes hx hq
  refine ⟨hcompletes, fun c hlater q' hq' => called_unknown hq' ?_⟩
  have hnone : Orderly d c ∧ c.kept? d x = none := by
    induction hlater with
    | refl => exact ⟨orderly_called horderly q, by rw [hcompletes.kept, if_pos rfl]⟩
    | tail _ hstep ih => exact ⟨orderly_managed ih.1 hstep, kept_yielded ih.1 ih.2 hstep⟩
  exact hnone.2

/-- Two branches of different xids are prepared, and the one that came later is rolled back. -/
theorem branch_kept_beside :
    let b₀ := ({} : Broker).run [.begin (some exampleXid), .begin (some otherXid)]
    let b := (b₀.called none (.prepare 1)).1
    let b₁ := (b.called none (.prepare 2)).1
    let b' := (b₁.called none (.rollback otherXid)).1
    let c := (b'.called none (.commit exampleXid)).1
    b'.kept? none exampleXid = some 1 ∧ (b'.transaction 2).state = .rolledBack ∧
      Completes none exampleXid 1 (.commit exampleXid) b' ∧
      (c.transaction 1).state = .committed ∧
      c.called none (.commit exampleXid) = (c, .error (.refused (.unknownXid exampleXid))) := by
  intro b₀ b b₁ b' c
  have hdesk : b₀.HasDesk none := fun k hk => by cases hk
  have hentrusted : Entrusted none exampleXid 1 b :=
    .prepared (.empty hdesk fun _ => rfl) .refl (by decide) (by decide)
  have hprepare : Spares none exampleXid 1 b (.prepare 2) :=
    ⟨by decide, fun m hm hx => by cases hm; exact absurd hx (by decide)⟩
  have hrollback : Spares none exampleXid 1 b₁ (.rollback otherXid) :=
    ⟨by decide, fun m hm => by cases hm⟩
  obtain ⟨⟨hkept, -⟩, hcalls⟩ := branch_kept hentrusted
    ((ReflTransGen.single (.called _ hprepare)).tail (.called _ hrollback))
  obtain ⟨hcompletes, hunknown⟩ := hcalls (.commit exampleXid) rfl
  exact ⟨hkept, by decide, hcompletes, by decide, hunknown c .refl _ rfl⟩

/-- Two branches of one xid are prepared, and the desk keeps the second. Committing by the xid
commits that one; the first stays prepared, and nobody can call for it any more. -/
theorem first_displaced :
    let b := ({} : Broker).run [.begin (some exampleXid), .begin (some exampleXid)]
    let b₁ := (b.called none (.prepare 1)).1
    let b₂ := (b₁.called none (.prepare 2)).1
    let c := (b₂.called none (.commit exampleXid)).1
    (b.called none (.prepare 1)).2 = .ok () ∧ b₁.kept? none exampleXid = some 1 ∧
      (b₁.called none (.prepare 2)).2 = .ok () ∧ b₂.kept? none exampleXid = some 2 ∧
      (b₂.called none (.commit exampleXid)).2 = .ok () ∧
      (c.transaction 2).state = .committed ∧ (c.transaction 1).state = .prepared ∧
      (c.called none (.commit exampleXid)).2 =
        .error (.refused (.unknownXid exampleXid)) := by
  decide

end Broker

end MessageRouting
