import Mathlib.Logic.Relation
import MessageRouting.Proofs.Transaction.PhaseBooks

/-!
# Moves

What requests do to the books and to the outlines of transactions comes down to
a few moves: a stage is granted; a send or a transaction takes it; all stages
of a send or a transaction are persisted and made visible, or dropped; a branch
is stored as prepared; a writer writes. Properties of the stages and of the
journal are proved move by move.

Results:

* `view_undo`, `view_commit`: what rolling back and committing make of the books.
* `move_commit`, `move_prepare`, `move_rollback`: completing a transaction is
  one move at most.
* `ends_commit`, `ends_prepare`, `ends_rollback`: nothing that has been
  persisted is dropped, but for a commit at which an operation fails.
-/

namespace MessageRouting

open Relation (ReflGen ReflTransGen)

/-- The books, the stage that a call has been granted and is about to use, and the outlines. -/
structure View where
  books : Broker
  loose : List HeldStage
  outlines : List Outline

def Broker.view (b : Broker) : View := ⟨b.books, [], b.outlines⟩

/-- A routing call at the first post office that waits for a stage: its delivery has none yet, and
the owner is its transaction, if it has one. -/
def Call.Routes (c : Call) : Prop :=
  ∃ r : Routing, c.purpose = .route r ∧ r.office = 0 ∧ r.delivery.stage = none ∧
    c.cache = .office 0 r.delivery.message.address ∧
    r.delivery.message.duplicateId = some c.duplicateId ∧
    match r.transaction with
    | some n => c.owner = .transaction n
    | none => ∃ k, c.owner = .direct k

namespace Broker

/-- One move. The calls that begin to wait satisfy `P`. -/
inductive Move (P : Call → Prop) : View → View → Prop where
  /-- The cache of an address is made. -/
  | opened {b : Broker} {os : List Outline} (a : Address) :
    Move P ⟨b, [], os⟩ ⟨b.openOfficeCache 0 a, [], os⟩
  /-- A transaction begins. -/
  | begun {b : Broker} {os : List Outline} (x : Option Xid) :
    Move P ⟨b, [], os⟩ ⟨b, [], os ++ [⟨x, .active, []⟩]⟩
  /-- The writer makes its next write. -/
  | written {b : Broker} {os : List Outline} :
    Move P ⟨b, [], os⟩ ⟨b.writeNext 0, [], os⟩
  /-- A call begins to wait. -/
  | waits {b : Broker} {os : List Outline} {c : Call} (hc : P c) :
    Move P ⟨b, [], os⟩ ⟨{ b with waiting := b.waiting ++ [c] }, [], os⟩
  /-- A call tries again, or those that may do so change places. -/
  | retries {b : Broker} {os : List Outline} {calls : List Call}
    (hready : ∀ c ∈ calls, c ∈ b.ready) :
    Move P ⟨b, [], os⟩ ⟨{ b with ready := calls }, [], os⟩
  /-- A stage is granted. -/
  | granted {b b' : Broker} {os : List Outline} {a : Address} {id : Bytes} {owner : Owner}
    {s : Staged} (hgrant : b.attemptStage (.office 0 a) id owner = (b', some (.staged s))) :
    Move P ⟨b, [], os⟩ ⟨b', [⟨.office 0 a, s⟩], os⟩
  /-- A send outside any transaction makes its stage visible. -/
  | sent {b b' : Broker} {h : HeldStage} {os : List Outline}
    (hpersist : b.persistAll [(h, false)] = (b', .ok ())) :
    Move P ⟨b, [h], os⟩ ⟨b'.promoteAll none [(h, false)], [], os⟩
  /-- A send that comes to nothing drops its stage, before it persists it or because it cannot. -/
  | refused {b : Broker} {h : HeldStage} {os : List Outline} (m : Nat)
    (hearly : (b.persistAll ([(h, false)].take m)).2 = .ok () → m = 0) :
    Move P ⟨b, [h], os⟩
      ⟨(b.persistAll ([(h, false)].take m)).1.dropAll none [(h, false)], [], os⟩
  /-- A transaction takes a stage. -/
  | registered {b : Broker} {h : HeldStage} {l₁ l₂ : List Outline} {x : Option Xid}
    {held : List (HeldStage × Bool)} (howner : h.staged.owner = .transaction (l₁.length + 1)) :
    Move P ⟨b, [h], l₁ ++ ⟨x, .active, held⟩ :: l₂⟩
      ⟨b, [], l₁ ++ ⟨x, .active, held ++ [(h, false)]⟩ :: l₂⟩
  /-- A branch is prepared. -/
  | prepared {b b' : Broker} {l₁ l₂ : List Outline} {x : Xid}
    {held marks : List (HeldStage × Bool)} (hstore : b.storeAll x held = (b', marks, .ok ())) :
    Move P ⟨b, [], l₁ ++ ⟨some x, .active, held⟩ :: l₂⟩
      ⟨b', [], l₁ ++ ⟨some x, .prepared, marks⟩ :: l₂⟩
  /-- A branch that cannot be prepared is rolled back. -/
  | unprepared {b b' : Broker} {l₁ l₂ : List Outline} {x : Xid}
    {held marks : List (HeldStage × Bool)} {result : Except JournalError Unit} {m : Nat}
    (hstore : b.storeAll x (held.take m) = (b', marks, result)) :
    Move P ⟨b, [], l₁ ++ ⟨some x, .active, held⟩ :: l₂⟩
      ⟨b'.dropAll (some x) (marks ++ held.drop m), [],
        l₁ ++ ⟨some x, .rolledBack, marks ++ held.drop m⟩ :: l₂⟩
  /-- A transaction is committed. -/
  | committed {b b' : Broker} {l₁ l₂ : List Outline} {x : Option Xid} {st : TransactionState}
    {held : List (HeldStage × Bool)} (hlive : st = .active ∨ st = .prepared)
    (hpersist : b.persistAll held = (b', .ok ())) :
    Move P ⟨b, [], l₁ ++ ⟨x, st, held⟩ :: l₂⟩
      ⟨b'.promoteAll x held, [], l₁ ++ ⟨x, .committed, held⟩ :: l₂⟩
  /-- A transaction is rolled back, perhaps because it cannot be committed. -/
  | undone {b : Broker} {l₁ l₂ : List Outline} {x : Option Xid} {st : TransactionState}
    {held : List (HeldStage × Bool)} (hlive : st = .active ∨ st = .prepared) (m : Nat) :
    Move P ⟨b, [], l₁ ++ ⟨x, st, held⟩ :: l₂⟩
      ⟨(b.persistAll (held.take m)).1.dropAll x held, [],
        l₁ ++ ⟨x, .rolledBack, held⟩ :: l₂⟩

abbrev Moves (P : Call → Prop) : View → View → Prop := ReflTransGen (Move P)

/-- A move in which no transaction changes its state, and nothing that waits is written. -/
inductive Passes (P : Call → Prop) : View → View → Prop where
  | opened {b : Broker} {os : List Outline} (a : Address) :
    Passes P ⟨b, [], os⟩ ⟨b.openOfficeCache 0 a, [], os⟩
  | begun {b : Broker} {os : List Outline} (x : Option Xid) :
    Passes P ⟨b, [], os⟩ ⟨b, [], os ++ [⟨x, .active, []⟩]⟩
  | waits {b : Broker} {os : List Outline} {c : Call} (hc : P c) :
    Passes P ⟨b, [], os⟩ ⟨{ b with waiting := b.waiting ++ [c] }, [], os⟩
  | retries {b : Broker} {os : List Outline} {calls : List Call}
    (hready : ∀ c ∈ calls, c ∈ b.ready) :
    Passes P ⟨b, [], os⟩ ⟨{ b with ready := calls }, [], os⟩
  | granted {b b' : Broker} {os : List Outline} {a : Address} {id : Bytes} {owner : Owner}
    {s : Staged} (hgrant : b.attemptStage (.office 0 a) id owner = (b', some (.staged s))) :
    Passes P ⟨b, [], os⟩ ⟨b', [⟨.office 0 a, s⟩], os⟩
  | sent {b b' : Broker} {h : HeldStage} {os : List Outline}
    (hpersist : b.persistAll [(h, false)] = (b', .ok ())) :
    Passes P ⟨b, [h], os⟩ ⟨b'.promoteAll none [(h, false)], [], os⟩
  | refused {b : Broker} {h : HeldStage} {os : List Outline} (m : Nat)
    (hearly : (b.persistAll ([(h, false)].take m)).2 = .ok () → m = 0) :
    Passes P ⟨b, [h], os⟩
      ⟨(b.persistAll ([(h, false)].take m)).1.dropAll none [(h, false)], [], os⟩
  | registered {b : Broker} {h : HeldStage} {l₁ l₂ : List Outline} {x : Option Xid}
    {held : List (HeldStage × Bool)} (howner : h.staged.owner = .transaction (l₁.length + 1)) :
    Passes P ⟨b, [h], l₁ ++ ⟨x, .active, held⟩ :: l₂⟩
      ⟨b, [], l₁ ++ ⟨x, .active, held ++ [(h, false)]⟩ :: l₂⟩

theorem Passes.move {P : Call → Prop} {v v' : View} (h : Passes P v v') : Move P v v' := by
  cases h with
  | opened a => exact .opened a
  | begun x => exact .begun x
  | waits hc => exact .waits hc
  | retries hready => exact .retries hready
  | granted hgrant => exact .granted hgrant
  | sent hpersist => exact .sent hpersist
  | refused m hearly => exact .refused m hearly
  | registered howner => exact .registered howner

theorem moves_of_passes {P : Call → Prop} {v v' : View} (h : ReflTransGen (Passes P) v v') :
    Moves P v v' :=
  h.lift id fun _ _ hpass => hpass.move

/-- A move that completes or prepares a transaction. It drops what it has persisted only if it comes
to an end `halfway`. -/
inductive Ends (halfway : Prop) : View → View → Prop where
  | prepared {b b' : Broker} {l₁ l₂ : List Outline} {x : Xid}
    {held marks : List (HeldStage × Bool)} (hstore : b.storeAll x held = (b', marks, .ok ())) :
    Ends halfway ⟨b, [], l₁ ++ ⟨some x, .active, held⟩ :: l₂⟩
      ⟨b', [], l₁ ++ ⟨some x, .prepared, marks⟩ :: l₂⟩
  | unprepared {b b' : Broker} {l₁ l₂ : List Outline} {x : Xid}
    {held marks : List (HeldStage × Bool)} {result : Except JournalError Unit} {m : Nat}
    (hstore : b.storeAll x (held.take m) = (b', marks, result)) :
    Ends halfway ⟨b, [], l₁ ++ ⟨some x, .active, held⟩ :: l₂⟩
      ⟨b'.dropAll (some x) (marks ++ held.drop m), [],
        l₁ ++ ⟨some x, .rolledBack, marks ++ held.drop m⟩ :: l₂⟩
  | committed {b b' : Broker} {l₁ l₂ : List Outline} {x : Option Xid} {st : TransactionState}
    {held : List (HeldStage × Bool)} (hlive : st = .active ∨ st = .prepared)
    (hpersist : b.persistAll held = (b', .ok ())) :
    Ends halfway ⟨b, [], l₁ ++ ⟨x, st, held⟩ :: l₂⟩
      ⟨b'.promoteAll x held, [], l₁ ++ ⟨x, .committed, held⟩ :: l₂⟩
  | undone {b : Broker} {l₁ l₂ : List Outline} {x : Option Xid} {st : TransactionState}
    {held : List (HeldStage × Bool)} (hlive : st = .active ∨ st = .prepared) (m : Nat)
    (hm : m = 0 ∨ halfway) :
    Ends halfway ⟨b, [], l₁ ++ ⟨x, st, held⟩ :: l₂⟩
      ⟨(b.persistAll (held.take m)).1.dropAll x held, [], l₁ ++ ⟨x, .rolledBack, held⟩ :: l₂⟩

theorem Ends.move {P : Call → Prop} {halfway : Prop} {v v' : View} (h : Ends halfway v v') :
    Move P v v' := by
  cases h with
  | prepared hstore => exact .prepared hstore
  | unprepared hstore => exact .unprepared hstore
  | committed hlive hpersist => exact .committed hlive hpersist
  | undone hlive m hm => exact .undone hlive m

theorem Ends.imp {halfway halfway' : Prop} {v v' : View} (h : Ends halfway v v')
    (himp : halfway → halfway') : Ends halfway' v v' := by
  cases h with
  | prepared hstore => exact .prepared hstore
  | unprepared hstore => exact .unprepared hstore
  | committed hlive hpersist => exact .committed hlive hpersist
  | undone hlive m hm => exact .undone hlive m (hm.imp_right himp)

/-! ## Completing transactions -/

/-- The outlines around that of one transaction. -/
theorem outlines_split {n : Nat} {b : Broker} (hn : b.Has n) :
    ∃ l₁ l₂, b.outlines = l₁ ++ (b.transaction n).outline :: l₂ ∧ l₁.length + 1 = n ∧
      ∀ o, b.outlines.set (n - 1) o = l₁ ++ o :: l₂ := by
  obtain ⟨i, rfl⟩ := Nat.exists_eq_add_one.2 hn.1
  have hi : i < b.outlines.length := by
    have := hn.2
    simp only [outlines, List.length_map]
    omega
  have hget : b.outlines[i]? = some (b.transaction (i + 1)).outline := by
    rw [outline_transaction, if_pos (by simpa [outlines] using hi)]
  have hsplit : b.outlines = b.outlines.take i ++ (b.transaction (i + 1)).outline ::
      b.outlines.drop (i + 1) := by
    have hgetElem : b.outlines[i] = (b.transaction (i + 1)).outline := by
      rw [List.getElem?_eq_getElem hi] at hget
      exact Option.some.inj hget
    rw [← hgetElem, List.getElem_cons_drop, List.take_append_drop]
  refine ⟨b.outlines.take i, b.outlines.drop (i + 1), hsplit, ?_, fun o => ?_⟩
  · rw [List.length_take]
    omega
  · rw [Nat.add_sub_cancel, List.set_eq_take_append_cons_drop, if_pos hi]

theorem outlines_setState {n : Nat} {b : Broker} (hn : b.Has n) (s : TransactionState) :
    (b.setState n s).outlines = b.outlines.set (n - 1) { (b.transaction n).outline with state := s }
      ∧ (b.setState n s).books = b.books
      ∧ (b.setState n s).Has n
      ∧ (b.setState n s).transaction n = { b.transaction n with state := s } := by
  obtain ⟨i, rfl⟩ := Nat.exists_eq_add_one.2 hn.1
  have hself : (b.setState (i + 1) s).transaction (i + 1)
      = { b.transaction (i + 1) with state := s } := by
    rw [setState, transaction_modifyTransaction b _ _ hn.1 hn.2, if_pos rfl]
  refine ⟨outlines_modifyTransaction .., books_modifyTransaction .., ⟨hn.1, ?_⟩, hself⟩
  have hlen : (b.setState (i + 1) s).transactions.length = b.transactions.length :=
    List.length_modify ..
  rw [hlen]
  exact hn.2

/-- A rollback drops all stages of the transaction and releases them. -/
theorem view_undo {n : Nat} {b : Broker} (hn : b.Has n) :
    (b.undo n).books =
        b.books.dropAll (b.transaction n).xid ((b.transaction n).slots.filterMap id) ∧
      (b.undo n).outlines =
        b.outlines.set (n - 1) { (b.transaction n).outline with state := .rolledBack } := by
  obtain ⟨houtlines, hbooks, hn', hself⟩ := outlines_setState hn .rolledBack
  have hslots : ((b.setState n .rolledBack).transaction n).slots = (b.transaction n).slots := by
    rw [hself]
    rfl
  have hall := callAll_kept (x := (b.transaction n).xid)
    (fun b i slot hn hx hslot => by
      have h := callOperation_afterRollback hn hslot
      rw [hx] at h
      exact h)
    hn' (by rw [hself])
    (show _ = [] ++ (b.transaction n).slots ++ [] by rw [hslots]; simp)
  have hindexes : (b.setState n .rolledBack).operationIndexes n =
      List.range' ([] : List (Option (HeldStage × Bool))).length
        (b.transaction n).slots.length := by
    rw [operationIndexes, List.range_eq_range', hself]
    simp [Transaction.slots]
  rw [← hindexes, hbooks] at hall
  exact ⟨hall.1, hall.2.outlines.trans houtlines⟩

theorem has_of_state {n : Nat} {b : Broker} (h : (b.transaction n).state ≠ .rolledBack) :
    b.Has n := by
  cases n with
  | zero => exact absurd rfl h
  | succ i =>
    refine ⟨Nat.succ_pos i, Nat.succ_le_of_lt ?_⟩
    rcases Nat.lt_or_ge i b.transactions.length with hlt | hge
    · exact hlt
    · refine absurd ?_ h
      simp only [transaction, List.getD_eq_getElem?_getD, List.getElem?_eq_none hge]
      rfl

theorem state_of_require {t : Transaction} {n : Nat} {allowed : List TransactionState}
    {request : TransactionRequest} (h : t.require n allowed request = .ok ()) :
    t.state ∈ allowed := by
  unfold Transaction.require at h
  split at h
  · assumption
  · cases h

/-- A rollback of a transaction some of whose stages have been persisted. -/
theorem view_undone {n : Nat} {b b' : Broker} (hn : b.Has n) (m : Nat)
    (hbooks : b'.books = (b.books.persistAll ((b.transaction n).outline.held.take m)).1)
    (houtlines : b'.outlines = b.outlines) :
    (b'.undo n).books =
        (b.books.persistAll ((b.transaction n).outline.held.take m)).1.dropAll
          (b.transaction n).xid (b.transaction n).outline.held ∧
      (b'.undo n).outlines =
        b.outlines.set (n - 1) { (b.transaction n).outline with state := .rolledBack } := by
  obtain ⟨hundo, houtlines'⟩ := view_undo (hn.of_outlines houtlines)
  have houtline := outline_of_outlines hn houtlines
  have hx : (b'.transaction n).xid = (b.transaction n).xid := congrArg Outline.xid houtline
  have hheld : (b'.transaction n).slots.filterMap id = (b.transaction n).outline.held :=
    congrArg Outline.held houtline
  rw [hx, hheld, hbooks] at hundo
  rw [houtline, houtlines] at houtlines'
  exact ⟨hundo, houtlines'⟩

theorem ends_undo {halfway : Prop} {n : Nat} {b : Broker}
    (hlive : (b.transaction n).state = .active ∨ (b.transaction n).state = .prepared) :
    Ends halfway b.view (b.undo n).view := by
  have hn : b.Has n := has_of_state (by rcases hlive with h | h <;> simp [h])
  obtain ⟨l₁, l₂, hsplit, -, hset⟩ := outlines_split hn
  obtain ⟨hundo, houtlines⟩ := view_undo hn
  rw [hset] at houtlines
  unfold view
  rw [hundo, houtlines, hsplit]
  exact Ends.undone hlive 0 (Or.inl rfl)

/-- A commit of a transaction that may be completed makes all its stages visible, or drops them all
after some have been persisted. -/
theorem view_commit {n : Nat} {b : Broker}
    (hlive : (b.transaction n).state = .active ∨ (b.transaction n).state = .prepared) :
    (∃ c, (b.commit n).2 = .ok () ∧
        b.books.persistAll (b.transaction n).outline.held = (c, .ok ()) ∧
        (b.commit n).1.books = c.promoteAll (b.transaction n).xid (b.transaction n).outline.held ∧
        (b.commit n).1.outlines =
          b.outlines.set (n - 1) { (b.transaction n).outline with state := .committed }) ∨
      ∃ e m, (b.commit n).2 = .error e ∧
        (b.commit n).1.books =
          (b.books.persistAll ((b.transaction n).outline.held.take m)).1.dropAll
            (b.transaction n).xid (b.transaction n).outline.held ∧
        (b.commit n).1.outlines =
          b.outlines.set (n - 1) { (b.transaction n).outline with state := .rolledBack } := by
  have hn : b.Has n := has_of_state (by rcases hlive with h | h <;> simp [h])
  have hrequire : (b.transaction n).require n [.active, .prepared] .commit = .ok () := by
    rw [Transaction.require, if_pos (by simpa using hlive)]
  unfold commit undoDoomed?
  rw [hrequire]
  dsimp only
  cases (b.transaction n).rollbackOnly with
  | some reason => exact Or.inr ⟨_, 0, rfl, view_undone hn 0 rfl rfl⟩
  | none =>
    have hslots : (b.transaction n).slots = [] ++ (b.transaction n).slots ++ [] := by simp
    have hindexes : b.operationIndexes n =
        List.range' ([] : List (Option (HeldStage × Bool))).length
          (b.transaction n).slots.length := by
      rw [operationIndexes, List.range_eq_range']
      simp [Transaction.slots]
    obtain ⟨⟨hok, m, hm⟩, hkept⟩ := callUntilFailure_beforeCommit hn hslots
    rw [← hindexes] at hok hm hkept
    dsimp only [Option.map_none]
    rcases hcall : b.callUntilFailure n .beforeCommit (b.operationIndexes n) with ⟨b₁, result⟩
    rw [hcall] at hok hm hkept
    cases result with
    | error e => exact Or.inr ⟨_, m, rfl, view_undone hn m hm hkept.outlines⟩
    | ok _ =>
      have hn₁ := hn.of_outlines hkept.outlines
      obtain ⟨houtlines, hbooks, hn₂, hself⟩ := outlines_setState hn₁ .committed
      obtain ⟨k, hk⟩ := hkept.slots
      have houtline := outline_of_outlines hn hkept.outlines
      have hx : ((b₁.setState n .committed).transaction n).xid = (b.transaction n).xid := by
        rw [hself]
        exact congrArg Outline.xid houtline
      have hslots₂ : ((b₁.setState n .committed).transaction n).slots =
          [] ++ (b.transaction n).slots ++ List.replicate k none := by
        rw [hself, List.nil_append]
        exact hk
      have hall := callAll_kept (x := (b.transaction n).xid)
        (fun b i slot hn hx hslot => by
          have h := callOperation_afterCommit hn hslot
          rw [hx] at h
          exact h)
        hn₂ hx hslots₂
      rw [← hindexes, hbooks] at hall
      rw [houtline, hkept.outlines] at houtlines
      exact Or.inl ⟨b₁.books, rfl, hok rfl, hall.1, hall.2.outlines.trans houtlines⟩

/-- A commit that is refused without a failed operation rolls the transaction back. -/
theorem undo_of_commit {n : Nat} {b b' : Broker} {e : TransactionError}
    (hlive : (b.transaction n).state = .active ∨ (b.transaction n).state = .prepared)
    (hcommit : b.commit n = (b', .error e)) (he : ∀ f, e ≠ .operation f) : b' = b.undo n := by
  have hrequire : (b.transaction n).require n [.active, .prepared] .commit = .ok () := by
    rw [Transaction.require, if_pos (by simpa using hlive)]
  unfold commit undoDoomed? at hcommit
  rw [hrequire] at hcommit
  cases hdoomed : (b.transaction n).rollbackOnly with
  | some reason =>
    simp only [hdoomed, Option.map_some] at hcommit
    exact (congrArg Prod.fst hcommit).symm
  | none =>
    simp only [hdoomed, Option.map_none] at hcommit
    split at hcommit
    · rename_i f _
      exact absurd (Except.error.inj (congrArg Prod.snd hcommit)).symm (he f)
    · cases hcommit

/-- A commit completes its transaction in one move, or nothing happens. It ends halfway if an
operation fails. -/
theorem ends_commit (b : Broker) (n : Nat) :
    ReflGen (Ends (∃ e, (b.commit n).2 = .error (.operation e))) b.view (b.commit n).1.view := by
  by_cases hlive : (b.transaction n).state = .active ∨ (b.transaction n).state = .prepared
  · have hn : b.Has n := has_of_state (by rcases hlive with h | h <;> simp [h])
    obtain ⟨l₁, l₂, hsplit, -, hset⟩ := outlines_split hn
    refine .single ?_
    rcases view_commit hlive with ⟨c, -, hpersist, hbooks, houtlines⟩ |
      ⟨e, m, herror, hbooks, houtlines⟩
    · unfold view
      rw [hbooks, houtlines, hset, hsplit]
      exact Ends.committed hlive hpersist
    · by_cases hhalfway : ∃ f, e = .operation f
      · obtain ⟨f, rfl⟩ := hhalfway
        unfold view
        rw [hbooks, houtlines, hset, hsplit]
        exact Ends.undone hlive m (Or.inr ⟨f, herror⟩)
      · have hundone : (b.commit n).1 = b.undo n :=
          undo_of_commit hlive (Prod.ext rfl herror) fun f hf => hhalfway ⟨f, hf⟩
        rw [hundone]
        exact ends_undo hlive
  · have hrequire : (b.transaction n).require n [.active, .prepared] .commit =
        .error (.invalidState n (b.transaction n).state .commit) := by
      rw [Transaction.require, if_neg (by simpa using hlive)]
    unfold commit
    rw [hrequire]

/-- Committing is one move, or nothing happens. -/
theorem move_commit (P : Call → Prop) (b : Broker) (n : Nat) :
    ReflGen (Move P) b.view (b.commit n).1.view :=
  (ends_commit b n).mono fun _ _ => Ends.move

theorem ends_rollback (halfway : Prop) (b : Broker) (n : Nat) :
    ReflGen (Ends halfway) b.view (b.rollback n).1.view := by
  unfold rollback
  split
  · exact .refl
  · rename_i hrequire
    exact .single (ends_undo (by simpa using state_of_require hrequire))

theorem move_rollback (P : Call → Prop) (b : Broker) (n : Nat) :
    ReflGen (Move P) b.view (b.rollback n).1.view :=
  (ends_rollback False b n).mono fun _ _ => Ends.move

/-- Preparing is one such move, or nothing happens. -/
theorem ends_prepare (halfway : Prop) (b : Broker) (n : Nat) :
    ReflGen (Ends halfway) b.view (b.prepare n).1.view := by
  unfold prepare
  split
  · exact .refl
  · rename_i hxid
    obtain ⟨x, hx⟩ : ∃ x, (b.transaction n).xid = some x :=
      Option.ne_none_iff_exists'.1 (by simpa using hxid)
    split
    · exact .refl
    · rename_i hrequire
      have hactive : (b.transaction n).state = .active := by
        simpa using state_of_require hrequire
      have hn : b.Has n := has_of_state (by simp [hactive])
      unfold undoDoomed?
      cases (b.transaction n).rollbackOnly with
      | some reason => exact .single (ends_undo (Or.inl hactive))
      | none =>
        obtain ⟨l₁, l₂, hsplit, -, hset⟩ := outlines_split hn
        have houtline : (b.transaction n).outline =
            ⟨some x, .active, (b.transaction n).slots.filterMap id⟩ := by
          simp only [Transaction.outline, hx, hactive]
        have hslots : (b.transaction n).slots = [] ++ (b.transaction n).slots ++ [] := by simp
        have hindexes : b.operationIndexes n =
            List.range' ([] : List (Option (HeldStage × Bool))).length
              (b.transaction n).slots.length := by
          rw [operationIndexes, List.range_eq_range']
          simp [Transaction.slots]
        dsimp only [Option.map_none]
        rcases hcall : b.callUntilFailure n .beforePrepare (b.operationIndexes n) with
          ⟨b₁, result⟩
        obtain ⟨hbeside, m, stored, marks, r, hstore, hbooks, hheld, hok⟩ :=
          callUntilFailure_beforePrepare hn hx hslots (hindexes ▸ hcall)
        simp only [List.filterMap_nil, List.nil_append, List.append_nil] at hheld
        have hn₁ := hn.of_beside hbeside
        refine .single ?_
        cases result with
        | error e =>
          obtain ⟨hundo, houtlines⟩ := view_undo hn₁
          have houtline₁ : (b₁.transaction n).outline =
              ⟨some x, .active, marks ++ ((b.transaction n).slots.filterMap id).drop m⟩ := by
            simp only [Transaction.outline, hheld, hbeside.xid, hbeside.state, hx, hactive]
          rw [hheld, hbeside.xid, hx, hbooks] at hundo
          rw [hbeside.outlines, List.set_set, houtline₁, hset] at houtlines
          unfold view
          rw [hundo, houtlines, hsplit, houtline]
          exact Ends.unprepared hstore
        | ok _ =>
          obtain ⟨hr, hm⟩ := hok rfl
          obtain ⟨houtlines, hbooks₂, -, -⟩ := outlines_setState hn₁ .prepared
          rw [List.take_of_length_le hm, hr] at hstore
          rw [List.drop_eq_nil_of_le hm, List.append_nil] at hheld
          have houtline₁ : (b₁.transaction n).outline = ⟨some x, .active, marks⟩ := by
            simp only [Transaction.outline, hheld, hbeside.xid, hbeside.state, hx, hactive]
          rw [hbeside.outlines, List.set_set, houtline₁, hset] at houtlines
          unfold view
          rw [hbooks₂, hbooks, houtlines, hsplit, houtline]
          exact Ends.prepared hstore

/-- Preparing is one move, or nothing happens. -/
theorem move_prepare (P : Call → Prop) (b : Broker) (n : Nat) :
    ReflGen (Move P) b.view (b.prepare n).1.view :=
  (ends_prepare False b n).mono fun _ _ => Ends.move

end Broker

end MessageRouting
