import Mathlib.Data.List.Forall2
import MessageRouting.Proofs.Binding.OrderedList
import MessageRouting.Proofs.Broker.AlikeBrokers
import MessageRouting.Proofs.District.Basic
import MessageRouting.Proofs.Transaction.Deliveries

/-!
# Parts of an excerpt

A broker that has seen the steps of one district only is an excerpt of one that
has seen them all. What the two have in common is said here part by part:
queues, the journal, bindings, the cache of the district, its transactions and
the calls that wait there. Owners and transactions have other numbers in the
excerpt. A part changes in both brokers, or beyond the district in the first one
alone.

Results:

* `Storage.Matches.write`, `Storage.Matches.write_beyond`: an entry is written.
* `Cache.Matches.attempt`: an identifier is staged in both caches or in neither,
  and an owner meets itself in both or in neither.
* `TransactionsMatch.modify`, `TransactionsMatch.modify_beyond`: a transaction
  changes.
* `CallsMatch.wait`, `CallsMatch.wait_beyond`: a call comes to wait.
-/

namespace MessageRouting

/-! ## Queues -/

namespace Mailbox

/-- The queue always accepts or always refuses. -/
def Steadfast (m : Mailbox) : Prop :=
  m.mode = .full ∨ m.mode = .deleted ∨ ∀ x ∈ m.lapses, x = none

instance (m : Mailbox) : Decidable m.Steadfast := inferInstanceAs (Decidable (_ ∨ _ ∨ _))

variable {m m' : Mailbox}

/-- Only the mode tells whether such a queue accepts. -/
theorem Steadfast.refusal?_eq (h : m.Steadfast) (h' : m'.Steadfast) (hmode : m'.mode = m.mode) :
    m'.refusal? = m.refusal? := by
  have hnone : ∀ {n : Mailbox}, (∀ x ∈ n.lapses, x = none) → n.lapses.head?.join = none := by
    intro n hn
    cases hhead : n.lapses.head? with
    | none => rfl
    | some x => rw [hn x (List.mem_of_mem_head? hhead)]; rfl
  unfold Steadfast at h h'
  unfold refusal?
  rw [hmode] at h' ⊢
  cases hm : m.mode with
  | full => rfl
  | deleted => rfl
  | accept =>
    simp only [hm, reduceCtorEq, false_or] at h h'
    rw [hnone h, hnone h']
  | sticky =>
    simp only [hm, reduceCtorEq, false_or] at h h'
    rw [hnone h, hnone h']

theorem mode_enqueue (m : Mailbox) (message : Nat) : (m.enqueue message).1.mode = m.mode := by
  unfold enqueue
  cases m.refusal? <;> rfl

theorem mode_withdraw (m : Mailbox) (message : Nat) : (m.withdraw message).1.mode = m.mode := by
  unfold withdraw
  split <;> rfl

theorem Steadfast.enqueue (h : m.Steadfast) (message : Nat) :
    (m.enqueue message).1.Steadfast := by
  have hlapses : (m.enqueue message).1.lapses = m.lapses.tail := by
    unfold Mailbox.enqueue
    cases m.refusal? <;> rfl
  rw [Steadfast, mode_enqueue, hlapses]
  exact h.imp_right (.imp_right fun hnone x hx => hnone x (List.mem_of_mem_tail hx))

theorem Steadfast.withdraw (h : m.Steadfast) (message : Nat) :
    (m.withdraw message).1.Steadfast := by
  have hlapses : (m.withdraw message).1.lapses = m.lapses := by
    unfold Mailbox.withdraw
    split <;> rfl
  rw [Steadfast, mode_withdraw, hlapses]
  exact h

/-- Queues that accept and refuse the same. -/
structure Matches (m m' : Mailbox) : Prop where
  mode : m'.mode = m.mode
  steadfast : m.Steadfast
  steadfast' : m'.Steadfast

theorem Matches.enqueue_beyond (h : m.Matches m') (message : Nat) :
    (m.enqueue message).1.Matches m' :=
  ⟨h.mode.trans (mode_enqueue ..).symm, h.steadfast.enqueue message, h.steadfast'⟩

theorem Matches.withdraw_beyond (h : m.Matches m') (message : Nat) :
    (m.withdraw message).1.Matches m' :=
  ⟨h.mode.trans (mode_withdraw ..).symm, h.steadfast.withdraw message, h.steadfast'⟩

theorem Matches.enqueue (h : m.Matches m') (message : Nat) :
    (m.enqueue message).1.Matches (m'.enqueue message).1 ∧
      (m'.enqueue message).2 = (m.enqueue message).2 := by
  refine ⟨⟨?_, h.steadfast.enqueue message, h.steadfast'.enqueue message⟩, ?_⟩
  · rw [mode_enqueue, mode_enqueue, h.mode]
  · unfold Mailbox.enqueue
    rw [h.steadfast.refusal?_eq h.steadfast' h.mode]
    cases m.refusal? <;> rfl

theorem Matches.withdraw (h : m.Matches m') (message : Nat) :
    (m.withdraw message).1.Matches (m'.withdraw message).1 :=
  ⟨by rw [mode_withdraw, mode_withdraw, h.mode], h.steadfast.withdraw message,
    h.steadfast'.withdraw message⟩

end Mailbox

/-! ## Journals -/

namespace Ledger

variable {l l' : Ledger} {a : Address} {e : Entry}

theorem mem_records {r : Record} : r ∈ l.records a ↔ r ∈ l.committed ∧ r.address = a := by
  rw [records, List.mem_filter, decide_eq_true_eq]

/-- An entry about another address leaves the records of this one. -/
theorem records_apply_beyond (hl : Ordered l.committed) (he : e.concerns a = false) :
    (l.apply e).records a = l.records a := by
  refine records_ext (ordered_apply hl e) (hl.filter _) fun r => ?_
  rw [mem_records]
  cases e with
  | add s =>
    simp only [Entry.concerns, decide_eq_false_iff_not] at he
    rw [mem_add hl]
    constructor
    · rintro ⟨hr, hra⟩
      refine ⟨Or.inr ⟨hr, ?_⟩, hra⟩
      simp [Record.samePlace, hra, he]
    · rintro ⟨rfl | ⟨hr, -⟩, hra⟩
      · exact absurd hra he
      · exact ⟨hr, hra⟩
  | prune a' n =>
    simp only [Entry.concerns, decide_eq_false_iff_not] at he
    rw [mem_prune]
    constructor
    · rintro ⟨hr, hra⟩
      exact ⟨⟨hr, fun hsame => he (hsame.1.symm.trans hra)⟩, hra⟩
    · rintro ⟨⟨hr, -⟩, hra⟩
      exact ⟨hr, hra⟩
  | prepare x s => exact Iff.rfl
  | resolve x => exact Iff.rfl

/-- What an entry makes of the records of an address depends on them only. -/
theorem records_apply_congr (hl : Ordered l.committed) (hl' : Ordered l'.committed)
    (h : l'.records a = l.records a) (e : Entry) :
    (l'.apply e).records a = (l.apply e).records a := by
  have hmem : ∀ r : Record, r.address = a → (r ∈ l'.committed ↔ r ∈ l.committed) := by
    intro r hr
    have hmem : r ∈ l'.records a ↔ r ∈ l.records a := by rw [h]
    rw [mem_records, mem_records] at hmem
    simpa [hr] using hmem
  refine records_ext (ordered_apply hl' e) ((ordered_apply hl e).filter _) fun r => ?_
  rw [mem_records]
  refine and_congr_left fun hr => ?_
  cases e with
  | add s => rw [mem_add hl, mem_add hl', hmem r hr]
  | prune a' n => rw [mem_prune, mem_prune, hmem r hr]
  | prepare x s => exact (hmem r hr).symm
  | resolve x => exact (hmem r hr).symm

end Ledger

namespace Storage

variable {s s' : Storage} {a : Address} {e : Entry}

/-- Journals that take every write and hold the same records of the address. -/
structure Matches (a : Address) (s s' : Storage) : Prop where
  takes : ∀ e : Entry, s.Takes e.method
  takes' : ∀ e : Entry, s'.Takes e.method
  ordered : Ledger.Ordered s.ledger.committed
  ordered' : Ledger.Ordered s'.ledger.committed
  records : s'.ledger.records a = s.ledger.records a

theorem Matches.write_beyond (h : s.Matches a s') (he : e.concerns a = false) :
    (s.write e).1.Matches a s' := by
  have hledger := (write_of_takes (h.takes e)).2
  refine ⟨fun f => takes_write (h.takes f) e, h.takes', ?_, h.ordered', ?_⟩
  · rw [hledger]
    exact Ledger.ordered_apply h.ordered e
  · rw [hledger, Ledger.records_apply_beyond h.ordered he]
    exact h.records

theorem Matches.write (h : s.Matches a s') (e : Entry) :
    (s.write e).1.Matches a (s'.write e).1 ∧ (s.write e).2 = .ok () ∧ (s'.write e).2 = .ok () := by
  obtain ⟨hok, hledger⟩ := write_of_takes (h.takes e)
  obtain ⟨hok', hledger'⟩ := write_of_takes (h.takes' e)
  refine ⟨⟨fun f => takes_write (h.takes f) e, fun f => takes_write (h.takes' f) e, ?_, ?_, ?_⟩,
    hok, hok'⟩
  · rw [hledger]
    exact Ledger.ordered_apply h.ordered e
  · rw [hledger']
    exact Ledger.ordered_apply h.ordered' e
  · rw [hledger, hledger']
    exact Ledger.records_apply_congr h.ordered h.ordered' h.records e

end Storage

/-! ## Bindings -/

namespace Registry

variable {r : Registry} {bs : List Binding}

/-- The registry answers as the list of bindings does. -/
def Shows (r : Registry) (bs : List Binding) : Prop :=
  ∃ es, Lists r es ∧ es.map (·.binding) = bs

theorem Shows.ask (h : r.Shows bs) (q : Request) :
    (r.ask q).1.Shows (Listing.ask bs q).1 ∧ (r.ask q).2 = (Listing.ask bs q).2 := by
  obtain ⟨es, hlists, rfl⟩ := h
  obtain ⟨⟨es', hlists', hbindings⟩, hanswer⟩ := ask_of_lists hlists q
  exact ⟨⟨es', hlists', hbindings.symm⟩, hanswer⟩

end Registry

/-! ## Owners -/

/-- An owner and who it is in the excerpt: numbers of transactions are ranks, and the numbers that
other sends have drawn are paired as they have been drawn. -/
inductive OwnerMatch (D : District) (M : List (Nat × Nat)) : Owner → Owner → Prop where
  | transaction {n : Nat} (hn : D.keeps n = true) :
    OwnerMatch D M (.transaction n) (.transaction (D.rank n))
  | direct {k k' : Nat} (hk : (k, k') ∈ M) : OwnerMatch D M (.direct k) (.direct k')

/-- Numbers are paired one to one. -/
def OneToOne (M : List (Nat × Nat)) : Prop := ∀ p ∈ M, ∀ q ∈ M, p.2 = q.2 ↔ p.1 = q.1

variable {D : District} {M : List (Nat × Nat)}

theorem OwnerMatch.eq_iff (hM : OneToOne M) {o o' p p' : Owner} (ho : OwnerMatch D M o o')
    (hp : OwnerMatch D M p p') : o' = p' ↔ o = p := by
  cases ho with
  | transaction hn =>
    cases hp with
    | transaction hm =>
      rw [Owner.transaction.injEq, Owner.transaction.injEq]
      exact District.rank_inj hn hm
    | direct hk => simp
  | direct hk =>
    cases hp with
    | transaction hm => simp
    | direct hj =>
      rw [Owner.direct.injEq, Owner.direct.injEq]
      exact hM _ hk _ hj

theorem OwnerMatch.extend {o o' : Owner} (h : OwnerMatch D M o o') (p : Nat × Nat) :
    OwnerMatch D (M ++ [p]) o o' := by
  cases h with
  | transaction hn => exact .transaction hn
  | direct hk => exact .direct (List.mem_append_left _ hk)

/-! ## Caches -/

namespace Cache

variable {c c' : Cache}

/-- A cache and what it is in the excerpt. -/
structure Matches (D : District) (M : List (Nat × Nat)) (c c' : Cache) : Prop where
  alike : c.Alike c'
  owners : ∀ id p p', c.pending.get? id = some p → c'.pending.get? id = some p' →
    OwnerMatch D M p.owner p'.owner

theorem Matches.extend (h : c.Matches D M c') (p : Nat × Nat) : c.Matches D (M ++ [p]) c' :=
  ⟨h.alike, fun id q q' hq hq' => (h.owners id q q' hq hq').extend p⟩

/-- An identifier is staged in both caches, or the attempt ends in the same way, or it does not end
in either. -/
theorem Matches.attempt (hM : OneToOne M) (h : c.Matches D M c') {o o' : Owner}
    (ho : OwnerMatch D M o o') (id : Bytes) :
    (c.attempt id o = (none, c) ∧ c'.attempt id o' = (none, c')) ∨
      (∃ s d d', c.attempt id o = (some (.staged s), d) ∧
        c'.attempt id o' = (some (.staged { s with owner := o' }), d') ∧
        s.address = c.address ∧ d.address = c.address ∧ d.Matches D M d') ∨
      ∃ x, (∀ s, x ≠ .staged s) ∧ c.attempt id o = (some x, c) ∧
        c'.attempt id o' = (some x, c') := by
  have hpending := h.alike.pending id
  cases hfree : c.pending.get? id with
  | none =>
    rcases h.alike.attempt hfree o o' with ⟨s, d, d', hd, hd', hsame⟩ | ⟨x, hx, hd, hd'⟩
    · obtain ⟨-, -, -, hs, hdeq⟩ := attempt_staged hd
      obtain ⟨-, -, -, -, hdeq'⟩ := attempt_staged hd'
      refine .inr (.inl ⟨s, d, d', hd, hd', by rw [hs], by rw [hdeq], hsame,
        fun i p p' hp hp' => ?_⟩)
      rw [hdeq, Table.get?_insert] at hp
      rw [hdeq', Table.get?_insert] at hp'
      split at hp
      · rename_i heq
        rw [if_pos heq] at hp'
        cases hp
        cases hp'
        exact ho
      · rename_i hne
        rw [if_neg hne] at hp'
        exact h.owners i p p' hp hp'
    · refine .inr (.inr ⟨x, fun s hs => ?_, hd, hd'⟩)
      rcases hx with rfl | rfl <;> cases hs
  | some p =>
    rw [hfree, Option.map_some, Option.map_eq_some_iff] at hpending
    obtain ⟨p', hp', -⟩ := hpending
    have howner := (h.owners id p p' hfree hp').eq_iff hM ho
    unfold Cache.attempt
    rw [h.alike.enabled, h.alike.index, hfree, hp']
    split
    · exact .inr (.inr ⟨.disabled, fun s => StageOutcome.noConfusion, rfl, rfl⟩)
    · split
      · exact .inr (.inr ⟨.duplicate, fun s => StageOutcome.noConfusion, rfl, rfl⟩)
      · dsimp only
        by_cases heq : p.owner = o
        · rw [if_pos heq, if_pos (howner.2 heq)]
          exact .inr (.inr ⟨.alreadyStaged, fun s => StageOutcome.noConfusion, rfl, rfl⟩)
        · rw [if_neg heq, if_neg fun h => heq (howner.1 h)]
          exact .inl ⟨rfl, rfl⟩

/-- What stays pending keeps its owner. -/
theorem Matches.resolve {d d' : Cache} (h : c.Matches D M c') (hsame : d.Alike d')
    (hd : ∀ id p, d.pending.get? id = some p →
      ∃ q, c.pending.get? id = some q ∧ q.owner = p.owner)
    (hd' : ∀ id p, d'.pending.get? id = some p →
      ∃ q, c'.pending.get? id = some q ∧ q.owner = p.owner) : d.Matches D M d' := by
  refine ⟨hsame, fun id p p' hp hp' => ?_⟩
  obtain ⟨q, hq, howner⟩ := hd id p hp
  obtain ⟨q', hq', howner'⟩ := hd' id p' hp'
  rw [← howner, ← howner']
  exact h.owners id q q' hq hq'

theorem owner_drawKey {d : Cache} {s : Staged} {key : Option Nat} (h : c.drawKey s = (key, d))
    (id : Bytes) (p : Pending) (hp : d.pending.get? id = some p) :
    ∃ q, c.pending.get? id = some q ∧ q.owner = p.owner := by
  cases key with
  | none =>
    rw [(drawKey_none h).2] at hp
    exact ⟨p, hp, rfl⟩
  | some key =>
    obtain ⟨q, hq, hpending⟩ := (drawKey_some h).pending
    rw [hpending id] at hp
    split at hp
    · rename_i heq
      cases hp
      exact ⟨q, heq ▸ (pendingOf?_eq_some.1 hq).1, rfl⟩
    · exact ⟨p, hp, rfl⟩

theorem owner_commit {d : Cache} {s : Staged} {p : Promotion} (h : c.commit s = (some p, d))
    (id : Bytes) (q : Pending) (hq : d.pending.get? id = some q) :
    ∃ q', c.pending.get? id = some q' ∧ q'.owner = q.owner := by
  rw [(commit_some h).pending id] at hq
  split at hq
  · cases hq
  · exact ⟨q, hq, rfl⟩

theorem owner_rollback {d : Cache} {s : Staged} (h : c.rollback s = some d) (id : Bytes)
    (q : Pending) (hq : d.pending.get? id = some q) :
    ∃ q', c.pending.get? id = some q' ∧ q'.owner = q.owner := by
  rw [(rollback_some h).2, Table.get?_erase] at hq
  split at hq
  · cases hq
  · exact ⟨q, hq, rfl⟩

theorem Matches.drawKey (h : c.Matches D M c') (s : Staged) :
    ∃ key d d', c.drawKey s = (key, d) ∧ c'.drawKey s = (key, d') ∧ d.Matches D M d' := by
  obtain ⟨key, d, d', hd, hd', hsame⟩ := Alike.split (h.alike.drawKey s)
  exact ⟨key, d, d', hd, hd', h.resolve hsame (owner_drawKey hd) (owner_drawKey hd')⟩

theorem Matches.commit (h : c.Matches D M c') (s : Staged) :
    ((c.commit s).1 = none ∧ (c'.commit s).1 = none) ∨
      ∃ p d d', c.commit s = (some p, d) ∧ c'.commit s = (some p, d') ∧ d.Matches D M d' := by
  obtain ⟨p, d, d', hd, hd', hsame⟩ := Alike.split (h.alike.commit s)
  cases p with
  | none => exact .inl ⟨by rw [hd], by rw [hd']⟩
  | some p =>
    exact .inr ⟨p, d, d', hd, hd', h.resolve hsame (owner_commit hd) (owner_commit hd')⟩

theorem Matches.rollback (h : c.Matches D M c') (s : Staged) :
    (c.rollback s = none ∧ c'.rollback s = none) ∨
      ∃ d d', c.rollback s = some d ∧ c'.rollback s = some d' ∧ d.Matches D M d' := by
  rcases h.alike.rollback s with hnone | ⟨d, d', hd, hd', hsame⟩
  · exact .inl hnone
  · exact .inr ⟨d, d', hd, hd', h.resolve hsame (owner_rollback hd) (owner_rollback hd')⟩

end Cache

/-! ## Transactions -/

/-- A stage at the address. -/
def HeldStage.At (a : Address) (h : HeldStage) : Prop :=
  h.cache = .office 0 a ∧ h.staged.address = a

def Delivery.At (a : Address) (d : Delivery) : Prop := ∀ h, d.stage = some h → h.At a

/-- A delivery to the address that is not prepared. -/
def Operation.At (a : Address) (op : Operation) : Prop :=
  ∃ d, op = .delivery d ∧ d.recorded = false ∧ d.delivery.At a

/-- A transaction that is no branch, whose sends go to the address. -/
structure Transaction.At (a : Address) (t : Transaction) : Prop where
  xid : t.xid = none
  operations : ∀ op ∈ t.operations, op.At a

/-- The delivery, its stage held by nobody in particular. -/
def Delivery.unowned (d : Delivery) : Delivery :=
  { d with stage := d.stage.map (·.ownedBy (.direct 0)) }

def Operation.unowned : Operation → Operation
  | .delivery d => .delivery { d with delivery := d.delivery.unowned }
  | .hook h => .hook h

def Transaction.unowned (t : Transaction) : Transaction :=
  { t with operations := t.operations.map (·.unowned) }

/-- Deliveries that differ in the owner at most have the same stage, or none. -/
theorem Delivery.stage_cases {d d' : Delivery} (h : d'.unowned = d.unowned) :
    (d.stage = none ∧ d'.stage = none) ∨
      ∃ g owner, d.stage = some g ∧ d'.stage = some (g.ownedBy owner) := by
  have hstage := congrArg Delivery.stage h
  simp only [unowned] at hstage
  cases hd : d.stage with
  | none =>
    rw [hd, Option.map_none, Option.map_eq_none_iff] at hstage
    exact .inl ⟨rfl, hstage⟩
  | some g =>
    rw [hd, Option.map_some, Option.map_eq_some_iff] at hstage
    obtain ⟨g', hg', hsame⟩ := hstage
    refine .inr ⟨g, g'.staged.owner, rfl, ?_⟩
    rw [hg', Option.some.injEq]
    obtain ⟨ref, s⟩ := g
    obtain ⟨ref', s'⟩ := g'
    obtain ⟨a, id, n, o⟩ := s
    obtain ⟨a', id', n', o'⟩ := s'
    simp only [HeldStage.ownedBy, HeldStage.mk.injEq, Staged.mk.injEq] at hsame
    obtain ⟨rfl, rfl, rfl, rfl, -⟩ := hsame
    rfl

namespace Broker

variable {b b' c c' : Broker}

/-- The transactions of a broker and those of its excerpt. -/
structure TransactionsMatch (D : District) (b b' : Broker) : Prop where
  before : D.before ≤ b.transactions.length
  count : b'.transactions.length = D.rank b.transactions.length
  homed : ∀ n, D.before < n → (b.transaction n).At (D.home n)
  same : ∀ n, D.before < n → D.home n = D.address →
    (b'.transaction (D.rank n)).unowned = (b.transaction n).unowned

theorem TransactionsMatch.of_transactions (h : TransactionsMatch D b b')
    (hc : c.transactions = b.transactions) (hc' : c'.transactions = b'.transactions) :
    TransactionsMatch D c c' := by
  refine ⟨hc ▸ h.before, hc ▸ hc' ▸ h.count, fun n hn => ?_, fun n hn hhome => ?_⟩
  · rw [transaction_of_transactions hc]
    exact h.homed n hn
  · rw [transaction_of_transactions hc, transaction_of_transactions hc']
    exact h.same n hn hhome

theorem TransactionsMatch.has_iff (h : TransactionsMatch D b b') {n : Nat}
    (hhome : D.home n = D.address) : b'.Has (D.rank n) ↔ b.Has n := by
  have hkeeps := District.keeps_of_home hhome
  rw [Has, Has, h.count, District.rank_le_iff hkeeps]
  refine and_congr_left fun _ => ⟨fun h₀ => ?_, fun h₀ => District.rank_pos h₀ hkeeps⟩
  cases n with
  | zero => exact h₀
  | succ n => exact Nat.succ_pos n

theorem length_modify (b : Broker) (n : Nat) (f : Transaction → Transaction) :
    (b.modifyTransaction n f).transactions.length = b.transactions.length := by
  cases n with
  | zero => rfl
  | succ i => exact List.length_modify ..

/-- A transaction of the district changes in both brokers. -/
theorem TransactionsMatch.modify (h : TransactionsMatch D b b') {n : Nat}
    (hhome : D.home n = D.address) {f f' : Transaction → Transaction}
    (hf : ∀ t : Transaction, t.At (D.home n) → (f t).At (D.home n))
    (hsame : ∀ t t' : Transaction, t'.unowned = t.unowned → (f' t').unowned = (f t).unowned) :
    TransactionsMatch D (b.modifyTransaction n f) (b'.modifyTransaction (D.rank n) f') := by
  by_cases hn : b.Has n
  · have hn' := (h.has_iff hhome).2 hn
    refine ⟨?_, ?_, fun m hm => ?_, fun m hm hmhome => ?_⟩
    · rw [length_modify]
      exact h.before
    · rw [length_modify, length_modify]
      exact h.count
    · rw [transaction_modifyTransaction b m f hn.1 hn.2]
      split
      · subst_vars
        exact hf _ (h.homed m hm)
      · exact h.homed m hm
    · rw [transaction_modifyTransaction b m f hn.1 hn.2,
        transaction_modifyTransaction b' _ f' hn'.1 hn'.2]
      by_cases heq : n = m
      · subst heq
        rw [if_pos rfl, if_pos rfl]
        exact hsame _ _ (h.same n hm hmhome)
      · have hrank : D.rank n ≠ D.rank m := fun hr =>
          heq ((District.rank_inj (District.keeps_of_home hhome)
            (District.keeps_of_home hmhome)).1 hr)
        rw [if_neg heq, if_neg hrank]
        exact h.same m hm hmhome
  · rw [view_modifyTransaction_of_not_has hn,
      view_modifyTransaction_of_not_has (mt (h.has_iff hhome).1 hn)]
    exact h

/-- A transaction of another district changes. -/
theorem TransactionsMatch.modify_beyond (h : TransactionsMatch D b b') {n : Nat}
    (hhome : D.home n ≠ D.address) {f : Transaction → Transaction}
    (hf : ∀ t : Transaction, t.At (D.home n) → (f t).At (D.home n)) :
    TransactionsMatch D (b.modifyTransaction n f) b' := by
  refine ⟨?_, ?_, fun m hm => ?_, fun m hm hmhome => ?_⟩
  · rw [length_modify]
    exact h.before
  · rw [length_modify]
    exact h.count
  · rcases modifyTransaction_cases b n f m with hsame | ⟨rfl, hsame⟩
    · rw [hsame]
      exact h.homed m hm
    · rw [hsame]
      exact hf _ (h.homed m hm)
  · rcases modifyTransaction_cases b n f m with hsame | ⟨rfl, -⟩
    · rw [hsame]
      exact h.same m hm hmhome
    · exact absurd hmhome hhome

theorem transaction_addTransaction (b : Broker) (t : Transaction) (m : Nat) :
    (b.addTransaction t).transaction m =
      if m = b.transactions.length + 1 then t else b.transaction m := by
  cases m with
  | zero => rfl
  | succ i =>
    simp only [transaction, addTransaction, List.getD_eq_getElem?_getD, List.getElem?_append,
      Nat.add_right_cancel_iff]
    split
    · rw [if_neg (by omega)]
    · rename_i hi
      by_cases heq : i = b.transactions.length
      · simp [heq]
      · rw [if_neg heq, List.getElem?_eq_none (by simp; omega), List.getElem?_eq_none (by omega)]

theorem transactionAt_new (a : Address) : ({} : Transaction).At a :=
  ⟨rfl, fun _ hop => absurd hop List.not_mem_nil⟩

/-- A transaction begins, in the excerpt only if it will belong to the district. -/
theorem TransactionsMatch.begin (h : TransactionsMatch D b b') :
    (D.home (b.transactions.length + 1) = D.address →
      TransactionsMatch D (b.addTransaction {}) (b'.addTransaction {})) ∧
    (D.home (b.transactions.length + 1) ≠ D.address →
      TransactionsMatch D (b.addTransaction {}) b') := by
  have hlength : ∀ c : Broker, (c.addTransaction {}).transactions.length =
      c.transactions.length + 1 := fun c => by simp [addTransaction]
  have hrank : D.rank (b.transactions.length + 1) = D.rank b.transactions.length +
      if D.home (b.transactions.length + 1) = D.address then 1 else 0 := by
    have hbefore := h.before
    rw [District.rank, District.keeps, decide_eq_false (by omega), Bool.false_or]
    simp
  have hhomed : ∀ n, D.before < n → ((b.addTransaction {}).transaction n).At (D.home n) := by
    intro n hn
    rw [transaction_addTransaction]
    split
    · exact transactionAt_new _
    · exact h.homed n hn
  refine ⟨fun hhome => ⟨?_, ?_, hhomed, fun n hn hnhome => ?_⟩,
    fun hhome => ⟨?_, ?_, hhomed, fun n hn hnhome => ?_⟩⟩
  · rw [hlength]
    exact Nat.le_succ_of_le h.before
  · rw [hlength, hlength, h.count, hrank, if_pos hhome]
  · have hcount : b'.transactions.length + 1 = D.rank (b.transactions.length + 1) := by
      rw [h.count, hrank, if_pos hhome]
    rw [transaction_addTransaction, transaction_addTransaction, hcount]
    by_cases heq : n = b.transactions.length + 1
    · rw [if_pos heq, if_pos (congrArg D.rank heq)]
    · have hne : D.rank n ≠ D.rank (b.transactions.length + 1) := fun hr =>
        heq ((District.rank_inj (District.keeps_of_home hnhome)
          (District.keeps_of_home hhome)).1 hr)
      rw [if_neg heq, if_neg hne]
      exact h.same n hn hnhome
  · rw [hlength]
    exact Nat.le_succ_of_le h.before
  · rw [hlength, h.count, hrank, if_neg hhome, Nat.add_zero]
  · have hne : n ≠ b.transactions.length + 1 := fun heq => hhome (heq ▸ hnhome)
    rw [transaction_addTransaction, if_neg hne]
    exact h.same n hn hnhome

end Broker

/-! ## Calls -/

/-- A send to an address, outside any transaction or in one that belongs there. -/
structure Call.Sends (D : District) (a : Address) (r : Routing) (c : Call) : Prop where
  cache : c.cache = .office 0 a
  purpose : c.purpose = .route r
  office : r.office = 0
  unstaged : r.delivery.stage = none
  homed : ∀ n, r.transaction = some n → D.before < n ∧ D.home n = a

/-- A call of the district and what it is in the excerpt. -/
structure CallMatch (D : District) (M : List (Nat × Nat)) (c c' : Call) : Prop where
  ticket : c'.ticket = c.ticket
  cache : c'.cache = c.cache
  duplicateId : c'.duplicateId = c.duplicateId
  owner : OwnerMatch D M c.owner c'.owner
  purpose : ∀ r, c.purpose = .route r →
    c'.purpose = .route { r with transaction := r.transaction.map D.rank }

/-- Calls that wait for their turn: the excerpt has those of the district. -/
structure CallsMatch (D : District) (M : List (Nat × Nat)) (l l' : List Call) : Prop where
  sends : ∀ c ∈ l, ∃ a r, c.Sends D a r
  kept : List.Forall₂ (CallMatch D M) (l.filter fun c => c.cache = D.cache) l'

namespace CallsMatch

variable {l l' m m' : List Call} {c c' : Call}

theorem extend (h : CallsMatch D M l l') (p : Nat × Nat) : CallsMatch D (M ++ [p]) l l' :=
  ⟨h.sends, h.kept.imp fun _ _ hc =>
    ⟨hc.ticket, hc.cache, hc.duplicateId, hc.owner.extend p, hc.purpose⟩⟩

theorem nil : CallsMatch D M [] [] := ⟨fun _ hc => absurd hc List.not_mem_nil, .nil⟩

theorem append (h : CallsMatch D M l l') (h' : CallsMatch D M m m') :
    CallsMatch D M (l ++ m) (l' ++ m') := by
  refine ⟨fun c hc => ?_, ?_⟩
  · rcases List.mem_append.1 hc with hc | hc
    · exact h.sends c hc
    · exact h'.sends c hc
  · rw [List.filter_append]
    exact List.rel_append h.kept h'.kept

/-- A call of the district comes to wait. -/
theorem wait (h : CallsMatch D M l l') {a : Address} {r : Routing} (hc : c.Sends D a r)
    (ha : a = D.address) (hmatch : CallMatch D M c c') :
    CallsMatch D M (l ++ [c]) (l' ++ [c']) := by
  refine h.append ⟨fun d hd => ?_, ?_⟩
  · rw [List.mem_singleton.1 hd]
    exact ⟨a, r, hc⟩
  · have hcache : c.cache = D.cache := by rw [hc.cache, ha, District.cache]
    rw [List.filter_cons_of_pos (by simp [hcache])]
    exact .cons hmatch .nil

theorem wait_beyond (h : CallsMatch D M l l') {a : Address} {r : Routing} (hc : c.Sends D a r)
    (ha : a ≠ D.address) : CallsMatch D M (l ++ [c]) l' := by
  have hcache : c.cache ≠ D.cache := by
    rw [hc.cache, District.cache]
    exact fun heq => ha (CacheRef.office.inj heq).2
  have hnone : CallsMatch D M [c] [] := by
    refine ⟨fun d hd => ?_, ?_⟩
    · rw [List.mem_singleton.1 hd]
      exact ⟨a, r, hc⟩
    · rw [List.filter_cons_of_neg (by simp [hcache])]
      exact .nil
  have happend := h.append hnone
  rwa [List.append_nil] at happend

/-- It is the turn of a call of the district, and of its counterpart. -/
theorem turn (h : CallsMatch D M (c :: l) l') (hcache : c.cache = D.cache) :
    ∃ r c' m', l' = c' :: m' ∧ c.Sends D D.address r ∧ CallMatch D M c c' ∧
      CallsMatch D M l m' := by
  obtain ⟨a, r, hc⟩ := h.sends c List.mem_cons_self
  obtain rfl : a = D.address := (CacheRef.office.inj (hc.cache.symm.trans hcache)).2
  have hkept := h.kept
  rw [List.filter_cons_of_pos (by simp [hcache])] at hkept
  cases hkept with
  | cons hmatch hrest =>
    exact ⟨r, _, _, rfl, hc, hmatch, fun d hd => h.sends d (List.mem_cons_of_mem c hd), hrest⟩

/-- It is the turn of a call that the excerpt does not have. -/
theorem turn_beyond (h : CallsMatch D M (c :: l) l') (hcache : c.cache ≠ D.cache) :
    ∃ a r, c.Sends D a r ∧ a ≠ D.address ∧ CallsMatch D M l l' := by
  obtain ⟨a, r, hc⟩ := h.sends c List.mem_cons_self
  refine ⟨a, r, hc, ?_, fun d hd => h.sends d (List.mem_cons_of_mem c hd), ?_⟩
  · rintro rfl
    exact hcache hc.cache
  · have hkept := h.kept
    rwa [List.filter_cons_of_neg (by simp [hcache])] at hkept

/-- Some calls go on waiting, whether they are of the district or not. -/
theorem filter (h : CallsMatch D M l l') (p : Call → Bool)
    (hp : ∀ c c', CallMatch D M c c' → p c' = p c) : CallsMatch D M (l.filter p) (l'.filter p) := by
  obtain ⟨hsends, hkept⟩ := h
  refine ⟨fun c hc => hsends c (List.mem_of_mem_filter hc), ?_⟩
  rw [List.filter_comm]
  generalize l.filter (fun c => c.cache = D.cache) = k at hkept ⊢
  induction hkept with
  | nil => exact .nil
  | @cons c c' k k' hc _ ih =>
    rw [List.filter_cons, List.filter_cons, hp c c' hc]
    split
    · exact .cons hc ih
    · exact ih

theorem cache_eq (h : CallsMatch D M l l') (hc : c' ∈ l') : c'.cache = D.cache := by
  obtain ⟨-, hkept⟩ := h
  have hcache : ∀ c ∈ l.filter (fun c => c.cache = D.cache), c.cache = D.cache :=
    fun c hc => by simpa using (List.mem_filter.1 hc).2
  generalize l.filter (fun c => c.cache = D.cache) = k at hkept hcache
  induction hkept with
  | nil => cases hc
  | @cons d d' k k' hd _ ih =>
    rcases List.mem_cons.1 hc with rfl | hc
    · exact hd.cache.trans (hcache d (by simp))
    · exact ih hc fun e he => hcache e (by simp [he])

end CallsMatch

end MessageRouting
