import MessageRouting.Proofs.Restart.NewestRecords
import MessageRouting.Proofs.Stage.SequenceOrder
import MessageRouting.Proofs.Transaction.CommitAtomicity

/-!
# What a start makes of a journal in order

A journal that holds no identifier of an address twice, be it committed or
prepared, and no two prepared records at one sequence, is in order. A start on
such a journal makes each branch again as a prepared transaction that only holds
its stages, in the order of their sequences for each address, and the post
office is then as tidy as after any run.

Results:

* `transactions_start`, `branches_start`: the transactions and the branches
  after a start.
* `tidy_start`: what is between two requests holds after a start, too.
-/

namespace MessageRouting

/-! ## Journals in order -/

namespace Ledger

/-- No identifier of an address stands in the journal twice, and no two prepared records stand at
one place. -/
structure Clean (l : Ledger) : Prop where
  ordered : Ordered l.committed
  listed : ∀ a, ((l.records a).map (·.duplicateId)).Nodup
  staged : (l.prepared.map fun p => (p.record.address, p.record.duplicateId)).Nodup
  placed : (l.prepared.map fun p => (p.record.address, p.record.sequence)).Nodup
  apart : ∀ p ∈ l.prepared,
    p.record.duplicateId ∉ (l.records p.record.address).map (·.duplicateId)

theorem preparedRecords_perm (l : Ledger) : l.preparedRecords.Perm l.prepared :=
  (sortBy_perm ..).trans (sortBy_perm ..)

/-- The prepared records of one address are listed in the order of their sequences. -/
theorem sorted_preparedRecords {l : Ledger}
    (h : (l.prepared.map fun p => (p.record.address, p.record.sequence)).Nodup) :
    l.preparedRecords.Pairwise fun p q =>
      p.record.address = q.record.address → p.record.sequence < q.record.sequence := by
  have hasymm : ∀ p q : PreparedRecord, p.record.before q.record = true →
      q.record.before p.record = false := by
    intro p q hpq
    cases hqp : q.record.before p.record with
    | false => rfl
    | true =>
      have hpp := Record.before_trans hpq hqp
      rw [Record.before_irrefl] at hpp
      cases hpp
  have htrans : ∀ p q r : PreparedRecord, p.record.before q.record = true →
      q.record.before r.record = true → p.record.before r.record = true :=
    fun p q r => Record.before_trans
  have hsorted : l.preparedRecords.Pairwise fun p q => q.record.before p.record = false :=
    pairwise_sortBy hasymm htrans l.preparedByBranch
  have hne := List.pairwise_map.1 ((l.preparedRecords_perm.map _).nodup_iff.2 h)
  refine hsorted.imp₂ (fun p q hbefore hplace ha => ?_) hne
  rw [Record.before, if_pos ha.symm, decide_eq_false_iff_not] at hbefore
  have : p.record.sequence ≠ q.record.sequence := fun hseq => hplace (Prod.ext ha hseq)
  omega

end Ledger

namespace Broker

variable {b b' : Broker}

/-! ## Transactions made again -/

/-- The operation that completes with the stage of a record, for the transaction of that number. -/
def recoveredOperation (n : Nat) (r : Record) : Operation :=
  .delivery
    { delivery :=
        { message := { id := 0, address := r.address, duplicateId := some r.duplicateId }
          stage := some (recovered n r) }
      recorded := true }

/-- The transaction of a branch. -/
def recoveredTransaction (n : Nat) (branch : Xid × List Record) : Transaction :=
  { xid := some branch.1, state := .prepared, operations := branch.2.map (recoveredOperation n) }

/-- The transactions of branches, numbered from `n + 1`. -/
def recoveredTransactions (n : Nat) : List (Xid × List Record) → List Transaction
  | [] => []
  | branch :: rest => recoveredTransaction (n + 1) branch :: recoveredTransactions (n + 1) rest

theorem getElem?_recoveredTransactions (branches : List (Xid × List Record)) (n i : Nat) :
    (recoveredTransactions n branches)[i]? =
      branches[i]?.map (recoveredTransaction (n + i + 1)) := by
  induction branches generalizing n i with
  | nil => rfl
  | cons branch rest ih =>
    cases i with
    | zero => rfl
    | succ i =>
      rw [recoveredTransactions, List.getElem?_cons_succ, ih, List.getElem?_cons_succ,
        show n + 1 + i = n + (i + 1) by omega]

theorem stages_recoveredTransaction (n : Nat) (branch : Xid × List Record) :
    (recoveredTransaction n branch).stages = branch.2.map (recovered n) := by
  obtain ⟨x, rs⟩ := branch
  induction rs with
  | nil => rfl
  | cons r rest ih => exact congrArg (recovered n r :: ·) ih

theorem records_recoveredTransaction (n : Nat) (branch : Xid × List Record) :
    (recoveredTransaction n branch).stages.map (·.staged.record) = branch.2 := by
  rw [stages_recoveredTransaction, List.map_map]
  exact List.map_id _

theorem modify_concat {α : Type} (l : List α) (x : α) (f : α → α) :
    (l ++ [x]).modify l.length f = l ++ [f x] := by
  induction l with
  | nil => rfl
  | cons y rest ih => exact congrArg (y :: ·) ih

theorem transactions_recoverRecord (hb : Addressed b) {ts : List Transaction} {t : Transaction}
    (ht : b.transactions = ts ++ [t]) (r : Record) :
    (recoverRecord 0 (ts.length + 1) b r).transactions =
      ts ++ [{ t with operations := t.operations ++ [recoveredOperation (ts.length + 1) r] }] := by
  unfold recoverRecord
  dsimp only [modifyTransaction]
  rw [show ((b.openOfficeCache 0 r.address).setCache _ _).transactions = ts ++ [t] from
    (transactions_openOfficeCache ..).trans ht, modify_concat, Cache.recover,
    address_opened hb r.address]
  rfl

theorem transactions_recoverRecords {ts : List Transaction} (rs : List Record) {t : Transaction}
    (hb : Addressed b) (ht : b.transactions = ts ++ [t]) :
    (rs.foldl (recoverRecord 0 (ts.length + 1)) b).transactions =
      ts ++ [{ t with
        operations := t.operations ++ rs.map (recoveredOperation (ts.length + 1)) }] := by
  induction rs generalizing b t with
  | nil => simpa using ht
  | cons r rest ih =>
    have hnext := transactions_recoverRecord hb ht r
    rw [List.foldl_cons, ih (addressed_recoverRecord hb _ r) hnext]
    simp

theorem transactions_recoverBranch (hb : Addressed b) (branch : Xid × List Record) :
    (recoverBranch 0 b branch).transactions =
      b.transactions ++ [recoveredTransaction (b.transactions.length + 1) branch] := by
  have hlast : (b.addTransaction { xid := some branch.1, state := .prepared }).lastTransaction =
      b.transactions.length + 1 := by
    simp [addTransaction, lastTransaction]
  unfold recoverBranch
  dsimp only
  rw [hlast]
  have hadded : (b.addTransaction { xid := some branch.1, state := .prepared }).transactions =
      b.transactions ++ [{ xid := some branch.1, state := .prepared }] := rfl
  have haddressed : Addressed (b.addTransaction { xid := some branch.1, state := .prepared }) := hb
  exact transactions_recoverRecords branch.2 haddressed hadded

/-- Staging records again leaves the post offices alone. -/
theorem offices_recoverRecords (t : Nat) (rs : List Record) (b : Broker) :
    (rs.foldl (recoverRecord 0 t) b).offices = b.offices := by
  induction rs generalizing b with
  | nil => rfl
  | cons r rest ih => rw [List.foldl_cons, ih, recoverRecord_frame]

theorem branches_recoverBranch (hb : 0 < b.offices.length) (branch : Xid × List Record) :
    ((recoverBranch 0 b branch).deskAt (some 0)).branches =
      (b.deskAt (some 0)).branches.insert branch.1 (b.transactions.length + 1) := by
  have hlast : (b.addTransaction { xid := some branch.1, state := .prepared }).lastTransaction =
      b.transactions.length + 1 := by
    simp [addTransaction, lastTransaction]
  unfold recoverBranch
  dsimp only
  rw [hlast]
  have hoffices := offices_recoverRecords (b.transactions.length + 1) branch.2
    (b.addTransaction { xid := some branch.1, state := .prepared })
  generalize branch.2.foldl (recoverRecord 0 _) _ = c at hoffices ⊢
  replace hoffices : c.offices = b.offices := hoffices
  have hdesk : c.deskAt (some 0) = b.deskAt (some 0) := by
    simp only [deskAt, office, hoffices]
  rw [hdesk]
  show ((c.modifyOffice 0 _).office 0).desk.branches = _
  rw [office_modifyOffice c 0 _ (hoffices ▸ hb), if_pos rfl]

/-- The branches that a desk knows once some have been made again. -/
theorem desk_branches {mode : PersistenceMode} (branches : List (Xid × List Record))
    (hb : Begun mode b) (hnodup : (branches.map (·.1)).Nodup) :
    let c := branches.foldl (recoverBranch 0) b
    c.transactions = b.transactions ++ recoveredTransactions b.transactions.length branches ∧
      ∀ y m, (c.deskAt (some 0)).branches.get? y = some m ↔
        (∃ i rs, branches[i]? = some (y, rs) ∧ m = b.transactions.length + i + 1) ∨
          y ∉ branches.map (·.1) ∧ (b.deskAt (some 0)).branches.get? y = some m := by
  induction branches generalizing b with
  | nil => exact ⟨by simp [recoveredTransactions], by simp⟩
  | cons branch rest ih =>
    obtain ⟨hhead, hrest⟩ := List.nodup_cons.1 hnodup
    obtain ⟨htransactions, hdesk⟩ := ih (begun_recoverBranch hb branch.1 branch.2).1 hrest
    have hadded : (recoverBranch 0 b (branch.1, branch.2)).transactions =
      b.transactions ++ [recoveredTransaction (b.transactions.length + 1) branch] :=
        transactions_recoverBranch hb.addressed branch
    have hbranches := branches_recoverBranch (by rw [hb.keeping.single]; exact Nat.one_pos) branch
    refine ⟨?_, fun y m => ?_⟩
    · rw [List.foldl_cons]
      refine htransactions.trans ?_
      rw [hadded]
      simp [recoveredTransactions]
    · rw [List.foldl_cons]
      refine (hdesk y m).trans ?_
      rw [hadded, List.length_append, List.length_singleton,
        show recoverBranch 0 b (branch.1, branch.2) = recoverBranch 0 b branch from rfl, hbranches,
        Table.get?_insert]
      constructor
      · rintro (⟨i, rs, hi, rfl⟩ | ⟨hy, hget⟩)
        · exact .inl ⟨i + 1, rs, hi, by omega⟩
        · split at hget
          · rename_i hxy
            refine .inl ⟨0, branch.2, ?_, (Option.some.inj hget).symm⟩
            rw [← hxy]
            rfl
          · rename_i hxy
            refine .inr ⟨?_, hget⟩
            rw [List.map_cons, List.mem_cons, not_or]
            exact ⟨Ne.symm hxy, hy⟩
      · rintro (⟨i, rs, hi, rfl⟩ | ⟨hy, hget⟩)
        · cases i with
          | zero =>
            cases hi
            exact .inr ⟨hhead, by simp⟩
          | succ i => exact .inl ⟨i, rs, hi, by omega⟩
        · rw [List.map_cons, List.mem_cons, not_or] at hy
          exact .inr ⟨hy.2, by rw [if_neg (Ne.symm hy.1)]; exact hget⟩

end Broker

/-- What a stage holds: an identifier of a cache. -/
def HeldStage.label (h : HeldStage) : CacheRef × Bytes := (h.cache, h.staged.duplicateId)

/-- What the stage of a record will hold. -/
def Record.label (r : Record) : CacheRef × Bytes := (.office 0 r.address, r.duplicateId)

namespace Cache

theorem holds_recovered {c : Cache} {r : Record} (hc : c.address = r.address) (owner : Owner) :
    (c.recover r owner).2.Holds ⟨r.address, r.duplicateId, r.sequence, owner⟩ :=
  ⟨hc.symm, none, Table.get?_insert_self ..⟩

theorem holds_recover_of_ne {c : Cache} {r : Record} {owner : Owner} {t : Staged}
    (h : c.Holds t) (hne : r.duplicateId ≠ t.duplicateId) : (c.recover r owner).2.Holds t := by
  obtain ⟨haddress, key, hkey⟩ := h
  refine ⟨haddress, key, ?_⟩
  show (Table.insert _ _ _).get? _ = _
  rw [Table.get?_insert, if_neg hne]
  exact hkey

end Cache

namespace Broker

variable {b : Broker} {rs : List Record}

/-- Branches are being made again, and the records `rs` are still to be staged. What has been staged
is pending, and no identifier is staged twice. -/
structure Restaging (rs : List Record) (b : Broker) : Prop where
  elsewhere : ∀ ref c, b.caches.get? ref = some c → ∃ a, ref = .office 0 a
  opens : ∀ h ∈ b.view.stages, b.Open h
  fresh : (b.view.stages.map HeldStage.label ++ rs.map Record.label).Nodup

theorem restaging_recoverRecord {r : Record} (hb : Restaging (r :: rs) b) (haddressed : Addressed b)
    {os : List Outline} {o : Outline} (houtlines : b.outlines = os ++ [o]) :
    Restaging rs (recoverRecord 0 (os.length + 1) b r) := by
  have hstages : (recoverRecord 0 (os.length + 1) b r).view.stages =
      b.view.stages ++ [recovered (os.length + 1) r] := by
    show (recoverRecord 0 (os.length + 1) b r).outlines.flatMap _ = b.outlines.flatMap _ ++ _
    rw [outlines_recoverRecord haddressed houtlines, houtlines]
    simp [Outline.stages]
  refine ⟨fun ref c hc => ?_, fun h hh => ?_, ?_⟩
  · rw [get?_recoverRecord] at hc
    split at hc
    · rename_i href
      exact ⟨_, href.symm⟩
    · rcases openOfficeCache_cases b 0 r.address with ⟨-, heq⟩ | ⟨-, heq⟩
      · exact hb.elsewhere ref c (heq ▸ hc)
      · rw [heq, setCache, Table.get?_insert] at hc
        split at hc
        · rename_i href
          exact ⟨_, href.symm⟩
        · exact hb.elsewhere ref c hc
  · rw [hstages] at hh
    unfold Open
    rw [cache_recoverRecord]
    rcases List.mem_append.1 hh with hold | hnew
    · have hopen := open_openOfficeCache (n := 0) (a := r.address) (hb.opens h hold)
      split
      · rename_i href
        refine Cache.holds_recover_of_ne hopen fun hid => ?_
        have hne := (List.nodup_append.1 hb.fresh).2.2 h.label (List.mem_map_of_mem hold) r.label
          (by simp)
        exact hne (Prod.ext href.symm hid.symm)
      · exact hopen
    · obtain rfl := List.mem_singleton.1 hnew
      rw [if_pos (show CacheRef.office 0 r.address = (recovered (os.length + 1) r).cache from rfl)]
      exact Cache.holds_recovered (address_opened haddressed r.address) _
  · rw [hstages, List.map_append, List.append_assoc]
    exact hb.fresh

theorem restaging_recoverRecords {os : List Outline} {x : Option Xid} {st : TransactionState}
    {more : List Record} {held : List (HeldStage × Bool)} (hb : Restaging (more ++ rs) b)
    (haddressed : Addressed b) (houtlines : b.outlines = os ++ [⟨x, st, held⟩]) :
    Restaging rs (more.foldl (recoverRecord 0 (os.length + 1)) b) := by
  induction more generalizing b held with
  | nil => exact hb
  | cons r rest ih =>
    exact ih (restaging_recoverRecord hb haddressed houtlines)
      (addressed_recoverRecord haddressed _ r) (outlines_recoverRecord haddressed houtlines r)

theorem restaging_recoverBranch {branch : Xid × List Record} (hb : Restaging (branch.2 ++ rs) b)
    (haddressed : Addressed b) : Restaging rs (recoverBranch 0 b branch) := by
  have hlast : (b.addTransaction { xid := some branch.1, state := .prepared }).lastTransaction =
      b.outlines.length + 1 := by
    simp [addTransaction, lastTransaction, outlines]
  have houtlines : (b.addTransaction { xid := some branch.1, state := .prepared }).outlines =
      b.outlines ++ [⟨some branch.1, .prepared, []⟩] := by
    show List.map _ (b.transactions ++ [_]) = _
    rw [List.map_append]
    rfl
  have hstages : (b.addTransaction { xid := some branch.1, state := .prepared }).view.stages =
      b.view.stages := by
    show (b.addTransaction _).outlines.flatMap _ = b.outlines.flatMap _
    rw [houtlines]
    simp [Outline.stages]
  have hadded : Restaging (branch.2 ++ rs)
      (b.addTransaction { xid := some branch.1, state := .prepared }) :=
    ⟨hb.elsewhere, by rw [hstages]; exact hb.opens, by rw [hstages]; exact hb.fresh⟩
  unfold recoverBranch
  dsimp only
  rw [hlast]
  have hall := restaging_recoverRecords hadded haddressed houtlines
  exact ⟨hall.elsewhere, hall.opens, hall.fresh⟩

theorem restaging_branches {mode : PersistenceMode} (branches : List (Xid × List Record))
    (hbegun : Begun mode b) (hb : Restaging (branches.flatMap (·.2)) b) :
    Restaging [] (branches.foldl (recoverBranch 0) b) := by
  induction branches generalizing b with
  | nil => exact hb
  | cons branch rest ih =>
    exact ih (begun_recoverBranch hbegun branch.1 branch.2).1
      (restaging_recoverBranch hb hbegun.addressed)

/-! ## Starts -/

variable {mailboxes : Table String Mailbox} {storage : Storage} {s : Settings} {k : Nat}

/-- The caches have been filled and the post office has been added, and no branch has been made
again yet. -/
structure Added (mode : PersistenceMode) (b : Broker) : Prop where
  begun : Begun mode b
  transactions : b.transactions = []
  branches : (b.deskAt (some 0)).branches = {}
  elsewhere : ∀ ref c, b.caches.get? ref = some c → ∃ a, ref = .office 0 a

/-- The last thing that a start does is to make the branches again. -/
theorem start_cases (hpersist : s.persistIdCache = true ∧ s.duplicateDetection = true)
    (hordered : Ledger.Ordered storage.ledger.committed)
    (h : ({ mailboxes, storage } : Broker).start s = (b, .ok k)) :
    ∃ c, Added s.idCachePersistence c ∧
      b = (byBranch storage.ledger.preparedRecords).foldl (recoverBranch 0) c := by
  obtain ⟨c, ps, hload, rfl⟩ := start_ok hpersist h
  obtain ⟨hfilled, rfl⟩ := filling_load hordered hload
  have hsame : c.storage.ledger.preparedRecords = storage.ledger.preparedRecords := by
    simp only [Ledger.preparedRecords, Ledger.preparedByBranch, hfilled.prepared]
  rw [hsame]
  refine ⟨_, ⟨begun_filled hordered hfilled rfl rfl, hfilled.transactions, ?_, ?_⟩, rfl⟩
  · simp [deskAt, office, hfilled.offices, Office.ofSettings]
  · intro ref d hd
    obtain ⟨a, -, href, -⟩ := (hfilled.filled ref d).1 hd
    exact ⟨a, href⟩

section

variable (hpersist : s.persistIdCache = true ∧ s.duplicateDetection = true)
  (hordered : Ledger.Ordered storage.ledger.committed)
  (h : ({ mailboxes, storage } : Broker).start s = (b, .ok k))

include hpersist hordered h

/-- After a start there is one transaction for each branch, and the desk knows each by its xid. -/
theorem transactions_start :
    b.transactions = recoveredTransactions 0 (byBranch storage.ledger.preparedRecords) := by
  obtain ⟨c, hc, rfl⟩ := start_cases hpersist hordered h
  rw [(desk_branches _ hc.begun (nodup_byBranch _)).1, hc.transactions]
  rfl

/-- The branches after a start are numbered as they stand in the journal. -/
theorem branches_start (x : Xid) (m : Nat) :
    (b.deskAt (some 0)).branches.get? x = some m ↔
      ∃ i rs, (byBranch storage.ledger.preparedRecords)[i]? = some (x, rs) ∧ m = i + 1 := by
  obtain ⟨c, hc, rfl⟩ := start_cases hpersist hordered h
  rw [(desk_branches _ hc.begun (nodup_byBranch _)).2, hc.transactions, hc.branches]
  simp [Table.get?, Table.find]

theorem transaction_start {i : Nat} {t : Transaction} :
    b.transactions[i]? = some t ↔
      ∃ branch, (byBranch storage.ledger.preparedRecords)[i]? = some branch ∧
        t = recoveredTransaction (i + 1) branch := by
  rw [transactions_start hpersist hordered h, getElem?_recoveredTransactions,
    Option.map_eq_some_iff, Nat.zero_add]
  exact exists_congr fun _ => and_congr_right fun _ => eq_comm

theorem outline_start {i : Nat} {o : Outline} :
    b.outlines[i]? = some o ↔
      ∃ branch, (byBranch storage.ledger.preparedRecords)[i]? = some branch ∧
        o = (recoveredTransaction (i + 1) branch).outline := by
  rw [outlines, List.getElem?_map, Option.map_eq_some_iff]
  constructor
  · rintro ⟨t, ht, rfl⟩
    obtain ⟨branch, hbranch, rfl⟩ := (transaction_start hpersist hordered h).1 ht
    exact ⟨branch, hbranch, rfl⟩
  · rintro ⟨branch, hbranch, rfl⟩
    exact ⟨_, (transaction_start hpersist hordered h).2 ⟨branch, hbranch, rfl⟩, rfl⟩

/-- The stages after a start are those of the prepared records. -/
theorem records_start :
    (b.view.stages.map (·.staged.record)).Perm (storage.ledger.prepared.map (·.record)) := by
  have hstages : b.view.stages =
      (recoveredTransactions 0 (byBranch storage.ledger.preparedRecords)).flatMap (·.stages) := by
    show b.outlines.flatMap Outline.stages = _
    rw [outlines, transactions_start hpersist hordered h, List.flatMap_map]
    exact List.flatMap_congr fun t _ => t.stages_outline
  have hrecords : ∀ (branches : List (Xid × List Record)) (n : Nat),
      ((recoveredTransactions n branches).flatMap (·.stages)).map (·.staged.record) =
        branches.flatMap (·.2) := by
    intro branches
    induction branches with
    | nil => exact fun n => rfl
    | cons branch rest ih =>
      intro n
      rw [recoveredTransactions, List.flatMap_cons, List.map_append, ih,
        records_recoveredTransaction, List.flatMap_cons]
  rw [hstages, hrecords]
  exact (records_byBranch _).trans (storage.ledger.preparedRecords_perm.map _)

end

section

variable (hpersist : s.persistIdCache = true ∧ s.duplicateDetection = true)
  (hclean : storage.ledger.Clean) (h : ({ mailboxes, storage } : Broker).start s = (b, .ok k))

include hpersist hclean h

theorem restaging_start : Restaging [] b := by
  obtain ⟨c, hc, rfl⟩ := start_cases hpersist hclean.ordered h
  have hnone : c.view.stages = [] := by
    show c.outlines.flatMap _ = []
    rw [outlines, hc.transactions]
    rfl
  apply restaging_branches _ hc.begun
  refine ⟨hc.elsewhere, by simp [hnone], ?_⟩
  rw [hnone, List.map_nil, List.nil_append]
  have hrecords := ((records_byBranch storage.ledger.preparedRecords).trans
    (storage.ledger.preparedRecords_perm.map (·.record))).map Record.label
  rw [hrecords.nodup_iff, List.map_map]
  refine List.pairwise_map.2 ((List.pairwise_map.1 hclean.staged).imp fun hne hlabel => hne ?_)
  obtain ⟨href, hid⟩ := Prod.mk.inj hlabel
  exact Prod.ext (CacheRef.office.inj href).2 hid

/-- What is pending after a start is held by a branch, and stands in the journal as prepared. -/
theorem stage_start {ref : CacheRef} {id : Bytes} {q : Pending}
    (hq : (b.cache ref).pending.get? id = some q) :
    ∃ g ∈ b.view.stages, g.cache = ref ∧ g.staged.duplicateId = id ∧
      ∃ p ∈ storage.ledger.prepared, p.record.address = g.staged.address ∧
        p.record.duplicateId = id := by
  have hrestored := restored_start hpersist hclean.ordered h
  have hbegun := (begun_start hpersist hclean.ordered h).1
  rcases hget : b.caches.get? ref with _ | c
  · rw [cache_of_get?_none hget] at hq
    cases hq
  · obtain ⟨a, rfl⟩ := (restaging_start hpersist hclean h).elsewhere ref c hget
    obtain ⟨r, hr, rfl, rfl⟩ := (hrestored.pending a id).1 ⟨q, hq⟩
    obtain ⟨g, hg, rfl⟩ := List.mem_map.1 ((records_start hpersist hclean.ordered h).mem_iff.2 hr)
    obtain ⟨p, hp, hrecord⟩ := List.mem_map.1 hr
    exact ⟨g, hg, (hbegun.stages hg).1, rfl, p, hp, by rw [hrecord]; rfl, by rw [hrecord]⟩

/-- After a start the stages of each branch are in line. -/
theorem aligned_start : MessageRouting.Aligned b.view := by
  apply aligned_of_ascending
  intro o ho
  obtain ⟨i, hi⟩ := List.mem_iff_getElem?.1 ho
  obtain ⟨⟨x, rs⟩, hbranch, rfl⟩ := (outline_start hpersist hclean.ordered h).1 hi
  obtain ⟨y, -, hy⟩ := List.mem_map.1 (List.mem_of_getElem? hbranch)
  obtain ⟨rfl, rfl⟩ := Prod.mk.inj hy
  rw [Transaction.stages_outline, stages_recoveredTransaction]
  refine List.pairwise_map.2 (List.pairwise_map.2 ?_)
  refine ((Ledger.sorted_preparedRecords hclean.placed).sublist List.filter_sublist).imp ?_
  exact fun hlt href => hlt (CacheRef.office.inj href).2

theorem custody_start : Custody noFloor b.view := by
  have hbegun := (begun_start hpersist hclean.ordered h).1
  have hplaces : (b.view.stages.map HeldStage.place).Nodup := by
    have hplace : ∀ g ∈ b.view.stages, g.place =
        ((fun r : Record => (CacheRef.office 0 r.address, r.sequence)) ∘ (·.staged.record)) g :=
      fun g hg => Prod.ext (hbegun.stages hg).1 rfl
    rw [List.map_congr_left hplace, ← List.map_map,
      ((records_start hpersist hclean.ordered h).map _).nodup_iff, List.map_map]
    refine List.pairwise_map.2 ((List.pairwise_map.1 hclean.placed).imp fun hne hsame => hne ?_)
    obtain ⟨href, hsequence⟩ := Prod.mk.inj hsame
    exact Prod.ext (CacheRef.office.inj href).2 hsequence
  refine ⟨fun _ => Nat.zero_le _, fun g hg => (hbegun.stages hg).2, ?_, fun g hg _ => ?_⟩
  · exact hplaces.sublist (List.filter_sublist.map _)
  · exact (restaging_start hpersist hclean h).opens g (stages_of_live hg)

theorem owned_start : Owned b.view := by
  intro g hopen
  obtain ⟨haddress, key, hkey⟩ := hopen
  obtain ⟨t, ht, href, hid, -⟩ := stage_start hpersist hclean h hkey
  have hsame : g = t := by
    obtain ⟨ref, u⟩ := g
    obtain ⟨ref', v⟩ := t
    obtain rfl : ref' = ref := href
    have htopen := (restaging_start hpersist hclean h).opens _ ht
    obtain rfl : u = v := Cache.eq_of_holds ⟨haddress, key, hkey⟩ htopen hid.symm
    rfl
  subst hsame
  obtain ⟨o, ho, hmem⟩ := List.mem_flatMap.1 (show g ∈ b.outlines.flatMap Outline.stages from ht)
  obtain ⟨i, hi⟩ := List.mem_iff_getElem?.1 ho
  obtain ⟨branch, -, rfl⟩ := (outline_start hpersist hclean.ordered h).1 hi
  refine .inr ⟨i, _, hi, rfl, hmem, ?_⟩
  rw [Transaction.stages_outline, stages_recoveredTransaction] at hmem
  obtain ⟨r, -, rfl⟩ := List.mem_map.1 hmem
  rfl

/-- What is pending after a start is not visible. -/
theorem hidden_start {a : Address} {id : Bytes} {q : Pending}
    (hq : (b.cache (.office 0 a)).pending.get? id = some q) :
    (b.cache (.office 0 a)).index.get? id = none := by
  obtain ⟨g, hg, href, rfl, p, hp, haddress, hid⟩ := stage_start hpersist hclean h hq
  have hrestored := restored_start hpersist hclean.ordered h
  have hbegun := (begun_start hpersist hclean.ordered h).1
  have hne := Ledger.sequence_ne_of_records hclean.ordered a
  refine Option.eq_none_iff_forall_ne_some.2 fun key hkey => ?_
  rw [hrestored.index, (Cache.sound_load (c := { address := a, capacity := s.idCacheCapacity }) rfl
    rfl rfl hne (hclean.listed a)).index] at hkey
  obtain ⟨-, -, -, hmem⟩ := Cache.mem_load
    (c := { address := a, capacity := s.idCacheCapacity }) rfl rfl hne
  obtain ⟨r, hr, heq⟩ := (hmem _).1 hkey
  have hrecord := (Cache.surplus_retained ..).mem_iff.1 (List.mem_append_right _ hr)
  have hga : g.staged.address = a :=
    (CacheRef.office.inj ((hbegun.stages hg).1.symm.trans href)).2
  -- The journal would list the identifier as committed, and as prepared besides.
  refine absurd ?_ (hclean.apart p hp)
  rw [haddress, hga, hid, (Prod.mk.inj heq).2]
  exact List.mem_map_of_mem hrecord

theorem sound_start : AllSound b := by
  have hrestored := restored_start hpersist hclean.ordered h
  have hbegun := (begun_start hpersist hclean.ordered h).1
  have hroom : 0 < s.idCacheCapacity := by
    have hsize : 0 < s.idCacheSize := by simpa [Settings.duplicateDetection] using hpersist.2
    unfold Settings.idCacheCapacity
    omega
  intro ref
  rcases hget : b.caches.get? ref with _ | c
  · rw [cache_of_get?_none hget]
    exact Cache.sound_empty ..
  · obtain ⟨a, rfl⟩ := (restaging_start hpersist hclean h).elsewhere ref c hget
    have hloaded := Cache.sound_load (c := { address := a, capacity := s.idCacheCapacity }) rfl rfl
      rfl (Ledger.sequence_ne_of_records hclean.ordered a) (hclean.listed a)
    have hcapacity : (b.cache (.office 0 a)).capacity = s.idCacheCapacity := by
      rw [cache_of_get?_some hget]
      exact (hrestored.equipped.caches a c hget).2
    refine ⟨hbegun.keyed _, fun id key => ?_, ?_, fun id q hq => ?_, fun id q hq => ?_,
      fun id q hq => ?_⟩
    · rw [hrestored.index, hrestored.visible]
      exact hloaded.index id key
    · have hfilled := Cache.filled_load (c := { address := a, capacity := s.idCacheCapacity }) rfl
        (Ledger.sequence_ne_of_records hclean.ordered a)
      rw [hrestored.visible, hcapacity]
      exact Nat.le_trans hloaded.fits (Nat.le_of_eq hfilled.capacity)
    · exact hidden_start hpersist hclean h hq
    · rw [hcapacity]
      exact hroom
    · obtain ⟨g, hg, href, rfl, -⟩ := stage_start hpersist hclean h hq
      obtain ⟨-, key, hkey⟩ := (restaging_start hpersist hclean h).opens g hg
      have hlt := (hbegun.stages hg).2
      rw [href] at hkey hlt
      rw [hkey] at hq
      cases hq
      exact hlt

/-- What holds between two requests holds after a start on a journal in order, too. -/
theorem tidy_start (htakes : ∀ e : Entry, storage.Takes e.method) :
    Tidy s.idCachePersistence s.idCacheCapacity b := by
  have hrestored := restored_start hpersist hclean.ordered h
  obtain ⟨hbegun, hkept, hxids, hrecords⟩ := begun_start hpersist hclean.ordered h
  refine ⟨hbegun.proper _, hbegun.filed, fun e => hkept _ (htakes e),
    hbegun.pledged (hkept _ (htakes (.resolve default))) hrecords, ?_,
    custody_start hpersist hclean h, owned_start hpersist hclean h, aligned_start hpersist hclean h,
    sound_start hpersist hclean h, ⟨?_, hrestored.equipped.caches⟩, hbegun.unkeyed⟩
  · rw [← xids_view]
    exact hxids
  · rw [settings_books]
    exact hrestored.equipped.settings

end

end Broker

end MessageRouting
