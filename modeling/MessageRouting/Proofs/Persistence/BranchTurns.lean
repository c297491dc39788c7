import MessageRouting.Proofs.Persistence.JournalMirror

/-!
# Prepared records and the turns of branches

What is stored and what is to be deleted of prepared records follows from what
becomes of the transactions: a branch that is prepared has records of its stages
stored, and one that is completed with a stage that has been stored has the
records of its xid deleted, by the writer. The mode does not come into it.

Results:

* `outstanding_perform`: the prepared records, and what the writer has still to
  make of them, after a request.
* `outstanding_flush`: the same once the writer has caught up.
* `remaining_perform`: when the writer writes makes no difference in the end, as
  long as no branch is prepared while records of its xid are to be deleted.
* `unhurried_of_pledged`: with different xids none is.
-/

namespace MessageRouting

open Relation (ReflGen ReflTransGen)

namespace Ledger

/-- Entries that store nothing leave the records that none of them deletes. -/
theorem preparedAll_of_unstored {es : List Entry} (h : ∀ x r, .prepare x r ∉ es)
    (ps : List PreparedRecord) :
    es.foldl preparedAfter ps = ps.filter fun p => .resolve p.xid ∉ es := by
  induction es generalizing ps with
  | nil => simp
  | cons e rest ih =>
    have hrest : ∀ x r, .prepare x r ∉ rest := fun x r hmem => h x r (by simp [hmem])
    rw [List.foldl_cons, ih hrest]
    cases e with
    | add r => simp [preparedAfter]
    | prune a n => simp [preparedAfter]
    | prepare x r => exact absurd (by simp) (h x r)
    | resolve x =>
      rw [preparedAfter, List.filter_filter]
      refine List.filter_congr fun p _ => ?_
      simp [Bool.and_comm]

end Ledger

/-- The prepared records that the journal holds, and what the writer has still to make of them. -/
structure Outstanding where
  records : List PreparedRecord
  coming : List Entry
  deriving DecidableEq, Repr

/-- What remains once the writer has caught up. -/
def Outstanding.remaining (s : Outstanding) : List PreparedRecord :=
  s.coming.foldl Ledger.preparedAfter s.records

def Broker.outstanding (b : Broker) : Outstanding :=
  ⟨b.storage.ledger.prepared, b.queue.filter Entry.isPrepared⟩

/-! ## Turns -/

namespace Outline

/-- The records that are stored when a transaction turns from the first outline into the second. -/
def stored (o o' : Outline) : List PreparedRecord :=
  match o'.xid with
  | some x =>
    if o.state = .active ∧ o'.state ≠ .active then
      (o'.held.filter (·.2)).map fun h => ⟨x, h.1.staged.record⟩
    else []
  | none => []

/-- The deletions that are handed over then. -/
def deleted (o o' : Outline) : List Entry :=
  if o.isLive && !o'.isLive then o'.held.flatMap (Broker.released o'.xid) else []

/-- Records and deletions once a transaction has turned from the first outline into the second. -/
def turn (s : Outstanding) (o o' : Outline) : Outstanding :=
  ⟨s.records ++ o.stored o', s.coming ++ o.deleted o'⟩

/-- Records and deletions once transactions have turned from the first outlines into the second. -/
def turnAll (s : Outstanding) (os os' : List Outline) : Outstanding :=
  (os.zip os').foldl (fun s p => turn s p.1 p.2) s

variable {s : Outstanding} {os l₁ l₂ : List Outline} {o o' : Outline}

theorem turn_of_state (h : o'.state = o.state) : turn s o o' = s := by
  have hlive : o'.isLive = o.isLive := by rw [isLive, isLive, h]
  have hstored : o.stored o' = [] := by
    unfold stored
    split
    · rw [if_neg]
      rintro ⟨hactive, hnot⟩
      exact hnot (h.trans hactive)
    · rfl
  have hdeleted : o.deleted o' = [] := by
    unfold deleted
    rw [hlive, if_neg]
    simp
  rw [turn, hstored, hdeleted, List.append_nil, List.append_nil]

theorem turnAll_self : turnAll s os os = s := by
  unfold turnAll
  induction os generalizing s with
  | nil => rfl
  | cons o rest ih =>
    rw [List.zip_cons_cons, List.foldl_cons, turn_of_state rfl]
    exact ih

/-- When one transaction turns, its turn is all there is. -/
theorem turnAll_replaced : turnAll s (l₁ ++ o :: l₂) (l₁ ++ o' :: l₂) = turn s o o' := by
  unfold turnAll
  rw [List.zip_append rfl, List.foldl_append, List.zip_cons_cons, List.foldl_cons]
  have hsame : ∀ (s : Outstanding) (l : List Outline),
      (l.zip l).foldl (fun s p => turn s p.1 p.2) s = s := fun s l => turnAll_self
  rw [hsame, hsame]

end Outline

namespace Broker

variable {P : Call → Prop} {mode : PersistenceMode} {halfway : Prop} {b b' : Broker} {v v' : View}

/-! ## Moves -/

theorem settled_outstanding (b : Broker) : b.settled.prepared = b.outstanding.remaining := by
  rw [settled_prepared]
  exact (Ledger.preparedAll_filter ..).symm

theorem outstanding_of_logs {inline handed : List Entry} (h : Logs b b' inline handed) :
    b'.outstanding = ⟨inline.foldl Ledger.preparedAfter b.outstanding.records,
      b.outstanding.coming ++ handed.filter Entry.isPrepared⟩ := by
  rw [outstanding, h.ledger, h.queue, Ledger.prepared_applyAll, List.filter_append]
  rfl

theorem outstanding_quiet {inline handed : List Entry} (h : Logs b b' inline handed)
    (hinline : inline.filter Entry.isPrepared = []) :
    b'.outstanding =
      ⟨b.outstanding.records, b.outstanding.coming ++ handed.filter Entry.isPrepared⟩ := by
  rw [outstanding_of_logs h, ← Ledger.preparedAll_filter, hinline]
  rfl

/-- Where no transaction changes its state, nothing happens to prepared records. -/
theorem outstanding_passes (h : Passes P v v') (hv : Marked mode v) :
    v'.books.outstanding = v.books.outstanding := by
  obtain ⟨inline, handed, hlogs, hinline, hhanded⟩ := logs_passes h hv.keeping hv.atOffice
  rw [outstanding_quiet hlogs hinline, hhanded, List.append_nil]

/-- The transaction that is prepared or completed changes its state. -/
theorem states_ends (h : Ends halfway v v') :
    v'.outlines.map (·.state) ≠ v.outlines.map (·.state) ∧
      v'.outlines.length = v.outlines.length := by
  have hchanged : ∀ {l₁ l₂ : List Outline} {o o' : Outline}, o'.state ≠ o.state →
      (l₁ ++ o' :: l₂).map (·.state) ≠ (l₁ ++ o :: l₂).map (·.state) ∧
        (l₁ ++ o' :: l₂).length = (l₁ ++ o :: l₂).length := by
    intro l₁ l₂ o o' hne
    refine ⟨fun heq => hne ?_, by simp⟩
    simp only [List.map_append, List.map_cons] at heq
    exact (List.cons.inj (List.append_cancel_left heq)).1
  cases h with
  | prepared hstore => exact hchanged (by simp)
  | unprepared hstore => exact hchanged (by simp)
  | committed hlive hpersist => exact hchanged (by rcases hlive with rfl | rfl <;> simp)
  | undone hlive m hm => exact hchanged (by rcases hlive with rfl | rfl <;> simp)

/-- A transaction that is prepared or completed has its records stored and deleted. -/
theorem turn_ends (h : Ends halfway v v') (hv : Marked mode v) :
    ∃ l₁ l₂ o o', v.outlines = l₁ ++ o :: l₂ ∧ v'.outlines = l₁ ++ o' :: l₂ ∧
      v'.books.outstanding = o.turn v.books.outstanding o' := by
  obtain ⟨hstates, hlength⟩ := states_ends h
  rcases branch_move (P := Call.Routes) h.move hv.keeping hv.atOffice with
    ⟨-, -, -, houtlines⟩ | ⟨-, houtlines⟩ | ⟨x, -, houtlines⟩ | ⟨-, -, hold, hnew⟩ |
    ⟨hlogs, hold, hnew⟩ | ⟨k, hlogs, hold, hnew⟩ |
    ⟨hlive, hdone, hlogs, hinline, hhanded, hold, hnew⟩
  · exact absurd (by rw [houtlines]) hstates
  · exact absurd (by rw [houtlines]) hstates
  · rw [houtlines] at hlength
    simp at hlength
  · exact absurd (by simp [hold, hnew]) hstates
  · rename_i l₁ l₂ x held
    have hmarked : (held.map fun h => (h.1, true)).filter (·.2) = held.map fun h => (h.1, true) :=
      List.filter_eq_self.2 fun g hg => by
        obtain ⟨g', -, rfl⟩ := List.mem_map.1 hg
        rfl
    refine ⟨l₁, l₂, _, _, hold, hnew, ?_⟩
    rw [outstanding_of_logs hlogs, preparedAll_stores, Outline.turn]
    simp [Outline.stored, Outline.deleted, Outline.isLive, hmarked, Function.comp_def]
  · rename_i l₁ l₂ x held
    have hunmarked := (hv.tells ⟨some x, .active, held⟩ (by simp [hold])).1 rfl
    refine ⟨l₁, l₂, _, _, hold, hnew, ?_⟩
    rw [outstanding_of_logs hlogs, preparedAll_stores, filter_released, Outline.turn]
    simp [Outline.stored, Outline.deleted, Outline.isLive, filter_markFirst hunmarked,
      Function.comp_def]
  · rename_i l₁ l₂ x st st' held inline handed
    have htells := hv.tells ⟨x, st, held⟩ (by simp [hold])
    have hstored : Outline.stored ⟨x, st, held⟩ ⟨x, st', held⟩ = [] := by
      unfold Outline.stored
      dsimp only
      split
      · split
        · rename_i hactive
          have hnone : held.filter (·.2) = [] :=
            List.filter_eq_nil_iff.2 fun g hg => by simp [htells.1 hactive.1 g hg]
          rw [hnone]
          rfl
        · rfl
      · rfl
    have hdeleted : Outline.deleted ⟨x, st, held⟩ ⟨x, st', held⟩ = held.flatMap (released x) := by
      rcases hlive with rfl | rfl <;> rcases hdone with rfl | rfl <;> rfl
    refine ⟨l₁, l₂, _, _, hold, hnew, ?_⟩
    rw [outstanding_quiet hlogs hinline, hhanded, Outline.turn, hstored, hdeleted,
      List.append_nil]

/-! ## The writer -/

theorem outstanding_books (b : Broker) : b.books.outstanding = b.outstanding := by
  rw [outstanding, outstanding, queue_books]
  rfl

/-- What the writer writes does not change what remains in the end. -/
theorem remaining_writeSome (hb : Marked mode b.view) (k : Nat) :
    (b.writeSome 0 k).outstanding.remaining = b.outstanding.remaining := by
  induction k generalizing b with
  | zero => rfl
  | succ k ih =>
    have hview : (b.writeNext 0).view = ⟨b.books.writeNext 0, [], b.outlines⟩ := by
      rw [view, books_writeNext, outlines_of_transactions (transactions_writeNext ..)]
    have hnext : Marked mode (b.writeNext 0).view := by
      rw [hview]
      exact marked_move (.written (P := Call.Routes)) hb
    refine (ih hnext).trans ?_
    rw [← outstanding_books (b.writeNext 0), ← outstanding_books b, books_writeNext,
      ← settled_outstanding, ← settled_outstanding]
    exact prepared_writeNext hb.takes hb.storing

/-- Once the writer has caught up, nothing is to come. -/
theorem outstanding_flush (hb : Marked mode b.view) :
    (b.flush 0).outstanding = ⟨b.outstanding.remaining, []⟩ := by
  have hcoming : (b.flush 0).outstanding.coming = [] := by
    show (b.flush 0).queue.filter _ = []
    rw [flush_queue]
    rfl
  have hremaining := remaining_writeSome hb (b.office 0).writer.queue.length
  change (b.flush 0).outstanding.remaining = _ at hremaining
  rw [← hremaining, Outstanding.remaining, hcoming, List.foldl_nil, ← hcoming]

/-! ## When the writer writes -/

/-- A branch with a stage that has been stored has all records of its xid deleted. -/
theorem preparedAll_released {x : Xid} {hs : List (HeldStage × Bool)} (ps : List PreparedRecord)
    (h : ∃ g ∈ hs, g.2 = true) :
    (hs.flatMap (released (some x))).foldl Ledger.preparedAfter ps =
      ps.filter fun p => p.xid ≠ x := by
  obtain ⟨g, hg, hmark⟩ := h
  have hx : .resolve x ∈ hs.flatMap (released (some x)) :=
    List.mem_flatMap.2 ⟨g, hg, by simp [released, hmark]⟩
  have hdeletions : ∀ e ∈ hs.flatMap (released (some x)), e = .resolve x := by
    intro e he
    obtain ⟨y, hy, rfl⟩ := mem_released he
    cases hy
    rfl
  rw [Ledger.preparedAll_of_unstored fun y r hmem => by cases hdeletions _ hmem]
  refine List.filter_congr fun p _ => decide_eq_decide.2 (not_congr ⟨fun hp => ?_, fun hp => ?_⟩)
  · exact Entry.resolve.inj (hdeletions _ hp)
  · exact hp ▸ hx

/-- What remains after a turn does not depend on what the writer has written by then, unless a
branch is prepared while records of its xid are to be deleted. -/
theorem remaining_turn {s : Outstanding} {o o' : Outline} (hplain : ∀ x r, .prepare x r ∉ s.coming)
    (hunhurried : o.state = .active → o'.state = .prepared →
      ∀ x ∈ o'.xid, .resolve x ∉ s.coming) :
    (o.turn s o').remaining = (o.turn ⟨s.remaining, []⟩ o').remaining := by
  show (s.coming ++ o.deleted o').foldl _ (s.records ++ o.stored o') =
    ([] ++ o.deleted o').foldl _ (s.remaining ++ o.stored o')
  rw [List.nil_append, List.foldl_append, Outstanding.remaining,
    Ledger.preparedAll_of_unstored hplain, Ledger.preparedAll_of_unstored hplain,
    List.filter_append]
  by_cases hstored : o.stored o' = []
  · rw [hstored, List.filter_nil]
  obtain ⟨x, hx, hactive, hturned, g, hg, hmark⟩ : ∃ x, o'.xid = some x ∧ o.state = .active ∧
      o'.state ≠ .active ∧ ∃ g ∈ o'.held, g.2 = true := by
    unfold Outline.stored at hstored
    split at hstored
    · rename_i x hx
      split at hstored
      · rename_i hstates
        have hmarked : o'.held.filter (·.2) ≠ [] := fun hnil => hstored (by rw [hnil]; rfl)
        obtain ⟨g, hg⟩ := List.exists_mem_of_ne_nil _ hmarked
        exact ⟨x, hx, hstates.1, hstates.2, g, List.mem_filter.1 hg⟩
      · exact absurd rfl hstored
    · exact absurd rfl hstored
  have hxids : ∀ q ∈ o.stored o', q.xid = x := by
    intro q hq
    unfold Outline.stored at hq
    rw [hx] at hq
    dsimp only at hq
    split at hq
    · obtain ⟨h, -, rfl⟩ := List.mem_map.1 hq
      rfl
    · cases hq
  by_cases hprepared : o'.state = .prepared
  · have hkept : (o.stored o').filter (fun p => .resolve p.xid ∉ s.coming) = o.stored o' := by
      apply List.filter_eq_self.2
      intro q hq
      rw [hxids q hq]
      simpa using hunhurried hactive hprepared x hx
    rw [hkept]
  · have hdeleted : o.deleted o' = o'.held.flatMap (released (some x)) := by
      rw [Outline.deleted, hx, if_pos]
      simp [Outline.isLive, hactive, hturned, hprepared]
    have hgone : ∀ qs : List PreparedRecord, (∀ q ∈ qs, q.xid = x) →
        qs.filter (fun p => p.xid ≠ x) = [] := fun qs hqs =>
      List.filter_eq_nil_iff.2 fun q hq => by simp [hqs q hq]
    rw [hdeleted, preparedAll_released _ ⟨g, hg, hmark⟩, preparedAll_released _ ⟨g, hg, hmark⟩,
      List.filter_append, List.filter_append, hgone _ hxids, hgone _ fun q hq =>
        hxids q (List.mem_filter.1 hq).1]

/-! ## Requests -/

/-- Records and deletions after a request that has no writer write. -/
def outstandingAfter (b : Broker) (s : Outstanding) (c : Command) : Outstanding :=
  if c.isCompletion then Outline.turnAll s b.outlines (b.perform c).1.outlines else s

/-- No branch is prepared while records of its xid are to be deleted. -/
def Unhurried (b : Broker) (c : Command) : Prop :=
  ∀ t ∈ b.transactions.zip (b.perform c).1.transactions, t.1.state = .active →
    t.2.state = .prepared → ∀ x ∈ t.2.xid, .resolve x ∉ b.queue

instance (b : Broker) (c : Command) : Decidable (b.Unhurried c) :=
  inferInstanceAs (Decidable (∀ _ ∈ _, _))

/-- What is about to be deleted belongs to branches that have been completed, so no branch comes too
early if no two transactions have one xid. -/
theorem unhurried_of_pledged {c : Command} (hmoves : Moves P b.view (b.perform c).1.view)
    (hb : Pledged mode b.view) (hxids : (b.perform c).1.view.xids.Nodup) : b.Unhurried c := by
  intro t ht hactive hprepared x hx hmem
  obtain ⟨i, hi⟩ := List.mem_iff_getElem?.1 ht
  obtain ⟨hi, hi'⟩ := List.getElem?_zip_eq_some.1 hi
  have hold : b.view.outlines[i]? = some t.1.outline := by
    rw [view, outlines, List.getElem?_map, hi]
    rfl
  have hnew : (b.perform c).1.view.outlines[i]? = some t.2.outline := by
    rw [view, outlines, List.getElem?_map, hi']
    rfl
  have hsame : t.1.outline.xid = some x := (xid_of_moves hmoves hold hnew).symm.trans hx
  obtain ⟨o, ho, hox, hdone⟩ := hb.resolving x ((queue_books b).symm ▸ hmem)
  -- The completed branch would be the one that is still active.
  obtain rfl := eq_of_xid (nodup_of_moves hmoves hxids) (List.mem_of_getElem? hold) ho hsame hox
  rw [Outline.isLive, show t.1.outline.state = .active from hactive] at hdone
  cases hdone

theorem marked_moves (h : Moves P v v') (hv : Marked mode v) : Marked mode v' := by
  induction h with
  | refl => exact hv
  | tail _ hmove ih => exact marked_move hmove ih

/-- A request that has no writer write leaves records and deletions, or a transaction turns. -/
theorem turn_perform {c : Command} (hc : c.isTraffic = true) (hwriting : c.isWriting = false)
    (hproper : Proper Call.Routes b) (hb : Marked mode b.view) :
    ((b.perform c).1.outstanding = b.outstanding ∧
        ∀ s, b.outstandingAfter s c = s) ∨
      ∃ l₁ l₂ o o', b.outlines = l₁ ++ o :: l₂ ∧ (b.perform c).1.outlines = l₁ ++ o' :: l₂ ∧
        (b.perform c).1.outstanding = o.turn b.outstanding o' ∧
        ∀ s, b.outstandingAfter s c = o.turn s o' := by
  rw [← outstanding_books b, ← outstanding_books (b.perform c).1]
  unfold outstandingAfter
  cases hcompletion : c.isCompletion with
  | true =>
    rcases (Relation.reflGen_iff _ _ _).1 (ends_completion b hcompletion) with heq | hends
    · have houtlines : (b.perform c).1.outlines = b.outlines := congrArg View.outlines heq
      rw [show (b.perform c).1.books = b.books from congrArg View.books heq, houtlines]
      exact Or.inl ⟨rfl, fun s => Outline.turnAll_self⟩
    · obtain ⟨l₁, l₂, o, o', hold, hnew, hturn⟩ := turn_ends hends hb
      refine Or.inr ⟨l₁, l₂, o, o', hold, hnew, hturn, fun s => ?_⟩
      rw [show b.outlines = _ from hold, show (b.perform c).1.outlines = _ from hnew]
      exact Outline.turnAll_replaced
  | false =>
    refine Or.inl ⟨?_, fun _ => rfl⟩
    have hpasses := passes_perform (P := Call.Routes) (fun _ h => h) hc hcompletion hwriting
      hproper fun _ h => routes_of_submits h
    have hall : ∀ {v v' : View}, ReflTransGen (Passes Call.Routes) v v' → Marked mode v →
        v'.books.outstanding = v.books.outstanding := by
      intro v v' h hv
      induction h with
      | refl => rfl
      | tail hearlier hpass ih =>
        rw [outstanding_passes hpass (marked_moves (moves_of_passes hearlier) hv), ih]
    exact hall hpasses hb

theorem outstanding_perform {c : Command} (hc : c.isTraffic = true)
    (hwriting : c.isWriting = false) (hproper : Proper Call.Routes b) (hb : Marked mode b.view) :
    (b.perform c).1.outstanding = b.outstandingAfter b.outstanding c := by
  rcases turn_perform hc hwriting hproper hb with
    ⟨houtstanding, hafter⟩ | ⟨l₁, l₂, o, o', -, -, houtstanding, hafter⟩
  · rw [houtstanding, hafter]
  · rw [houtstanding, hafter]

/-- What remains after a request does not depend on what the writer has written by then, unless a
branch is prepared while records of its xid are to be deleted. -/
theorem remaining_perform {c : Command} (hc : c.isTraffic = true) (hwriting : c.isWriting = false)
    (hproper : Proper Call.Routes b) (hb : Marked mode b.view) (hunhurried : b.Unhurried c) :
    (b.perform c).1.outstanding.remaining =
      (b.outstandingAfter ⟨b.outstanding.remaining, []⟩ c).remaining := by
  rcases turn_perform hc hwriting hproper hb with
    ⟨houtstanding, hafter⟩ | ⟨l₁, l₂, o, o', hold, hnew, houtstanding, hafter⟩
  · rw [houtstanding, hafter]
    rfl
  · rw [houtstanding, hafter]
    have hplain : ∀ x r, .prepare x r ∉ b.outstanding.coming := by
      intro x r hmem
      refine hb.storing x r ?_
      rw [show b.view.books.queue = b.queue from queue_books b]
      exact (List.mem_filter.1 hmem).1
    apply remaining_turn hplain
    intro hactive hprepared x hx hmem
    have hpair : (o, o') ∈ b.outlines.zip (b.perform c).1.outlines := by
      rw [hold, hnew, List.zip_append rfl]
      simp
    rw [outlines, outlines, List.zip_map] at hpair
    obtain ⟨⟨t, t'⟩, ht, heq⟩ := List.mem_map.1 hpair
    obtain ⟨rfl, rfl⟩ := Prod.mk.inj heq
    exact hunhurried _ ht hactive hprepared x hx (List.mem_filter.1 hmem).1

end Broker

end MessageRouting
