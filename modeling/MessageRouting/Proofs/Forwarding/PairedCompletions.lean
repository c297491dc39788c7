import MessageRouting.Proofs.Forwarding.BystanderDeliveries

/-!
# Transactions in tandem

Akin brokers complete their transactions alike. The operations of a transaction
stand at different places there, and are called side by side: bystanders on
their own, the others in pairs, each with its counterpart.

Results:

* `aligned_range`: all operations of a transaction find their counterparts.
* `concur_callUntilFailure`, `Akin.callAll`: a phase fares the same.
* `Akin.undo`, `Akin.conclude`: so do a rollback and what follows a commit.
-/

namespace MessageRouting.Broker

variable {A : String → Bool} {b b' : Broker} {n i i' : Nat}

/-! ## Side by side -/

/-- Places in two lists of operations that are called side by side: those of bystanders on their
own, those of the others in pairs. -/
inductive Aligned (A : String → Bool) (l l' : List Operation) : List Nat → List Nat → Prop where
  | nil : Aligned A l l' [] []
  | left {i : Nat} {is is' : List Nat} {op : Operation} (hop : l[i]? = some op)
    (hparty : op.isParty A = false) (h : Aligned A l l' is is') : Aligned A l l' (i :: is) is'
  | right {i' : Nat} {is is' : List Nat} {op : Operation} (hop : l'[i']? = some op)
    (hparty : op.isParty A = false) (h : Aligned A l l' is is') : Aligned A l l' is (i' :: is')
  | both {i i' : Nat} {is is' : List Nat} {op op' : Operation} (hop : l[i]? = some op)
    (hop' : l'[i']? = some op') (hparty : op.isParty A = true) (hparty' : op'.isParty A = true)
    (hrank : (l'.take i').countP (Operation.isParty A) = (l.take i).countP (Operation.isParty A))
    (h : Aligned A l l' is is') : Aligned A l l' (i :: is) (i' :: is')

theorem countP_take_succ {l : List Operation} {i : Nat} {op : Operation} (hop : l[i]? = some op) :
    (l.take (i + 1)).countP (Operation.isParty A) =
      (l.take i).countP (Operation.isParty A) + if op.isParty A then 1 else 0 := by
  rw [List.take_add_one, hop, List.countP_append]
  simp [List.countP_cons]

/-- From a party on there are more parties. -/
theorem countP_take_lt {l : List Operation} {i : Nat} {op : Operation} (hop : l[i]? = some op)
    (hparty : op.isParty A = true) :
    (l.take i).countP (Operation.isParty A) < l.countP (Operation.isParty A) := by
  have hle := (List.take_sublist (i + 1) l).countP_le (p := Operation.isParty A)
  rw [countP_take_succ hop, if_pos hparty] at hle
  omega

/-- Lists with as many parties are called side by side from places on before which there are as many
parties. -/
theorem aligned_range' {l l' : List Operation}
    (hcount : l'.countP (Operation.isParty A) = l.countP (Operation.isParty A))
    {s i i' k k' : Nat} (hs : k + k' ≤ s) (hk : i + k = l.length) (hk' : i' + k' = l'.length)
    (hrank : (l'.take i').countP (Operation.isParty A) =
      (l.take i).countP (Operation.isParty A)) :
    Aligned A l l' (List.range' i k) (List.range' i' k') := by
  induction s generalizing i i' k k' with
  | zero =>
    obtain ⟨rfl, rfl⟩ : k = 0 ∧ k' = 0 := by omega
    exact .nil
  | succ s ih =>
    rcases Nat.eq_zero_or_pos (k + k') with hdone | hmore
    · obtain ⟨rfl, rfl⟩ : k = 0 ∧ k' = 0 := by omega
      exact .nil
    by_cases hleft : ∃ op, l[i]? = some op ∧ op.isParty A = false
    · obtain ⟨op, hop, hparty⟩ := hleft
      have hi := (List.getElem?_eq_some_iff.1 hop).1
      obtain ⟨k, rfl⟩ : ∃ j, k = j + 1 := ⟨k - 1, by omega⟩
      refine .left hop hparty (ih (by omega) (by omega) hk' ?_)
      rw [countP_take_succ hop, hparty, hrank]
      rfl
    by_cases hright : ∃ op, l'[i']? = some op ∧ op.isParty A = false
    · obtain ⟨op, hop, hparty⟩ := hright
      have hi := (List.getElem?_eq_some_iff.1 hop).1
      obtain ⟨k', rfl⟩ : ∃ j, k' = j + 1 := ⟨k' - 1, by omega⟩
      refine .right hop hparty (ih (by omega) hk (by omega) ?_)
      rw [countP_take_succ hop, hparty, hrank]
      rfl
    -- A party is next in one of the lists, and so in both.
    have hparty : ∀ {l : List Operation} {i : Nat} (hi : i < l.length),
        (¬ ∃ op, l[i]? = some op ∧ op.isParty A = false) → l[i].isParty A = true := fun hi hno => by
      by_contra hfalse
      exact hno ⟨_, List.getElem?_eq_getElem hi, by simpa using hfalse⟩
    have hi : i < l.length := by
      by_contra hge
      have hi' : i' < l'.length := by omega
      have hlt := countP_take_lt (List.getElem?_eq_getElem hi') (hparty hi' hright)
      rw [hrank, List.take_of_length_le (by omega), hcount] at hlt
      omega
    have hi' : i' < l'.length := by
      by_contra hge
      have hlt := countP_take_lt (List.getElem?_eq_getElem hi) (hparty hi hleft)
      rw [← hrank, List.take_of_length_le (by omega), hcount] at hlt
      omega
    obtain ⟨k, rfl⟩ : ∃ j, k = j + 1 := ⟨k - 1, by omega⟩
    obtain ⟨k', rfl⟩ : ∃ j, k' = j + 1 := ⟨k' - 1, by omega⟩
    have hop := List.getElem?_eq_getElem hi
    have hop' := List.getElem?_eq_getElem hi'
    refine .both hop hop' (hparty hi hleft) (hparty hi' hright) hrank
      (ih (by omega) (by omega) (by omega) ?_)
    rw [countP_take_succ hop, countP_take_succ hop', hparty hi hleft, hparty hi' hright, hrank]

theorem countP_given (b : Broker) (n i : Nat) :
    ((b.given n).take i).countP (Operation.isParty A) = b.rank A n i := by
  rw [given, ← List.map_take, List.countP_map, Broker.rank]
  exact congrArg (List.countP · _) (funext Operation.isParty_asGiven)

/-- The operations of transactions that are the same but for bystanders are called side by side. -/
theorem aligned_range (h : Akin A b b') (n : Nat) :
    Aligned A (b.given n) (b'.given n) (b.operationIndexes n) (b'.operationIndexes n) := by
  have hall : ∀ c : Broker, (c.given n).countP (Operation.isParty A) =
      ((c.transaction n).parties A).length := fun c => by
    rw [Transaction.parties, ← List.countP_eq_length_filter, given, List.countP_map]
    exact congrArg (List.countP · _) (funext Operation.isParty_asGiven)
  have hlength : ∀ c : Broker,
      c.operationIndexes n = List.range' 0 (c.given n).length := fun c => by
    rw [operationIndexes, List.range_eq_range', given, List.length_map]
  rw [hlength, hlength]
  refine aligned_range' ?_ (Nat.le_refl _) (Nat.zero_add _) (Nat.zero_add _) rfl
  rw [hall, hall, (h.transaction n).parties]

/-- Places that belong together in what has been registered are seats of the same party. -/
theorem seated_of_given {l l' : List Operation} {op op' : Operation} (hop : l[i]? = some op)
    (hop' : l'[i']? = some op') (hparty : op.isParty A = true) (hparty' : op'.isParty A = true)
    (hrank : (l'.take i').countP (Operation.isParty A) = (l.take i).countP (Operation.isParty A))
    (hl : l <+: b.given n) (hl' : l' <+: b'.given n) : Seated A n i i' b b' := by
  have hfound : ∀ {c : Broker} {l : List Operation} {i : Nat} {op : Operation}, l[i]? = some op →
      op.isParty A = true → l <+: c.given n →
      (∃ op, (c.transaction n).operations[i]? = some op ∧ op.isParty A = true) ∧
        c.rank A n i = (l.take i).countP (Operation.isParty A) := by
    intro c l i op hop hparty hl
    obtain ⟨op', hop', hgiven⟩ := operation_of_given hl hop
    refine ⟨⟨op', hop', by rw [← Operation.isParty_asGiven, hgiven, hparty]⟩, ?_⟩
    obtain ⟨more, hmore⟩ := hl
    rw [← countP_given, ← hmore,
      List.take_append_of_le_length (List.getElem?_eq_some_iff.1 hop).1.le]
  obtain ⟨hseat, hbefore⟩ := hfound hop hparty hl
  obtain ⟨hseat', hbefore'⟩ := hfound hop' hparty' hl'
  exact ⟨hseat, hseat', by rw [hbefore', hbefore, hrank]⟩

/-- An operation that has been registered as a bystander is one. -/
theorem bystander_of_given {l : List Operation} {op : Operation} (hop : l[i]? = some op)
    (hparty : op.isParty A = false) (hl : l <+: b.given n) :
    ∃ op', (b.transaction n).operations[i]? = some op' ∧ op'.isParty A = false := by
  obtain ⟨op', hop', hgiven⟩ := operation_of_given hl hop
  exact ⟨op', hop', by rw [← Operation.isParty_asGiven, hgiven, hparty]⟩

/-! ## Phases -/

/-- Operations called side by side: the first failure is that of a party, and the same at both
brokers. -/
theorem concur_callUntilFailure {l l' : List Operation} {is is' : List Nat}
    (haligned : Aligned A l l' is is') (h : Akin A b b') (hl : l <+: b.given n)
    (hl' : l' <+: b'.given n) (phase : Phase) :
    Concur A (b.callUntilFailure n phase is) (b'.callUntilFailure n phase is') := by
  induction haligned generalizing b b' with
  | nil => exact h.concur _
  | @left i is is' op hop hparty _ ih =>
    obtain ⟨op', hop', hparty'⟩ := bystander_of_given hop hparty hl
    obtain ⟨hok, hcalled⟩ := h.call_bystander hop' hparty' phase
    have hlonger := hl.trans (((callsKeep_lengthens n phase).callOperation b i).kept n)
    rcases hcall : b.callOperation n phase i with ⟨c, result⟩
    rw [hcall] at hok hcalled hlonger
    obtain rfl : result = .ok () := hok
    simp only [callUntilFailure, hcall]
    exact ih hcalled hlonger hl'
  | @right i' is is' op hop hparty _ ih =>
    obtain ⟨op', hop', hparty'⟩ := bystander_of_given hop hparty hl'
    obtain ⟨hok, hcalled⟩ := h.symm.call_bystander hop' hparty' phase
    have hlonger := hl'.trans (((callsKeep_lengthens n phase).callOperation b' i').kept n)
    rcases hcall : b'.callOperation n phase i' with ⟨c', result⟩
    rw [hcall] at hok hcalled hlonger
    obtain rfl : result = .ok () := hok
    simp only [callUntilFailure, hcall]
    exact ih hcalled.symm hl hlonger
  | @both i i' is is' op op' hop hop' hparty hparty' hrank _ ih =>
    have hseat := seated_of_given hop hop' hparty hparty' hrank hl hl'
    have hlonger := hl.trans (((callsKeep_lengthens n phase).callOperation b i).kept n)
    have hlonger' := hl'.trans (((callsKeep_lengthens n phase).callOperation b' i').kept n)
    obtain ⟨c, c', result, hb, hb', hc⟩ := (concur_callParty h hseat phase).split
    rw [hb] at hlonger
    rw [hb'] at hlonger'
    simp only [callUntilFailure, hb, hb']
    cases result with
    | error e => exact hc.concur _
    | ok _ => exact ih hc hlonger hlonger'

theorem Akin.callAll {l l' : List Operation} {is is' : List Nat}
    (haligned : Aligned A l l' is is') (h : Akin A b b') (hl : l <+: b.given n)
    (hl' : l' <+: b'.given n) (phase : Phase) :
    Akin A (b.callAll n phase is) (b'.callAll n phase is') := by
  induction haligned generalizing b b' with
  | nil => exact h
  | @left i is is' op hop hparty _ ih =>
    obtain ⟨op', hop', hparty'⟩ := bystander_of_given hop hparty hl
    exact ih (h.call_bystander hop' hparty' phase).2
      (hl.trans (((callsKeep_lengthens n phase).callOperation b i).kept n)) hl'
  | @right i' is is' op hop hparty _ ih =>
    obtain ⟨op', hop', hparty'⟩ := bystander_of_given hop hparty hl'
    exact ih (h.symm.call_bystander hop' hparty' phase).2.symm hl
      (hl'.trans (((callsKeep_lengthens n phase).callOperation b' i').kept n))
  | @both i i' is is' op op' hop hop' hparty hparty' hrank _ ih =>
    have hseat := seated_of_given hop hop' hparty hparty' hrank hl hl'
    exact ih (concur_callParty h hseat phase).akin
      (hl.trans (((callsKeep_lengthens n phase).callOperation b i).kept n))
      (hl'.trans (((callsKeep_lengthens n phase).callOperation b' i').kept n))

/-! ## Transactions -/

theorem Akin.undo (h : Akin A b b') (n : Nat) : Akin A (b.undo n) (b'.undo n) := by
  have hstate := h.setState n .rolledBack
  exact Akin.callAll (aligned_range hstate n) hstate (List.prefix_refl _) (List.prefix_refl _) _

/-- After a commit those operations are told that have been registered before it. -/
theorem Akin.conclude (h : Akin A b b') (n : Nat) :
    Akin A
      (((b.callUntilFailure n .beforeCommit (b.operationIndexes n)).1.setState n
        .committed).callAll n .afterCommit (b.operationIndexes n))
      (((b'.callUntilFailure n .beforeCommit (b'.operationIndexes n)).1.setState n
        .committed).callAll n .afterCommit (b'.operationIndexes n)) := by
  have haligned := aligned_range h n
  have hcalled := concur_callUntilFailure haligned h (List.prefix_refl _) (List.prefix_refl _)
    .beforeCommit
  have hlonger := (callsKeep_lengthens n .beforeCommit).callUntilFailure b (b.operationIndexes n)
  have hlonger' :=
    (callsKeep_lengthens n .beforeCommit).callUntilFailure b' (b'.operationIndexes n)
  exact Akin.callAll haligned (hcalled.akin.setState n .committed)
    ((hlonger.trans (lengthens_setState ..)).kept n)
    ((hlonger'.trans (lengthens_setState ..)).kept n) .afterCommit

end MessageRouting.Broker
