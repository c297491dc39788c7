import Mathlib.Data.List.Sort
import MessageRouting.Journal.Storage

/-!
# Ledgers after writes

What a ledger holds after an entry, and after many. Committed records stand in
a strict order, so that those of an address are known once it is known which
they are; committed and prepared records never depend on each other.

Results:

* `mem_add`, `mem_prune`: which committed records stand after an entry.
* `ordered_applyAll`: committed records stay in order.
* `records_ext`: what the ledger lists for an address follows from what is in it.
* `ledger_write`: a write that the journal takes is applied to its ledger.
-/

namespace MessageRouting

/-! ## The order of records -/

namespace Address

theorem before_irrefl (a : Address) : a.before a = false := by
  exact decide_eq_false (String.lt_irrefl _)

theorem before_trans {a b c : Address} (hab : a.before b = true) (hbc : b.before c = true) :
    a.before c = true := by
  simp only [before, decide_eq_true_eq] at *
  exact String.lt_trans hab hbc

theorem before_total {a b : Address} (hne : a ≠ b) (hab : a.before b = false) :
    b.before a = true := by
  obtain ⟨s⟩ := a
  obtain ⟨t⟩ := b
  simp only [before, decide_eq_false_iff_not, decide_eq_true_eq, ne_eq, Address.mk.injEq] at *
  have hle : t ≤ s := String.not_lt.1 hab
  exact Decidable.byContradiction fun hnot => hne (String.le_antisymm (String.not_lt.1 hnot) hle)

end Address

namespace Record

theorem samePlace_iff {r s : Record} :
    r.samePlace s = true ↔ r.address = s.address ∧ r.sequence = s.sequence := by
  simp [samePlace]

theorem before_irrefl (r : Record) : r.before r = false := by simp [before]

theorem before_trans {r s t : Record} (hrs : r.before s = true) (hst : s.before t = true) :
    r.before t = true := by
  unfold before at *
  by_cases h₁ : r.address = s.address
  · by_cases h₂ : s.address = t.address
    · rw [if_pos (h₁.trans h₂)]
      rw [if_pos h₁, decide_eq_true_eq] at hrs
      rw [if_pos h₂, decide_eq_true_eq] at hst
      rw [decide_eq_true_eq]
      omega
    · rw [if_neg fun h => h₂ (h₁.symm.trans h), h₁]
      rwa [if_neg h₂] at hst
  · rw [if_neg h₁] at hrs
    by_cases h₂ : s.address = t.address
    · rw [if_neg fun h => h₁ (h.trans h₂.symm), ← h₂]
      exact hrs
    · rw [if_neg h₂] at hst
      have hrt := Address.before_trans hrs hst
      rw [if_neg]
      · exact hrt
      · intro heq
        rw [heq] at hrs
        have hss := Address.before_trans hst hrs
        rw [Address.before_irrefl] at hss
        cases hss

theorem before_total {r s : Record} (hplace : r.samePlace s = false)
    (hrs : r.before s = false) : s.before r = true := by
  unfold before at *
  by_cases h : r.address = s.address
  · rw [if_pos h, decide_eq_false_iff_not] at hrs
    rw [if_pos h.symm, decide_eq_true_eq]
    have hne : r.sequence ≠ s.sequence := fun hseq => by
      rw [samePlace_iff.2 ⟨h, hseq⟩] at hplace
      cases hplace
    omega
  · rw [if_neg h] at hrs
    rw [if_neg fun he => h he.symm]
    exact Address.before_total h hrs

theorem not_samePlace_of_before {r s : Record} (h : r.before s = true) :
    r.samePlace s = false := by
  cases hplace : r.samePlace s with
  | false => rfl
  | true =>
    obtain ⟨ha, hseq⟩ := samePlace_iff.1 hplace
    simp [before, ha, hseq] at h

end Record

namespace Ledger

/-- The records stand in order, no two at one place. -/
def Ordered (rs : List Record) : Prop := rs.Pairwise fun r s => r.before s = true

theorem ordered_placeRecord {r : Record} {rs : List Record} (h : Ordered rs) :
    Ordered (placeRecord r rs) := by
  induction rs with
  | nil => exact List.pairwise_singleton ..
  | cons s rest ih =>
    obtain ⟨hs, hrest⟩ := List.pairwise_cons.1 h
    simp only [placeRecord]
    split
    · rename_i hplace
      obtain ⟨ha, hseq⟩ := Record.samePlace_iff.1 hplace
      refine List.pairwise_cons.2 ⟨fun t ht => ?_, hrest⟩
      have hst := hs t ht
      simp only [Record.before, ha, hseq] at hst ⊢
      exact hst
    · rename_i hplace
      split
      · rename_i hbefore
        refine List.pairwise_cons.2 ⟨fun t ht => ?_, h⟩
        rcases List.mem_cons.1 ht with rfl | ht
        · exact hbefore
        · exact Record.before_trans hbefore (hs t ht)
      · rename_i hbefore
        refine List.pairwise_cons.2 ⟨fun t ht => ?_, ih hrest⟩
        rcases mem_placeRecord ht with rfl | ht
        · exact Record.before_total (by simpa using hplace) (by simpa using hbefore)
        · exact hs t ht

/-- A record that has been placed stands over the one at its place. -/
theorem mem_placeRecord_iff {r s : Record} {rs : List Record} (h : Ordered rs) :
    s ∈ placeRecord r rs ↔ s = r ∨ s ∈ rs ∧ r.samePlace s = false := by
  induction rs with
  | nil => simp [placeRecord]
  | cons t rest ih =>
    obtain ⟨ht, hrest⟩ := List.pairwise_cons.1 h
    have hother : ∀ u ∈ rest, t.samePlace u = false := fun u hu =>
      Record.not_samePlace_of_before (ht u hu)
    simp only [placeRecord]
    split
    · rename_i hplace
      obtain ⟨ha, hseq⟩ := Record.samePlace_iff.1 hplace
      have hsame : ∀ u, r.samePlace u = t.samePlace u := fun u => by
        simp only [Record.samePlace, ha, hseq]
      simp only [List.mem_cons]
      constructor
      · rintro (rfl | hs)
        · exact Or.inl rfl
        · exact Or.inr ⟨Or.inr hs, by rw [hsame, hother s hs]⟩
      · rintro (rfl | ⟨rfl | hs, hnot⟩)
        · exact Or.inl rfl
        · rw [hplace] at hnot
          cases hnot
        · exact Or.inr hs
    · rename_i hplace
      split
      · rename_i hbefore
        have hafter : ∀ u ∈ t :: rest, r.samePlace u = false := fun u hu => by
          rcases List.mem_cons.1 hu with rfl | hu
          · simpa using hplace
          · exact Record.not_samePlace_of_before (Record.before_trans hbefore (ht u hu))
        rw [List.mem_cons]
        constructor
        · rintro (rfl | hs)
          · exact Or.inl rfl
          · exact Or.inr ⟨hs, hafter s hs⟩
        · rintro (rfl | ⟨hs, -⟩)
          · exact Or.inl rfl
          · exact Or.inr hs
      · rw [List.mem_cons, ih hrest, List.mem_cons]
        constructor
        · rintro (rfl | rfl | ⟨hs, hnot⟩)
          · exact Or.inr ⟨Or.inl rfl, by simpa using hplace⟩
          · exact Or.inl rfl
          · exact Or.inr ⟨Or.inr hs, hnot⟩
        · rintro (rfl | ⟨rfl | hs, hnot⟩)
          · exact Or.inr (Or.inl rfl)
          · exact Or.inl rfl
          · exact Or.inr (Or.inr ⟨hs, hnot⟩)

/-! ## Committed and prepared records apart -/

end Ledger

attribute [ext] Ledger

/-- Whether the entry is about prepared records. -/
def Entry.isPrepared : Entry → Bool
  | .prepare _ _ => true
  | .resolve _ => true
  | _ => false

namespace Ledger

/-- What an entry makes of the committed records. -/
def committedAfter (rs : List Record) : Entry → List Record
  | .add r => placeRecord r rs
  | .prune a n => rs.filter fun r => !(r.address = a && r.sequence = n)
  | _ => rs

/-- What an entry makes of the prepared records. -/
def preparedAfter (ps : List PreparedRecord) : Entry → List PreparedRecord
  | .prepare x r => ps ++ [⟨x, r⟩]
  | .resolve x => ps.filter fun p => p.xid ≠ x
  | _ => ps

theorem committed_apply (l : Ledger) (e : Entry) :
    (l.apply e).committed = committedAfter l.committed e := by cases e <;> rfl

theorem prepared_apply (l : Ledger) (e : Entry) :
    (l.apply e).prepared = preparedAfter l.prepared e := by cases e <;> rfl

theorem committed_applyAll (l : Ledger) (es : List Entry) :
    (l.applyAll es).committed = es.foldl committedAfter l.committed := by
  induction es generalizing l with
  | nil => rfl
  | cons e rest ih =>
    show ((l.apply e).applyAll rest).committed = _
    rw [ih, committed_apply]
    rfl

theorem prepared_applyAll (l : Ledger) (es : List Entry) :
    (l.applyAll es).prepared = es.foldl preparedAfter l.prepared := by
  induction es generalizing l with
  | nil => rfl
  | cons e rest ih =>
    show ((l.apply e).applyAll rest).prepared = _
    rw [ih, prepared_apply]
    rfl

/-! ## Committed records -/

theorem ordered_committedAfter {rs : List Record} (h : Ordered rs) (e : Entry) :
    Ordered (committedAfter rs e) := by
  cases e with
  | add r => exact ordered_placeRecord h
  | prune a n => exact h.filter _
  | prepare x r => exact h
  | resolve x => exact h

/-- Committed records stay in order. -/
theorem ordered_applyAll {l : Ledger} (h : Ordered l.committed) (es : List Entry) :
    Ordered (l.applyAll es).committed := by
  rw [committed_applyAll]
  generalize l.committed = rs at h
  induction es generalizing rs with
  | nil => exact h
  | cons e rest ih => exact ih _ (ordered_committedAfter h e)

/-- The records of a journal that has been written from nothing stand in order. -/
theorem ordered_of_entries {l : Ledger} {es : List Entry} (h : l = ({} : Ledger).applyAll es) :
    Ordered l.committed := by
  rw [h]
  exact ordered_applyAll (l := {}) .nil es

theorem ordered_apply {l : Ledger} (h : Ordered l.committed) (e : Entry) :
    Ordered (l.apply e).committed := ordered_applyAll h [e]

/-- A record that is added stands over the one at its place. -/
theorem mem_add {l : Ledger} (h : Ordered l.committed) (r s : Record) :
    s ∈ (l.apply (.add r)).committed ↔ s = r ∨ s ∈ l.committed ∧ r.samePlace s = false :=
  mem_placeRecord_iff h

theorem mem_prune (l : Ledger) (a : Address) (n : Nat) (s : Record) :
    s ∈ (l.apply (.prune a n)).committed ↔
      s ∈ l.committed ∧ ¬ (s.address = a ∧ s.sequence = n) := by
  simp [apply, Decidable.or_iff_not_imp_left]

/-- After records of an address have been pruned all others stand. -/
theorem mem_prunes {α : Type} (l : Ledger) (a : Address) (f : α → Nat) (es : List α) (s : Record) :
    s ∈ (l.applyAll (es.map fun e => .prune a (f e))).committed ↔
      s ∈ l.committed ∧ ∀ e ∈ es, ¬ (s.address = a ∧ s.sequence = f e) := by
  induction es generalizing l with
  | nil => simp [applyAll]
  | cons e rest ih =>
    refine (ih (l.apply (.prune a (f e)))).trans ?_
    rw [mem_prune, List.forall_mem_cons, and_assoc]

/-- Pruning leaves prepared records. -/
theorem prepared_prunes {α : Type} (l : Ledger) (a : Address) (f : α → Nat) (es : List α) :
    (l.applyAll (es.map fun e => .prune a (f e))).prepared = l.prepared := by
  rw [prepared_applyAll]
  induction es with
  | nil => rfl
  | cons e rest ih => exact ih

/-- Records that stand in order are known once it is known which there are. -/
theorem ordered_ext {rs rs' : List Record} (h : Ordered rs) (h' : Ordered rs')
    (hmem : ∀ r, r ∈ rs ↔ r ∈ rs') : rs = rs' := by
  have : Std.Irrefl fun r s : Record => r.before s = true :=
    ⟨fun r hr => by rw [Record.before_irrefl] at hr; cases hr⟩
  have : Std.Antisymm fun r s : Record => r.before s = true :=
    ⟨fun r s hrs hsr => by
      have hrr := Record.before_trans hrs hsr
      rw [Record.before_irrefl] at hrr
      cases hrr⟩
  exact List.Pairwise.eq_of_mem_iff h h' hmem

/-- What is listed for an address is known once it is known which records stand there. -/
theorem records_ext {l : Ledger} (h : Ordered l.committed) {a : Address} {rs : List Record}
    (hsorted : Ordered rs) (hmem : ∀ r, r ∈ rs ↔ r ∈ l.committed ∧ r.address = a) :
    l.records a = rs := by
  refine ordered_ext (h.filter _) hsorted fun r => ?_
  rw [hmem, records, List.mem_filter, decide_eq_true_eq]

/-- Pruning at one address leaves what is listed for the others. -/
theorem records_prunes {α : Type} {l : Ledger} (h : Ordered l.committed) {a a' : Address}
    (ha : a' ≠ a) (f : α → Nat) (es : List α) :
    (l.applyAll (es.map fun e => .prune a (f e))).records a' = l.records a' := by
  refine records_ext (ordered_applyAll h _) (h.filter _) fun r => ?_
  rw [mem_prunes, records, List.mem_filter, decide_eq_true_eq]
  constructor
  · rintro ⟨hr, hra⟩
    exact ⟨⟨hr, fun e _ hsame => ha (hra.symm.trans hsame.1)⟩, hra⟩
  · rintro ⟨⟨hr, -⟩, hra⟩
    exact ⟨hr, hra⟩

/-! ## Prepared records -/

theorem perm_preparedAfter {ps qs : List PreparedRecord} (h : ps.Perm qs) (e : Entry) :
    (preparedAfter ps e).Perm (preparedAfter qs e) := by
  cases e with
  | prepare x r => exact h.append_right _
  | resolve x => exact h.filter _
  | add r => exact h
  | prune a n => exact h

theorem perm_preparedAll {ps qs : List PreparedRecord} (h : ps.Perm qs) (es : List Entry) :
    (es.foldl preparedAfter ps).Perm (es.foldl preparedAfter qs) := by
  induction es generalizing ps qs with
  | nil => exact h
  | cons e rest ih => exact ih (perm_preparedAfter h e)

/-- Prepared records are a matter of the entries that tell of prepared records. -/
theorem preparedAll_filter (ps : List PreparedRecord) (es : List Entry) :
    (es.filter Entry.isPrepared).foldl preparedAfter ps = es.foldl preparedAfter ps := by
  induction es generalizing ps with
  | nil => rfl
  | cons e rest ih => cases e <;> exact ih _

/-- Records of branches that none of the entries resolves stay beside the others. -/
theorem preparedAll_append {qs : List PreparedRecord} {es : List Entry}
    (h : ∀ q ∈ qs, .resolve q.xid ∉ es) (ps : List PreparedRecord) :
    (es.foldl preparedAfter (ps ++ qs)).Perm (es.foldl preparedAfter ps ++ qs) := by
  induction es generalizing ps with
  | nil => exact .refl _
  | cons e rest ih =>
    have hrest : ∀ q ∈ qs, .resolve q.xid ∉ rest := fun q hq hmem => h q hq (by simp [hmem])
    have hstep : (preparedAfter (ps ++ qs) e).Perm (preparedAfter ps e ++ qs) := by
      cases e with
      | add r => exact .refl _
      | prune a n => exact .refl _
      | prepare x r =>
        simp only [preparedAfter, List.append_assoc]
        exact (List.perm_append_comm).append_left ps
      | resolve x =>
        have hqs : qs.filter (fun p => p.xid ≠ x) = qs := List.filter_eq_self.2 fun q hq => by
          have hne : q.xid ≠ x := fun hx => h q hq (by simp [hx])
          simpa using hne
        simp only [preparedAfter, List.filter_append, hqs]
        exact .refl _
    exact (perm_preparedAll hstep rest).trans (ih hrest (preparedAfter ps e))

end Ledger

/-! ## Writes -/

namespace Storage

/-- Whether no call of kind `m` fails from now on. -/
def Takes (s : Storage) (m : JournalMethod) : Prop := m ∉ s.failing ∧ some m ∉ s.lapses

/-- A write is applied to the ledger, or fails and leaves it alone. -/
theorem ledger_write (s : Storage) (e : Entry) :
    ((s.write e).2 = .ok () ∧ (s.write e).1.ledger = s.ledger.apply e) ∨
      (∃ err, (s.write e).2 = .error err) ∧ (s.write e).1.ledger = s.ledger := by
  unfold write
  cases s.permitWrite e.method with
  | error err => exact Or.inr ⟨⟨err, rfl⟩, rfl⟩
  | ok _ =>
    refine Or.inl ?_
    cases hfile : s.file with
    | some f => simp [ledger, JournalFile.write, hfile]
    | none => simp [ledger, hfile]

theorem write_of_takes {s : Storage} {e : Entry} (h : s.Takes e.method) :
    (s.write e).2 = .ok () ∧ (s.write e).1.ledger = s.ledger.apply e := by
  have hok : s.permitWrite e.method = .ok () := by
    have hlapse : s.lapses.head? ≠ some (some e.method) := fun hhead =>
      h.2 (List.mem_of_mem_head? (by rw [hhead]; rfl))
    rw [permitWrite, if_neg hlapse, permit, if_neg h.1]
  rcases ledger_write s e with hwritten | ⟨⟨err, herr⟩, -⟩
  · exact hwritten
  · unfold write at herr
    rw [hok] at herr
    cases hfile : s.file <;> simp [hfile] at herr

theorem takes_write {s : Storage} {m : JournalMethod} (h : s.Takes m) (e : Entry) :
    (s.write e).1.Takes m := by
  have hleft : ({ s with lapses := s.lapses.tail } : Storage).Takes m :=
    ⟨h.1, fun hmem => h.2 (List.mem_of_mem_tail hmem)⟩
  unfold write
  cases s.permitWrite e.method with
  | error err => exact hleft
  | ok _ =>
    cases s.file with
    | some f => exact hleft
    | none => exact hleft

end Storage

end MessageRouting
