import MessageRouting.Proofs.Journal.LedgerWrites
import MessageRouting.Proofs.Journal.TornFiles

/-!
# Journal files and journals in memory

A journal file answers like a journal in memory to which the same entries were
written, however often it is closed, opened again and compacted in between. Two
ledgers answer alike if their committed records are the same and each branch has
the same prepared records in the same order. Replaying the live entries of a
ledger makes one like it, which is what compaction needs; how the prepared
records of different branches lie among each other may change.

Results:

* `Alike.apply`, `alike_liveEntries`: what keeps ledgers alike.
* `Alike.preparedRecords`: ledgers that are alike list the same prepared records.
* `mirrors_perform`, `mirrors_performAll`: the file keeps up with the memory, call by call.
* `file_refines_memory`: what a journal file answers, and how many entries it counts.
-/

namespace MessageRouting

/-! ## The order of branches -/

theorem bytesBefore_irrefl (bs : Bytes) : bytesBefore bs bs = false := by
  induction bs with
  | nil => rfl
  | cons b bs ih => rw [bytesBefore, if_pos rfl, ih]

theorem bytesBefore_trans {as bs cs : Bytes} (hab : bytesBefore as bs = true)
    (hbc : bytesBefore bs cs = true) : bytesBefore as cs = true := by
  induction as generalizing bs cs with
  | nil =>
    cases cs with
    | nil => cases bs <;> cases hbc
    | cons c cs => rfl
  | cons a as ih =>
    cases bs with
    | nil => cases hab
    | cons b bs =>
      cases cs with
      | nil => cases hbc
      | cons c cs =>
        simp only [bytesBefore] at hab hbc ⊢
        split at hab
        · rename_i h₁
          split at hbc
          · rename_i h₂
            rw [if_pos (h₁.trans h₂)]
            exact ih hab hbc
          · rename_i h₂
            rw [if_neg (h₁ ▸ h₂), h₁]
            exact hbc
        · rename_i h₁
          rw [decide_eq_true_eq] at hab
          split at hbc
          · rename_i h₂
            rw [if_neg (h₂ ▸ h₁), ← h₂, decide_eq_true_eq]
            exact hab
          · rw [decide_eq_true_eq] at hbc
            have hlt : a.toNat < c.toNat := Nat.lt_trans hab hbc
            rw [if_neg (fun h => by rw [h] at hlt; exact Nat.lt_irrefl _ hlt), decide_eq_true_eq]
            exact hlt

theorem bytesBefore_total {as bs : Bytes} (hne : as ≠ bs) (hab : bytesBefore as bs = false) :
    bytesBefore bs as = true := by
  induction as generalizing bs with
  | nil =>
    cases bs with
    | nil => exact absurd rfl hne
    | cons b bs => cases hab
  | cons a as ih =>
    cases bs with
    | nil => rfl
    | cons b bs =>
      simp only [bytesBefore] at hab ⊢
      by_cases h : a = b
      · rw [if_pos h] at hab
        rw [if_pos h.symm]
        exact ih (fun heq => hne (by rw [h, heq])) hab
      · rw [if_neg h, decide_eq_false_iff_not] at hab
        rw [if_neg (Ne.symm h), decide_eq_true_eq]
        have hnat : a.toNat ≠ b.toNat := fun heq => h (UInt8.toNat_inj.1 heq)
        omega

namespace Xid

theorem before_irrefl (x : Xid) : x.before x = false := by
  simp [before, bytesBefore_irrefl]

theorem before_iff {x y : Xid} : x.before y = true ↔
    x.formatId < y.formatId ∨ x.formatId = y.formatId ∧
      (bytesBefore x.globalId y.globalId = true ∨
        x.globalId = y.globalId ∧ bytesBefore x.qualifier y.qualifier = true) := by
  unfold before
  by_cases hformat : x.formatId = y.formatId
  · by_cases hglobal : x.globalId = y.globalId
    · simp [hformat, hglobal, bytesBefore_irrefl]
    · simp [hformat, hglobal]
  · simp [hformat]

theorem before_trans {x y z : Xid} (hxy : x.before y = true) (hyz : y.before z = true) :
    x.before z = true := by
  rw [before_iff] at hxy hyz ⊢
  obtain hxy | ⟨hxy, hxy'⟩ := hxy
  · obtain hyz | ⟨hyz, -⟩ := hyz
    · exact .inl (Int.lt_trans hxy hyz)
    · exact .inl (hyz ▸ hxy)
  obtain hyz | ⟨hyz, hyz'⟩ := hyz
  · exact .inl (hxy ▸ hyz)
  refine .inr ⟨hxy.trans hyz, ?_⟩
  obtain hglobal | ⟨hglobal, hqualifier⟩ := hxy'
  · obtain hglobal' | ⟨hglobal', -⟩ := hyz'
    · exact .inl (bytesBefore_trans hglobal hglobal')
    · exact .inl (hglobal' ▸ hglobal)
  obtain hglobal' | ⟨hglobal', hqualifier'⟩ := hyz'
  · exact .inl (hglobal ▸ hglobal')
  · exact .inr ⟨hglobal.trans hglobal', bytesBefore_trans hqualifier hqualifier'⟩

theorem before_total {x y : Xid} (hne : x ≠ y) (hxy : x.before y = false) : y.before x = true := by
  rw [← Bool.not_eq_true, before_iff, not_or, not_and, not_or, not_and] at hxy
  obtain ⟨hformat, hrest⟩ := hxy
  rw [before_iff]
  by_cases hformat' : x.formatId = y.formatId
  · obtain ⟨hglobal, hqualifier⟩ := hrest hformat'
    refine .inr ⟨hformat'.symm, ?_⟩
    by_cases hglobal' : x.globalId = y.globalId
    · have hne' : x.qualifier ≠ y.qualifier := fun heq => hne (by
        cases x
        cases y
        simp_all)
      exact .inr ⟨hglobal'.symm, bytesBefore_total hne' (Bool.eq_false_iff.2 (hqualifier hglobal'))⟩
    · exact .inl (bytesBefore_total hglobal' (Bool.eq_false_iff.2 hglobal))
  · exact .inl (by omega)

theorem before_asymm {x y : Xid} (h : x.before y = true) : y.before x = false := by
  cases hyx : y.before x with
  | false => rfl
  | true =>
    have hxx := before_trans h hyx
    rw [before_irrefl] at hxx
    cases hxx

end Xid

/-! ## Sorting by branch -/

/-- Whether a branch comes before the other's. -/
def PreparedRecord.branchBefore (p q : PreparedRecord) : Bool := p.xid.before q.xid

theorem PreparedRecord.branchBefore_asymm (p q : PreparedRecord) (h : p.branchBefore q = true) :
    q.branchBefore p = false := Xid.before_asymm h

theorem PreparedRecord.branchBefore_trans (p q r : PreparedRecord) (hpq : p.branchBefore q = true)
    (hqr : q.branchBefore r = true) : p.branchBefore r = true := Xid.before_trans hpq hqr

/-- The records of one branch, in the order in which they stand. -/
def ofBranch (x : Xid) (ps : List PreparedRecord) : List PreparedRecord :=
  ps.filter fun p => p.xid = x

/-- The records stand in the order of their branches. -/
def ByBranch (ps : List PreparedRecord) : Prop := ps.Pairwise fun p q => q.branchBefore p = false

theorem byBranch_sortBy (ps : List PreparedRecord) :
    ByBranch (sortBy PreparedRecord.branchBefore ps) :=
  pairwise_sortBy PreparedRecord.branchBefore_asymm PreparedRecord.branchBefore_trans ps

theorem ofBranch_insertBy {p : PreparedRecord} {ps : List PreparedRecord} (h : ByBranch ps)
    (x : Xid) :
    ofBranch x (insertBy PreparedRecord.branchBefore p ps) = ofBranch x ps ++ ofBranch x [p] := by
  induction ps with
  | nil => rfl
  | cons q ps ih =>
    obtain ⟨hq, hps⟩ := List.pairwise_cons.1 h
    rw [insertBy]
    split
    · rename_i hpq
      by_cases hp : p.xid = x
      · -- What follows the place of `p` belongs to later branches.
        have hnone : ofBranch x (q :: ps) = [] := by
          refine List.filter_eq_nil_iff.2 fun r hr hrx => ?_
          rw [decide_eq_true_eq] at hrx
          have hlater : p.xid.before q.xid = true := hpq
          rcases List.mem_cons.1 hr with rfl | hr
          · rw [hp, hrx, Xid.before_irrefl] at hlater
            cases hlater
          · have hback : r.xid.before q.xid = false := hq r hr
            rw [hrx, ← hp, hlater] at hback
            cases hback
        rw [hnone, List.nil_append]
        simp only [ofBranch, List.filter_cons, hp, decide_true, if_true, List.filter_nil] at hnone ⊢
        rw [hnone]
      · simp [ofBranch, List.filter_cons, hp]
    · have hrest := ih hps
      unfold ofBranch at hrest ⊢
      rw [List.filter_cons, List.filter_cons, hrest]
      split <;> rfl

/-- Sorting leaves the records of a branch in their order. -/
theorem ofBranch_sortBy (x : Xid) (ps : List PreparedRecord) :
    ofBranch x (sortBy PreparedRecord.branchBefore ps) = ofBranch x ps := by
  have key : ∀ ps sorted : List PreparedRecord, ByBranch sorted →
      ofBranch x (ps.foldl (fun sorted p => insertBy PreparedRecord.branchBefore p sorted) sorted) =
        ofBranch x sorted ++ ofBranch x ps := by
    intro ps
    induction ps with
    | nil => exact fun sorted _ => (List.append_nil _).symm
    | cons p ps ih =>
      intro sorted hsorted
      have hinsert : ByBranch (insertBy PreparedRecord.branchBefore p sorted) :=
        pairwise_insertBy PreparedRecord.branchBefore_asymm PreparedRecord.branchBefore_trans
          hsorted
      rw [List.foldl_cons, ih _ hinsert, ofBranch_insertBy hsorted, List.append_assoc]
      congr 1
      exact (List.filter_append [p] ps).symm
  exact (key ps [] .nil).trans (List.nil_append _)

/-- Records in the order of their branches are known once those of each branch are. -/
theorem eq_of_ofBranch {ps qs : List PreparedRecord} (hps : ByBranch ps) (hqs : ByBranch qs)
    (h : ∀ x, ofBranch x ps = ofBranch x qs) : ps = qs := by
  have hmem : ∀ {ps qs : List PreparedRecord}, (∀ x, ofBranch x ps = ofBranch x qs) →
      ∀ p ∈ ps, p ∈ qs := fun {ps qs} h p hp => by
    have hbranch : p ∈ ofBranch p.xid ps := List.mem_filter.2 ⟨hp, decide_eq_true rfl⟩
    rw [h] at hbranch
    exact (List.mem_filter.1 hbranch).1
  induction ps generalizing qs with
  | nil =>
    cases qs with
    | nil => rfl
    | cons q qs => exact absurd (hmem (fun x => (h x).symm) q List.mem_cons_self) List.not_mem_nil
  | cons p ps ih =>
    cases qs with
    | nil => exact absurd (hmem h p List.mem_cons_self) List.not_mem_nil
    | cons q qs =>
      obtain ⟨hp, hps'⟩ := List.pairwise_cons.1 hps
      obtain ⟨hq, hqs'⟩ := List.pairwise_cons.1 hqs
      have hfirst : ∀ {p q : PreparedRecord} {qs : List PreparedRecord},
          (∀ r ∈ qs, r.branchBefore q = false) → p ∈ q :: qs → p.xid.before q.xid = false := by
        intro p q qs hq hp
        rcases List.mem_cons.1 hp with rfl | hp
        · exact Xid.before_irrefl p.xid
        · exact hq p hp
      have hxid : p.xid = q.xid := Decidable.byContradiction fun hne => by
        have hback := Xid.before_total hne (hfirst hq (hmem h p List.mem_cons_self))
        rw [hfirst hp (hmem (fun x => (h x).symm) q List.mem_cons_self)] at hback
        cases hback
      have hhead := h p.xid
      rw [ofBranch, ofBranch, List.filter_cons_of_pos (by simp),
        List.filter_cons_of_pos (by simp [hxid])] at hhead
      obtain ⟨rfl, -⟩ := List.cons.inj hhead
      refine congrArg (p :: ·) (ih hps' hqs' fun x => ?_)
      have hx := h x
      unfold ofBranch at hx ⊢
      rw [List.filter_cons, List.filter_cons] at hx
      split at hx
      · exact (List.cons.inj hx).2
      · exact hx

/-! ## Ledgers that are alike -/

namespace Ledger

/-- The ledgers have the same committed records, and of each branch the same prepared records in
the same order. -/
structure Alike (l m : Ledger) : Prop where
  committed : l.committed = m.committed
  prepared : ∀ x, ofBranch x l.prepared = ofBranch x m.prepared

namespace Alike

variable {l m : Ledger}

theorem refl (l : Ledger) : Alike l l := ⟨rfl, fun _ => rfl⟩

theorem trans {n : Ledger} (h : Alike l m) (h' : Alike m n) : Alike l n :=
  ⟨h.committed.trans h'.committed, fun x => (h.prepared x).trans (h'.prepared x)⟩

theorem apply (h : Alike l m) (e : Entry) : Alike (l.apply e) (m.apply e) := by
  refine ⟨by rw [committed_apply, committed_apply, h.committed], fun x => ?_⟩
  rw [prepared_apply, prepared_apply]
  cases e with
  | add r => exact h.prepared x
  | prune a n => exact h.prepared x
  | prepare y r =>
    simp only [preparedAfter, ofBranch, List.filter_append]
    exact congrArg (· ++ _) (h.prepared x)
  | resolve y =>
    have hfilter : ∀ ps : List PreparedRecord,
        ofBranch x (ps.filter fun p => p.xid ≠ y) = (ofBranch x ps).filter fun p => p.xid ≠ y :=
      fun ps => by
        simp only [ofBranch, List.filter_filter]
        exact List.filter_congr fun p _ => Bool.and_comm ..
    simp only [preparedAfter]
    rw [hfilter, hfilter, h.prepared x]

theorem preparedByBranch (h : Alike l m) : l.preparedByBranch = m.preparedByBranch := by
  refine eq_of_ofBranch (byBranch_sortBy _) (byBranch_sortBy _) fun x => ?_
  exact ((ofBranch_sortBy x _).trans (h.prepared x)).trans (ofBranch_sortBy x _).symm

/-- Ledgers that are alike list the same prepared records. -/
theorem preparedRecords (h : Alike l m) : l.preparedRecords = m.preparedRecords := by
  rw [Ledger.preparedRecords, h.preparedByBranch, Ledger.preparedRecords]

end Alike

/-! ## Live entries -/

theorem placeRecord_of_forall {r : Record} {rs : List Record} (h : ∀ s ∈ rs, s.before r = true) :
    placeRecord r rs = rs ++ [r] := by
  induction rs with
  | nil => rfl
  | cons s rest ih =>
    have hs := h s List.mem_cons_self
    have hplace : r.samePlace s = false := by
      have hback := Record.not_samePlace_of_before hs
      rw [← Bool.not_eq_true, Record.samePlace_iff] at hback ⊢
      exact fun ⟨ha, hseq⟩ => hback ⟨ha.symm, hseq.symm⟩
    have hbefore : r.before s = false := by
      cases hrs : r.before s with
      | false => rfl
      | true =>
        have hrr := Record.before_trans hrs hs
        rw [Record.before_irrefl] at hrr
        cases hrr
    rw [placeRecord, if_neg (by simp [hplace]), if_neg (by simp [hbefore]),
      ih fun t ht => h t (List.mem_cons_of_mem s ht)]
    rfl

/-- Records that are added in their order are placed one behind the other. -/
theorem applyAll_adds {rs : List Record} (l : Ledger) (h : Ordered (l.committed ++ rs)) :
    l.applyAll (rs.map .add) = { l with committed := l.committed ++ rs } := by
  induction rs generalizing l with
  | nil => simp [applyAll]
  | cons r rs ih =>
    have hbefore : ∀ s ∈ l.committed, s.before r = true := fun s hs =>
      (List.pairwise_append.1 h).2.2 s hs r List.mem_cons_self
    have hplaced : (l.apply (.add r)).committed = l.committed ++ [r] :=
      placeRecord_of_forall hbefore
    have hrest := ih (l.apply (.add r)) (by rw [hplaced, List.append_assoc]; exact h)
    rw [hplaced, List.append_assoc] at hrest
    exact hrest

theorem applyAll_prepares (l : Ledger) (ps : List PreparedRecord) :
    l.applyAll (ps.map fun p => .prepare p.xid p.record) =
      { l with prepared := l.prepared ++ ps } := by
  induction ps generalizing l with
  | nil => simp [applyAll]
  | cons p ps ih =>
    have hrest := ih (l.apply (.prepare p.xid p.record))
    rw [show (l.apply (.prepare p.xid p.record)).prepared = l.prepared ++ [p] from rfl,
      List.append_assoc] at hrest
    exact hrest

/-- The live entries of a ledger make one like it. -/
theorem alike_liveEntries {l : Ledger} (h : Ordered l.committed) :
    Alike (({} : Ledger).applyAll l.liveEntries) l := by
  rw [liveEntries, applyAll_append, applyAll_adds {} h, applyAll_prepares]
  exact ⟨rfl, fun x => ofBranch_sortBy x l.prepared⟩

theorem length_liveEntries (l : Ledger) :
    l.liveEntries.length = l.committed.length + l.prepared.length := by
  rw [liveEntries, List.length_append, List.length_map, List.length_map, preparedByBranch,
    (sortBy_perm _ l.prepared).length_eq]

end Ledger

/-! ## The lines of a file -/

/-- How many lines of a file hold something. -/
def lineCount (contents : Bytes) : Nat := (segments contents).countP fun s => !s.isBlank

theorem lineCount_lines {es : List Entry} (h : ∀ e ∈ es, e.Fits) :
    lineCount (es.flatMap Entry.line) = es.length := by
  induction es with
  | nil => rfl
  | cons e es ih =>
    have he := h e List.mem_cons_self
    obtain ⟨bs, hbs⟩ := e.text_eq_cons
    have hfile : (e :: es).flatMap Entry.line = e.text ++ newline :: es.flatMap Entry.line := by
      simp [Entry.line]
    have hblank : (Segment.mk (e.text ++ [newline]) true).isBlank = false := by
      rw [hbs]
      exact JournalFile.isBlank_of_cons
    have hrest := ih fun f hf => h f (List.mem_cons_of_mem e hf)
    unfold lineCount at hrest ⊢
    rw [hfile, segments_line_append (e.newline_not_mem_text he), List.countP_cons, hrest, hblank]
    rfl

/-! ## A file and a memory -/

/-- The entries that the calls write. -/
def writtenBy (calls : List FileCall) : List Entry :=
  calls.filterMap fun
    | .write e => some e
    | _ => none

namespace Storage

/-- The file, and what its lines come to, are like the ledger `l`. -/
structure Mirrors (s : Storage) (l : Ledger) (f : JournalFile) (es : List Entry) : Prop where
  holds : s.Holds f es
  ledger : f.ledger.Alike l
  lines : (({} : Ledger).applyAll es).Alike l
  ordered : Ledger.Ordered l.committed

variable {s : Storage} {l : Ledger} {f : JournalFile} {es : List Entry}

theorem mirrors_fresh : Mirrors fresh {} (.ofEntries []) [] :=
  ⟨holds_fresh, .refl _, .refl _, .nil⟩

theorem mirrors_write (h : s.Mirrors l f es) {e : Entry} (he : e.Fits) :
    (s.write e).1.Mirrors (l.apply e) (f.write e) (es ++ [e]) where
  holds := h.holds.write he
  ledger := h.ledger.apply e
  lines := by
    rw [Ledger.applyAll_append]
    exact h.lines.apply e
  ordered := Ledger.ordered_apply h.ordered e

theorem mirrors_compact (h : s.Mirrors l f es) :
    (s.perform (.compact false)).Mirrors l f.compact f.ledger.liveEntries where
  holds := h.holds.compact
  ledger := h.ledger
  lines := (Ledger.alike_liveEntries (h.ledger.committed ▸ h.ordered)).trans h.ledger
  ordered := h.ordered

/-- The file keeps up with the memory in each call. -/
theorem mirrors_perform (h : s.Mirrors l f es) {call : FileCall} (hcall : call.Fits) :
    ∃ f' es', (s.perform call).Mirrors (l.applyAll (writtenBy [call])) f' es' := by
  cases call with
  | write e => exact ⟨_, _, mirrors_write h hcall⟩
  | compact blocked =>
    cases blocked with
    | true => exact ⟨_, _, h.holds.compact_blocked, h.ledger, h.lines, h.ordered⟩
    | false => exact ⟨_, _, mirrors_compact h⟩
  | reopen =>
    obtain ⟨s', hopen, hs'⟩ := h.holds.openFile
    have hsame : s.perform .reopen = s' := congrArg Prod.fst hopen
    exact ⟨_, _, hsame ▸ hs', h.lines, h.lines, h.ordered⟩

theorem mirrors_performAll (h : s.Mirrors l f es) {calls : List FileCall}
    (hcalls : ∀ c ∈ calls, c.Fits) :
    ∃ f' es', (s.performAll calls).Mirrors (l.applyAll (writtenBy calls)) f' es' := by
  induction calls generalizing s l f es with
  | nil => exact ⟨f, es, h⟩
  | cons call calls ih =>
    obtain ⟨f', es', h'⟩ := mirrors_perform h (hcalls call List.mem_cons_self)
    have hrest := ih h' fun c hc => hcalls c (List.mem_cons_of_mem call hc)
    have hwritten : writtenBy (call :: calls) = writtenBy [call] ++ writtenBy calls :=
      List.filterMap_append (l := [call])
    rwa [hwritten, Ledger.applyAll_append]

/-- A journal that takes all writes holds what the entries come to that are written to it. -/
theorem ledger_writeAll (h : ∀ m, s.Takes m) (es : List Entry) :
    (s.performAll (es.map .write)).ledger = s.ledger.applyAll es := by
  induction es generalizing s with
  | nil => rfl
  | cons e es ih =>
    have hrest := ih (s := (s.write e).1) fun m => takes_write (h m) e
    rw [(write_of_takes (h e.method)).2] at hrest
    exact hrest

/-- The journal on a file answers like the journal `m` in memory. It counts the lines of its file
that hold something; after a compaction these are as many as there are records, and a compaction
that fails changes nothing. -/
structure AnswersLike (s m : Storage) : Prop where
  addresses : s.ledger.addresses = m.ledger.addresses
  records : ∀ a, s.ledger.records a = m.ledger.records a
  preparedRecords : s.ledger.preparedRecords = m.ledger.preparedRecords
  counted : ∃ contents, s.onDisk = .file contents ∧ s.entryCount = some (lineCount contents)
  compacted : ∃ s', { s with compactionBlocked := false }.compact =
      (s', .ok (some (m.ledger.committed.length + m.ledger.prepared.length))) ∧
    s'.entryCount = some (m.ledger.committed.length + m.ledger.prepared.length)
  blocked : ∃ s', { s with compactionBlocked := true }.compact = (s', .error .io) ∧
    s'.onDisk = s.onDisk ∧ s'.ledger = s.ledger ∧ s'.entryCount = s.entryCount

theorem length_prepared_of_alike {l m : Ledger} (h : l.Alike m) :
    l.prepared.length = m.prepared.length := by
  have hsorted := congrArg List.length h.preparedByBranch
  rwa [Ledger.preparedByBranch, Ledger.preparedByBranch, (sortBy_perm _ _).length_eq,
    (sortBy_perm _ _).length_eq] at hsorted

theorem Mirrors.answersLike (h : s.Mirrors l f es) {m : Storage} (hm : m.ledger = l) :
    s.AnswersLike m := by
  subst hm
  have hledger : s.ledger = f.ledger := by rw [Storage.ledger, h.holds.file]
  have hlive : f.ledger.liveEntries.length =
      m.ledger.committed.length + m.ledger.prepared.length := by
    rw [Ledger.length_liveEntries, h.ledger.committed, length_prepared_of_alike h.ledger]
  refine ⟨?_, fun a => ?_, ?_, ⟨_, h.holds.onDisk_eq, ?_⟩, ?_, ?_⟩
  · rw [hledger, Ledger.addresses, h.ledger.committed, Ledger.addresses]
  · rw [hledger, Ledger.records, h.ledger.committed, Ledger.records]
  · rw [hledger, h.ledger.preparedRecords]
  · rw [entryCount, h.holds.file, lineCount_lines h.holds.fits, Option.map_some, h.holds.entries]
  · refine ⟨{ s with compactionBlocked := false, file := some f.compact, detached := false }, ?_,
      ?_⟩
    · simp [compact, h.holds.file, JournalFile.compact, hlive]
    · simp [entryCount, JournalFile.compact, hlive]
  · exact ⟨{ s with compactionBlocked := true }, by simp [compact, h.holds.file], rfl, rfl, rfl⟩

/-- A journal file answers like a journal in memory to which the same entries were written, however
often it is closed, opened again and compacted in between, whether compaction succeeds or not. -/
theorem file_refines_memory {calls : List FileCall} (h : ∀ c ∈ calls, c.Fits) :
    (fresh.performAll calls).AnswersLike
      (({} : Storage).performAll ((writtenBy calls).map .write)) := by
  obtain ⟨f, es, hmirrors⟩ := mirrors_performAll mirrors_fresh h
  refine hmirrors.answersLike (ledger_writeAll (fun m => ⟨?_, ?_⟩) _)
  · exact List.not_mem_nil
  · exact List.not_mem_nil

/-- Two branches stage an identifier at one place. The file is compacted, which sorts the records of
the branches, closed and opened again, and compaction fails before one of the branches is
resolved. -/
theorem file_refines_memory_branches :
    let r : Record := ⟨⟨"orders"⟩, 3, [1]⟩
    let calls : List FileCall := [.write (.prepare ⟨2, [], []⟩ r), .write (.prepare ⟨1, [], []⟩ r),
      .write (.add r), .compact false, .reopen, .compact true, .write (.resolve ⟨2, [], []⟩)]
    (∀ c ∈ calls, c.Fits) ∧ (fresh.performAll calls).AnswersLike
      (({} : Storage).performAll ((writtenBy calls).map .write)) := by
  intro r calls
  have hfits : ∀ c ∈ calls, c.Fits := by
    have hbranch : ∀ n : Int, Json.minInt32 ≤ n → n ≤ Json.maxInt32 →
        (Entry.prepare ⟨n, [], []⟩ r).Fits := fun n hlow hhigh => ⟨⟨hlow, hhigh⟩, by decide⟩
    intro c hc
    simp only [calls, List.mem_cons, List.not_mem_nil, or_false] at hc
    rcases hc with rfl | rfl | rfl | rfl | rfl | rfl | rfl
    · exact hbranch 2 (by decide) (by decide)
    · exact hbranch 1 (by decide) (by decide)
    · exact (show Entry.Fits (.add r) by decide)
    · exact trivial
    · exact trivial
    · exact trivial
    · exact (show Entry.Fits (.resolve ⟨2, [], []⟩) by decide)
  exact ⟨hfits, file_refines_memory hfits⟩

end Storage

end MessageRouting
