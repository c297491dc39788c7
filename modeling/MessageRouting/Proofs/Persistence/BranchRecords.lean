import MessageRouting.Proofs.Persistence.SettledJournal

/-!
# Branches

What a move does to the stages of transactions and, in the journal, to
prepared records: preparing a branch stores a record for each of its stages and
marks them, completing it has the records deleted if any stage is marked, and
nothing else is about prepared records.

Results:

* `branch_move`: every move in these terms.
* `logs_passes`: where no transaction changes its state, nothing of the kind.
* `marked_move`: the marks of a branch tell whether its stages have been stored.
-/

namespace MessageRouting

theorem mem_middle {l₁ l₂ : List Outline} {o g : Outline} :
    g ∈ l₁ ++ o :: l₂ ↔ g = o ∨ g ∈ l₁ ++ l₂ := by
  simp only [List.mem_append, List.mem_cons]
  exact or_left_comm

/-- What is true of all transactions stays true of all when one that changes keeps it. -/
theorem forall_middle {l₁ l₂ : List Outline} {o o' : Outline} {Q : Outline → Prop}
    (h : ∀ g ∈ l₁ ++ o :: l₂, Q g) (ho : Q o → Q o') : ∀ g ∈ l₁ ++ o' :: l₂, Q g := by
  intro g hg
  rcases mem_middle.1 hg with rfl | hg
  · exact ho (h o (by simp))
  · exact h g (mem_middle.2 (Or.inr hg))

namespace Broker

variable {P : Call → Prop} {mode : PersistenceMode}

/-- The stages of a branch, of which the first `k` have been stored. -/
def markFirst (k : Nat) (held : List (HeldStage × Bool)) : List (HeldStage × Bool) :=
  (held.take k).map (fun h => (h.1, true)) ++ held.drop k

/-- Marking the first of some stages is marking the first of all. -/
theorem markFirst_take (k m : Nat) (held : List (HeldStage × Bool)) :
    markFirst k (held.take m) ++ held.drop m = markFirst (min k m) held := by
  rw [markFirst, markFirst, List.take_take, List.append_assoc]
  congr 1
  rcases Nat.le_total k m with hkm | hmk
  · have hdrop : held.drop k = (held.take m).drop k ++ held.drop m := by
      have hsplit := List.take_append_drop m held
      rw [← congrArg (List.drop k) hsplit]
      rcases Nat.le_total m held.length with hm | hm
      · rw [List.drop_append_of_le_length (by simp; omega)]
      · rw [List.drop_eq_nil_of_le hm, List.append_nil, List.append_nil]
    rw [Nat.min_eq_left hkm, hdrop]
  · have hnil : (held.take m).drop k = [] := List.drop_eq_nil_of_le (by simp; omega)
    rw [Nat.min_eq_right hmk, hnil, List.nil_append]

/-- The marked stages of a branch are the first ones, if none was marked before. -/
theorem filter_markFirst {held : List (HeldStage × Bool)} (hheld : ∀ g ∈ held, g.2 = false)
    (k : Nat) : (markFirst k held).filter (·.2) = (held.take k).map fun h => (h.1, true) := by
  have hlater : (held.drop k).filter (·.2) = [] := List.filter_eq_nil_iff.2 fun g hg => by
    simp [hheld g (List.mem_of_mem_drop hg)]
  have hfirst : ((held.take k).map fun h => (h.1, true)).filter (·.2) =
      (held.take k).map fun h => (h.1, true) := List.filter_eq_self.2 fun g hg => by
    obtain ⟨g', -, rfl⟩ := List.mem_map.1 hg
    rfl
  rw [markFirst, List.filter_append, hfirst, hlater, List.append_nil]

/-- What a move does to branches and to prepared records. -/
inductive BranchMove (v v' : View) : Prop where
  /-- Nothing. -/
  | quiet {inline handed : List Entry} (hlogs : Logs v.books v'.books inline handed)
    (hinline : inline.filter Entry.isPrepared = []) (hhanded : handed.filter Entry.isPrepared = [])
    (houtlines : v'.outlines = v.outlines)
  /-- The writer makes its next write. -/
  | written (hbooks : v'.books = v.books.writeNext 0) (houtlines : v'.outlines = v.outlines)
  | begun (x : Option Xid) (hbooks : v'.books = v.books)
    (houtlines : v'.outlines = v.outlines ++ [⟨x, .active, []⟩])
  | registered {l₁ l₂ : List Outline} {x : Option Xid} {held : List (HeldStage × Bool)}
    {h : HeldStage} (hbooks : v'.books = v.books) (hloose : v.loose = [h])
    (hold : v.outlines = l₁ ++ ⟨x, .active, held⟩ :: l₂)
    (hnew : v'.outlines = l₁ ++ ⟨x, .active, held ++ [(h, false)]⟩ :: l₂)
  | prepared {l₁ l₂ : List Outline} {x : Xid} {held : List (HeldStage × Bool)}
    (hlogs : Logs v.books v'.books (held.map fun h => .prepare x h.1.staged.record) [])
    (hold : v.outlines = l₁ ++ ⟨some x, .active, held⟩ :: l₂)
    (hnew : v'.outlines = l₁ ++ ⟨some x, .prepared, held.map fun h => (h.1, true)⟩ :: l₂)
  /-- Some stages are stored, and then all are dropped. -/
  | unprepared {l₁ l₂ : List Outline} {x : Xid} {held : List (HeldStage × Bool)} (k : Nat)
    (hlogs : Logs v.books v'.books ((held.take k).map fun h => .prepare x h.1.staged.record)
      ((markFirst k held).flatMap (released (some x))))
    (hold : v.outlines = l₁ ++ ⟨some x, .active, held⟩ :: l₂)
    (hnew : v'.outlines = l₁ ++ ⟨some x, .rolledBack, markFirst k held⟩ :: l₂)
  /-- All stages are made visible, or dropped. -/
  | completed {l₁ l₂ : List Outline} {x : Option Xid} {st st' : TransactionState}
    {held : List (HeldStage × Bool)} {inline handed : List Entry}
    (hlive : st = .active ∨ st = .prepared) (hdone : st' = .committed ∨ st' = .rolledBack)
    (hlogs : Logs v.books v'.books inline handed) (hinline : inline.filter Entry.isPrepared = [])
    (hhanded : handed.filter Entry.isPrepared = held.flatMap (released x))
    (hold : v.outlines = l₁ ++ ⟨x, st, held⟩ :: l₂)
    (hnew : v'.outlines = l₁ ++ ⟨x, st', held⟩ :: l₂)

theorem plain_of_adds {hs : List (HeldStage × Bool)} {es : List Entry}
    (h : ∀ e ∈ es, ∃ g ∈ hs, ∃ key, e = .add (g.1.staged.recordAt key)) :
    es.filter Entry.isPrepared = [] :=
  List.filter_eq_nil_iff.2 fun e he => by
    obtain ⟨g, -, key, rfl⟩ := h e he
    simp [Entry.isPrepared]

theorem mem_released {x : Option Xid} {hs : List (HeldStage × Bool)} {e : Entry}
    (h : e ∈ hs.flatMap (released x)) : ∃ y, x = some y ∧ e = .resolve y := by
  obtain ⟨g, -, hg⟩ := List.mem_flatMap.1 h
  unfold released at hg
  split at hg
  · rename_i y
    split at hg
    · exact ⟨y, rfl, List.mem_singleton.1 hg⟩
    · cases hg
  · cases hg

theorem filter_released (x : Option Xid) (hs : List (HeldStage × Bool)) :
    (hs.flatMap (released x)).filter Entry.isPrepared = hs.flatMap (released x) :=
  List.filter_eq_self.2 fun e he => by
    obtain ⟨y, -, rfl⟩ := mem_released he
    rfl

/-- Making all stages of a send or a transaction visible, from the drawing of the keys on. -/
theorem logs_completed {b b' : Broker} (hb : Keeping mode b) (haddressed : Addressed b)
    {hs : List (HeldStage × Bool)} (hhs : ∀ h ∈ hs, h.1.AtOffice) (x : Option Xid)
    (hpersist : b.persistAll hs = (b', .ok ())) :
    ∃ inline handed, Logs b (b'.promoteAll x hs) inline handed ∧
      inline.filter Entry.isPrepared = [] ∧
      handed.filter Entry.isPrepared = hs.flatMap (released x) := by
  obtain ⟨inline, hlogs, hadds, -⟩ := logs_persistAll hb hhs
  have hsteps := steps_persistAll hhs b
  rw [hpersist] at hlogs hsteps
  have haddressed' : Addressed b' := of_steps (fun _ _ => addressed_step) hsteps haddressed
  obtain ⟨handed, hmore, hfilter⟩ :=
    logs_promoteAll (hb.of_stations hlogs.stations) haddressed' hhs x
  refine ⟨inline, handed, ?_, plain_of_adds hadds, hfilter⟩
  simpa using hlogs.trans hmore

/-- Dropping all stages, some of which may have been persisted. -/
theorem logs_undone {b : Broker} (hb : Keeping mode b) {hs : List (HeldStage × Bool)}
    (hhs : ∀ h ∈ hs, h.1.AtOffice) (x : Option Xid) (m : Nat) :
    ∃ inline, Logs b ((b.persistAll (hs.take m)).1.dropAll x hs) inline (hs.flatMap (released x)) ∧
      inline.filter Entry.isPrepared = [] := by
  obtain ⟨inline, hlogs, hadds, -⟩ := logs_persistAll hb
    (show ∀ g ∈ hs.take m, g.1.AtOffice from fun g hg => hhs g (List.mem_of_mem_take hg))
  have hmore := logs_dropAll (hb.of_stations hlogs.stations) hhs x
  exact ⟨inline, by simpa using hlogs.trans hmore, plain_of_adds hadds⟩

theorem released_none (hs : List (HeldStage × Bool)) : hs.flatMap (released none) = [] :=
  List.flatMap_eq_nil_iff.2 fun _ _ => rfl

/-- A move in which no transaction changes its state is about no prepared records. -/
theorem logs_passes {v v' : View} (h : Passes P v v') (hb : Keeping mode v.books) (hv : v.Local) :
    ∃ inline handed, Logs v.books v'.books inline handed ∧
      inline.filter Entry.isPrepared = [] ∧ handed.filter Entry.isPrepared = [] := by
  cases h with
  | opened a => exact ⟨_, _, logs_openOfficeCache .., rfl, rfl⟩
  | begun x => exact ⟨_, _, .refl _, rfl, rfl⟩
  | waits hc => exact ⟨_, _, logs_called .., rfl, rfl⟩
  | retries hready => exact ⟨_, _, logs_called .., rfl, rfl⟩
  | granted hgrant => exact ⟨_, _, logs_granted hgrant, rfl, rfl⟩
  | sent hpersist =>
    obtain ⟨inline, handed, hlogs, hinline, hhanded⟩ :=
      logs_completed hb hv.addressed (atOffice_loose hv.atOffice) none hpersist
    exact ⟨inline, handed, hlogs, hinline, hhanded.trans (released_none _)⟩
  | refused m hearly =>
    obtain ⟨inline, hlogs, hinline⟩ := logs_undone hb (atOffice_loose hv.atOffice) none m
    rw [released_none] at hlogs
    exact ⟨inline, [], hlogs, hinline, rfl⟩
  | registered howner => exact ⟨_, _, .refl _, rfl, rfl⟩

theorem branch_move {v v' : View} (h : Move P v v') (hb : Keeping mode v.books) (hv : v.Local) :
    BranchMove v v' := by
  have hlocal := (steps_move h hv).2
  have hheld : ∀ {l₁ l₂ : List Outline} {o : Outline} {b : Broker},
      View.Local ⟨b, [], l₁ ++ o :: l₂⟩ → ∀ g ∈ o.held, g.1.AtOffice := by
    intro l₁ l₂ o b hl g hg
    apply hl.atOffice g.1
    simp only [List.nil_append, List.flatMap_append, List.flatMap_cons, List.mem_append]
    exact Or.inr (Or.inl (List.mem_map_of_mem hg))
  cases h with
  | opened a => exact .quiet (logs_openOfficeCache ..) rfl rfl rfl
  | begun x => exact .begun x rfl rfl
  | written => exact .written rfl rfl
  | waits hc => exact .quiet (logs_called ..) rfl rfl rfl
  | retries hready => exact .quiet (logs_called ..) rfl rfl rfl
  | granted hgrant => exact .quiet (logs_granted hgrant) rfl rfl rfl
  | sent hpersist =>
    obtain ⟨inline, handed, hlogs, hinline, hhanded⟩ :=
      logs_passes (.sent (P := P) hpersist) hb hv
    exact .quiet hlogs hinline hhanded rfl
  | refused m hearly =>
    obtain ⟨inline, handed, hlogs, hinline, hhanded⟩ :=
      logs_passes (.refused (P := P) m hearly) hb hv
    exact .quiet hlogs hinline hhanded rfl
  | registered howner => exact .registered rfl rfl rfl rfl
  | prepared hstore =>
    obtain ⟨k, rfl, hlogs, hk⟩ := logs_storeAll hb (hheld hv) hstore
    have hall := hk rfl
    rw [List.take_of_length_le hall] at hlogs
    rw [List.take_of_length_le hall, List.drop_eq_nil_of_le hall, List.append_nil]
    exact .prepared hlogs rfl rfl
  | @unprepared b b' l₁ l₂ x held marks result m hstore =>
    have hfirst : ∀ g ∈ held.take m, g.1.AtOffice :=
      fun g hg => hheld hv g (List.mem_of_mem_take hg)
    obtain ⟨k, hmarks, hlogs, -⟩ := logs_storeAll hb hfirst hstore
    have hall : marks ++ held.drop m = markFirst (min k m) held := by
      rw [hmarks]
      exact markFirst_take k m held
    have hat := hheld hlocal
    dsimp only at hat
    rw [hall] at hat ⊢
    have hmore := logs_dropAll (hb.of_stations hlogs.stations) hat (some x)
    refine .unprepared (min k m) ?_ rfl rfl
    rw [List.take_take] at hlogs
    simpa using hlogs.trans hmore
  | committed hlive hpersist =>
    obtain ⟨inline, handed, hlogs, hinline, hhanded⟩ :=
      logs_completed hb hv.addressed (hheld hv) _ hpersist
    exact .completed hlive (Or.inl rfl) hlogs hinline hhanded rfl rfl
  | undone hlive m =>
    obtain ⟨inline, hlogs, hinline⟩ := logs_undone hb (hheld hv) _ m
    exact .completed hlive (Or.inr rfl) hlogs hinline (filter_released ..) rfl rfl

/-! ## Marks -/

/-- What the writer is about to make of prepared records is to delete some. -/
theorem resolves_of_handed {x : Option Xid} {hs : List (HeldStage × Bool)} {handed : List Entry}
    (h : handed.filter Entry.isPrepared = hs.flatMap (released x)) {e : Entry} (he : e ∈ handed)
    (hprepared : e.isPrepared = true) : ∃ y, x = some y ∧ e = .resolve y :=
  mem_released (h ▸ List.mem_filter.2 ⟨he, hprepared⟩)

theorem queue_writeNext {b : Broker} {e : Entry} (h : e ∈ (b.writeNext 0).queue) : e ∈ b.queue := by
  rcases logs_writeNext b with ⟨-, heq⟩ | ⟨f, rest, hold, hnew, -⟩
  · rwa [heq] at h
  · rw [hnew] at h
    rw [hold]
    exact List.mem_cons_of_mem f h

end Broker

/-- The marks of a transaction tell whether its stages have been stored: none of them before it is
prepared, all of them then. -/
def Outline.Tells (o : Outline) : Prop :=
  (o.state = .active → ∀ h ∈ o.held, h.2 = false) ∧
    (o.state = .prepared → ∀ h ∈ o.held, h.2 = true)

/-- All marks are right, and nothing waits to be stored. -/
structure Marked (mode : PersistenceMode) (v : View) : Prop where
  keeping : v.books.Keeping mode
  takes : v.books.storage.Takes .delete
  atOffice : v.Local
  tells : ∀ o ∈ v.outlines, o.Tells
  storing : ∀ x r, .prepare x r ∉ v.books.queue

namespace Broker

variable {P : Call → Prop} {mode : PersistenceMode}

theorem storing_logs {b b' : Broker} {inline handed : List Entry}
    (h : ∀ x r, .prepare x r ∉ b.queue) (hlogs : Logs b b' inline handed)
    (hhanded : ∀ x r, .prepare x r ∉ handed) : ∀ x r, .prepare x r ∉ b'.queue := by
  intro x r hmem
  rw [hlogs.queue] at hmem
  rcases List.mem_append.1 hmem with hmem | hmem
  · exact h x r hmem
  · exact hhanded x r hmem

theorem not_prepare_of_plain {handed : List Entry} (h : handed.filter Entry.isPrepared = [])
    (x : Xid) (r : Record) : .prepare x r ∉ handed := by
  intro hmem
  exact List.filter_eq_nil_iff.1 h _ hmem rfl

theorem not_prepare_of_released {y : Option Xid} {hs : List (HeldStage × Bool)}
    {handed : List Entry} (h : handed.filter Entry.isPrepared = hs.flatMap (released y)) (x : Xid)
    (r : Record) : .prepare x r ∉ handed := by
  intro hmem
  obtain ⟨z, -, heq⟩ := resolves_of_handed h hmem rfl
  cases heq

theorem tells_of_completed {o : Outline} (h : o.state = .committed ∨ o.state = .rolledBack) :
    o.Tells := by
  refine ⟨fun hs => ?_, fun hs => ?_⟩
  · rw [hs] at h
    rcases h with h | h <;> cases h
  · rw [hs] at h
    rcases h with h | h <;> cases h

theorem marked_move {v v' : View} (h : Move P v v') (hv : Marked mode v) : Marked mode v' := by
  have hlocal := (steps_move h hv.atOffice).2
  have htells := hv.tells
  rcases branch_move h hv.keeping hv.atOffice with
    ⟨hlogs, -, hhanded, houtlines⟩ | ⟨hbooks, houtlines⟩ | ⟨x, hbooks, houtlines⟩ |
    ⟨hbooks, -, hold, hnew⟩ | ⟨hlogs, hold, hnew⟩ | ⟨k, hlogs, hold, hnew⟩ |
    ⟨hlive, hdone, hlogs, -, hhanded, hold, hnew⟩
  · refine ⟨hv.keeping.of_stations hlogs.stations, hlogs.takes _ hv.takes, hlocal, ?_,
      storing_logs hv.storing hlogs (not_prepare_of_plain hhanded)⟩
    rw [houtlines]
    exact htells
  · have htakes := takes_step .written hv.keeping hv.atOffice.addressed hv.takes
    have hkeeping := keeping_step .written hv.keeping
    have hstoring : ∀ x r, .prepare x r ∉ (v.books.writeNext 0).queue :=
      fun x r hx => hv.storing x r (queue_writeNext hx)
    rw [← hbooks] at htakes hkeeping hstoring
    refine ⟨hkeeping, htakes, hlocal, ?_, hstoring⟩
    rw [houtlines]
    exact htells
  · refine ⟨hbooks ▸ hv.keeping, hbooks ▸ hv.takes, hlocal, ?_, hbooks ▸ hv.storing⟩
    rw [houtlines]
    intro o ho
    rcases List.mem_append.1 ho with ho | ho
    · exact htells o ho
    · rw [List.mem_singleton.1 ho]
      exact ⟨fun _ _ hh => absurd hh List.not_mem_nil, fun _ _ hh => absurd hh List.not_mem_nil⟩
  · rw [hold] at htells
    refine ⟨hbooks ▸ hv.keeping, hbooks ▸ hv.takes, hlocal, ?_, hbooks ▸ hv.storing⟩
    rw [hnew]
    apply forall_middle htells
    intro hself
    refine ⟨fun _ g hg => ?_, nofun⟩
    rcases List.mem_append.1 hg with hg | hg
    · exact hself.1 rfl g hg
    · rw [List.mem_singleton.1 hg]
  · rw [hold] at htells
    refine ⟨hv.keeping.of_stations hlogs.stations, hlogs.takes _ hv.takes, hlocal, ?_,
      storing_logs hv.storing hlogs fun _ _ => List.not_mem_nil⟩
    rw [hnew]
    apply forall_middle htells
    intro _
    refine ⟨nofun, fun _ g hg => ?_⟩
    obtain ⟨g', -, rfl⟩ := List.mem_map.1 hg
    rfl
  · rw [hold] at htells
    refine ⟨hv.keeping.of_stations hlogs.stations, hlogs.takes _ hv.takes, hlocal, ?_,
      storing_logs hv.storing hlogs (not_prepare_of_released (filter_released ..))⟩
    rw [hnew]
    exact forall_middle htells fun _ => tells_of_completed (Or.inr rfl)
  · rw [hold] at htells
    refine ⟨hv.keeping.of_stations hlogs.stations, hlogs.takes _ hv.takes, hlocal, ?_,
      storing_logs hv.storing hlogs (not_prepare_of_released hhanded)⟩
    rw [hnew]
    exact forall_middle htells fun _ => tells_of_completed hdone

end Broker

end MessageRouting
