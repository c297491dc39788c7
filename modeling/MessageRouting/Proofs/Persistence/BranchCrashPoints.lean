import MessageRouting.Proofs.Persistence.RolledBackRecords
import MessageRouting.Proofs.Restart.FoundIdentifiers

/-!
# Crash points of a branch

From the end of its preparation on, a branch has its identifiers in the journal
as prepared. Committing it deletes these records and writes committed ones; a
crash may cut the journal off after any entry. In mandatory mode the committed
records come first. In async mode each stage hands over its own record and then
the deletion of all prepared records of the branch, so that only the first stage
is sure to be found at every cut.

Results:

* `watch_move`: what a move makes of a branch that has been prepared.
* `covered_moves`: what is committed is written before anything is deleted.
* `prepared_or_committed`: what a restart finds at every cut.
-/

namespace MessageRouting

open Relation (ReflTransGen)

/-! ## Entries in order -/

/-- Whether the entry stands in the list before any `f`. -/
def Entry.Before (e f : Entry) (es : List Entry) : Prop :=
  ∃ l₁ l₂, es = l₁ ++ e :: l₂ ∧ f ∉ l₁

namespace Entry

theorem Before.append {e f : Entry} {es : List Entry} (h : e.Before f es) (gs : List Entry) :
    e.Before f (es ++ gs) := by
  obtain ⟨l₁, l₂, rfl, hf⟩ := h
  exact ⟨l₁, l₂ ++ gs, by simp, hf⟩

theorem before_of_mem {e f : Entry} {es : List Entry} (he : e ∈ es) (hf : f ∉ es) :
    e.Before f es := by
  obtain ⟨l₁, l₂, rfl⟩ := List.append_of_mem he
  exact ⟨l₁, l₂, rfl, fun h => hf (List.mem_append_left _ h)⟩

/-- A cut that has the later entry has the earlier one. -/
theorem Before.mem_take {e f : Entry} {es : List Entry} (h : e.Before f es) {j : Nat}
    (hf : f ∈ es.take j) : e ∈ es.take j := by
  obtain ⟨l₁, l₂, rfl, hnot⟩ := h
  rcases Nat.lt_or_ge l₁.length j with hlt | hge
  · obtain ⟨k, hk⟩ : ∃ k, j - l₁.length = k + 1 := ⟨j - l₁.length - 1, by omega⟩
    rw [List.take_append, hk, List.take_succ_cons]
    simp
  · rw [List.take_append_of_le_length hge] at hf
    exact absurd (List.mem_of_mem_take hf) hnot

end Entry

namespace Ledger

/-- A prepared record stays until its branch is resolved. -/
theorem mem_prepared_applyAll {l : Ledger} {x : Xid} {r : Record} (hr : ⟨x, r⟩ ∈ l.prepared)
    {es : List Entry} (hes : .resolve x ∉ es) : ⟨x, r⟩ ∈ (l.applyAll es).prepared := by
  induction es generalizing l with
  | nil => exact hr
  | cons e rest ih =>
    refine ih ?_ fun h => hes (List.mem_cons_of_mem _ h)
    cases e with
    | add s => exact hr
    | prune a n => exact hr
    | prepare y s => exact List.mem_append_left _ hr
    | resolve y =>
      refine List.mem_filter.2 ⟨hr, ?_⟩
      have hne : x ≠ y := fun heq => hes (by simp [heq])
      simpa using hne

theorem mem_of_mem_preparedAll {p : PreparedRecord} {es : List Entry} {ps : List PreparedRecord}
    (h : p ∈ es.foldl preparedAfter ps) : p ∈ ps ∨ .prepare p.xid p.record ∈ es := by
  induction es generalizing ps with
  | nil => exact Or.inl h
  | cons e rest ih =>
    rcases ih h with hp | hp
    · cases e with
      | add s => exact Or.inl hp
      | prune a n => exact Or.inl hp
      | prepare y s =>
        rcases List.mem_append.1 hp with hp | hp
        · exact Or.inl hp
        · rw [List.mem_singleton.1 hp]
          exact Or.inr (by simp)
      | resolve y => exact Or.inl (List.mem_filter.1 hp).1
    · exact Or.inr (List.mem_cons_of_mem _ hp)

/-- A record that has its place to itself and is added stays until it is pruned. -/
theorem mem_committed_applyAll {r : Record} {es : List Entry} {l : Ledger}
    (hl : Ordered l.committed) (hone : ∀ s, .add s ∈ es → s.samePlace r = true → s = r)
    (hr : r ∈ l.committed ∨ .add r ∈ es) :
    r ∈ (l.applyAll es).committed ∨ .prune r.address r.sequence ∈ es := by
  induction es generalizing l with
  | nil => simpa [applyAll] using hr
  | cons e rest ih =>
    have hrest := fun s hs => hone s (List.mem_cons_of_mem _ hs)
    have hthen : r ∈ (l.apply e).committed ∨ .add r ∈ rest →
        r ∈ (l.applyAll (e :: rest)).committed ∨ .prune r.address r.sequence ∈ e :: rest :=
      fun h => (ih (ordered_apply hl e) hrest h).imp_right (List.mem_cons_of_mem _)
    by_cases htouches : e.Touches r
    · cases e with
      | add s =>
        obtain rfl := hone s (by simp) (Record.samePlace_iff.2 htouches)
        exact hthen (Or.inl ((mem_add hl s s).2 (Or.inl rfl)))
      | prune a n =>
        obtain ⟨rfl, rfl⟩ := htouches
        exact Or.inr (by simp)
      | prepare y s => exact absurd htouches id
      | resolve y => exact absurd htouches id
    · refine hthen ?_
      rcases hr with hr | hr
      · exact Or.inl (mem_apply_of_not_touches hl hr htouches)
      · rcases List.mem_cons.1 hr with rfl | hr
        · exact absurd ⟨rfl, rfl⟩ htouches
        · exact Or.inr hr

end Ledger

namespace Broker

variable {P : Call → Prop} {mode : PersistenceMode} {floor : CacheRef → Nat} {b b' : Broker}

/-! ## What a commit writes first -/

/-- In mandatory mode persisting writes a record of every stage that is pending. -/
theorem recorded_persistAll (hb : Keeping .mandatory b) {hs : List (HeldStage × Bool)}
    (hhs : ∀ h ∈ hs, h.1.AtOffice) (hpersist : b.persistAll hs = (b', .ok ())) :
    ∃ inline, Logs b b' inline [] ∧
      ∀ h ∈ hs, b.Open h.1 → ∃ key, .add (h.1.staged.recordAt key) ∈ inline := by
  induction hs generalizing b with
  | nil =>
    cases hpersist
    exact ⟨[], .refl _, fun h hh => by cases hh⟩
  | cons g rest ih =>
    rcases hp : b.persistStage g.1 with ⟨c, result⟩
    simp only [persistAll, hp] at hpersist
    cases result with
    | error e => cases hpersist
    | ok _ =>
      have hopen := open_persistStage hp
      obtain ⟨inline, hlogs, hfirst⟩ : ∃ inline, Logs b c inline [] ∧
          (b.Open g.1 → ∃ key, .add (g.1.staged.recordAt key) ∈ inline) := by
        rcases logs_persistStage hb (hhs g (by simp)) hp with ⟨hnone, rfl, -⟩ |
          ⟨key, d, -, -, -, hlogs⟩
        · refine ⟨[], .refl _, fun hg => ?_⟩
          obtain ⟨q, hq, -⟩ := Cache.pendingOf?_of_holds hg
          rw [hnone] at hq
          cases hq
        · exact ⟨_, hlogs, fun _ => ⟨key, by simp⟩⟩
      obtain ⟨more, hmore, hrest⟩ := ih (hb.of_stations hlogs.stations)
        (fun h hh => hhs h (by simp [hh])) hpersist
      refine ⟨inline ++ more, by simpa using hlogs.trans hmore, fun h hh hpending => ?_⟩
      rcases List.mem_cons.1 hh with rfl | hh
      · obtain ⟨key, hkey⟩ := hfirst hpending
        exact ⟨key, List.mem_append_left _ hkey⟩
      · obtain ⟨key, hkey⟩ := hrest h hh ((hopen h.1).2 hpending)
        exact ⟨key, List.mem_append_right _ hkey⟩

/-- In async mode promoting hands over the record of the first stage before anything else. -/
theorem handed_promoteAll (hb : Keeping .async b) (haddressed : Addressed b)
    {h : HeldStage × Bool} {rest : List (HeldStage × Bool)}
    (hhs : ∀ g ∈ h :: rest, g.1.AtOffice) (hopen : b.Open h.1) (x : Option Xid) :
    ∃ key handed, Logs b (b.promoteAll x (h :: rest)) []
      (.add (h.1.staged.recordAt key) :: handed) := by
  have hh := hhs h (by simp)
  rcases logs_commitStage hb haddressed hh with ⟨hnone, -⟩ | ⟨p, c, -, -, hlogs⟩
  · obtain ⟨q, hq, -⟩ := Cache.pendingOf?_of_holds hopen
    rw [hnone] at hq
    cases hq
  · have hfirst := hlogs.trans (logs_release (hb.of_stations hlogs.stations) hh x)
    have haddressed' : Addressed ((b.commitStage h.1).release x h) :=
      addressed_step (.released hh x) (addressed_step (.promoted hh) haddressed)
    obtain ⟨more, hmore, -⟩ := logs_promoteAll (hb.of_stations hfirst.stations) haddressed'
      (fun g hg => hhs g (List.mem_cons_of_mem h hg)) x
    exact ⟨p.key, _, hfirst.trans hmore⟩

/-! ## What becomes of a branch -/

/-- What a move makes of a branch that has been prepared: nothing, and then its prepared records are
not deleted unless the writer does so, or it is committed or rolled back. -/
inductive Watch (v v' : View) (i : Nat) (x : Xid) (o : Outline) : Prop where
  | kept {inline handed : List Entry} (hsame : v'.outlines[i]? = some o)
    (hlogs : Logs v.books v'.books inline handed) (hnot : .resolve x ∉ inline ++ handed)
  | written (hsame : v'.outlines[i]? = some o) (hbooks : v'.books = v.books.writeNext 0)
  | committed {b : Broker} (hlive : o.state = .prepared)
    (hpersist : v.books.persistAll o.held = (b, .ok ()))
    (hbooks : v'.books = b.promoteAll (some x) o.held)
    (hdone : v'.outlines[i]? = some { o with state := .committed })
  | rolledBack {o' : Outline} (hdone : v'.outlines[i]? = some o') (hstate : o'.state = .rolledBack)

theorem not_resolve_of_plain {x : Xid} {es : List Entry} (h : es.filter Entry.isPrepared = []) :
    .resolve x ∉ es := fun hx => List.filter_eq_nil_iff.1 h _ hx rfl

/-- What is deleted for one transaction is not of another one. -/
theorem not_resolve_of_other {l₁ l₂ : List Outline} {p p' o : Outline} {i : Nat} {x : Xid}
    (hold : (l₁ ++ p :: l₂)[i]? = some o) (hnew : (l₁ ++ p' :: l₂)[i]? = some o) (hne : p ≠ p')
    (hnodup : ((l₁ ++ p' :: l₂).filterMap Outline.xid).Nodup) (hx : o.xid = some x)
    {handed : List Entry} {hs : List (HeldStage × Bool)}
    (hhanded : handed.filter Entry.isPrepared = hs.flatMap (released p'.xid)) :
    .resolve x ∉ handed := by
  intro hmem
  obtain ⟨y, hy, heq⟩ := resolves_of_handed hhanded hmem rfl
  cases heq
  refine xid_ne_of_nodup hnodup hy o ?_ hx
  rcases Nat.lt_trichotomy i l₁.length with hlt | rfl | hgt
  · rw [List.getElem?_append_left hlt] at hold
    exact List.mem_append_left _ (List.mem_of_getElem? hold)
  · simp only [List.getElem?_append_right (Nat.le_refl _), Nat.sub_self, List.getElem?_cons_zero,
      Option.some.injEq] at hold hnew
    exact absurd (hold.trans hnew.symm) hne
  · obtain ⟨k, hk⟩ : ∃ k, i - l₁.length = k + 1 := ⟨i - l₁.length - 1, by omega⟩
    rw [List.getElem?_append_right (by omega), hk, List.getElem?_cons_succ] at hold
    exact List.mem_append_right _ (List.mem_of_getElem? hold)

theorem watch_move {v v' : View} (h : Move P v v') (hb : Keeping mode v.books) (hv : v.Local)
    (hnodup : v'.xids.Nodup) {i : Nat} {o : Outline} {x : Xid} (hold : v.outlines[i]? = some o)
    (hx : o.xid = some x) (hstate : o.state ≠ .active) : Watch v v' i x o := by
  obtain ⟨o', hnew, hgrows⟩ := outline_move h hold
  by_cases hne : o' = o
  · subst hne
    have hquiet : v'.books = v.books → Watch v v' i x o' := by
      intro hbooks
      have hlogs : Logs v.books v'.books [] [] := by
        rw [hbooks]
        exact .refl _
      exact .kept hnew hlogs (by simp)
    rcases branch_move h hb hv with
      ⟨hlogs, hinline, hhanded, -⟩ | ⟨hbooks, -⟩ | ⟨y, hbooks, -⟩ | ⟨hbooks, -, -, -⟩ |
      ⟨hlogs, -, -⟩ | ⟨k, hlogs, hsplit, hsplit'⟩ |
      ⟨hlive, hdone, hlogs, hinline, hhanded, hsplit, hsplit'⟩
    · refine .kept hnew hlogs fun hmem => ?_
      rcases List.mem_append.1 hmem with hmem | hmem
      · exact not_resolve_of_plain hinline hmem
      · exact not_resolve_of_plain hhanded hmem
    · exact .written hnew hbooks
    · exact hquiet hbooks
    · exact hquiet hbooks
    · exact .kept hnew hlogs (by simp)
    · rw [hsplit] at hold
      rw [View.xids, hsplit'] at hnodup
      refine .kept hnew hlogs fun hmem => ?_
      rw [hsplit'] at hnew
      rcases List.mem_append.1 hmem with hmem | hmem
      · obtain ⟨g, -, heq⟩ := List.mem_map.1 hmem
        cases heq
      · exact not_resolve_of_other hold hnew (by simp) hnodup hx (filter_released ..) hmem
    · rw [hsplit] at hold
      rw [View.xids, hsplit'] at hnodup
      refine .kept hnew hlogs fun hmem => ?_
      rw [hsplit'] at hnew
      rcases List.mem_append.1 hmem with hmem | hmem
      · exact not_resolve_of_plain hinline hmem
      · refine not_resolve_of_other hold hnew (fun heq => ?_) hnodup hx hhanded hmem
        injection heq with _ hst
        rcases hlive with rfl | rfl <;> rcases hdone with rfl | rfl <;> cases hst
  · cases h with
    | begun y =>
      obtain ⟨hi, -⟩ := List.getElem?_eq_some_iff.1 hold
      rw [List.getElem?_append_left hi, hold, Option.some.injEq] at hnew
      exact absurd hnew.symm hne
    | registered howner =>
      obtain ⟨rfl, rfl⟩ := replaced_of_ne hold hnew hne
      exact absurd rfl hstate
    | prepared hstore =>
      obtain ⟨rfl, rfl⟩ := replaced_of_ne hold hnew hne
      exact absurd rfl hstate
    | unprepared hstore =>
      obtain ⟨rfl, rfl⟩ := replaced_of_ne hold hnew hne
      exact absurd rfl hstate
    | committed hlive hpersist =>
      obtain ⟨rfl, rfl⟩ := replaced_of_ne hold hnew hne
      exact .committed (hlive.resolve_left hstate) hpersist (by rw [← hx]) hnew
    | undone hlive m =>
      obtain ⟨rfl, rfl⟩ := replaced_of_ne hold hnew hne
      exact .rolledBack hnew rfl
    | _ => exact absurd (Option.some.inj (hnew.symm.trans hold)) hne

/-! ## Cover -/

/-- Before the prepared records of a branch are deleted its record is written, by the time `more`
has been, or handed over. -/
def Precedes (mode : PersistenceMode) (x : Xid) (more queue : List Entry) (r : Record) : Prop :=
  (Entry.add r).Before (.resolve x) more ∨
    mode = .async ∧ .resolve x ∉ more ∧ (Entry.add r).Before (.resolve x) queue

theorem Precedes.logs {x : Xid} {more queue inline handed : List Entry} {r : Record}
    (h : Precedes mode x more queue r) (hnot : .resolve x ∉ inline) :
    Precedes mode x (more ++ inline) (queue ++ handed) r := by
  rcases h with h | ⟨hmode, hmore, hqueue⟩
  · exact Or.inl (h.append inline)
  · refine Or.inr ⟨hmode, fun hmem => ?_, hqueue.append handed⟩
    rcases List.mem_append.1 hmem with hmem | hmem
    · exact hmore hmem
    · exact hnot hmem

/-- The writer keeps the order. -/
theorem Precedes.writeNext {x : Xid} {more rest : List Entry} {e : Entry} {r : Record}
    (h : Precedes mode x more (e :: rest) r) :
    Precedes mode x (more ++ [e]) rest r ∧
      ((mode = .async → e ≠ .add r) → Precedes mode x more rest r) := by
  rcases h with h | ⟨hmode, hmore, l₁, l₂, hsplit, hnot⟩
  · exact ⟨Or.inl (h.append [e]), fun _ => Or.inl h⟩
  · cases l₁ with
    | nil =>
      rw [List.nil_append, List.cons.injEq] at hsplit
      obtain ⟨rfl, rfl⟩ := hsplit
      exact ⟨Or.inl ⟨more, [], rfl, hmore⟩, fun hne => absurd rfl (hne hmode)⟩
    | cons f l₁ =>
      rw [List.cons_append, List.cons.injEq] at hsplit
      obtain ⟨rfl, rfl⟩ := hsplit
      rw [List.mem_cons, not_or] at hnot
      refine ⟨Or.inr ⟨hmode, by simp [hmore, hnot.1], l₁, l₂, rfl, hnot.2⟩, fun _ => ?_⟩
      exact Or.inr ⟨hmode, hmore, l₁, l₂, rfl, hnot.2⟩

/-- Nothing deletes the records of a branch as long as it is prepared. When it has been committed,
records of its stages precede that: of all of them in mandatory mode, of the first in async mode.
`ws` is what had been written before it was watched. -/
def Covered (mode : PersistenceMode) (ws : List Entry) (i : Nat) (x : Xid)
    (held : List (HeldStage × Bool)) (v : View) : Prop :=
  (∃ o, v.outlines[i]? = some o ∧ o.state = .rolledBack) ∨
    ∃ more, v.books.writes = ws ++ more ∧
      (v.outlines[i]? = some ⟨some x, .prepared, held⟩ ∧ .resolve x ∉ more ∧
          .resolve x ∉ v.books.queue ∨
        v.outlines[i]? = some ⟨some x, .committed, held⟩ ∧
          ∀ h ∈ held.map (·.1), mode = .mandatory ∨ (held.map (·.1)).head? = some h →
            ∃ key, Precedes mode x more v.books.queue (h.staged.recordAt key))

variable {ws : List Entry} {i : Nat} {x : Xid} {held : List (HeldStage × Bool)}

/-- Committing a branch writes or hands over the records in time. -/
theorem precedes_committed {more : List Entry} (hb : Keeping mode b) (haddressed : Addressed b)
    (hheld : ∀ h ∈ held, h.1.AtOffice) (hopen : ∀ h ∈ held, b.Open h.1)
    (hpersist : b.persistAll held = (b', .ok ())) (hmore : .resolve x ∉ more)
    (hqueue : .resolve x ∉ b.queue) :
    ∃ inline handed, Logs b (b'.promoteAll (some x) held) inline handed ∧
      ∀ h ∈ held.map (·.1), mode = .mandatory ∨ (held.map (·.1)).head? = some h →
        ∃ key, Precedes mode x (more ++ inline) (b.queue ++ handed) (h.staged.recordAt key) := by
  obtain ⟨inline, hlogs, hadds, hasync⟩ := logs_persistAll hb hheld
  have hsteps := steps_persistAll hheld b
  have hstillopen := open_persistAll b held
  rw [hpersist] at hlogs hsteps hstillopen
  have hb' := hb.of_stations hlogs.stations
  have haddressed' : Addressed b' := of_steps (fun _ _ => addressed_step) hsteps haddressed
  cases mode with
  | mandatory =>
    obtain ⟨recorded, hlogs', hrecorded⟩ := recorded_persistAll hb hheld hpersist
    obtain rfl : inline = recorded := hlogs.inline_eq hlogs'
    obtain ⟨handed, hpromoted, -⟩ := logs_promoteAll hb' haddressed' hheld (some x)
    refine ⟨inline, handed, by simpa using hlogs.trans hpromoted, fun _ hg _ => ?_⟩
    obtain ⟨h, hh, rfl⟩ := List.mem_map.1 hg
    obtain ⟨key, hkey⟩ := hrecorded h hh (hopen h hh)
    refine ⟨key, Or.inl (Entry.before_of_mem (List.mem_append_right _ hkey) fun hmem => ?_)⟩
    rcases List.mem_append.1 hmem with hmem | hmem
    · exact hmore hmem
    · obtain ⟨g, -, k, heq⟩ := hadds _ hmem
      cases heq
  | async =>
    obtain rfl := hasync rfl
    cases held with
    | nil =>
      obtain ⟨handed, hpromoted, -⟩ := logs_promoteAll hb' haddressed' hheld (some x)
      exact ⟨[], handed, by simpa using hlogs.trans hpromoted, fun h hh => by cases hh⟩
    | cons first rest =>
      obtain ⟨key, handed, hpromoted⟩ := handed_promoteAll hb' haddressed' hheld
        ((hstillopen first.1).2 (hopen first (by simp))) (some x)
      refine ⟨[], _, by simpa using hlogs.trans hpromoted, fun h hh hfirst => ⟨key, Or.inr ?_⟩⟩
      obtain rfl : first.1 = h := by simpa using hfirst
      exact ⟨rfl, by simpa using hmore, b.queue, handed, rfl, hqueue⟩

theorem covered_move {v v' : View} (h : Move P v v') (hb : Keeping mode v.books)
    (hv : v.Local) (hcustody : Custody floor v)
    (htakes : mode = .async → v.books.storage.Takes .append) (hnodup : v'.xids.Nodup)
    (habove : ∀ h ∈ held, h.1.Above floor) (hc : Covered mode ws i x held v) :
    Covered mode ws i x held v' := by
  rcases hc with ⟨o, ho, hstate⟩ | ⟨more, hwrites, ⟨ho, hmore, hqueue⟩ | ⟨ho, hprecedes⟩⟩
  · obtain ⟨o', ho', hgrows⟩ := outline_move h ho
    obtain rfl := hgrows.completed (by simp [Outline.isLive, hstate])
    exact Or.inl ⟨o', ho', hstate⟩
  · have hmem := List.mem_of_getElem? ho
    rcases watch_move h hb hv hnodup ho rfl (by simp) with
      ⟨hsame, hlogs, hnot⟩ | ⟨hsame, hbooks⟩ | ⟨-, hpersist, hbooks, hdone⟩ | ⟨hdone, hstate⟩
    · rename_i inline handed
      rw [List.mem_append, not_or] at hnot
      refine Or.inr ⟨more ++ inline, ?_, Or.inl ⟨hsame, ?_, ?_⟩⟩
      · rw [hlogs.writes, hwrites, List.append_assoc]
      · simp [hmore, hnot.1]
      · simp [hlogs.queue, hqueue, hnot.2]
    · rw [Covered, hbooks]
      rcases logs_writeNext v.books with ⟨-, heq⟩ |
        ⟨e, rest, hold, hrest, -, -, ⟨hw, -⟩ | ⟨hw, -, -⟩⟩
      · rw [heq]
        exact Or.inr ⟨more, hwrites, Or.inl ⟨hsame, hmore, hqueue⟩⟩
      · rw [hold, List.mem_cons, not_or] at hqueue
        refine Or.inr ⟨more ++ [e], ?_, Or.inl ⟨hsame, ?_, hrest ▸ hqueue.2⟩⟩
        · rw [hw, hwrites, List.append_assoc]
        · simp [hmore, hqueue.1]
      · rw [hold, List.mem_cons, not_or] at hqueue
        exact Or.inr ⟨more, hw.trans hwrites, Or.inl ⟨hsame, hmore, hrest ▸ hqueue.2⟩⟩
    · have hstages : ∀ g ∈ held, g.1 ∈ v.live := fun g hg => by
        refine List.mem_append_right _ (List.mem_flatMap.2
          ⟨_, List.mem_filter.2 ⟨hmem, rfl⟩, List.mem_map_of_mem hg⟩)
      have hat : ∀ g ∈ held, g.1.AtOffice := fun g hg => by
        refine hv.atOffice _ (List.mem_append_right _ (List.mem_flatMap.2 ⟨_, hmem, ?_⟩))
        exact List.mem_map_of_mem hg
      obtain ⟨inline, handed, hlogs, hin⟩ := precedes_committed hb hv.addressed hat
        (fun g hg => hcustody.kept g.1 (hstages g hg) (habove g hg)) hpersist hmore hqueue
      rw [← hbooks] at hlogs
      refine Or.inr ⟨more ++ inline, ?_, Or.inr ⟨hdone, ?_⟩⟩
      · rw [hlogs.writes, hwrites, List.append_assoc]
      · rw [hlogs.queue]
        exact hin
    · exact Or.inl ⟨_, hdone, hstate⟩
  · rcases watch_move h hb hv hnodup ho rfl (by simp) with
      ⟨hsame, hlogs, hnot⟩ | ⟨hsame, hbooks⟩ | ⟨hlive, -, -, -⟩ | ⟨hdone, hstate⟩
    · rename_i inline handed
      refine Or.inr ⟨more ++ inline, ?_, Or.inr ⟨hsame, fun g hg hfirst => ?_⟩⟩
      · rw [hlogs.writes, hwrites, List.append_assoc]
      · obtain ⟨key, hkey⟩ := hprecedes g hg hfirst
        rw [hlogs.queue]
        exact ⟨key, hkey.logs fun hmem => hnot (List.mem_append_left _ hmem)⟩
    · rw [Covered, hbooks]
      rcases logs_writeNext v.books with ⟨-, heq⟩ |
        ⟨e, rest, hold, hrest, -, -, ⟨hw, -⟩ | ⟨hw, -, hnot⟩⟩
      · rw [heq]
        exact Or.inr ⟨more, hwrites, Or.inr ⟨hsame, hprecedes⟩⟩
      · rw [hold] at hprecedes
        refine Or.inr ⟨more ++ [e], ?_, Or.inr ⟨hsame, fun g hg hfirst => ?_⟩⟩
        · rw [hw, hwrites, List.append_assoc]
        · obtain ⟨key, hkey⟩ := hprecedes g hg hfirst
          exact ⟨key, hrest ▸ hkey.writeNext.1⟩
      · rw [hold] at hprecedes
        refine Or.inr ⟨more, hw.trans hwrites, Or.inr ⟨hsame, fun g hg hfirst => ?_⟩⟩
        obtain ⟨key, hkey⟩ := hprecedes g hg hfirst
        refine ⟨key, hrest ▸ hkey.writeNext.2 fun hmode => ?_⟩
        rintro rfl
        exact hnot (htakes hmode)
    · cases hlive
    · exact Or.inl ⟨_, hdone, hstate⟩

theorem takes_moves {v v' : View} (h : Moves P v v') (hv : v.Local) (hb : Filed mode v.books)
    {m : JournalMethod} (htakes : v.books.storage.Takes m) : v'.books.storage.Takes m :=
  (books_moves (I := fun b => Filed mode b ∧ b.storage.Takes m)
    (fun _ _ h hb => ⟨filed_step h hb.1, takes_step h hb.1.keeping hb.1.addressed hb.2⟩)
    h hv ⟨hb, htakes⟩).1.2

/-- Cover is kept in every run, as long as no two transactions have one xid. -/
theorem covered_moves {v v' : View} (h : Moves P v v') (hb : Filed mode v.books) (hv : v.Local)
    (hunkeyed : Unkeyed v.books) (hcustody : Custody floor v)
    (htakes : mode = .async → v.books.storage.Takes .append) (hnodup : v'.xids.Nodup)
    (habove : ∀ h ∈ held, h.1.Above floor) (hc : Covered mode ws i x held v) :
    Covered mode ws i x held v' := by
  induction h with
  | refl => exact hc
  | @tail v₁ v₂ hpre hmove ih =>
    obtain ⟨hlocal, -, hcustody₁⟩ := custody_moves hpre hv hunkeyed hcustody
    have hfiled := (books_moves (fun _ _ => filed_step) hpre hv hb).1
    exact covered_move hmove hfiled.keeping hlocal hcustody₁
      (fun hmode => takes_moves hpre hv hb (htakes hmode)) hnodup habove
      (ih (nodup_of_moves (.single hmove) hnodup))

/-! ## Transactions begun since the start -/

theorem stages_replaced {l₁ l₂ : List Outline} {o o' q' : Outline} {i : Nat}
    (hq' : (l₁ ++ o' :: l₂)[i]? = some q') {S : HeldStage → Prop}
    (h : ∀ g ∈ o'.stages, g ∈ o.stages ∨ S g) :
    ∃ q, (l₁ ++ o :: l₂)[i]? = some q ∧ ∀ g ∈ q'.stages, g ∈ q.stages ∨ S g := by
  rw [getElem?_replaced l₁ l₂ o o'] at hq'
  split at hq'
  · rename_i hi
    subst hi
    obtain rfl := Option.some.inj hq'
    exact ⟨o, by simp, h⟩
  · exact ⟨q', hq', fun g hg => Or.inl hg⟩

/-- In a move a transaction gets no stage but that of the send under way. -/
theorem stages_move {v v' : View} (h : Move P v v') {i : Nat} {o' : Outline}
    (ho' : v'.outlines[i]? = some o') :
    o'.stages = [] ∨
      ∃ o, v.outlines[i]? = some o ∧ ∀ g ∈ o'.stages, g ∈ o.stages ∨ g ∈ v.loose := by
  cases h with
  | @begun b os y =>
    rcases Nat.lt_or_ge i os.length with hi | hi
    · rw [List.getElem?_append_left hi] at ho'
      exact Or.inr ⟨o', ho', fun g hg => Or.inl hg⟩
    · rw [List.getElem?_append_right hi] at ho'
      rw [List.mem_singleton.1 (List.mem_of_getElem? ho')]
      exact Or.inl rfl
  | registered howner =>
    refine Or.inr (stages_replaced ho' fun g hg => ?_)
    rw [Outline.stages, List.map_append, List.mem_append] at hg
    exact hg
  | prepared hstore =>
    refine Or.inr (stages_replaced ho' fun g hg => Or.inl ?_)
    rwa [Outline.stages, stages_storeAll hstore] at hg
  | unprepared hstore =>
    refine Or.inr (stages_replaced ho' fun g hg => Or.inl ?_)
    rwa [Outline.stages, stages_storeAll_take hstore] at hg
  | committed hlive hpersist => exact Or.inr (stages_replaced ho' fun g hg => Or.inl hg)
  | undone hlive m => exact Or.inr (stages_replaced ho' fun g hg => Or.inl hg)
  | _ => exact Or.inr ⟨o', ho', fun g hg => Or.inl hg⟩

/-- The stages of the send under way, and of the transactions after the first `k`, lie above the
numbers that the caches began with. -/
structure Recent (floor : CacheRef → Nat) (k : Nat) (v : View) : Prop where
  loose : ∀ h ∈ v.loose, h.Above floor
  stages : ∀ i o, k ≤ i → v.outlines[i]? = some o → ∀ h ∈ o.stages, h.Above floor

theorem recent_move {k : Nat} {v v' : View} (h : Move P v v')
    (hfloor : ∀ ref, floor ref ≤ v.books.next ref) (hv : Recent floor k v) :
    Recent floor k v' := by
  refine ⟨?_, fun i o' hi ho' g hg => ?_⟩
  · cases h with
    | granted hgrant =>
      intro g hg
      rw [List.mem_singleton.1 hg, HeldStage.Above, (sequence_granted hgrant).1]
      exact hfloor _
    | _ => exact fun g hg => by cases hg
  · rcases stages_move h ho' with hnone | ⟨o, ho, hstages⟩
    · rw [hnone] at hg
      cases hg
    · rcases hstages g hg with hg | hg
      · exact hv.stages i o hi ho g hg
      · exact hv.loose g hg

theorem recent_moves {k : Nat} {v v' : View} (h : Moves P v v') (hv : v.Local)
    (hunkeyed : Unkeyed v.books) (hcustody : Custody floor v) (hrecent : Recent floor k v) :
    Recent floor k v' := by
  induction h with
  | refl => exact hrecent
  | tail hpre hmove ih =>
    exact recent_move hmove (custody_moves hpre hv hunkeyed hcustody).2.2.floor_le ih

/-! ## Cuts -/

/-- Nothing is about to delete the records of a branch that has not been completed. -/
theorem unresolved_of_live {v : View} (hv : Pledged mode v) (hnodup : v.xids.Nodup) {o : Outline}
    (ho : o ∈ v.outlines) (hlive : o.isLive = true) (hx : o.xid = some x) :
    .resolve x ∉ v.books.queue := by
  intro hmem
  obtain ⟨g, hg, hgx, hglive⟩ := hv.resolving x hmem
  obtain rfl := eq_of_xid hnodup ho hg hx hgx
  rw [hlive] at hglive
  cases hglive

/-- The records of a prepared branch stand in the journal, and not only in what is still to be
written. -/
theorem mem_prepared_of_pledged (hb : Pledged mode b.view) {o : Outline} (ho : o ∈ b.outlines)
    (hprepared : o.state = .prepared) {x : Xid} (hx : o.xid = some x) {h : HeldStage}
    (hh : h ∈ o.stages) : ⟨x, h.staged.record⟩ ∈ b.storage.ledger.prepared := by
  have hpledge : ⟨x, h.staged.record⟩ ∈ o.pledges := by
    rw [hb.pledges ho hprepared hx]
    exact List.mem_map_of_mem hh
  have hsettled := hb.records.mem_iff.2 (List.mem_flatMap.2 ⟨o, ho, hpledge⟩)
  rw [settled_prepared] at hsettled
  exact (Ledger.mem_of_mem_preparedAll hsettled).resolve_right (hb.storing _ _)

/-- At a cut the identifier of a stage is prepared, if its branch has not been resolved, and else
committed, if it has not been pruned. -/
theorem found_at_cut {l : Ledger} (hl : Ledger.Ordered l.committed) {h : HeldStage}
    (hthere : ⟨x, h.staged.record⟩ ∈ l.prepared) {more queue : List Entry}
    (hone : ∀ r s, .add r ∈ more → .add s ∈ more → r.samePlace s = true → r = s)
    (hmore : .resolve x ∉ more ∨ ∃ key, Precedes mode x more queue (h.staged.recordAt key))
    (j : Nat) :
    ⟨x, h.staged.record⟩ ∈ (l.applyAll (more.take j)).prepared ∨
      ∃ key, .add (h.staged.recordAt key) ∈ more.take j ∧
        (h.staged.recordAt key ∈ (l.applyAll (more.take j)).committed ∨
          .prune h.staged.address key ∈ more.take j) := by
  by_cases hresolved : .resolve x ∈ more.take j
  · rcases hmore with hnot | ⟨key, hbefore | ⟨-, hnot, -⟩⟩
    · exact absurd (List.mem_of_mem_take hresolved) hnot
    · have hadded := hbefore.mem_take hresolved
      refine Or.inr ⟨key, hadded, Ledger.mem_committed_applyAll hl (fun s hs => ?_) (Or.inr hadded)⟩
      exact hone s _ (List.mem_of_mem_take hs) (List.mem_of_mem_take hadded)
    · exact absurd (List.mem_of_mem_take hresolved) hnot
  · exact Or.inl (Ledger.mem_prepared_applyAll hthere hresolved)

/-- The transactions that are there are left aside. -/
theorem recent_of_le {k : Nat} (hk : b.lastTransaction ≤ k) : Recent floor k b.view := by
  refine ⟨fun h hh => (by cases hh), fun i o hi ho => ?_⟩
  obtain ⟨hlt, -⟩ := List.getElem?_eq_some_iff.1 ho
  have hlength : i < b.transactions.length := by simpa [view, outlines] using hlt
  rw [lastTransaction] at hk
  omega

/-- A branch that has been prepared since the start of its post office, whatever comes then: at
every cut of what the journal has taken from its preparation on, a restart finds the identifiers of
its stages prepared as long as nothing has deleted them. Once the branch is committed it finds them
prepared or committed, if not pruned since, at every cut: all of them in mandatory mode, the first
one in async mode. -/
theorem prepared_or_committed {mailboxes : Table String Mailbox} {storage : Storage} {s : Settings}
    {k : Nat} {b₀ : Broker} (hpersist : s.persistIdCache = true ∧ s.duplicateDetection = true)
    (entries : List Entry) (hwritten : storage.ledger = ({} : Ledger).applyAll entries)
    (hdelete : storage.Takes .delete)
    (happend : s.idCachePersistence = .async → storage.Takes .append)
    (hstart : ({ mailboxes, storage } : Broker).start s = (b₀, .ok k))
    {cs ds : List Command} (hcs : ∀ c ∈ cs, c.isTraffic = true) (hds : ∀ c ∈ ds, c.isTraffic = true)
    {n : Nat} (hn : b₀.lastTransaction < n) {x : Xid}
    (hx : ((b₀.run cs).transaction n).xid = some x)
    (hprepared : ((b₀.run cs).transaction n).state = .prepared)
    (hdone : (((b₀.run cs).run ds).transaction n).state ≠ .rolledBack)
    (hxids : (((b₀.run cs).run ds).transactions.filterMap (·.xid)).Nodup) :
    let b := b₀.run cs
    let stages := (b.transaction n).outline.stages
    ∃ more, (b.run ds).writes = b.writes ++ more ∧
      ∀ h ∈ stages, ∀ j, let ledger := b.storage.ledger.applyAll (more.take j)
        (.resolve x ∉ more.take j → ⟨x, h.staged.record⟩ ∈ ledger.prepared) ∧
          (s.idCachePersistence = .mandatory ∨ stages.head? = some h →
            ⟨x, h.staged.record⟩ ∈ ledger.prepared ∨
              ∃ key, .add (h.staged.recordAt key) ∈ more.take j ∧
                (h.staged.recordAt key ∈ ledger.committed ∨
                  .prune h.staged.address key ∈ more.take j)) := by
  intro b stages
  obtain ⟨hbegun, hkept, -, hrecords⟩ :=
    begun_start hpersist (Ledger.ordered_of_entries hwritten) hstart
  obtain ⟨hmoves, hproper⟩ := moves_run hcs (hbegun.proper _)
  obtain ⟨hlater, -⟩ := moves_run hds hproper
  obtain ⟨hlocal, hunkeyed, hcustody⟩ :=
    custody_moves hmoves hbegun.atOffice hbegun.unkeyed hbegun.custody
  have hnodup : (b.run ds).view.xids.Nodup := by
    rw [xids_view]
    exact hxids
  have hnodup₁ : b.view.xids.Nodup := nodup_of_moves hlater hnodup
  have hpledged : Pledged s.idCachePersistence b.view :=
    pledged_moves hmoves hnodup₁ (hbegun.pledged (hkept _ hdelete) hrecords)
  -- The branch as it has been prepared.
  have hlive : (b.transaction n).outline.isLive = true := by
    rw [Outline.isLive, show (b.transaction n).outline.state = .prepared from hprepared]
    rfl
  obtain ⟨i, rfl, hold⟩ := outline_of_live hlive
  have hmem := List.mem_of_getElem? hold
  have hunresolved : .resolve x ∉ b.view.books.queue :=
    unresolved_of_live hpledged hnodup₁ hmem hlive hx
  have hthere : ∀ h ∈ stages, ⟨x, h.staged.record⟩ ∈ b.storage.ledger.prepared :=
    fun h hh => mem_prepared_of_pledged hpledged hmem hprepared hx hh
  have hfiled := (books_moves (fun _ _ => filed_step) hmoves hbegun.atOffice hbegun.filed).1
  have hfiled' := (books_moves (fun _ _ => filed_step) hlater hlocal hfiled).1
  have hrecent := recent_moves hmoves hbegun.atOffice hbegun.unkeyed hbegun.custody
    (recent_of_le (Nat.le_of_lt_succ hn))
  have houtline : (b.transaction (i + 1)).outline =
      ⟨some x, .prepared, (b.transaction (i + 1)).outline.held⟩ := by
    rw [Transaction.outline, hx, hprepared]
  have hcovered : Covered s.idCachePersistence b.view.books.writes i x
      (b.transaction (i + 1)).outline.held b.view :=
    Or.inr ⟨[], by simp, Or.inl ⟨houtline ▸ hold, List.not_mem_nil, hunresolved⟩⟩
  have hend := covered_moves hlater hfiled hlocal hunkeyed hcustody
    (fun hmode => takes_moves hmoves hbegun.atOffice hbegun.filed (hkept _ (happend hmode))) hnodup
    (fun g hg => hrecent.stages i _ (Nat.le_refl i) hold g.1 (List.mem_map_of_mem hg)) hcovered
  rcases hend with ⟨o, ho, hrolledBack⟩ | ⟨more, hwrites, hcases⟩
  · rw [eq_of_outline ho] at hrolledBack
    exact absurd hrolledBack hdone
  · have hwrites' : (b.run ds).writes = b.writes ++ more := by
      rw [← writes_books, ← writes_books b]
      exact hwrites
    have hentries : ∀ f ∈ more, f ∈ (b.run ds).books.entries := fun f hf =>
      List.mem_append_left _ (hwrites ▸ List.mem_append_right _ hf)
    refine ⟨more, hwrites', fun h hh j => ⟨Ledger.mem_prepared_applyAll (hthere h hh), ?_⟩⟩
    intro hfirst
    have hmore : .resolve x ∉ more ∨ ∃ key, Precedes s.idCachePersistence x more
        (b.run ds).books.queue (h.staged.recordAt key) := by
      rcases hcases with ⟨-, hnot, -⟩ | ⟨-, hprecedes⟩
      · exact Or.inl hnot
      · exact Or.inr (hprecedes h hh hfirst)
    exact found_at_cut hfiled.ordered (hthere h hh)
      (fun r t hr ht => hfiled'.numbered.one r t (hentries _ hr) (hentries _ ht)) hmore j

/-- A branch with two identifiers is prepared. -/
def prepareTwo : List Command :=
  [.begin (some exampleXid), .route 0 0 (messageTo "orders" 1) (some 1) true,
    .route 0 1 (messageTo "orders" 2) (some 1) true, .prepareBranch (some 0) 1]

/-- The branch is committed, and the writer catches up. -/
def commitAndFlush : List Command := [.commitBranch (some 0) exampleXid, .flush 0]

theorem prepared_or_committed_first :
    let b := (({} : Broker).start (laterSettings 10)).1.run prepareTwo
    ((b.run commitAndFlush).transaction 1).state = .committed ∧
      ∃ more, (b.run commitAndFlush).writes = b.writes ++ more ∧
        ∀ j, let ledger := b.storage.ledger.applyAll (more.take j)
          ⟨exampleXid, ⟨⟨"orders"⟩, 1, [1]⟩⟩ ∈ ledger.prepared ∨
            ∃ key, .add ⟨⟨"orders"⟩, key, [1]⟩ ∈ more.take j ∧
              (⟨⟨"orders"⟩, key, [1]⟩ ∈ ledger.committed ∨
                .prune ⟨"orders"⟩ key ∈ more.take j) := by
  intro b
  have htakes : ∀ m, ({} : Storage).Takes m := fun m => ⟨List.not_mem_nil, List.not_mem_nil⟩
  have hstart : ({} : Broker).start (laterSettings 10) =
      ((({} : Broker).start (laterSettings 10)).1, .ok 0) := by decide +kernel
  have hfirst : (b.transaction 1).outline.stages.head? =
      some ⟨.office 0 ⟨"orders"⟩, ⟨⟨"orders"⟩, [1], 1, .transaction 1⟩⟩ := by decide +kernel
  obtain ⟨more, hmore, hcuts⟩ :=
    prepared_or_committed (s := laterSettings 10) (by decide) [] rfl (htakes _) (fun _ => htakes _)
      hstart (show ∀ c ∈ prepareTwo, c.isTraffic = true by decide)
      (show ∀ c ∈ commitAndFlush, c.isTraffic = true by decide) (n := 1) (by decide +kernel)
      (x := exampleXid) (by decide +kernel) (by decide +kernel) (by decide +kernel)
      (by decide +kernel)
  refine ⟨by decide +kernel, more, hmore, fun j => ?_⟩
  exact (hcuts _ (List.mem_of_mem_head? hfirst) j).2 (Or.inr hfirst)

/-- In async mode a crash after the first deletion loses the second identifier: it is neither
prepared nor committed, and a restart takes it for new. -/
theorem second_lost :
    let b := (({} : Broker).start (laterSettings 10)).1.run
      (prepareTwo ++ [.commitBranch (some 0) exampleXid, .writeNext 0, .writeNext 0])
    let c := (({ storage := b.storage } : Broker).start (laterSettings 10)).1
    (b.transaction 1).state = .committed ∧ b.storage.ledger.prepared = [] ∧
      b.storage.ledger.committed = [⟨⟨"orders"⟩, 3, [1]⟩] ∧
      (c.cache (.office 0 ⟨"orders"⟩)).isDuplicate [2] = false ∧
      c.isPending ⟨"orders"⟩ [2] = false := by
  decide +kernel

end Broker

end MessageRouting
