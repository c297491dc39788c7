import MessageRouting.Proofs.District.Routing
import MessageRouting.Proofs.Restart.OrderlyJournals

/-!
# Addresses apart

The sends to one address and the transactions that send there do not notice what
is sent elsewhere: neither by their answers, nor by the identifiers that the
address remembers, nor by what the journal holds for it. In a run from which
everything else has been cut they fare the same, up to the numbers of
transactions and owners.

Results:

* `within_perform`, `beyond_perform`: a request is made.
* `excerpt_run`: a run, and the same run with everything else cut.
* `district_alone`: from a start on, a district fares as if it were alone.
-/

namespace MessageRouting

namespace Broker

variable {D : District} {M : List (Nat × Nat)} {b b' : Broker}

/-! ## Bindings -/

/-- The result is replied; numbers of transactions are all that differs. -/
theorem Follows.reply {α : Type} {f : α → α} {r r' : Broker × α} (h : Follows D M f r r')
    {g : α → Reply} (hg : g (f r.2) = (g r.2).renumber D.rank) :
    Follows D M (Reply.renumber D.rank) (r.map id g) (r'.map id g) :=
  ⟨h.excerpt, by rw [Prod.map_snd, Prod.map_snd, h.answer, hg]⟩

/-- Bindings are added in the excerpt, too. -/
theorem within_bind (h : Excerpt D M b b') (binding : Binding) :
    Follows D M id (b.bind (some 0) binding) (b'.bind (some 0) binding) := by
  have hopened : Excerpt D M (b.openMailbox binding.queue) (b'.openMailbox binding.queue) :=
    h.setMailbox _ (h.mailboxes _)
  obtain ⟨hasked, hanswer⟩ := within_ask hopened (.add binding)
  have hsame : (((b'.openMailbox binding.queue).office 0).desk.registry.add binding).2 =
      (((b.openMailbox binding.queue).office 0).desk.registry.add binding).2 :=
    Registry.Response.changed.inj hanswer
  have hset : Excerpt D M
      ((b.openMailbox binding.queue).setRegistry (some 0)
        (((b.openMailbox binding.queue).office 0).desk.registry.add binding).1)
      ((b'.openMailbox binding.queue).setRegistry (some 0)
        (((b'.openMailbox binding.queue).office 0).desk.registry.add binding).1) := hasked
  unfold bind
  dsimp only [deskAt]
  generalize ((b.openMailbox binding.queue).office 0).desk.registry.add binding = added
    at hsame hset
  generalize ((b'.openMailbox binding.queue).office 0).desk.registry.add binding = added'
    at hsame hset
  obtain ⟨r, result⟩ := added
  obtain ⟨r', result'⟩ := added'
  obtain rfl : result' = result := hsame
  cases result' with
  | error e => exact ⟨hopened, rfl⟩
  | ok added => exact ⟨within_notify hset _, rfl⟩

theorem within_unbind (h : Excerpt D M b b') (name : String) :
    Follows D M id (b.unbind (some 0) name) (b'.unbind (some 0) name) := by
  obtain ⟨hasked, hanswer⟩ := within_ask h (.remove name)
  have hsame : ((b'.office 0).desk.registry.remove name).2 =
      ((b.office 0).desk.registry.remove name).2 := Registry.Response.changed.inj hanswer
  have hset : Excerpt D M
      (b.setRegistry (some 0) ((b.office 0).desk.registry.remove name).1)
      (b'.setRegistry (some 0) ((b'.office 0).desk.registry.remove name).1) := hasked
  unfold unbind
  dsimp only [deskAt]
  generalize (b.office 0).desk.registry.remove name = removed at hsame hset
  generalize (b'.office 0).desk.registry.remove name = removed' at hsame hset
  obtain ⟨r, result⟩ := removed
  obtain ⟨r', result'⟩ := removed'
  obtain rfl : result' = result := hsame
  cases result' with
  | error e => exact ⟨h, rfl⟩
  | ok removed => exact ⟨within_notify hset _, rfl⟩

/-- No refusal of a binding names a transaction. -/
theorem renumber_bind (b : Broker) (binding : Binding) (f : Nat → Nat) :
    (Reply.ofBinding (b.bind (some 0) binding).2).renumber f =
      .ofBinding (b.bind (some 0) binding).2 := by
  unfold bind
  dsimp only
  rcases hadd : ((b.openMailbox binding.queue).deskAt (some 0)).registry.add binding with
    ⟨r, result⟩
  cases result with
  | ok added => rfl
  | error e =>
    unfold Registry.add at hadd
    split at hadd
    · cases hadd
      rfl
    · split at hadd
      · cases hadd
        rfl
      · cases hadd

theorem renumber_unbind (b : Broker) (name : String) (f : Nat → Nat) :
    (Reply.ofBinding (b.unbind (some 0) name).2).renumber f =
      .ofBinding (b.unbind (some 0) name).2 := by
  unfold unbind
  rcases hremove : (b.deskAt (some 0)).registry.remove name with ⟨r, result⟩
  cases result with
  | ok removed => rfl
  | error e =>
    unfold Registry.remove at hremove
    split at hremove
    · cases hremove
      rfl
    · cases hremove

/-! ## Beginnings of transactions -/

theorem lastTransaction_begin (b : Broker) (xid : Option Xid) :
    (b.begin xid).2 = b.transactions.length + 1 := by
  simp [begin, addTransaction, lastTransaction]

theorem within_begin (h : Excerpt D M b b')
    (hhome : D.home (b.transactions.length + 1) = D.address) :
    Follows D M D.rank (b.begin none) (b'.begin none) := by
  have hadded := h.transactions.begin.1 hhome
  refine ⟨h.setTransactions hadded, ?_⟩
  have hcount := hadded.count
  simp only [addTransaction, List.length_append, List.length_singleton] at hcount
  rw [lastTransaction_begin, lastTransaction_begin, hcount]

theorem beyond_begin (h : Excerpt D M b b')
    (hhome : D.home (b.transactions.length + 1) ≠ D.address) :
    Excerpt D M (b.begin none).1 b' :=
  beyond_setTransactions h (h.transactions.begin.2 hhome)

/-! ## Resumptions -/

/-- A call of another district tries again. -/
theorem beyond_resume (h : Excerpt D M b b')
    (hcache : ∀ call rest, b.ready = call :: rest → call.cache ≠ D.cache) :
    Excerpt D M b.resume b' := by
  unfold resume
  cases hready : b.ready with
  | nil => exact h
  | cons call rest =>
    obtain ⟨a, r, hcall, ha, hrest⟩ := (hready ▸ h.ready).turn_beyond (hcache call rest hready)
    have hleft : Excerpt D M { b with ready := rest } b' :=
      h.change ⟨rfl, rfl⟩ ⟨rfl, rfl⟩ h.offices h.mailboxes h.storage h.waiting hrest
    have hsubmitted := beyond_submitCall hleft ha hcall
    dsimp only
    rcases hsubmit : ({ b with ready := rest } : Broker).submitCall call with ⟨c, answer⟩
    rw [hsubmit] at hsubmitted
    cases answer with
    | none => exact hsubmitted
    | some answer => exact beyond_log hsubmitted _

/-- A call of another district lets others go first. -/
theorem beyond_defer (h : Excerpt D M b b')
    (hcache : ∀ call rest, b.ready = call :: rest → call.cache ≠ D.cache) :
    Excerpt D M b.defer b' := by
  unfold defer
  cases hready : b.ready with
  | nil => exact h
  | cons call rest =>
    obtain ⟨a, r, hcall, ha, hrest⟩ := (hready ▸ h.ready).turn_beyond (hcache call rest hready)
    exact h.change ⟨rfl, rfl⟩ ⟨rfl, rfl⟩ h.offices h.mailboxes h.storage h.waiting
      (hrest.wait_beyond hcall ha)

/-- What a resumption answers: the first call that may try again, if it ends. -/
def resumed (b : Broker) : List Event :=
  match b.ready with
  | [] => []
  | call :: rest =>
    (({ b with ready := rest } : Broker).submitCall call).2.toList.map (.answered call.ticket)

theorem answers_resume (b : Broker) : b.resume.answers = b.answers ++ b.resumed := by
  unfold resume resumed
  cases hready : b.ready with
  | nil => exact (List.append_nil _).symm
  | cons call rest =>
    have hfixtures := congrArg Prod.fst (fixtures_submitCall { b with ready := rest } call)
    dsimp only
    rcases hsubmit : ({ b with ready := rest } : Broker).submitCall call with ⟨c, answer⟩
    rw [hsubmit] at hfixtures
    have hanswers : c.answers = b.answers := hfixtures
    cases answer with
    | none =>
      rw [hanswers]
      exact (List.append_nil _).symm
    | some answer =>
      show (c.trace ++ [_]).filter Event.isAnswer = _
      rw [List.filter_append, show c.trace.filter Event.isAnswer = b.answers from hanswers]
      rfl

/-- A call of the district that tries again does so in the excerpt, and is answered the same. -/
theorem within_resume (h : Excerpt D M b b')
    (hcache : ∃ call rest, b.ready = call :: rest ∧ call.cache = D.cache) :
    Excerpt D M b.resume b'.resume ∧
      b'.resumed = b.resumed.map (Event.renumber D.rank) := by
  obtain ⟨call, rest, hready, hcache⟩ := hcache
  obtain ⟨r, call', rest', hready', hcall, hpair, hrest⟩ := (hready ▸ h.ready).turn hcache
  have hleft : Excerpt D M { b with ready := rest } { b' with ready := rest' } :=
    h.change ⟨rfl, rfl⟩ ⟨rfl, rfl⟩ h.offices h.mailboxes h.storage h.waiting hrest
  obtain ⟨c, c', answer, hb, hb', hc⟩ := (within_submitCall hleft hcall hpair).split
  simp only [resume, resumed, hready, hready', hb, hb', hpair.ticket]
  cases answer with
  | none => exact ⟨hc, rfl⟩
  | some answer => exact ⟨hc.log _ _, rfl⟩

/-- A call of the district that lets others go first does so in the excerpt. -/
theorem within_defer (h : Excerpt D M b b')
    (hcache : ∃ call rest, b.ready = call :: rest ∧ call.cache = D.cache) :
    Excerpt D M b.defer b'.defer := by
  obtain ⟨call, rest, hready, hcache⟩ := hcache
  obtain ⟨r, call', rest', hready', hcall, hpair, hrest⟩ := (hready ▸ h.ready).turn hcache
  simp only [defer, hready, hready']
  exact h.change ⟨rfl, rfl⟩ ⟨rfl, rfl⟩ h.offices h.mailboxes h.storage h.waiting
    (hrest.wait hcall rfl hpair)

/-! ## Writes -/

/-- The writer makes the next write. -/
theorem writeNext_of_queue {e : Entry} {rest : List Entry} {o : Office} (ho : b.offices = [o])
    (hqueue : o.writer.queue = e :: rest) :
    b.writeNext 0 = (({ b with
      offices := [{ o with writer := { o.writer with queue := rest } }] } : Broker).write
        .writer e).1 := by
  unfold writeNext
  rw [office_of_single ho, hqueue]
  simp [modifyOffice, ho]

theorem within_writeNext (h : Excerpt D M b b') {e : Entry} {rest : List Entry}
    (hqueue : (b.office 0).writer.queue = e :: rest) (he : e.concerns D.address = true) :
    Excerpt D M (b.writeNext 0) (b'.writeNext 0) := by
  obtain ⟨o, o', hb, hb', hmatch⟩ := h.offices
  rw [office_of_single hb] at hqueue
  have hqueue' := hmatch.queue
  rw [hqueue, List.filter_cons_of_pos he] at hqueue'
  rw [writeNext_of_queue hb hqueue, writeNext_of_queue hb' hqueue']
  have htaken : Excerpt D M
      { b with offices := [{ o with writer := { o.writer with queue := rest } }] }
      { b' with offices := [{ o' with
        writer := { o'.writer with queue := rest.filter (·.concerns D.address) } }] } :=
    h.change ⟨rfl, rfl⟩ ⟨rfl, rfl⟩
      ⟨_, _, rfl, rfl, hmatch.station, hmatch.listed, rfl, hmatch.below⟩
      h.mailboxes h.storage h.waiting h.ready
  exact (htaken.write .writer e).1.excerpt

theorem beyond_writeNext (h : Excerpt D M b b') {e : Entry} {rest : List Entry}
    (hqueue : (b.office 0).writer.queue = e :: rest) (he : e.concerns D.address = false) :
    Excerpt D M (b.writeNext 0) b' := by
  obtain ⟨o, o', hb, hb', hmatch⟩ := h.offices
  rw [office_of_single hb] at hqueue
  have hqueue' := hmatch.queue
  rw [hqueue, List.filter_cons_of_neg (by simp [he])] at hqueue'
  rw [writeNext_of_queue hb hqueue]
  have htaken : Excerpt D M
      { b with offices := [{ o with writer := { o.writer with queue := rest } }] } b' :=
    h.change ⟨rfl, rfl⟩ ⟨rfl, rfl⟩
      ⟨_, _, rfl, hb', hmatch.station, hmatch.listed, hqueue', hmatch.below⟩
      h.mailboxes h.storage h.waiting h.ready
  exact beyond_write htaken .writer he

theorem writeNext_of_nil (hqueue : b.queue = []) : b.writeNext 0 = b := by
  unfold writeNext
  rw [show (b.office 0).writer.queue = [] from hqueue]

/-- All writes are made in both. -/
theorem within_flush (h : Excerpt D M b b') : Excerpt D M (b.flush 0) (b'.flush 0) := by
  have hall : ∀ (k : Nat) (b b' : Broker), Excerpt D M b b' → b.queue.length = k →
      Excerpt D M (b.writeSome 0 k) (b'.flush 0) := by
    intro k
    induction k with
    | zero =>
      intro b b' h hk
      have hnone : b'.queue = [] := by
        rw [queue, h.office.queue, show (b.office 0).writer.queue = [] from
          List.length_eq_zero_iff.1 hk]
        rfl
      rw [flush, show (b'.office 0).writer.queue = [] from hnone]
      exact h
    | succ k ih =>
      intro b b' h hk
      have hleft : (b.writeNext 0).queue.length = k := by
        rw [length_queue_writeNext, hk, Nat.add_sub_cancel]
      cases hqueue : (b.office 0).writer.queue with
      | nil =>
        rw [queue, hqueue] at hk
        cases hk
      | cons e rest =>
        cases he : e.concerns D.address with
        | false => exact ih _ _ (beyond_writeNext h hqueue he) hleft
        | true =>
          -- The entry is the first one to be written in the excerpt as well.
          have hqueue' := h.office.queue
          rw [hqueue, List.filter_cons_of_pos he] at hqueue'
          have hflush : b'.flush 0 = (b'.writeNext 0).flush 0 := by
            have hlength := length_queue_writeNext b'
            rw [show b'.queue = _ from hqueue', List.length_cons, Nat.add_sub_cancel] at hlength
            rw [flush, hqueue', flush, show ((b'.writeNext 0).office 0).writer.queue.length = _
              from hlength]
            rfl
          rw [hflush]
          exact ih _ _ (within_writeNext h hqueue he) hleft
  exact hall _ b b' h rfl

/-! ## Requests -/

theorem admits_route {office ticket : Nat} {m : Message} {transaction : Option Nat}
    {rejectDuplicates : Bool}
    (h : D.admits (.route office ticket m transaction rejectDuplicates) = true) :
    office = 0 ∧ ∀ n, transaction = some n → D.before < n ∧ D.home n = m.address := by
  cases transaction with
  | none => exact ⟨of_decide_eq_true h, fun _ hn => by cases hn⟩
  | some n =>
    simp only [District.admits, Bool.and_eq_true, decide_eq_true_eq] at h
    exact ⟨h.1.1, fun k hk => Option.some.inj hk ▸ ⟨h.1.2, h.2⟩⟩

theorem ready_of_concerns (h : b.ready.head?.any (fun call => call.cache = D.cache) = true) :
    ∃ call rest, b.ready = call :: rest ∧ call.cache = D.cache := by
  cases hready : b.ready with
  | nil =>
    rw [hready] at h
    cases h
  | cons call rest =>
    rw [hready] at h
    exact ⟨call, rest, rfl, of_decide_eq_true h⟩

theorem ready_of_not_concerns
    (h : b.ready.head?.any (fun call => call.cache = D.cache) = false) :
    ∀ call rest, b.ready = call :: rest → call.cache ≠ D.cache := by
  intro call rest hready
  rw [hready] at h
  exact of_decide_eq_false h

/-- A request that is about the district is made in the excerpt, too, with the same reply. -/
theorem within_perform (h : Excerpt D M b b') {c : Command} (hadmits : D.admits c = true)
    (hconcerns : D.concerns b c = true) :
    ∃ M', Follows D M' (Reply.renumber D.rank) (b.perform c)
      (b'.perform (c.renumber D.rank)) := by
  cases c with
  | bind desk binding =>
    obtain rfl := of_decide_eq_true hadmits
    exact ⟨M, (within_bind h binding).reply (renumber_bind b binding _).symm⟩
  | unbind desk name =>
    obtain rfl := of_decide_eq_true hadmits
    exact ⟨M, (within_unbind h name).reply (renumber_unbind b name _).symm⟩
  | route office ticket m transaction rejectDuplicates =>
    have hm : m.address = D.address := of_decide_eq_true hconcerns
    obtain ⟨rfl, hhomed⟩ := admits_route hadmits
    obtain ⟨M', hrouted⟩ := within_route h hm ticket hhomed rejectDuplicates
    refine ⟨M', hrouted.reply ?_⟩
    cases (b.route 0 ticket m transaction rejectDuplicates).2 <;> rfl
  | begin xid =>
    obtain rfl := of_decide_eq_true hadmits
    exact ⟨M, (within_begin h (of_decide_eq_true hconcerns)).reply rfl⟩
  | mark n reason => exact ⟨M, within_mark h (of_decide_eq_true hconcerns) reason, rfl⟩
  | prepare n =>
    refine ⟨M, (within_prepare h (of_decide_eq_true hadmits)
      (of_decide_eq_true hconcerns)).reply ?_⟩
    cases (b.prepare n).2 <;> rfl
  | commit n =>
    refine ⟨M, (within_commit h (of_decide_eq_true hadmits)
      (of_decide_eq_true hconcerns)).reply ?_⟩
    cases (b.commit n).2 <;> rfl
  | rollback n =>
    refine ⟨M, (within_rollback h (of_decide_eq_true hadmits)
      (of_decide_eq_true hconcerns)).reply ?_⟩
    cases (b.rollback n).2 <;> rfl
  | resume => exact ⟨M, (within_resume h (ready_of_concerns hconcerns)).1, rfl⟩
  | defer => exact ⟨M, within_defer h (ready_of_concerns hconcerns), rfl⟩
  | writeNext office =>
    obtain rfl := of_decide_eq_true hadmits
    simp only [District.concerns] at hconcerns
    cases hqueue : (b.office 0).writer.queue with
    | nil =>
      rw [hqueue] at hconcerns
      cases hconcerns
    | cons e rest =>
      rw [hqueue] at hconcerns
      exact ⟨M, within_writeNext h hqueue hconcerns, rfl⟩
  | flush office =>
    obtain rfl := of_decide_eq_true hadmits
    exact ⟨M, within_flush h, rfl⟩
  | _ => exact absurd hadmits Bool.false_ne_true

/-- A request that is not about the district leaves the excerpt an excerpt. -/
theorem beyond_perform (h : Excerpt D M b b') {c : Command} (hadmits : D.admits c = true)
    (hconcerns : D.concerns b c = false) : Excerpt D M (b.perform c).1 b' := by
  cases c with
  | route office ticket m transaction rejectDuplicates =>
    have hm : m.address ≠ D.address := of_decide_eq_false hconcerns
    obtain ⟨rfl, hhomed⟩ := admits_route hadmits
    exact beyond_route h hm ticket hhomed rejectDuplicates
  | begin xid =>
    obtain rfl := of_decide_eq_true hadmits
    exact beyond_begin h (of_decide_eq_false hconcerns)
  | mark n reason => exact beyond_mark h (of_decide_eq_false hconcerns) reason
  | prepare n =>
    rw [perform, prepare_of_local h (of_decide_eq_true hadmits)]
    exact h
  | commit n => exact beyond_commit h (of_decide_eq_true hadmits) (of_decide_eq_false hconcerns)
  | rollback n =>
    exact beyond_rollback h (of_decide_eq_true hadmits) (of_decide_eq_false hconcerns)
  | resume => exact beyond_resume h (ready_of_not_concerns hconcerns)
  | defer => exact beyond_defer h (ready_of_not_concerns hconcerns)
  | writeNext office =>
    obtain rfl := of_decide_eq_true hadmits
    simp only [District.concerns] at hconcerns
    cases hqueue : (b.office 0).writer.queue with
    | nil =>
      show Excerpt D M (b.writeNext 0) b'
      rw [writeNext_of_nil hqueue]
      exact h
    | cons e rest =>
      rw [hqueue] at hconcerns
      exact beyond_writeNext h hqueue hconcerns
  | bind desk binding => cases hconcerns
  | unbind desk name => cases hconcerns
  | flush office => cases hconcerns
  | _ => exact absurd hadmits Bool.false_ne_true

/-! ## Runs -/

theorem renumber_id (c : Command) : c.renumber id = c := by
  cases c <;> simp [Command.renumber]

/-- No call that waits is answered but by a resumption. -/
theorem answers_perform (hsingle : b.offices.length = 1) {c : Command}
    (hadmits : D.admits c = true) (hresume : c ≠ .resume) (f : Nat → Nat) :
    (b.perform (c.renumber f)).1.answers = b.answers := by
  have hplain : ∀ {d : Command}, d.isTraffic = true → d.isOutward = false →
      (b.perform d).1.answers = b.answers :=
    fun htraffic houtward => congrArg Prod.fst (outward_perform b htraffic houtward)
  cases c with
  | route office ticket m transaction rejectDuplicates =>
    obtain ⟨rfl, -⟩ := admits_route hadmits
    exact outward_route hsingle ticket m (transaction.map f) rejectDuplicates
  | resume => exact absurd rfl hresume
  | defer => exact hplain rfl rfl
  | bind _ _ => exact hplain rfl rfl
  | unbind _ _ => exact hplain rfl rfl
  | begin _ => exact hplain rfl rfl
  | mark _ _ => exact hplain rfl rfl
  | prepare _ => exact hplain rfl rfl
  | commit _ => exact hplain rfl rfl
  | rollback _ => exact hplain rfl rfl
  | writeNext office =>
    obtain rfl := of_decide_eq_true hadmits
    exact hplain rfl rfl
  | flush office =>
    obtain rfl := of_decide_eq_true hadmits
    exact hplain rfl rfl
  | _ => exact absurd hadmits Bool.false_ne_true

theorem outcome_of_answers {c : Command} {es : List Event}
    (h : (b.perform c).1.answers = b.answers ++ es) : b.outcome c = ⟨(b.perform c).2, es⟩ := by
  rw [outcome, h, List.drop_left]

theorem Excerpt.single (h : Excerpt D M b b') :
    b.offices.length = 1 ∧ b'.offices.length = 1 := by
  obtain ⟨o, o', hb, hb', -⟩ := h.offices
  rw [hb, hb']
  exact ⟨rfl, rfl⟩

/-- What comes of a request that is about the district comes of it in the excerpt. -/
theorem within_outcome (h : Excerpt D M b b') {c : Command} (hadmits : D.admits c = true)
    (hconcerns : D.concerns b c = true) :
    (∃ M', Excerpt D M' (b.perform c).1 (b'.perform (c.renumber D.rank)).1) ∧
      b'.outcome (c.renumber D.rank) = (b.outcome c).renumber D.rank := by
  obtain ⟨M', hexcerpt, hreply⟩ := within_perform h hadmits hconcerns
  refine ⟨⟨M', hexcerpt⟩, ?_⟩
  by_cases hresume : c = .resume
  · subst hresume
    rw [show Command.renumber D.rank .resume = .resume from rfl,
      outcome_of_answers (b := b) (c := .resume) (answers_resume b),
      outcome_of_answers (b := b') (c := .resume) (answers_resume b'),
      (within_resume h (ready_of_concerns hconcerns)).2]
    rfl
  · have hanswers := answers_perform h.single.1 hadmits hresume id
    have hanswers' := answers_perform h.single.2 hadmits hresume D.rank
    rw [renumber_id] at hanswers
    rw [outcome_of_answers (hanswers.trans (List.append_nil _).symm),
      outcome_of_answers (hanswers'.trans (List.append_nil _).symm), hreply]
    rfl

/-- The excerpt makes the requests that are about the district, and the same comes of them. -/
theorem excerpt_run (h : Excerpt D M b b') {cs : List Command}
    (hcs : ∀ c ∈ cs, D.admits c = true) :
    (∃ M', Excerpt D M' (b.run cs) (b'.run (D.cut b cs))) ∧
      b'.outcomes (D.cut b cs) =
        (D.steps b cs).map fun s => (s.1.outcome s.2).renumber D.rank := by
  -- Along the full run: numbers are paired as sends of the district draw them, so `M` grows.
  induction cs generalizing b b' M with
  | nil => exact ⟨⟨M, h⟩, rfl⟩
  | cons c rest ih =>
    have hadmits := hcs c (by simp)
    have hrest : ∀ d ∈ rest, D.admits d = true := fun d hd => hcs d (by simp [hd])
    cases hconcerns : D.concerns b c with
    | false =>
      have hsteps : D.steps b (c :: rest) = D.steps (b.perform c).1 rest :=
        List.filter_cons_of_neg (by simp [hconcerns])
      have hcut : D.cut b (c :: rest) = D.cut (b.perform c).1 rest := by
        rw [District.cut, hsteps, District.cut]
      rw [hcut, hsteps]
      exact ih (beyond_perform h hadmits hconcerns) hrest
    | true =>
      have hsteps : D.steps b (c :: rest) = (b, c) :: D.steps (b.perform c).1 rest :=
        List.filter_cons_of_pos (by simp [hconcerns])
      have hcut : D.cut b (c :: rest) =
          c.renumber D.rank :: D.cut (b.perform c).1 rest := by
        rw [District.cut, hsteps, List.map_cons, District.cut]
      obtain ⟨⟨M', hexcerpt⟩, houtcome⟩ := within_outcome h hadmits hconcerns
      obtain ⟨hrun, houtcomes⟩ := ih hexcerpt hrest
      rw [hcut, hsteps]
      exact ⟨hrun, congrArg₂ List.cons houtcome houtcomes⟩

/-! ## Starts -/

/-- Nothing has been bound, and only transactions hold stages. -/
structure Fresh (b : Broker) : Prop where
  unbound : (b.office 0).desk.registry = {}
  owners : ∀ ref id q, (b.cache ref).pending.get? id = some q →
    ∃ n, n ≤ b.transactions.length ∧ q.owner = .transaction n

theorem length_recoverRecord (t : Nat) (b : Broker) (r : Record) :
    (recoverRecord 0 t b r).transactions.length = b.transactions.length := by
  unfold recoverRecord
  dsimp only
  rw [length_modify]
  exact congrArg List.length (transactions_openOfficeCache ..)

theorem fresh_recoverRecord {t : Nat} (hb : Fresh b) (ht : t ≤ b.transactions.length)
    (r : Record) : Fresh (recoverRecord 0 t b r) := by
  refine ⟨?_, fun ref id q hq => ?_⟩
  · rw [recoverRecord_frame]
    exact hb.unbound
  · rw [length_recoverRecord]
    have hopened : ∀ p, ((b.openOfficeCache 0 r.address).cache ref).pending.get? id = some p →
        ∃ n, n ≤ b.transactions.length ∧ p.owner = .transaction n := by
      intro p hp
      rw [(pending_openOfficeCache ..).1] at hp
      exact hb.owners ref id p hp
    rw [cache_recoverRecord] at hq
    split at hq
    · simp only [Cache.recover, Cache.passSequence, Table.get?_insert] at hq
      split at hq
      · cases hq
        exact ⟨t, ht, rfl⟩
      · exact hopened q hq
    · exact hopened q hq

theorem fresh_recoverRecords {t : Nat} (rs : List Record) (hb : Fresh b)
    (ht : t ≤ b.transactions.length) : Fresh (rs.foldl (recoverRecord 0 t) b) := by
  induction rs generalizing b with
  | nil => exact hb
  | cons r rest ih => exact ih (fresh_recoverRecord hb ht r) (by rwa [length_recoverRecord])

theorem fresh_recoverBranches (branches : List (Xid × List Record)) (hb : Fresh b) :
    Fresh (branches.foldl (recoverBranch 0) b) := by
  induction branches generalizing b with
  | nil => exact hb
  | cons branch rest ih =>
    let added := b.addTransaction { xid := some branch.1, state := .prepared }
    have hlength : added.transactions.length = b.transactions.length + 1 := by
      simp [added, addTransaction]
    have hadded : Fresh added := by
      refine ⟨hb.unbound, fun ref id q hq => ?_⟩
      obtain ⟨n, hn, howner⟩ := hb.owners ref id q hq
      exact ⟨n, by omega, howner⟩
    have hlast : added.lastTransaction ≤ added.transactions.length := Nat.le_refl _
    have hstaged := fresh_recoverRecords branch.2 hadded hlast
    refine ih (b := recoverBranch 0 b branch) ⟨?_, hstaged.owners⟩
    rw [← hstaged.unbound]
    unfold recoverBranch
    simp only [setBranches, setDesk, modifyOffice, office, deskAt]
    cases (branch.2.foldl (recoverRecord 0 added.lastTransaction) added).offices <;> rfl

/-- A post office has just been opened, whether it keeps its identifiers or not. -/
structure FreshlyOpened (b : Broker) extends Fresh b where
  single : b.offices.length = 1
  waiting : b.waiting = []
  ready : b.ready = []
  queue : b.queue = []
  addressed : Addressed b
  ordered : Ledger.Ordered b.storage.ledger.committed

variable {mailboxes : Table String Mailbox} {storage : Storage} {s : Settings} {k : Nat}

theorem opened_start (hordered : Ledger.Ordered storage.ledger.committed)
    (h : ({ mailboxes, storage } : Broker).start s = (b, .ok k)) : FreshlyOpened b := by
  by_cases hpersist : s.persistIdCache = true ∧ s.duplicateDetection = true
  · have hbegun := (begun_start hpersist hordered h).1
    refine ⟨?_, hbegun.keeping.single, hbegun.waiting, hbegun.ready, hbegun.queue,
      hbegun.addressed, hbegun.ordered⟩
    obtain ⟨c, ps, hload, rfl⟩ := start_ok hpersist h
    obtain ⟨hfilled, -⟩ := filling_load hordered hload
    refine fresh_recoverBranches _ ⟨?_, fun ref id q hq => ?_⟩
    · rw [office, hfilled.offices]
      rfl
    · have hloaded : (c.cache ref).pending.get? id = some q := hq
      rcases hget : c.caches.get? ref with _ | d
      · rw [cache_of_get?_none hget] at hloaded
        cases hloaded
      · obtain ⟨-, -, -, -, hpending, -⟩ := hfilled.loaded hordered hget
        rw [cache_of_get?_some hget, hpending] at hloaded
        cases hloaded
  · unfold start at h
    rw [if_neg (by simpa using hpersist)] at h
    cases h
    exact ⟨⟨rfl, fun _ _ _ hq => by cases hq⟩, rfl, rfl, rfl, rfl, (fun _ _ hc => by cases hc),
      hordered⟩

/-- Transactions that were there already keep their numbers. -/
theorem transactionsMatch_refl (hbefore : D.before = b.transactions.length) :
    TransactionsMatch D b b := by
  have habsent : ∀ n, D.before < n → b.transaction n = default := by
    intro n hn
    obtain ⟨i, rfl⟩ := Nat.exists_eq_add_one.2 (Nat.zero_lt_of_lt hn)
    rw [transaction, List.getD_eq_getElem?_getD, List.getElem?_eq_none (by omega)]
    rfl
  refine ⟨Nat.le_of_eq hbefore, ?_, fun n hn => ?_, fun n hn hhome => ?_⟩
  · rw [District.rank_of_le (Nat.le_of_eq hbefore.symm)]
  · rw [habsent n hn]
    exact ⟨rfl, fun _ hop => absurd hop List.not_mem_nil⟩
  · have hrank := District.rank_lt hn (District.keeps_of_home hhome)
    rw [District.rank_of_le (Nat.le_refl _)] at hrank
    rw [habsent n hn, habsent _ hrank]

theorem Fresh.matches (hb : Fresh b) (hbefore : D.before = b.transactions.length) :
    (b.cache D.cache).Matches D [] (b.cache D.cache) := by
  refine ⟨.refl _, fun id p p' hp hp' => ?_⟩
  obtain rfl := Option.some.inj (hp.symm.trans hp')
  obtain ⟨n, hn, howner⟩ := hb.owners D.cache id p hp
  have hkept : OwnerMatch D [] (.transaction n) (.transaction (D.rank n)) :=
    .transaction (by simp [District.keeps, hbefore, hn])
  rwa [District.rank_of_le (hbefore ▸ hn), ← howner] at hkept

/-- A broker in which nothing of the run has happened yet is an excerpt of itself. -/
theorem FreshlyOpened.excerpt (hb : FreshlyOpened b) (hqueues : ∀ q, (b.mailbox q).Steadfast)
    (htakes : ∀ e : Entry, b.storage.Takes e.method) (hbefore : D.before = b.transactions.length) :
    Excerpt D [] b b := by
  obtain ⟨o, ho⟩ := List.length_eq_one_iff.1 hb.single
  have hunbound := hb.unbound
  have hqueue : (b.office 0).writer.queue = [] := hb.queue
  rw [office_of_single ho] at hunbound hqueue
  have hshows : o.desk.registry.Shows [] := ⟨[], hunbound ▸ Registry.lists_empty, rfl⟩
  have hcalls : ∀ {l : List Call}, l = [] → CallsMatch D [] l l := by
    rintro l rfl
    exact .nil
  exact {
    offices := ⟨o, o, ho, ho, rfl, ⟨[], hshows, hshows⟩, by rw [hqueue]; rfl,
      fun _ hp => absurd hp List.not_mem_nil⟩
    mailboxes := fun q => ⟨rfl, hqueues q, hqueues q⟩
    storage := ⟨htakes, htakes, hb.ordered, hb.ordered, rfl⟩
    caches := ⟨hb.addressed, rfl, hb.toFresh.matches hbefore⟩
    transactions := transactionsMatch_refl hbefore
    waiting := hcalls hb.waiting
    ready := hcalls hb.ready
    paired := fun _ hp => absurd hp List.not_mem_nil }

/-- From a start on, with queues that each always accept or always refuse and a journal that takes
every write, what is sent elsewhere makes no difference to a district: without it the same comes of
each request, up to the numbers of transactions, the address remembers the same identifiers and has
the same ones pending, and once all is written the journal holds the same records for it. -/
theorem district_alone (hordered : Ledger.Ordered storage.ledger.committed)
    (hstart : ({ mailboxes, storage } : Broker).start s = (b, .ok k))
    (hqueues : ∀ q, (b.mailbox q).Steadfast) (htakes : ∀ e : Entry, b.storage.Takes e.method)
    (hbefore : D.before = b.transactions.length) {cs : List Command}
    (hcs : ∀ c ∈ cs, D.admits c = true) :
    b.outcomes (D.cut b cs) = (D.steps b cs).map (fun s => (s.1.outcome s.2).renumber D.rank) ∧
      ((b.run (D.cut b cs)).cache D.cache).visibleIds = ((b.run cs).cache D.cache).visibleIds ∧
      (∀ id, ((b.run (D.cut b cs)).cache D.cache).pending.contains id =
        ((b.run cs).cache D.cache).pending.contains id) ∧
      ((b.run (D.cut b cs)).flush 0).storage.ledger.records D.address =
        ((b.run cs).flush 0).storage.ledger.records D.address := by
  have hexcerpt := (opened_start hordered hstart).excerpt hqueues htakes hbefore
  obtain ⟨⟨M, hrun⟩, houtcomes⟩ := excerpt_run hexcerpt hcs
  have hcaches := hrun.caches.same.alike
  refine ⟨houtcomes, by rw [Cache.visibleIds, hcaches.visible, Cache.visibleIds], fun id => ?_,
    (within_flush hrun).storage.records⟩
  have hpending := congrArg Option.isSome (hcaches.pending id)
  rwa [Option.isSome_map, Option.isSome_map] at hpending

/-- A queue that is always full, and a journal with an identifier and a prepared branch. -/
def crammed : Table String Mailbox := ({} : Table String Mailbox).insert "crammed" { mode := .full }

def halfPrepared : Storage :=
  { memory := ({} : Ledger).applyAll
      [.add ⟨⟨"orders"⟩, 2, [1]⟩, .prepare exampleXid ⟨⟨"orders"⟩, 4, [2]⟩] }

/-- Orders have the third transaction, after the branch and the transaction of the bills. -/
def ordersDistrict : District :=
  ⟨⟨"orders"⟩, 1, fun n => if n = 3 then ⟨"orders"⟩ else ⟨"bills"⟩⟩

/-- Two transactions stage one identifier, each at an address of its own. Two sends wait for them;
one transaction cannot be committed, and the other one can. -/
def busySends : List Command :=
  [.bind (some 0) (.ofQueue ⟨"orders"⟩ "free"), .bind (some 0) (.ofQueue ⟨"bills"⟩ "crammed"),
    .begin none, .begin none, .route 0 0 (messageTo "bills" 3) (some 2) true,
    .route 0 1 (messageTo "orders" 3) (some 3) true, .route 0 2 (messageTo "orders" 3) none true,
    .route 0 3 (messageTo "bills" 3) none true, .commit 2, .resume, .commit 3,
    .route 0 4 (messageTo "bills" 4) none true, .resume,
    .route 0 5 (messageTo "orders" 4) none true, .commit 3]

theorem district_alone_busy :
    let b := (({ mailboxes := crammed, storage := halfPrepared } : Broker).start
      (laterSettings 1)).1
    let D := ordersDistrict
    let alone := D.cut b busySends
    alone = [.bind (some 0) (.ofQueue ⟨"orders"⟩ "free"),
      .bind (some 0) (.ofQueue ⟨"bills"⟩ "crammed"), .begin none,
      .route 0 1 (messageTo "orders" 3) (some 2) true,
      .route 0 2 (messageTo "orders" 3) none true, .commit 2, .resume,
      .route 0 5 (messageTo "orders" 4) none true, .commit 2] ∧
    b.outcomes alone =
      (D.steps b busySends).map (fun s => (s.1.outcome s.2).renumber D.rank) ∧
    (b.outcomes alone).map (·.reply) = [.bound (.ofQueue ⟨"orders"⟩ "free"),
      .bound (.ofQueue ⟨"bills"⟩ "crammed"), .number 2,
      .answered (.routed { queues := ["free"], staged := true }), .waiting, .done, .done,
      .answered (.routed { queues := ["free"], staged := true }),
      .transactionFailed (.refused (.invalidState 2 .committed .commit))] ∧
    ((b.run alone).cache D.cache).visibleIds = ((b.run busySends).cache D.cache).visibleIds ∧
    (∀ id, ((b.run alone).cache D.cache).pending.contains id =
      ((b.run busySends).cache D.cache).pending.contains id) ∧
    ((b.run alone).flush 0).storage.ledger.records D.address =
      ((b.run busySends).flush 0).storage.ledger.records D.address ∧
    ((b.run busySends).flush 0).storage.ledger.records D.address = [⟨⟨"orders"⟩, 8, [4]⟩] := by
  intro b D alone
  have hstart : ({ mailboxes := crammed, storage := halfPrepared } : Broker).start
      (laterSettings 1) = (b, .ok 0) := by decide +kernel
  have hqueues : ∀ q, (b.mailbox q).Steadfast := by
    intro q
    rw [mailbox, show b.mailboxes = crammed by decide +kernel, crammed, Table.get?_insert]
    split
    · decide
    · exact (by decide : Mailbox.Steadfast {})
  have hordered : Ledger.Ordered halfPrepared.ledger.committed := Ledger.ordered_of_entries rfl
  have hsafe : b.storage.failing = [] ∧ b.storage.lapses = [] := by decide +kernel
  have htakes : ∀ e : Entry, b.storage.Takes e.method := fun e => by
    rw [Storage.Takes, hsafe.1, hsafe.2]
    exact ⟨List.not_mem_nil, List.not_mem_nil⟩
  have hbefore : D.before = b.transactions.length := by decide +kernel
  have hadmits : ∀ c ∈ busySends, D.admits c = true := by decide +kernel
  obtain ⟨houtcomes, hvisible, hpending, hrecords⟩ :=
    district_alone hordered hstart hqueues htakes hbefore hadmits
  exact ⟨by decide +kernel, houtcomes, by decide +kernel, hvisible, hpending, hrecords,
    by decide +kernel⟩

end Broker

end MessageRouting
