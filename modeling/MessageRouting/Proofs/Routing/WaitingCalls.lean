import MessageRouting.Proofs.Broker.TrafficMoves
import MessageRouting.Proofs.Restart.StartOutcomes

/-!
# Calls that wait

A call comes to wait when somebody else holds its identifier, and only in a
request of its own; everything else can at most let it try again. A routing call
that waits has chosen its queues and has no stage yet, and looks for one at the
cache of its message, whichever post office it came to.

Results:

* `retains_dispatch`, `retains_start`: sending, and opening a post office, make
  nobody wait.
* `applying_run`: what every call has that waits or may try again.
-/

namespace MessageRouting

/-- A call that, if it routes, has no stage yet and asks the cache of its message for one. -/
def Call.Applies (c : Call) : Prop :=
  ∀ r, c.purpose = .route r →
    r.delivery.stage = none ∧ c.cache = .office r.office r.delivery.message.address

namespace Broker

/-- Nobody waits or may try again who has not done so before. -/
structure Retains (b b' : Broker) : Prop where
  calls : ∀ c, c ∈ b'.waiting ++ b'.ready → c ∈ b.waiting ++ b.ready

/-- Every call that waits, or may try again, asks for its stage. -/
structure Applying (b : Broker) : Prop where
  calls : ∀ c ∈ b.waiting ++ b.ready, c.Applies

variable {b b' : Broker}

theorem Retains.trans {b₁ b₂ b₃ : Broker} (h : Retains b₁ b₂) (h' : Retains b₂ b₃) :
    Retains b₁ b₃ := ⟨fun c hc => h.calls c (h'.calls c hc)⟩

theorem Applying.retains (hb : Applying b) (h : Retains b b') : Applying b' :=
  ⟨fun c hc => hb.calls c (h.calls c hc)⟩

theorem retains_of_calls (hwaiting : b'.waiting = b.waiting) (hready : b'.ready = b.ready) :
    Retains b b' := ⟨fun c hc => by rwa [hwaiting, hready] at hc⟩

theorem Steady.retains (h : Steady b b') : Retains b b' := ⟨h.calls⟩

/-- The books tell who waits. -/
theorem retains_of_books (h : b'.books = b.books) : Retains b b' :=
  have hwaiting : b'.books.waiting = b.books.waiting := congrArg (·.waiting) h
  have hready : b'.books.ready = b.books.ready := congrArg (·.ready) h
  retains_of_calls hwaiting hready

theorem retains_of_view (h : b'.view = b.view) : Retains b b' :=
  retains_of_books (congrArg View.books h)

/-! ## Completions and sends -/

theorem retains_completion (b : Broker) {c : Command} (hc : c.isCompletion = true) :
    Retains b (b.perform c).1 := by
  have hmove := move_completion (fun _ => False) b hc
  have hview : ∀ {v v' : View}, Relation.ReflGen (Move fun _ => False) v v' →
      ∀ c, c ∈ v'.books.waiting ++ v'.books.ready → c ∈ v.books.waiting ++ v.books.ready := by
    intro v v' h c hmem
    cases h with
    | refl => exact hmem
    | single h => exact ((steady_move h).2 c hmem).resolve_right id
  exact ⟨hview hmove⟩

theorem retains_dispatch (b : Broker) (d : Delivery) (transaction : Option Nat) :
    Retains b (b.dispatch d transaction).1 := by
  cases hd : d.stage with
  | none => exact retains_of_view (view_dispatch_of_none b transaction hd)
  | some h =>
    -- The stage is taken, or kept by its transaction, or dropped, and the books tell which.
    have hbooks : ∀ {c : Broker}, Steady b.books c → (b.dispatch d transaction).1.books = c →
        Retains b (b.dispatch d transaction).1 := fun hsteady heq =>
      ⟨fun c hmem => hsteady.calls c (heq ▸ hmem)⟩
    rcases hdispatch : b.dispatch d transaction with ⟨b', result⟩
    rw [hdispatch] at hbooks
    rcases dispatch_staged hd hdispatch with ⟨-, -, -, c, hc, heq⟩ |
      ⟨n, l₁, l₂, x, held, -, -, heq, -⟩ | ⟨e, m, -, -, -, heq⟩
    · exact hbooks (((steady_persistAll ..).of_eq (congrArg Prod.fst hc)).trans
        (steady_promoteAll ..)) heq
    · exact retains_of_books heq
    · exact hbooks ((steady_persistAll ..).trans (steady_dropAll ..)) heq

/-- Whoever attempts to stage does not make anybody else wait. -/
theorem attemptsKeep_retains : AttemptsKeep Retains where
  trans := .trans
  stages b ref id owner := (steady_attemptStage b ref id owner).retains
  notifies _ _ _ := retains_of_calls rfl rfl
  dispatches := retains_dispatch

theorem applying_submitCall (hb : Applying b) {call : Call} (hcall : call.Applies) :
    Applying (b.submitCall call).1 := by
  have hattempt := hb.retains (attemptsKeep_retains.attempt b call)
  unfold submitCall
  rcases hends : b.attempt call with ⟨c, answer⟩
  rw [hends] at hattempt
  cases answer with
  | some answer => exact hattempt
  | none =>
    refine ⟨fun d hd => ?_⟩
    simp only [List.mem_append, List.mem_singleton] at hd
    rcases hd with (hd | rfl) | hd
    · exact hattempt.calls d (List.mem_append_left _ hd)
    · exact hcall
    · exact hattempt.calls d (List.mem_append_right _ hd)

theorem applying_resume (hb : Applying b) : Applying b.resume := by
  unfold resume
  split
  · exact hb
  · rename_i call rest hready
    have hretained : Retains b { b with ready := rest } := by
      refine ⟨fun c hc => ?_⟩
      rw [hready]
      rcases List.mem_append.1 hc with hc | hc
      · exact List.mem_append_left _ hc
      · exact List.mem_append_right _ (List.mem_cons_of_mem _ hc)
    have hsubmit := applying_submitCall (hb.retains hretained)
      (hb.calls call (List.mem_append_right _ (hready ▸ List.mem_cons_self)))
    split
    · rename_i heq
      rw [heq] at hsubmit
      exact hsubmit.retains (retains_of_calls rfl rfl)
    · rename_i heq
      rwa [heq] at hsubmit

theorem retains_defer (b : Broker) : Retains b b.defer := by
  obtain ⟨calls, hperm, hdefer⟩ := defer_perm b
  rw [hdefer]
  exact ⟨fun c hc => (hperm.append_left b.waiting).mem_iff.1 hc⟩

theorem applying_resumeSome (hb : Applying b) (k : Nat) : Applying (b.resumeSome k) := by
  induction k generalizing b with
  | zero => exact hb
  | succ k ih =>
    unfold resumeSome
    split
    · exact hb
    · exact ih (applying_resume hb)

theorem applying_route (hb : Applying b) (n ticket : Nat) (m : Message) (transaction : Option Nat)
    (rejectDuplicates : Bool) :
    Applying (b.route n ticket m transaction rejectDuplicates).1 := by
  unfold route
  split
  · exact hb.retains (retains_of_view (view_routeUnstaged ..))
  · rename_i id _
    have hopened := hb.retains (steady_openOfficeCache b n m.address).retains
    generalize b.openOfficeCache n m.address = c at hopened
    dsimp only
    split
    · simp only [routeDuplicate]
      split
      · exact hopened.retains (retains_of_calls rfl rfl)
      · exact hopened.retains (retains_of_view (view_routeUnstaged ..))
    · have hcollected := hopened.retains (retains_of_view (view_collect c n m))
      unfold routeStaged
      rcases hcollect : c.collect n m with ⟨c', result⟩
      rw [hcollect] at hcollected
      cases result with
      | error e => exact hcollected
      | ok delivery =>
        obtain ⟨rfl, hstage⟩ := collect_ok hcollect
        refine applying_submitCall (b := (c'.drawOwner n transaction).1) ?_ fun r hr => ?_
        · cases transaction <;> exact hcollected.retains (retains_of_calls rfl rfl)
        · cases hr
          exact ⟨hstage, rfl⟩

/-! ## Starts -/

theorem retains_openCache (b : Broker) (ref : CacheRef) (a : Address) (capacity : Nat) :
    Retains b (b.openCache ref a capacity) := by
  unfold openCache
  split <;> exact retains_of_calls rfl rfl

theorem retains_load (b : Broker) (n capacity : Nat) : Retains b (b.load n capacity).1 := by
  have hkeeps : LoadingKeeps (Retains b) n capacity :=
    { reads := fun c _ _ _ _ h => h.trans (retains_of_calls rfl rfl)
      prunes := fun c r h => h.trans (retains_of_calls rfl rfl)
      opens := fun c a h => h.trans (retains_openCache ..)
      fills := fun c a rs h => h.trans (retains_of_calls rfl rfl) }
  exact hkeeps.load (retains_of_calls rfl rfl)

theorem retains_recoverRecord (n t : Nat) (b : Broker) (r : Record) :
    Retains b (recoverRecord n t b r) := by
  have hopen : Retains b (b.openOfficeCache n r.address) := retains_openCache ..
  cases t <;> exact hopen.trans (retains_of_calls rfl rfl)

theorem retains_recoverBranch (n : Nat) (b : Broker) (branch : Xid × List Record) :
    Retains b (recoverBranch n b branch) := by
  have hadded : Retains b (b.addTransaction { xid := some branch.1, state := .prepared }) :=
    retains_of_calls rfl rfl
  unfold recoverBranch
  generalize b.addTransaction { xid := some branch.1, state := .prepared } = c at hadded
  have hstaged := List.foldlRecOn (motive := Retains b) branch.2 (recoverRecord n c.lastTransaction)
    hadded fun _ h _ _ => h.trans (retains_recoverRecord ..)
  exact hstaged.trans (retains_of_calls rfl rfl)

theorem retains_start (b : Broker) (s : Settings) : Retains b (b.start s).1 := by
  have hload := retains_load b b.offices.length s.idCacheCapacity
  unfold start
  split
  · unfold openPersistent
    dsimp only
    split
    · rename_i heq
      rw [heq] at hload
      exact hload.trans (retains_of_calls rfl rfl)
    · rename_i c prepared heq
      rw [heq] at hload
      exact List.foldlRecOn (motive := Retains b) _ _ (hload.trans (retains_of_calls rfl rfl))
        fun _ h _ _ => h.trans (retains_recoverBranch ..)
  · exact retains_of_calls rfl rfl

/-! ## Requests -/

theorem retains_writeSome (b : Broker) (n k : Nat) : Retains b (b.writeSome n k) := by
  induction k generalizing b with
  | zero => exact retains_of_calls rfl rfl
  | succ k ih => exact (steady_writeNext b n).retains.trans (ih _)

theorem retains_bind (b : Broker) (desk : Option Nat) (binding : Binding) :
    Retains b (b.bind desk binding).1 := by
  unfold bind
  dsimp only
  split
  · exact retains_of_calls rfl rfl
  · cases desk <;> exact retains_of_calls rfl rfl

theorem retains_unbind (b : Broker) (desk : Option Nat) (name : String) :
    Retains b (b.unbind desk name).1 := by
  unfold unbind
  split
  · exact retains_of_calls rfl rfl
  · cases desk <;> exact retains_of_calls rfl rfl

/-- Whoever waits after a request has waited before, or has been made to by it and then asks for its
stage. -/
theorem applying_perform (hb : Applying b) (c : Command) : Applying (b.perform c).1 := by
  cases c with
  | stage ticket cache duplicateId owner =>
    exact applying_submitCall hb fun r hr => (nomatch hr)
  | route office ticket message transaction rejectDuplicates => exact applying_route hb ..
  | resume => exact applying_resume hb
  | defer => exact hb.retains (retains_defer b)
  | settle => exact applying_resumeSome hb _
  | setMailbox queue mode => exact hb.retains (retains_of_calls rfl rfl)
  | bind desk binding => exact hb.retains (retains_bind ..)
  | unbind desk name => exact hb.retains (retains_unbind ..)
  | resolve desk address create => exact hb.retains (retains_of_books (books_setRegistry ..))
  | resolveAll desk addresses => exact hb.retains (retains_of_books (books_setRegistry ..))
  | newCache address capacity => exact hb.retains (retains_of_calls rfl rfl)
  | openCache office address => exact hb.retains (steady_openOfficeCache ..).retains
  | commitStage held => exact hb.retains (steady_commitStage ..).retains
  | rollbackStage held => exact hb.retains (steady_rollbackStage ..).retains
  | openPlain settings =>
    simp only [perform]
    split <;> exact hb.retains (retains_of_calls rfl rfl)
  | start settings =>
    have hstart := hb.retains (retains_start b settings)
    simp only [perform]
    split
    · split
      · rename_i heq
        rwa [heq] at hstart
      · rename_i heq
        rwa [heq] at hstart
    · exact hb
  | writeNext office => exact hb.retains (retains_writeSome b office 1)
  | flush office => exact hb.retains (retains_writeSome ..)
  | flushAll =>
    exact hb.retains (List.foldlRecOn (motive := Retains b) _ flush (retains_of_calls rfl rfl)
      fun _ h _ _ => h.trans (retains_writeSome ..))
  | stop office =>
    exact hb.retains ((retains_writeSome ..).trans (retains_of_calls rfl rfl))
  | reroute office message binding transaction =>
    exact hb.retains (retains_of_view (view_reroute ..))
  | redistribute office message binding transaction =>
    have hview := view_redistribute b office message binding transaction
    simp only [perform]
    split
    · rename_i heq
      rw [heq] at hview
      exact hb.retains (retains_of_view hview)
    · rename_i heq
      rw [heq] at hview
      exact hb.retains (retains_of_view hview)
  | begin xid => exact hb.retains (retains_of_calls rfl rfl)
  | addHook transaction hook => exact hb.retains (retains_of_view (view_addHook ..))
  | mark transaction reason => exact hb.retains (retains_of_view (view_mark ..))
  | prepare transaction => exact hb.retains (retains_completion b rfl)
  | commit transaction => exact hb.retains (retains_completion b rfl)
  | rollback transaction => exact hb.retains (retains_completion b rfl)
  | prepareBranch desk transaction => exact hb.retains (retains_completion b rfl)
  | commitBranch desk xid => exact hb.retains (retains_completion b rfl)
  | rollbackBranch desk xid => exact hb.retains (retains_completion b rfl)
  | write entry => exact hb.retains (retains_of_calls rfl rfl)
  | failing methods => exact hb.retains (retains_of_calls rfl rfl)
  | replaceFile place => exact hb.retains (retains_of_calls rfl rfl)
  | openFile =>
    simp only [perform]
    split <;> exact hb.retains (retains_of_calls rfl rfl)
  | cutFile keep => exact hb.retains (retains_of_calls rfl rfl)
  | blockCompaction => exact hb.retains (retains_of_calls rfl rfl)
  | compact =>
    simp only [perform]
    split <;> exact hb.retains (retains_of_calls rfl rfl)

/-- A routing call that waits, or may try again, has no stage and asks the cache of its message for
one, whatever has been asked of the broker. -/
theorem applying_run (mailboxes : Table String Mailbox) (storage : Storage) (cs : List Command) :
    Applying (({ mailboxes, storage } : Broker).run cs) :=
  List.foldlRecOn (motive := Applying) cs _ ⟨fun _ hc => nomatch hc⟩
    fun _ h c _ => applying_perform h c

end Broker

end MessageRouting
