import MessageRouting.Proofs.Routing.CallerView

/-!
# Districts

An address is a district of a post office: the sends to it belong to it, and the
transactions whose sends all go there. Out of a run of the whole post office the
steps of one district can be cut, with the transactions numbered anew, as if
nobody had ever sent anything elsewhere.

Results:

* `rank_inj`, `rank_le_iff`: transactions that are kept keep their order in the cut.
-/

namespace MessageRouting

/-! ## Numbers -/

/-- The refusal with other numbers of transactions. -/
def TransactionRefusal.renumber (f : Nat → Nat) : TransactionRefusal → TransactionRefusal
  | .rollbackOnly n reason => .rollbackOnly (f n) reason
  | .invalidState n state request => .invalidState (f n) state request
  | .notXa n => .notXa (f n)
  | .unknownXid x => .unknownXid x

def RoutingError.renumber (f : Nat → Nat) : RoutingError → RoutingError
  | .transaction cause => .transaction (cause.renumber f)
  | e => e

def TransactionError.renumber (f : Nat → Nat) : TransactionError → TransactionError
  | .refused cause => .refused (cause.renumber f)
  | .operation cause => .operation (cause.renumber f)

def Answer.renumber (f : Nat → Nat) : Answer → Answer
  | .refused e => .refused (e.renumber f)
  | a => a

def Reply.renumber (f : Nat → Nat) : Reply → Reply
  | .answered a => .answered (a.renumber f)
  | .number n => .number (f n)
  | .routingFailed e => .routingFailed (e.renumber f)
  | .transactionFailed e => .transactionFailed (e.renumber f)
  | r => r

def Event.renumber (f : Nat → Nat) : Event → Event
  | .answered ticket a => .answered ticket (a.renumber f)
  | e => e

def Command.renumber (f : Nat → Nat) : Command → Command
  | .route office ticket m transaction rejectDuplicates =>
    .route office ticket m (transaction.map f) rejectDuplicates
  | .mark n reason => .mark (f n) reason
  | .prepare n => .prepare (f n)
  | .commit n => .commit (f n)
  | .rollback n => .rollback (f n)
  | c => c

/-! ## Steps -/

/-- Whether the entry is about the address; deletions of prepared records are about none. -/
def Entry.concerns (a : Address) : Entry → Bool
  | .add r => r.address = a
  | .prune a' _ => a' = a
  | .prepare _ r => r.address = a
  | .resolve _ => false

/-- What comes of a step: the reply, and the calls answered besides. -/
structure Outcome where
  reply : Reply
  answers : List Event
  deriving DecidableEq, Repr

def Outcome.renumber (f : Nat → Nat) (o : Outcome) : Outcome :=
  ⟨o.reply.renumber f, o.answers.map (·.renumber f)⟩

namespace Broker

/-- The calls that had to wait and have been answered, with their answers. -/
def answers (b : Broker) : List Event := b.trace.filter Event.isAnswer

/-- The requests of a run, each with the broker that it is put to. -/
def steps (b : Broker) : List Command → List (Broker × Command)
  | [] => []
  | c :: rest => (b, c) :: (b.perform c).1.steps rest

/-- What comes of a request. -/
def outcome (b : Broker) (c : Command) : Outcome :=
  ⟨(b.perform c).2, (b.perform c).1.answers.drop b.answers.length⟩

/-- What comes of the requests of a run, one by one. -/
def outcomes (b : Broker) (cs : List Command) : List Outcome :=
  (b.steps cs).map fun s => s.1.outcome s.2

end Broker

/-- An address of the first post office with the transactions that belong to it. -/
structure District where
  address : Address
  /-- How many transactions there are already. -/
  before : Nat
  /-- Where the sends of a later transaction go. -/
  home : Nat → Address

namespace District

/-- The cache of the district. -/
def cache (D : District) : CacheRef := .office 0 D.address

/-- Whether the transaction of that number was there already or belongs to the district. -/
def keeps (D : District) (n : Nat) : Bool := n ≤ D.before || D.home n = D.address

/-- The number of a transaction once those of other districts are not counted. -/
def rank (D : District) : Nat → Nat
  | 0 => 0
  | n + 1 => D.rank n + if D.keeps (n + 1) then 1 else 0

/-- Whether the request takes part in a run of sends, each outside any transaction or in one that
sends to one address only and that is no branch. Bindings may change and the writer may write
meanwhile. -/
def admits (D : District) : Command → Bool
  | .bind desk _ => desk = some 0
  | .unbind desk _ => desk = some 0
  | .route office _ _ none _ => office = 0
  | .route office _ m (some n) _ => office = 0 && D.before < n && D.home n = m.address
  | .begin xid => xid = none
  | .mark n _ => D.before < n
  | .prepare n => D.before < n
  | .commit n => D.before < n
  | .rollback n => D.before < n
  | .resume => true
  | .defer => true
  | .writeNext office => office = 0
  | .flush office => office = 0
  | _ => false

/-- Whether the request is about the district. Bindings are everybody's, and so is a flush; a
resumption is about the address of the call that tries again, and so is its being deferred; a single
write is about the address of the entry. -/
def concerns (D : District) (b : Broker) : Command → Bool
  | .route _ _ m _ _ => m.address = D.address
  | .begin _ => D.home (b.transactions.length + 1) = D.address
  | .mark n _ => D.home n = D.address
  | .prepare n => D.home n = D.address
  | .commit n => D.home n = D.address
  | .rollback n => D.home n = D.address
  | .resume => b.ready.head?.any fun call => call.cache = D.cache
  | .defer => b.ready.head?.any fun call => call.cache = D.cache
  | .writeNext office => (b.office office).writer.queue.head?.any (·.concerns D.address)
  | _ => true

/-- The steps of a run that are about the district. -/
def steps (D : District) (b : Broker) (cs : List Command) : List (Broker × Command) :=
  (b.steps cs).filter fun s => D.concerns s.1 s.2

/-- The run without the steps of other districts. -/
def cut (D : District) (b : Broker) (cs : List Command) : List Command :=
  (D.steps b cs).map fun s => s.2.renumber D.rank

/-! ## Ranks -/

variable {D : District} {m n : Nat}

theorem rank_mono (h : m ≤ n) : D.rank m ≤ D.rank n := by
  induction n with
  | zero => simp [Nat.le_zero.1 h]
  | succ n ih =>
    rcases Nat.lt_or_ge m (n + 1) with hlt | hge
    · have := ih (Nat.le_of_lt_succ hlt)
      simp only [rank]
      omega
    · exact Nat.le_of_eq (congrArg D.rank (Nat.le_antisymm h hge))

/-- A kept transaction has a number of its own. -/
theorem rank_lt (h : m < n) (hn : D.keeps n = true) : D.rank m < D.rank n := by
  obtain ⟨k, rfl⟩ : ∃ k, n = k + 1 := ⟨n - 1, by omega⟩
  have hle : D.rank m ≤ D.rank k := rank_mono (Nat.le_of_lt_succ h)
  rw [rank, if_pos hn]
  omega

theorem rank_of_le (h : n ≤ D.before) : D.rank n = n := by
  induction n with
  | zero => rfl
  | succ n ih =>
    rw [rank, ih (by omega), if_pos (by simp [keeps, h])]

theorem rank_inj (hm : D.keeps m = true) (hn : D.keeps n = true) :
    D.rank m = D.rank n ↔ m = n := by
  constructor
  · intro h
    rcases Nat.lt_trichotomy m n with hlt | heq | hgt
    · have := rank_lt hlt hn
      omega
    · exact heq
    · have := rank_lt hgt hm
      omega
  · rintro rfl
    rfl

/-- What comes after the first `n` transactions does so in the cut. -/
theorem rank_le_iff (hm : D.keeps m = true) : D.rank m ≤ D.rank n ↔ m ≤ n := by
  constructor
  · intro h
    rcases Nat.lt_or_ge n m with hlt | hge
    · have := rank_lt hlt hm
      omega
    · exact hge
  · exact rank_mono

theorem rank_pos (h₀ : 0 < n) (hn : D.keeps n = true) : 0 < D.rank n := by
  have := rank_lt h₀ hn
  omega

theorem keeps_of_home (h : D.home n = D.address) : D.keeps n = true := by
  simp [keeps, h]

end District

end MessageRouting
