import MessageRouting.Proofs.Broker.Moves

/-!
# What moves leave as it is

Post offices keep their settings and their way of persistence, and their
writers go on running; no call begins to wait but in a move of its own.

Results:

* `proper_move`: in a broker of one post office whose waiting calls satisfy `P`
  the next calls that wait satisfy it too.
* `steady_move`: settings, persistence and the running of the writer stay.
-/

namespace MessageRouting

/-- What a post office is opened with, and whether its writer runs. -/
def Office.station (o : Office) : Settings × Option PersistenceMode × Bool :=
  (o.settings, o.persistence, o.writer.running)

namespace Broker

def stations (b : Broker) : List (Settings × Option PersistenceMode × Bool) :=
  b.offices.map Office.station

/-- The post offices are as they were but for their writers' queues, and no further call waits. -/
structure Steady (b b' : Broker) : Prop where
  stations : b'.stations = b.stations
  calls : ∀ c, c ∈ b'.waiting ++ b'.ready → c ∈ b.waiting ++ b.ready

theorem Steady.refl (b : Broker) : Steady b b := ⟨rfl, fun _ h => h⟩

theorem Steady.trans {b₁ b₂ b₃ : Broker} (h : Steady b₁ b₂) (h' : Steady b₂ b₃) :
    Steady b₁ b₃ :=
  ⟨h'.stations.trans h.stations, fun c hc => h.calls c (h'.calls c hc)⟩

theorem Steady.of_eq {b b' c : Broker} (h : Steady b c) (hc : c = b') : Steady b b' := hc ▸ h

theorem stations_modifyOffice (b : Broker) (n : Nat) {f : Office → Office}
    (h : ∀ o, (f o).station = o.station) : (b.modifyOffice n f).stations = b.stations := by
  refine List.ext_getElem? fun i => ?_
  simp only [stations, modifyOffice, List.getElem?_map, List.getElem?_modify]
  cases b.offices[i]? with
  | none => rfl
  | some o =>
    split
    · exact congrArg some (h o)
    · rfl

/-! ## Single steps -/

theorem steady_wake (b : Broker) (ref : CacheRef) : Steady b (b.wake ref) := by
  refine ⟨rfl, fun c hc => ?_⟩
  simp only [wake, List.mem_append, List.mem_filter] at hc ⊢
  rcases hc with hc | hc | hc
  · exact Or.inl hc.1
  · exact Or.inr hc
  · exact Or.inl hc.1

theorem steady_submitFor (b : Broker) (ref : CacheRef) (e : Entry) :
    Steady b (b.submitFor ref e) := by
  cases ref with
  | standalone n => exact .refl b
  | office n a =>
    refine ⟨stations_modifyOffice b n fun o => ?_, fun _ h => h⟩
    simp only [Office.station, JournalWriter.submit]
    split <;> simp_all

theorem steady_openOfficeCache (b : Broker) (n : Nat) (a : Address) :
    Steady b (b.openOfficeCache n a) := by
  unfold openOfficeCache openCache
  split
  · exact .refl b
  · exact ⟨rfl, fun _ h => h⟩

theorem steady_writeNext (b : Broker) (n : Nat) : Steady b (b.writeNext n) := by
  unfold writeNext
  split
  · exact .refl b
  · exact ⟨stations_modifyOffice b n fun _ => rfl, fun _ h => h⟩

theorem stagingKeeps_steady : StagingKeeps Steady where
  refl := .refl
  trans := .trans
  caches _ _ _ := ⟨rfl, fun _ h => h⟩
  grants _ _ := ⟨rfl, fun _ h => h⟩
  promotes _ _ _ := ⟨rfl, fun _ h => h⟩
  drops _ _ := ⟨rfl, fun _ h => h⟩
  wakes := steady_wake
  submits := steady_submitFor
  writes _ _ _ := ⟨rfl, fun _ h => h⟩

theorem steady_attemptStage (b : Broker) (ref : CacheRef) (id : Bytes) (owner : Owner) :
    Steady b (b.attemptStage ref id owner).1 := stagingKeeps_steady.attemptStage ..

theorem steady_persistStage (b : Broker) (h : HeldStage) : Steady b (b.persistStage h).1 :=
  stagingKeeps_steady.persistStage ..

theorem steady_commitStage (b : Broker) (h : HeldStage) : Steady b (b.commitStage h) :=
  stagingKeeps_steady.commitStage ..

theorem steady_rollbackStage (b : Broker) (h : HeldStage) : Steady b (b.rollbackStage h) :=
  stagingKeeps_steady.rollbackStage ..

theorem steady_storePrepared (b : Broker) (x : Xid) (h : HeldStage) :
    Steady b (b.storePrepared x h).1 := stagingKeeps_steady.storePrepared ..

theorem steady_release (b : Broker) (x : Option Xid) (h : HeldStage × Bool) :
    Steady b (b.release x h) := by
  unfold release
  split
  · split
    · exact steady_submitFor ..
    · exact .refl b
  · exact .refl b

/-! ## All stages of a transaction -/

theorem steady_persistAll (b : Broker) (hs : List (HeldStage × Bool)) :
    Steady b (b.persistAll hs).1 :=
  persistAll_keeps .refl .trans (fun h _ b => steady_persistStage b h.1) b

theorem steady_storeAll (b : Broker) (x : Xid) (hs : List (HeldStage × Bool)) :
    Steady b (b.storeAll x hs).1 :=
  storeAll_keeps .refl .trans (fun h _ b => steady_storePrepared b x h.1) b

theorem steady_promoteAll (b : Broker) (x : Option Xid) (hs : List (HeldStage × Bool)) :
    Steady b (b.promoteAll x hs) := by
  induction hs generalizing b with
  | nil => exact .refl b
  | cons h rest ih =>
    exact ((steady_commitStage b h.1).trans (steady_release _ x h)).trans (ih _)

theorem steady_dropAll (b : Broker) (x : Option Xid) (hs : List (HeldStage × Bool)) :
    Steady b (b.dropAll x hs) := by
  induction hs generalizing b with
  | nil => exact .refl b
  | cons h rest ih =>
    exact ((steady_rollbackStage b h.1).trans (steady_release _ x h)).trans (ih _)

/-! ## Moves -/

/-- In every move the post offices stay, and a call that waits then has waited before or satisfies
`P`. -/
theorem steady_move {P : Call → Prop} {v v' : View} (h : Move P v v') :
    v'.books.stations = v.books.stations ∧
      ∀ c, c ∈ v'.books.waiting ++ v'.books.ready → c ∈ v.books.waiting ++ v.books.ready ∨ P c := by
  have hsteady : ∀ {b b' : Broker}, Steady b b' → b'.stations = b.stations ∧
      ∀ c, c ∈ b'.waiting ++ b'.ready → c ∈ b.waiting ++ b.ready ∨ P c :=
    fun h => ⟨h.stations, fun c hc => Or.inl (h.calls c hc)⟩
  cases h with
  | opened a => exact hsteady (steady_openOfficeCache ..)
  | begun x => exact hsteady (.refl _)
  | written => exact hsteady (steady_writeNext ..)
  | waits hc =>
    refine ⟨rfl, fun c hmem => ?_⟩
    simp only [List.mem_append, List.mem_singleton] at hmem ⊢
    rcases hmem with (hmem | rfl) | hmem
    · exact Or.inl (Or.inl hmem)
    · exact Or.inr hc
    · exact Or.inl (Or.inr hmem)
  | retries hready =>
    refine ⟨rfl, fun c hmem => Or.inl ?_⟩
    exact List.mem_append.2 ((List.mem_append.1 hmem).imp_right (hready c))
  | granted hgrant => exact hsteady ((steady_attemptStage ..).of_eq (congrArg Prod.fst hgrant))
  | sent hpersist =>
    exact hsteady (((steady_persistAll ..).of_eq (congrArg Prod.fst hpersist)).trans
      (steady_promoteAll ..))
  | refused m => exact hsteady ((steady_persistAll ..).trans (steady_dropAll ..))
  | registered howner => exact hsteady (.refl _)
  | prepared hstore => exact hsteady ((steady_storeAll ..).of_eq (congrArg Prod.fst hstore))
  | unprepared hstore =>
    have hstored := (steady_storeAll ..).of_eq (congrArg Prod.fst hstore)
    exact hsteady (hstored.trans (steady_dropAll ..))
  | committed hlive hpersist =>
    exact hsteady (((steady_persistAll ..).of_eq (congrArg Prod.fst hpersist)).trans
      (steady_promoteAll ..))
  | undone hlive m => exact hsteady ((steady_persistAll ..).trans (steady_dropAll ..))

/-- One post office, and calls that satisfy `P`. -/
structure Proper (P : Call → Prop) (b : Broker) : Prop where
  single : b.offices.length = 1
  calls : ∀ c ∈ b.waiting ++ b.ready, P c

theorem proper_books {P : Call → Prop} {b : Broker} : Proper P b.books ↔ Proper P b := by
  constructor
  · intro h
    exact ⟨by simpa [books] using h.single, h.calls⟩
  · intro h
    exact ⟨by simpa [books] using h.single, h.calls⟩

/-- A broker stays proper in every move. -/
theorem proper_move {P : Call → Prop} {v v' : View} (h : Move P v v') (hv : Proper P v.books) :
    Proper P v'.books := by
  obtain ⟨hstations, hcalls⟩ := steady_move h
  refine ⟨?_, fun c hc => ?_⟩
  · have hlen := congrArg List.length hstations
    simp only [stations, List.length_map] at hlen
    rw [hlen, hv.single]
  · rcases hcalls c hc with hc | hc
    · exact hv.calls c hc
    · exact hc

theorem proper_moves {P : Call → Prop} {v v' : View} (h : Moves P v v')
    (hv : Proper P v.books) : Proper P v'.books := by
  induction h with
  | refl => exact hv
  | tail _ h ih => exact proper_move h ih

end Broker

end MessageRouting
