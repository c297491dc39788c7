import MessageRouting.Proofs.Broker.RequestInvariants

/-!
# What only callers see

The answers of calls that had to wait, and the numbers that post offices give
to sends outside any transaction, are touched in two places: resuming a call
writes its answer, and a send draws its number. Everything else leaves both as
they are.

Results:

* `outward_perform`: every request but sends and resumptions leaves them as they
  are.
-/

namespace MessageRouting

namespace Broker

/-- The answers of calls that had to wait, and the next numbers of sends. -/
def outward (b : Broker) : List Event × List Nat :=
  (b.trace.filter Event.isAnswer, b.offices.map (·.nextOwner))

theorem outward_of_fixtures {b b' : Broker} (h : b'.fixtures = b.fixtures) :
    b'.outward = b.outward := by
  obtain ⟨hanswers, h⟩ := Prod.mk.inj h
  obtain ⟨-, hoffices⟩ := Prod.mk.inj h
  have howners := congrArg (List.map Prod.fst) hoffices
  rw [List.map_map, List.map_map] at howners
  exact Prod.ext hanswers howners

/-! ## Desks -/

theorem outward_setDesk (b : Broker) (n : Option Nat) (d : Desk) :
    (b.setDesk n d).outward = b.outward := by
  cases n with
  | none => rfl
  | some n =>
    have howners : (b.offices.modify n fun o => { o with desk := d }).map (·.nextOwner) =
        b.offices.map (·.nextOwner) := by
      refine List.ext_getElem? fun i => ?_
      simp only [List.getElem?_map, List.getElem?_modify]
      cases b.offices[i]? with
      | none => rfl
      | some o => split <;> rfl
    exact Prod.ext rfl howners

/-! ## Requests -/

theorem trafficKeeps_outward : TrafficKeeps fun b b' => b'.outward = b.outward where
  refl _ := rfl
  trans h h' := h'.trans h
  still _ hfixtures _ := outward_of_fixtures hfixtures
  asks _ _ _ := outward_setDesk ..
  branches _ _ _ := outward_setDesk ..
  begins _ _ _ := rfl
  registers _ _ _ _ := outward_of_fixtures (fixtures_modifyTransaction ..)
  marks _ _ _ := outward_of_fixtures (fixtures_modifyTransaction ..)
  prepares _ _ := outward_of_fixtures (fixtures_prepare ..)
  commits _ _ := outward_of_fixtures (fixtures_commit ..)
  rollsBack _ _ := outward_of_fixtures (fixtures_rollback ..)

/-- Only sends and resumptions answer those that wait, or draw a number. -/
theorem outward_perform (b : Broker) {c : Command} (htraffic : c.isTraffic = true)
    (hc : c.isOutward = false) : (b.perform c).1.outward = b.outward :=
  trafficKeeps_outward.perform b htraffic hc

end Broker

end MessageRouting
