import MessageRouting.Proofs.Broker.RequestInvariants
import MessageRouting.Proofs.Forwarding.UnforwardedRuns

/-!
# Registries in a run

Whatever is asked of a broker, the registries of its desks stay sound: what they
find through their indexes, and what they remember, are the bindings registered,
in order of registration. So the binding that messages are redistributed to can
be read off that list.

Results:

* `Registry.Sound.ask`: a registry stays sound, and its bindings are those of the
  list that is asked the same.
* `Registry.Sound.redistributionTarget`: the target of a redistribution in the
  order of registration.
* `listed_steps`: in a run every registry is sound.
-/

namespace MessageRouting

namespace Registry

variable {r : Registry} {es : List Registered}

/-- The entries by name are the entries in order. -/
theorem Lists.bindings_eq (h : Lists r es) (hkeys : r.byName.keys.Nodup) :
    r.bindings = es.map (·.binding) := by
  have hentry : ∀ name e, (name, e) ∈ r.byName.entries ↔ e ∈ es ∧ e.binding.name = name := by
    intro name e
    rw [Table.mem_entries hkeys, h.byName]
    refine ⟨fun he => ⟨List.mem_of_find?_eq_some he, by simpa using List.find?_some he⟩, ?_⟩
    rintro ⟨he, rfl⟩
    cases hfound : es.find? fun f => f.binding.name = e.binding.name with
    | none => exact absurd (List.find?_eq_none.1 hfound e he) (by simp)
    | some f =>
      have hname : f.binding.name = e.binding.name := by simpa using List.find?_some hfound
      rw [List.inj_on_of_nodup_map h.names (List.mem_of_find?_eq_some hfound) he hname]
  have hvalues : r.byName.values.Nodup := by
    refine List.pairwise_map.2 ((List.pairwise_map.1 hkeys).imp_of_mem ?_)
    rintro ⟨name, e⟩ ⟨name', e'⟩ hmem hmem' hne rfl
    exact hne (((hentry _ _).1 hmem).2.symm.trans ((hentry _ _).1 hmem').2)
  have hperm : r.byName.values.Perm es := by
    refine (List.perm_ext_iff_of_nodup hvalues h.nodup).2 fun e => ?_
    rw [Table.values, List.mem_map]
    refine ⟨?_, fun he => ⟨(e.binding.name, e), (hentry _ _).2 ⟨he, rfl⟩, rfl⟩⟩
    rintro ⟨p, hp, rfl⟩
    exact ((hentry p.1 p.2).1 hp).1
  rw [bindings, h.sortBy_eq hperm (List.Sublist.refl es)]

/-- The registry finds and remembers the bindings that it lists, in that order. -/
structure Sound (r : Registry) : Prop where
  shows : r.Shows r.bindings
  keys : r.byName.keys.Nodup

theorem sound_empty : ({} : Registry).Sound := ⟨⟨[], lists_empty, rfl⟩, List.nodup_nil⟩

theorem nodup_keys_ask (hkeys : r.byName.keys.Nodup) (q : Request) :
    (r.ask q).1.byName.keys.Nodup := by
  cases q with
  | add b =>
    show (r.add b).1.byName.keys.Nodup
    unfold add
    split
    · exact hkeys
    · split
      · exact hkeys
      · dsimp only
        split <;> exact Table.nodup_keys_insert hkeys ..
  | remove name =>
    show (r.remove name).1.byName.keys.Nodup
    unfold remove
    split
    · exact hkeys
    · dsimp only
      split <;> exact Table.nodup_keys_erase hkeys _
  | bindingsFor a create =>
    show (r.bindingsFor a create).1.byName.keys.Nodup
    unfold bindingsFor
    split
    · exact hkeys
    · split
      · exact hkeys
      · unfold remember
        split <;> exact hkeys
  | lookup a => exact hkeys
  | matching a => exact hkeys

/-- A binding that is added comes last, and removing one leaves the others as they stand. -/
theorem Sound.ask (h : r.Sound) (q : Request) :
    (r.ask q).1.Sound ∧ (r.ask q).1.bindings = (Listing.ask r.bindings q).1 := by
  have hkeys := nodup_keys_ask h.keys q
  obtain ⟨es, hlists, hbindings⟩ := (h.shows.ask q).1
  have hlisted := (hlists.bindings_eq hkeys).trans hbindings
  exact ⟨⟨⟨es, hlists, hbindings.trans hlisted.symm⟩, hkeys⟩, hlisted⟩

theorem Sound.after (h : r.Sound) (qs : List Request) : (r.after qs).Sound :=
  List.foldlRecOn (motive := Sound) qs _ h fun _ hr q _ => (hr.ask q).1

/-- The binding that messages of `origin` to the address are redistributed to: among those that
take them, the first remote one with the routing name of `origin` and another name. -/
def successor? (r : Registry) (origin : Binding) (a : Address) : Option Binding :=
  r.bindings.find? fun c => c.takes a && (c.kind = .remoteQueue
    && c.routingName = origin.routingName && c.name ≠ origin.name)

theorem Sound.redistributionTarget (h : r.Sound) (origin : Binding) (a : Address) :
    Broker.redistributionTarget? origin (((r.lookup a).map (·.bindings)).getD []) =
      r.successor? origin a := by
  obtain ⟨es, hlists, hbindings⟩ := h.shows
  have hfound : ((r.lookup a).map (·.bindings)).getD [] = r.bindings.filter (·.takes a) := by
    rw [lookup_of_lists hlists, hbindings, Listing.find]
    by_cases hnone : r.bindings.filter (·.takes a) = [] <;> simp [hnone]
  rw [hfound, Broker.redistributionTarget?, List.find?_filter, successor?]
  exact congrArg (List.find? · r.bindings) (funext fun c => by simp)

end Registry

namespace Broker

variable {b b' : Broker}

/-! ## Desks -/

theorem deskAt_modifyOffice (b : Broker) (n : Nat) {f : Office → Office}
    (hf : ∀ o, (f o).desk = o.desk) : (b.modifyOffice n f).deskAt = b.deskAt := by
  funext d
  cases d with
  | none => rfl
  | some m =>
    simp only [deskAt, office, modifyOffice, List.getD_eq_getElem?_getD, List.getElem?_modify]
    cases b.offices[m]? with
    | none => rfl
    | some o => by_cases hnm : n = m <;> simp [hnm, hf]

/-- A post office that is opened has an empty desk, and so has one that is not there. -/
theorem deskAt_addOffice (b : Broker) {o : Office} (ho : o.desk = {}) :
    ({ b with offices := b.offices ++ [o] } : Broker).deskAt = b.deskAt := by
  funext d
  cases d with
  | none => rfl
  | some m =>
    simp only [deskAt, office, List.getD_eq_getElem?_getD]
    rcases Nat.lt_trichotomy m b.offices.length with hlt | rfl | hgt
    · rw [List.getElem?_append_left hlt]
    · rw [List.getElem?_concat_length, List.getElem?_eq_none (Nat.le_refl _)]
      exact ho
    · rw [List.getElem?_eq_none (by simp; omega), List.getElem?_eq_none (by omega)]

/-! ## Requests -/

/-- Every registry is sound. -/
structure Listed (b : Broker) : Prop where
  sound : ∀ d, (b.deskAt d).registry.Sound

theorem Listed.of_desks (hb : b.Listed) (h : b'.deskAt = b.deskAt) : b'.Listed :=
  ⟨fun d => h ▸ hb.sound d⟩

theorem Listed.of_fixtures (hb : b.Listed) (h : b'.fixtures = b.fixtures) : b'.Listed :=
  hb.of_desks (funext (deskAt_of_fixtures h))

theorem Listed.setDesk (hb : b.Listed) (desk : Option Nat) {d : Desk}
    (hd : d.registry.Sound) : (b.setDesk desk d).Listed := by
  refine ⟨fun m => ?_⟩
  cases desk with
  | none =>
    cases m with
    | none => exact hd
    | some m => exact hb.sound (some m)
  | some n =>
    cases m with
    | none => exact hb.sound none
    | some m =>
      have hoffice := hb.sound (some m)
      simp only [deskAt, office, Broker.setDesk, modifyOffice, List.getD_eq_getElem?_getD,
        List.getElem?_modify] at hoffice ⊢
      cases hm : b.offices[m]? with
      | none => exact Registry.sound_empty
      | some o =>
        rw [hm] at hoffice
        by_cases hnm : n = m
        · simpa [hnm] using hd
        · simpa [hnm] using hoffice

/-- A broker asks its registries, and registries that are asked stay sound. -/
theorem requestsKeep_listed : RequestsKeep fun b b' => b.Listed → b'.Listed where
  refl _ := id
  trans h h' hb := h' (h hb)
  still _ hfixtures _ hb := hb.of_fixtures hfixtures
  asks _ desk qs hb := hb.setDesk desk ((hb.sound desk).after qs)
  branches _ desk _ hb := hb.setDesk desk (hb.sound desk)
  begins _ _ _ hb := hb.of_fixtures rfl
  registers _ _ _ _ hb := hb.of_fixtures (fixtures_modifyTransaction ..)
  marks _ _ _ hb := hb.of_fixtures (fixtures_modifyTransaction ..)
  prepares _ _ hb := hb.of_fixtures (fixtures_prepare ..)
  commits _ _ hb := hb.of_fixtures (fixtures_commit ..)
  rollsBack _ _ hb := hb.of_fixtures (fixtures_rollback ..)
  draws b n hb := hb.of_desks (deskAt_modifyOffice b n fun _ => rfl)
  answers _ _ _ hb := hb.of_desks rfl
  opens b _ ho _ hb := hb.of_desks (deskAt_addOffice b ho)

theorem Listed.perform (hb : b.Listed) (c : Command) : (b.perform c).1.Listed :=
  requestsKeep_listed.perform b c hb

/-- In a run every registry is sound. -/
theorem listed_steps (hb : b.Listed) {cs : List Command} :
    ∀ s ∈ b.steps cs, s.1.Listed := by
  induction cs generalizing b with
  | nil => exact fun s hs => absurd hs List.not_mem_nil
  | cons c rest ih =>
    intro s hs
    rcases List.mem_cons.1 hs with rfl | hs
    · exact hb
    · exact ih (hb.perform c) s hs

end Broker

end MessageRouting
