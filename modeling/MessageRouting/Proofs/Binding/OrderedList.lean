import Mathlib.Data.List.Find
import Mathlib.Data.List.Nodup
import Mathlib.Data.List.Perm.Basic
import MessageRouting.Binding.Registry

/-!
# Bindings as a list

A registry finds bindings by their text or group by group, and remembers what
addresses have been resolved to. None of that shows: whatever a registry is
asked, it answers as a plain list of bindings does that is read from the first
to the last.

Results:

* `indexes_index`, `indexes_unindex`: an index holds its entries group by group.
* `resolve_of_lists`: what is found through both indexes, put in order, are the
  entries that cover the address.
* `lists_add`, `lists_remove`, `lists_remember`: a registry goes on standing for
  a list.
* `responses_listed`: a registry answers as a list does.
-/

namespace MessageRouting

/-- Whether messages to the address are for the binding: its pattern covers the address. -/
def Binding.takes (b : Binding) (a : Address) : Bool :=
  match Pattern.parse b.address with
  | .ok p => p.covers a.text
  | .error _ => false

/-! ## Questions -/

/-- What a registry can be asked. -/
inductive Registry.Request where
  | add (b : Binding)
  | remove (name : String)
  | bindingsFor (a : Address) (create : Bool)
  | lookup (a : Address)
  | matching (a : Address)
  deriving DecidableEq, Repr

/-- What it answers. -/
inductive Registry.Response where
  | changed (result : Except RoutingError Binding)
  | found (r : Option Resolution)
  | matched (r : Resolution)

namespace Registry

/-- The registry after the request, and the answer to it. -/
def ask (r : Registry) : Request → Registry × Response
  | .add b => (r.add b).map id .changed
  | .remove name => (r.remove name).map id .changed
  | .bindingsFor a create => (r.bindingsFor a create).map id .found
  | .lookup a => (r, .found (r.lookup a))
  | .matching a => (r, .matched (r.matching a))

/-- The answers of a registry to requests, one after the other. -/
def responses (r : Registry) : List Request → List Response
  | [] => []
  | q :: rest => (r.ask q).2 :: (r.ask q).1.responses rest

/-- The registry after requests. -/
def after (r : Registry) (requests : List Request) : Registry :=
  requests.foldl (fun r q => (r.ask q).1) r

end Registry

namespace Listing

open Registry (Request Response)

/-- The bindings among those registered that take the messages of the address, if there are any or
nothing else will do. -/
def find (bs : List Binding) (a : Address) (create : Bool) : Option Resolution :=
  let found := bs.filter (·.takes a)
  if found = [] ∧ create = false then none else some ⟨a, found⟩

/-- A list of bindings in order of registration, asked the same as a registry. -/
def ask (bs : List Binding) : Request → List Binding × Response
  | .add b =>
    match Pattern.parse b.address with
    | .error fault => (bs, .changed (.error (.invalidAddress b.address fault)))
    | .ok _ =>
      if b.name ∈ bs.map (·.name) then (bs, .changed (.error (.duplicateBinding b.name)))
      else (bs ++ [b], .changed (.ok b))
  | .remove name =>
    match bs.find? fun b => b.name = name with
    | none => (bs, .changed (.error (.bindingNotFound name)))
    | some b => (bs.filter fun c => c.name ≠ name, .changed (.ok b))
  | .bindingsFor a create => (bs, .found (find bs a create))
  | .lookup a => (bs, .found (find bs a false))
  | .matching a => (bs, .matched ⟨a, bs.filter (·.takes a)⟩)

/-- The answers of a list to requests, one after the other. -/
def responses (bs : List Binding) : List Request → List Response
  | [] => []
  | q :: rest => (ask bs q).2 :: responses (ask bs q).1 rest

/-- The bindings that are registered after requests. -/
def after (bs : List Binding) (requests : List Request) : List Binding :=
  requests.foldl (fun bs q => (ask bs q).1) bs

end Listing

namespace Registry

/-! ## Indexes -/

/-- The entries of one pattern text. -/
def group (es : List Registered) (a : Address) : List Registered :=
  es.filter fun e => e.pattern.address = a

/-- The table holds the entries group by group, and no group is empty. -/
structure Indexes (t : Table Address (List Registered)) (es : List Registered) : Prop where
  keys : t.keys.Nodup
  group : ∀ a, t.get? a = if group es a = [] then none else some (group es a)

theorem Indexes.getD {t : Table Address (List Registered)} {es : List Registered}
    (h : Indexes t es) (a : Address) : (t.get? a).getD [] = Registry.group es a := by
  rw [h.group]
  split
  · rename_i hnil
    rw [hnil]
    rfl
  · rfl

theorem indexes_index {t : Table Address (List Registered)} {es : List Registered}
    (h : Indexes t es) (e : Registered) : Indexes (index t e) (es ++ [e]) := by
  refine ⟨Table.nodup_keys_insert h.keys .., fun a => ?_⟩
  simp only [index, Table.get?_insert, h.getD, group, List.filter_append]
  by_cases ha : e.pattern.address = a
  · simp [ha]
  · simp only [ha, if_false, List.filter_cons, decide_false, Bool.false_eq_true, List.filter_nil,
      List.append_nil]
    exact h.group a

/-- The entries but for one, no other having its name. -/
def without (es : List Registered) (name : String) : List Registered :=
  es.filter fun e => e.binding.name ≠ name

theorem group_without (es : List Registered) (name : String) (a : Address) :
    group (without es name) a = (group es a).filter fun f => f.binding.name ≠ name := by
  simp only [group, without, List.filter_filter]
  exact List.filter_congr fun e _ => Bool.and_comm ..

theorem indexes_unindex {t : Table Address (List Registered)} {es : List Registered}
    (h : Indexes t es) (hnames : (es.map (·.binding.name)).Nodup) {e : Registered} (he : e ∈ es) :
    Indexes (unindex t e) (without es e.binding.name) := by
  have hother : ∀ a, e.pattern.address ≠ a →
      group (without es e.binding.name) a = group es a := fun a ha => by
    rw [group_without, List.filter_eq_self]
    intro f hf
    obtain ⟨hmem, hfa⟩ := List.mem_filter.1 hf
    have hne : f ≠ e := fun heq => ha (by simpa [heq] using hfa)
    simpa using fun hname => hne (List.inj_on_of_nodup_map hnames hmem he hname)
  have hown : group es e.pattern.address ≠ [] :=
    List.ne_nil_of_mem (List.mem_filter.2 ⟨he, by simp⟩)
  have hself : t.get? e.pattern.address = some (group es e.pattern.address) := by
    rw [h.group, if_neg hown]
  unfold unindex
  rw [hself]
  dsimp only
  rw [← group_without]
  split
  · rename_i hnil
    refine ⟨Table.nodup_keys_erase h.keys _, fun a => ?_⟩
    rw [Table.get?_erase]
    by_cases ha : e.pattern.address = a
    · rw [if_pos ha, ← ha, if_pos hnil]
    · rw [if_neg ha, hother a ha]
      exact h.group a
  · rename_i rest hne
    refine ⟨Table.nodup_keys_insert h.keys .., fun a => ?_⟩
    rw [Table.get?_insert]
    by_cases ha : e.pattern.address = a
    · rw [if_pos ha, ← ha, if_neg hne]
    · rw [if_neg ha, hother a ha]
      exact h.group a

/-! ## A registry and its entries -/

/-- The entries that are found by their text, or else those that are tried group by group. -/
def ofKind (es : List Registered) (wild : Bool) : List Registered :=
  es.filter fun e => e.pattern.hasWildcards = wild

/-- The entries of a registry, in order of registration. -/
structure Lists (r : Registry) (es : List Registered) : Prop where
  parsed : ∀ e ∈ es, Pattern.parse e.binding.address = .ok e.pattern
  ordered : es.Pairwise fun e f => e.order < f.order
  below : ∀ e ∈ es, e.order < r.nextOrder
  names : (es.map (·.binding.name)).Nodup
  byName : ∀ name, r.byName.get? name = es.find? fun e => e.binding.name = name
  literal : Indexes r.literal (ofKind es false)
  wildcard : Indexes r.wildcard (ofKind es true)
  resolved : ∀ a bs, r.resolved.get? a = some bs →
    bs ≠ [] ∧ bs = (es.map (·.binding)).filter (·.takes a)

theorem takes_of_parsed {b : Binding} {p : Pattern} (h : Pattern.parse b.address = .ok p)
    (a : Address) : b.takes a = p.covers a.text := by
  rw [Binding.takes, h]

variable {r : Registry} {es : List Registered}

theorem Lists.nodup (h : Lists r es) : es.Nodup := List.Nodup.of_map _ h.names

/-- Entries of one pattern text have one pattern. -/
theorem Lists.pattern_eq (h : Lists r es) {e f : Registered} (he : e ∈ es) (hf : f ∈ es)
    (haddress : e.pattern.address = f.pattern.address) : e.pattern = f.pattern := by
  have hparse : ∀ g ∈ es, Pattern.parse g.pattern.address = .ok g.pattern := fun g hg => by
    rw [(Pattern.segments_of_parse (h.parsed g hg)).1]
    exact h.parsed g hg
  have heq := hparse e he
  rw [haddress, hparse f hf] at heq
  exact (Except.ok.inj heq).symm

/-- Of a group either all entries cover the address, or none. -/
theorem Lists.mem_ofGroup (h : Lists r es) {g : List Registered} (hg : ∀ e ∈ g, e ∈ es)
    (haddress : ∀ e ∈ g, ∀ f ∈ g, e.pattern.address = f.pattern.address) (a : Address)
    (e : Registered) : e ∈ ofGroup a g ↔ e ∈ g ∧ e.pattern.covers a.text = true := by
  cases g with
  | nil => simp [ofGroup]
  | cons f rest =>
    have hsame : ∀ e ∈ f :: rest, e.pattern = f.pattern := fun e he =>
      h.pattern_eq (hg e he) (hg f (by simp)) (haddress e he f (by simp))
    rw [ofGroup]
    split
    · rename_i hcovers
      exact ⟨fun he => ⟨he, by rw [hsame e he]; exact hcovers⟩, And.left⟩
    · rename_i hnot
      exact ⟨fun he => absurd he List.not_mem_nil,
        fun he => absurd (by rw [← hsame e he.1]; exact he.2) hnot⟩

theorem ofGroup_sublist (a : Address) (g : List Registered) : (ofGroup a g).Sublist g := by
  cases g with
  | nil => exact .slnil
  | cons e rest =>
    rw [ofGroup]
    split
    · exact List.Sublist.refl _
    · exact List.nil_sublist _

/-- The groups of the wildcard index, each with the text of its pattern. -/
theorem Lists.mem_entries (h : Lists r es) {p : Address × List Registered} :
    p ∈ r.wildcard.entries ↔ p.2 = group (ofKind es true) p.1 ∧ p.2 ≠ [] := by
  rw [Table.mem_entries h.wildcard.keys, h.wildcard.group]
  split
  · rename_i hnil
    simp [hnil]
  · rename_i hne
    rw [Option.some.injEq]
    exact ⟨fun heq => ⟨heq.symm, heq ▸ hne⟩, fun heq => heq.1.symm⟩

theorem mem_group {a : Address} {wild : Bool} {e : Registered} :
    e ∈ group (ofKind es wild) a ↔
      e ∈ es ∧ e.pattern.hasWildcards = wild ∧ e.pattern.address = a := by
  simp only [group, ofKind, List.mem_filter, decide_eq_true_eq, and_assoc]

/-- What is found by its text covers the address, and all such entries without wildcards are. -/
theorem Lists.mem_literal (h : Lists r es) (a : Address) (e : Registered) :
    e ∈ (r.literal.get? a).getD [] ↔
      e ∈ es ∧ e.pattern.hasWildcards = false ∧ e.pattern.covers a.text = true := by
  rw [h.literal.getD, mem_group]
  refine and_congr_right fun he => and_congr_right fun hplain => ?_
  obtain ⟨haddress, -⟩ := Pattern.segments_of_parse (h.parsed e he)
  rw [Pattern.covers_of_plain (h.parsed e he) hplain, haddress]
  exact ⟨fun heq => by rw [heq], fun htext => congrArg Address.mk htext.symm⟩

/-- What is found group by group is likewise all entries with wildcards that cover the address. -/
theorem Lists.mem_wildcard (h : Lists r es) (a : Address) (e : Registered) :
    e ∈ r.wildcard.values.flatMap (ofGroup a) ↔
      e ∈ es ∧ e.pattern.hasWildcards = true ∧ e.pattern.covers a.text = true := by
  have hgroup : ∀ k, e ∈ ofGroup a (group (ofKind es true) k) ↔
      e ∈ group (ofKind es true) k ∧ e.pattern.covers a.text = true := fun k =>
    h.mem_ofGroup (fun f hf => (mem_group.1 hf).1)
      (fun f hf g hg => (mem_group.1 hf).2.2.trans (mem_group.1 hg).2.2.symm) a e
  simp only [Table.values, List.flatMap_map, List.mem_flatMap]
  constructor
  · rintro ⟨p, hp, he⟩
    rw [(h.mem_entries.1 hp).1, hgroup] at he
    exact ⟨(mem_group.1 he.1).1, (mem_group.1 he.1).2.1, he.2⟩
  · rintro ⟨hmem, hwild, hcovers⟩
    have he : e ∈ group (ofKind es true) e.pattern.address := mem_group.2 ⟨hmem, hwild, rfl⟩
    exact ⟨(e.pattern.address, group (ofKind es true) e.pattern.address),
      h.mem_entries.2 ⟨rfl, List.ne_nil_of_mem he⟩, (hgroup _).2 ⟨he, hcovers⟩⟩

/-- No entry is found twice through the wildcard index. -/
theorem Lists.nodup_wildcard (h : Lists r es) (a : Address) :
    (r.wildcard.values.flatMap (ofGroup a)).Nodup := by
  have hmem : ∀ p ∈ r.wildcard.entries, ∀ e ∈ ofGroup a p.2, e.pattern.address = p.1 :=
    fun p hp e he => by
      have hin := (ofGroup_sublist a p.2).mem he
      rw [(h.mem_entries.1 hp).1] at hin
      exact (mem_group.1 hin).2.2
  rw [Table.values, List.flatMap_map, List.nodup_flatMap]
  constructor
  · intro p hp
    refine List.Nodup.sublist (ofGroup_sublist a p.2) ?_
    rw [(h.mem_entries.1 hp).1]
    exact (h.nodup.filter _).filter _
  · have hkeys := List.pairwise_map.1 h.wildcard.keys
    refine hkeys.imp_of_mem fun {p q} hp hq hne e hep heq => ?_
    exact hne ((hmem p hp e hep).symm.trans (hmem q hq e heq))

/-- Through both indexes the entries that cover the address are found, each once. -/
theorem Lists.found_perm (h : Lists r es) (a : Address) :
    (r.found a).Perm (es.filter fun e => e.pattern.covers a.text) := by
  have hnodup : (r.found a).Nodup := by
    refine List.nodup_append.2 ⟨?_, h.nodup_wildcard a, fun e he f hf heq => ?_⟩
    · rw [h.literal.getD]
      exact (h.nodup.filter _).filter _
    · have hplain := ((h.mem_literal a e).1 he).2.1
      rw [heq, ((h.mem_wildcard a f).1 hf).2.1] at hplain
      cases hplain
  refine (List.perm_ext_iff_of_nodup hnodup (h.nodup.filter _)).2 fun e => ?_
  rw [found, List.mem_append, h.mem_literal, h.mem_wildcard, List.mem_filter]
  cases e.pattern.hasWildcards <;> simp

/-- No two entries have one place in the order of registration. -/
theorem Lists.eq_of_order (h : Lists r es) {e f : Registered} (he : e ∈ es) (hf : f ∈ es)
    (heq : e.order = f.order) : e = f := by
  have hplaces : (es.map (·.order)).Nodup :=
    List.pairwise_map.2 (h.ordered.imp fun hlt => Nat.ne_of_lt hlt)
  exact List.inj_on_of_nodup_map hplaces he hf heq

/-- Entries of a registry, put in order, stand as they do among all of them. -/
theorem Lists.sortBy_eq (h : Lists r es) {fs gs : List Registered} (hperm : fs.Perm gs)
    (hgs : gs.Sublist es) : sortBy (fun e f => decide (e.order < f.order)) fs = gs := by
  have hall := (sortBy_perm (fun e f => decide (e.order < f.order)) fs).trans hperm
  have hsorted : (sortBy (fun e f => decide (e.order < f.order)) fs).Pairwise
      fun e f => decide (f.order < e.order) = false := by
    apply pairwise_sortBy
    · simp only [decide_eq_true_eq, decide_eq_false_iff_not]
      omega
    · simp only [decide_eq_true_eq]
      omega
  have hlisted : gs.Pairwise fun e f => decide (f.order < e.order) = false := by
    refine (h.ordered.sublist hgs).imp fun hlt => ?_
    simp only [decide_eq_false_iff_not]
    omega
  refine hall.eq_of_pairwise (fun e f he hf hle hge => ?_) hsorted hlisted
  simp only [decide_eq_false_iff_not] at hle hge
  exact h.eq_of_order (hgs.mem (hall.mem_iff.1 he)) (hgs.mem hf) (by omega)

/-- What is found, put in order, are the entries that cover the address as they stand. -/
theorem resolve_of_lists (h : Lists r es) (a : Address) :
    r.resolve a = (es.map (·.binding)).filter (·.takes a) := by
  rw [resolve, h.sortBy_eq (h.found_perm a) List.filter_sublist, List.filter_map]
  congr 1
  exact List.filter_congr fun e he => (takes_of_parsed (h.parsed e he) a).symm

/-! ## Changes -/

/-- A name is taken if an entry has it. -/
theorem Lists.contains_iff (h : Lists r es) (name : String) :
    r.byName.contains name = true ↔ name ∈ (es.map (·.binding)).map (·.name) := by
  rw [Table.contains, h.byName, List.find?_isSome, List.map_map]
  simp

/-- What a registration changes. -/
theorem add_of_ok {r : Registry} {b : Binding} {p : Pattern} (hp : Pattern.parse b.address = .ok p)
    (hfree : ¬ r.byName.contains b.name = true) :
    r.add b =
      (⟨r.nextOrder + 1, r.byName.insert b.name ⟨b, p, r.nextOrder⟩,
        if p.hasWildcards then r.literal else index r.literal ⟨b, p, r.nextOrder⟩,
        if p.hasWildcards then index r.wildcard ⟨b, p, r.nextOrder⟩ else r.wildcard,
        r.resolved.keep fun a => !p.covers a.text⟩, .ok b) := by
  simp only [add, hp, if_neg hfree, invalidate]
  cases p.hasWildcards <;> rfl

/-- What a removal changes. -/
theorem remove_of_some {r : Registry} {name : String} {e : Registered}
    (he : r.byName.get? name = some e) :
    r.remove name =
      (⟨r.nextOrder, r.byName.erase name,
        if e.pattern.hasWildcards then r.literal else unindex r.literal e,
        if e.pattern.hasWildcards then unindex r.wildcard e else r.wildcard,
        r.resolved.keep fun a => !e.pattern.covers a.text⟩, .ok e.binding) := by
  simp only [remove, he, invalidate]
  cases e.pattern.hasWildcards <;> rfl

/-- What is still remembered after a change was remembered before, and the pattern that has changed
does not cover it. -/
theorem get?_keep_not_covers {t : Table Address (List Binding)} {p : Pattern} {a : Address}
    {bs : List Binding} (h : (t.keep fun a => !p.covers a.text).get? a = some bs) :
    p.covers a.text = false ∧ t.get? a = some bs := by
  rw [Table.get?_keep] at h
  split at h
  · rename_i hcovers
    exact ⟨by simpa using hcovers, h⟩
  · cases h

theorem lists_add (h : Lists r es) {b : Binding} {p : Pattern}
    (hp : Pattern.parse b.address = .ok p)
    (hnew : b.name ∉ (es.map (·.binding)).map (·.name)) :
    Lists (r.add b).1 (es ++ [⟨b, p, r.nextOrder⟩]) := by
  have hname : ∀ e ∈ es, e.binding.name ≠ b.name := fun e he heq =>
    hnew (by rw [List.map_map]; exact List.mem_map.2 ⟨e, he, heq⟩)
  have hkinds : ∀ wild, ofKind (es ++ [⟨b, p, r.nextOrder⟩]) wild =
      ofKind es wild ++ if p.hasWildcards = wild then [⟨b, p, r.nextOrder⟩] else [] := fun wild => by
    by_cases hw : p.hasWildcards = wild <;> simp [ofKind, hw]
  rw [add_of_ok hp fun hin => hnew ((h.contains_iff _).1 hin)]
  constructor
  · intro e he
    rcases List.mem_append.1 he with he | he
    · exact h.parsed e he
    · rw [List.mem_singleton.1 he]
      exact hp
  · refine List.pairwise_append.2 ⟨h.ordered, List.pairwise_singleton .., fun e he f hf => ?_⟩
    rw [List.mem_singleton.1 hf]
    exact h.below e he
  · intro e he
    rcases List.mem_append.1 he with he | he
    · exact Nat.lt_succ_of_lt (h.below e he)
    · rw [List.mem_singleton.1 he]
      exact Nat.lt_succ_self _
  · rw [List.map_append, List.map_singleton, ← List.concat_eq_append]
    refine h.names.concat fun hin => hnew ?_
    rwa [List.map_map]
  · intro name
    rw [Table.get?_insert, List.find?_append, ← h.byName name]
    by_cases hn : b.name = name
    · subst hn
      have hnone : r.byName.get? b.name = none := by
        rw [h.byName, List.find?_eq_none]
        simpa using hname
      simp [hnone]
    · simp [hn]
  · rw [hkinds]
    cases p.hasWildcards
    · exact indexes_index h.literal _
    · simpa using h.literal
  · rw [hkinds]
    cases p.hasWildcards
    · simpa using h.wildcard
    · exact indexes_index h.wildcard _
  · intro a bs hbs
    obtain ⟨hcovers, hbs⟩ := get?_keep_not_covers hbs
    obtain ⟨hne, heq⟩ := h.resolved a bs hbs
    have hnot : b.takes a = false := (takes_of_parsed hp a).trans hcovers
    exact ⟨hne, by simpa [hnot] using heq⟩

theorem ofKind_without (es : List Registered) (name : String) (wild : Bool) :
    ofKind (without es name) wild = without (ofKind es wild) name := by
  simp only [ofKind, without, List.filter_filter]
  exact List.filter_congr fun e _ => Bool.and_comm ..

/-- An entry leaves no mark on what another name or another kind would keep. -/
theorem Lists.without_eq (h : Lists r es) {e : Registered} (he : e ∈ es) {wild : Bool}
    (hkind : e.pattern.hasWildcards ≠ wild) :
    ofKind (without es e.binding.name) wild = ofKind es wild := by
  rw [ofKind_without, without, List.filter_eq_self]
  intro f hf
  obtain ⟨hmem, hwild⟩ := List.mem_filter.1 hf
  have hne : f ≠ e := fun heq => hkind (by simpa [heq] using hwild)
  simpa using fun hname => hne (List.inj_on_of_nodup_map h.names hmem he hname)

theorem map_without (es : List Registered) (name : String) :
    (without es name).map (·.binding) = (es.map (·.binding)).filter fun b => b.name ≠ name := by
  rw [without, List.filter_map]
  rfl

theorem lists_remove (h : Lists r es) {name : String} {e : Registered}
    (he : r.byName.get? name = some e) : Lists (r.remove name).1 (without es name) := by
  have hfind := (h.byName name).symm.trans he
  have hmem : e ∈ es := List.mem_of_find?_eq_some hfind
  have hname : e.binding.name = name := by simpa using List.find?_some hfind
  have hsub : (without es name).Sublist es := List.filter_sublist
  have hkindNames : ∀ wild, ((ofKind es wild).map (·.binding.name)).Nodup := fun wild =>
    h.names.sublist (List.filter_sublist.map _)
  rw [remove_of_some he]
  constructor
  · exact fun f hf => h.parsed f (hsub.mem hf)
  · exact h.ordered.sublist hsub
  · exact fun f hf => h.below f (hsub.mem hf)
  · exact h.names.sublist (hsub.map _)
  · intro other
    rw [Table.get?_erase, h.byName, without, List.find?_filter]
    by_cases hother : name = other
    · rw [if_pos hother, eq_comm, List.find?_eq_none]
      simp [hother]
    · rw [if_neg hother]
      refine List.find?_congr fun f _ => ?_
      by_cases hf : f.binding.name = other <;> simp [hf, Ne.symm hother]
  · cases hkind : e.pattern.hasWildcards with
    | false =>
      have hin : e ∈ ofKind es false := List.mem_filter.2 ⟨hmem, by simpa using hkind⟩
      rw [ofKind_without, ← hname]
      exact indexes_unindex h.literal (hkindNames false) hin
    | true =>
      rw [← hname, h.without_eq hmem (by simp [hkind])]
      exact h.literal
  · cases hkind : e.pattern.hasWildcards with
    | false =>
      rw [← hname, h.without_eq hmem (by simp [hkind])]
      exact h.wildcard
    | true =>
      have hin : e ∈ ofKind es true := List.mem_filter.2 ⟨hmem, by simpa using hkind⟩
      rw [ofKind_without, ← hname]
      exact indexes_unindex h.wildcard (hkindNames true) hin
  · intro a bs hbs
    obtain ⟨hcovers, hbs⟩ := get?_keep_not_covers hbs
    obtain ⟨hne, heq⟩ := h.resolved a bs hbs
    refine ⟨hne, heq.trans ?_⟩
    rw [map_without, List.filter_filter]
    refine List.filter_congr fun b hb => ?_
    obtain ⟨f, hf, rfl⟩ := List.mem_map.1 hb
    by_cases hfname : f.binding.name = name
    · have hfe : f = e := List.inj_on_of_nodup_map h.names hf hmem (hfname.trans hname.symm)
      rw [hfe, takes_of_parsed (h.parsed e hmem), hcovers]
      rfl
    · simp [hfname]

/-! ## Lookups -/

/-- What is remembered of an address is what it still resolves to, and never nothing. -/
theorem lists_remember (h : Lists r es) {a : Address} (hne : r.resolve a ≠ []) :
    Lists (r.remember a (r.resolve a)) es := by
  rw [remember]
  split
  · refine ⟨h.parsed, h.ordered, h.below, h.names, h.byName, h.literal, h.wildcard,
      fun a' bs hbs => ?_⟩
    dsimp only at hbs
    rw [Table.get?_insert] at hbs
    split at hbs
    · rename_i heq
      cases hbs
      exact ⟨hne, by rw [← heq, resolve_of_lists h]⟩
    · exact h.resolved a' bs hbs
  · exact h

theorem lookup_of_lists (h : Lists r es) (a : Address) :
    r.lookup a = Listing.find (es.map (·.binding)) a false := by
  rw [Listing.find, lookup]
  cases hremembered : r.resolved.get? a with
  | some bs =>
    obtain ⟨hne, rfl⟩ := h.resolved a bs hremembered
    simp [hne]
  | none =>
    rw [← resolve_of_lists h]
    cases r.resolve a <;> simp

theorem bindingsFor_of_lists (h : Lists r es) (a : Address) (create : Bool) :
    Lists (r.bindingsFor a create).1 es ∧
      (r.bindingsFor a create).2 = Listing.find (es.map (·.binding)) a create := by
  rw [Listing.find, bindingsFor]
  cases hremembered : r.resolved.get? a with
  | some bs =>
    obtain ⟨hne, rfl⟩ := h.resolved a bs hremembered
    exact ⟨h, by simp [hne]⟩
  | none =>
    have hkept := lists_remember h (a := a)
    rw [← resolve_of_lists h]
    cases hfound : r.resolve a with
    | nil => cases create <;> exact ⟨h, by simp⟩
    | cons b bs =>
      rw [hfound] at hkept
      exact ⟨hkept (by simp), by simp⟩

/-! ## Sequences of requests -/

/-- A request is answered from the entries, and leaves the registry with the entries it should. -/
theorem ask_of_lists (h : Lists r es) (q : Request) :
    (∃ es', Lists (r.ask q).1 es' ∧ (Listing.ask (es.map (·.binding)) q).1 = es'.map (·.binding)) ∧
      (r.ask q).2 = (Listing.ask (es.map (·.binding)) q).2 := by
  cases q with
  | add b =>
    rw [ask, Listing.ask]
    cases hp : Pattern.parse b.address with
    | error fault =>
      simp only [add, hp]
      exact ⟨⟨es, h, rfl⟩, rfl⟩
    | ok p =>
      dsimp only
      by_cases hin : b.name ∈ (es.map (·.binding)).map (·.name)
      · simp only [add, hp, if_pos ((h.contains_iff _).2 hin), if_pos hin]
        exact ⟨⟨es, h, rfl⟩, rfl⟩
      · rw [if_neg hin]
        refine ⟨⟨_, lists_add h hp hin, by simp⟩, ?_⟩
        rw [add_of_ok hp fun htaken => hin ((h.contains_iff _).1 htaken)]
        rfl
  | remove name =>
    rw [ask, Listing.ask, List.find?_map]
    cases he : r.byName.get? name with
    | none =>
      have hnone : es.find? ((fun b : Binding => decide (b.name = name)) ∘ (·.binding)) = none :=
        (h.byName name).symm.trans he
      simp only [remove, he, hnone]
      exact ⟨⟨es, h, rfl⟩, rfl⟩
    | some e =>
      have hsome : es.find? ((fun b : Binding => decide (b.name = name)) ∘ (·.binding)) = some e :=
        (h.byName name).symm.trans he
      rw [hsome]
      refine ⟨⟨_, lists_remove h he, (map_without es name).symm⟩, ?_⟩
      rw [remove_of_some he]
      rfl
  | bindingsFor a create =>
    obtain ⟨hkept, hanswer⟩ := bindingsFor_of_lists h a create
    exact ⟨⟨es, hkept, rfl⟩, congrArg Response.found hanswer⟩
  | lookup a => exact ⟨⟨es, h, rfl⟩, congrArg Response.found (lookup_of_lists h a)⟩
  | matching a =>
    refine ⟨⟨es, h, rfl⟩, ?_⟩
    rw [ask, matching, resolve_of_lists h]
    rfl

/-- Requests are answered as by the list of the bindings, and leave the registry with the bindings
of the list. -/
theorem responses_of_lists (h : Lists r es) (requests : List Request) :
    r.responses requests = Listing.responses (es.map (·.binding)) requests ∧
      ∃ es', Lists (r.after requests) es' ∧
        Listing.after (es.map (·.binding)) requests = es'.map (·.binding) := by
  induction requests generalizing r es with
  | nil => exact ⟨rfl, es, h, rfl⟩
  | cons q rest ih =>
    obtain ⟨⟨es', hlists, hbindings⟩, hanswer⟩ := ask_of_lists h q
    obtain ⟨hrest, hafter⟩ := ih hlists
    refine ⟨?_, ?_⟩
    · rw [responses, Listing.responses, hanswer, hrest, hbindings]
    · rw [Listing.after, List.foldl_cons, hbindings]
      exact hafter

theorem lists_empty : Lists {} [] where
  parsed := by simp
  ordered := List.Pairwise.nil
  below := by simp
  names := List.nodup_nil
  byName _ := rfl
  literal := ⟨List.nodup_nil, fun _ => rfl⟩
  wildcard := ⟨List.nodup_nil, fun _ => rfl⟩
  resolved _ _ hbs := nomatch hbs

/-- Whatever a registry is asked, from an empty one on, it answers as the list of its bindings, and
none is in that list twice. -/
theorem responses_listed (requests : List Request) :
    ({} : Registry).responses requests = Listing.responses [] requests ∧
      ((Listing.after [] requests).map (·.name)).Nodup := by
  obtain ⟨hanswers, es, h, hafter⟩ := responses_of_lists lists_empty requests
  refine ⟨hanswers, ?_⟩
  rw [List.map_nil] at hafter
  rw [hafter, List.map_map]
  exact h.names

end Registry

end MessageRouting
