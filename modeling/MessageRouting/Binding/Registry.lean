import MessageRouting.Binding
import MessageRouting.Error
import MessageRouting.Sorting
import MessageRouting.Table

/-!
# Binding registries

A registry keeps bindings by name and finds those that take the messages of an
address, in order of registration. Patterns without wildcards are found by
their text, the others are tried group by group. What an address resolved to is
remembered until a change of bindings touches it.
-/

namespace MessageRouting

/-- A binding in a registry: its pattern and its place in the order of registration. -/
structure Registered where
  binding : Binding
  pattern : Pattern
  order : Nat
  deriving DecidableEq, Repr

/-- How many addresses a registry remembers the bindings of. -/
def resolutionLimit : Nat := 4096

/-- The bindings of a post office. -/
structure Registry where
  nextOrder : Nat := 0
  byName : Table String Registered := {}
  /-- The bindings without wildcards, by address. -/
  literal : Table Address (List Registered) := {}
  /-- The bindings with wildcards, by pattern text. -/
  wildcard : Table Address (List Registered) := {}
  /-- The bindings of addresses that have been resolved. -/
  resolved : Table Address (List Binding) := {}
  deriving DecidableEq, Repr, Inhabited

namespace Registry

/-- The binding of that name. -/
def get? (r : Registry) (name : String) : Option Binding :=
  (r.byName.get? name).map (·.binding)

/-- All bindings in order of registration. -/
def bindings (r : Registry) : List Binding :=
  (sortBy (fun e f => decide (e.order < f.order)) r.byName.values).map (·.binding)

/-! ## Changes -/

/-- The index with the entry in the group of its pattern. -/
def index (t : Table Address (List Registered)) (e : Registered) :
    Table Address (List Registered) :=
  t.insert e.pattern.address ((t.get? e.pattern.address).getD [] ++ [e])

/-- The index without the entry, and without its group if that is empty then. -/
def unindex (t : Table Address (List Registered)) (e : Registered) :
    Table Address (List Registered) :=
  match t.get? e.pattern.address with
  | none => t
  | some group =>
    match group.filter fun f => f.binding.name ≠ e.binding.name with
    | [] => t.erase e.pattern.address
    | rest => t.insert e.pattern.address rest

/-- Forgets what addresses covered by the pattern resolved to. -/
def invalidate (r : Registry) (p : Pattern) : Registry :=
  { r with resolved := r.resolved.keep fun a => !p.covers a.text }

/-- Registers a binding. A malformed address is reported before a name that is taken. -/
def add (r : Registry) (b : Binding) : Registry × Except RoutingError Binding :=
  match Pattern.parse b.address with
  | .error fault => (r, .error (.invalidAddress b.address fault))
  | .ok p =>
    if r.byName.contains b.name then (r, .error (.duplicateBinding b.name))
    else
      let e : Registered := ⟨b, p, r.nextOrder⟩
      let r := { r with nextOrder := r.nextOrder + 1, byName := r.byName.insert b.name e }
      let r := if p.hasWildcards then { r with wildcard := index r.wildcard e }
        else { r with literal := index r.literal e }
      (r.invalidate p, .ok b)

/-- Removes the binding of that name. -/
def remove (r : Registry) (name : String) : Registry × Except RoutingError Binding :=
  match r.byName.get? name with
  | none => (r, .error (.bindingNotFound name))
  | some e =>
    let r := { r with byName := r.byName.erase name }
    let r := if e.pattern.hasWildcards then { r with wildcard := unindex r.wildcard e }
      else { r with literal := unindex r.literal e }
    (r.invalidate e.pattern, .ok e.binding)

/-! ## Lookups -/

/-- The entries of a group of one pattern, if the pattern covers the address. -/
def ofGroup (a : Address) : List Registered → List Registered
  | [] => []
  | e :: rest => if e.pattern.covers a.text then e :: rest else []

/-- The entries that take the messages of the address, found through the two indexes. -/
def found (r : Registry) (a : Address) : List Registered :=
  (r.literal.get? a).getD [] ++ r.wildcard.values.flatMap (ofGroup a)

/-- The bindings that take the messages of the address, in order of registration. -/
def resolve (r : Registry) (a : Address) : List Binding :=
  (sortBy (fun e f => decide (e.order < f.order)) (r.found a)).map (·.binding)

/-- Remembers what an address resolved to, if there is room. -/
def remember (r : Registry) (a : Address) (bs : List Binding) : Registry :=
  if r.resolved.size < resolutionLimit then { r with resolved := r.resolved.insert a bs } else r

/-- The bindings of the address, remembered from then on. Where there are none the answer is none,
or an empty one if it is to be created. -/
def bindingsFor (r : Registry) (a : Address) (create : Bool) : Registry × Option Resolution :=
  match r.resolved.get? a with
  | some bs => (r, some ⟨a, bs⟩)
  | none =>
    match r.resolve a with
    | [] => (r, if create then some ⟨a, []⟩ else none)
    | b :: bs => (r.remember a (b :: bs), some ⟨a, b :: bs⟩)

/-- The bindings of the address, if there are any. -/
def lookup (r : Registry) (a : Address) : Option Resolution :=
  match r.resolved.get? a with
  | some bs => some ⟨a, bs⟩
  | none =>
    match r.resolve a with
    | [] => none
    | b :: bs => some ⟨a, b :: bs⟩

/-- The bindings of the address, whatever is remembered. -/
def matching (r : Registry) (a : Address) : Resolution := ⟨a, r.resolve a⟩

/-- Resolves all the addresses in order: how many bindings they have together, and how many of
them have any. -/
def resolveAll (r : Registry) : List Address → Registry × Nat × Nat
  | [] => (r, 0, 0)
  | a :: rest =>
    let (r, found) := r.bindingsFor a true
    let n := (found.map (·.bindings.length)).getD 0
    let (r, total, hit) := r.resolveAll rest
    (r, n + total, (if 0 < n then 1 else 0) + hit)

end Registry

end MessageRouting
