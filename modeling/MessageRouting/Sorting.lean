/-!
# Sorting

Insertion sort by a strict order. Elements that are level in the order stay as
they stood.

Results:

* `sortBy_perm`: sorting only rearranges.
* `sortBy_of_pairwise`: what is in order stays as it stands.
* `pairwise_sortBy`: what has been sorted is in order.
-/

namespace MessageRouting

/-- The list with `x` before the first element that has to come after it. -/
def insertBy {α : Type} (before : α → α → Bool) (x : α) : List α → List α
  | [] => [x]
  | y :: ys => if before x y then x :: y :: ys else y :: insertBy before x ys

/-- The list sorted, elements that are level staying in order. -/
def sortBy {α : Type} (before : α → α → Bool) (xs : List α) : List α :=
  xs.foldl (fun sorted x => insertBy before x sorted) []

theorem insertBy_perm {α : Type} (before : α → α → Bool) (x : α) (l : List α) :
    (insertBy before x l).Perm (x :: l) := by
  induction l with
  | nil => exact List.Perm.refl _
  | cons y ys ih =>
    simp only [insertBy]
    split
    · exact List.Perm.refl _
    · exact (ih.cons y).trans (List.Perm.swap x y ys)

/-- Sorting only rearranges. -/
theorem sortBy_perm {α : Type} (before : α → α → Bool) (xs : List α) :
    (sortBy before xs).Perm xs := by
  have key : ∀ (xs sorted : List α),
      (xs.foldl (fun sorted x => insertBy before x sorted) sorted).Perm (sorted ++ xs) := by
    intro xs
    induction xs with
    | nil => intro sorted; simp
    | cons x xs ih =>
      intro sorted
      refine (ih _).trans (((insertBy_perm before x sorted).append_right xs).trans ?_)
      exact List.perm_middle.symm
  simpa [sortBy] using key xs []

theorem insertBy_of_forall {α : Type} {before : α → α → Bool} {x : α} {l : List α}
    (h : ∀ y ∈ l, before x y = false) : insertBy before x l = l ++ [x] := by
  induction l with
  | nil => rfl
  | cons y ys ih =>
    rw [insertBy, if_neg (by simp [h y (by simp)]), ih fun z hz => h z (by simp [hz])]
    rfl

/-- A list in order is sorted already. -/
theorem sortBy_of_pairwise {α : Type} {before : α → α → Bool} {xs : List α}
    (h : xs.Pairwise fun x y => before y x = false) : sortBy before xs = xs := by
  have key : ∀ (xs sorted : List α), (sorted ++ xs).Pairwise (fun x y => before y x = false) →
      xs.foldl (fun sorted x => insertBy before x sorted) sorted = sorted ++ xs := by
    intro xs
    induction xs with
    | nil => intro sorted _; simp
    | cons x xs ih =>
      intro sorted hsorted
      have hx : ∀ y ∈ sorted, before x y = false := fun y hy =>
        (List.pairwise_append.1 hsorted).2.2 y hy x (by simp)
      rw [List.foldl_cons, insertBy_of_forall hx, ih _ (by simpa using hsorted),
        List.append_assoc]
      rfl
  simpa [sortBy] using key xs [] (by simpa using h)

section

variable {α : Type} {before : α → α → Bool}
  (hasymm : ∀ x y, before x y = true → before y x = false)
  (htrans : ∀ x y z, before x y = true → before y z = true → before x z = true)

include hasymm htrans

theorem pairwise_insertBy {x : α} {l : List α} (h : l.Pairwise fun y z => before z y = false) :
    (insertBy before x l).Pairwise fun y z => before z y = false := by
  induction l with
  | nil => exact List.pairwise_singleton ..
  | cons y ys ih =>
    obtain ⟨hy, hys⟩ := List.pairwise_cons.1 h
    rw [insertBy]
    split
    · rename_i hxy
      refine List.pairwise_cons.2 ⟨fun z hz => ?_, h⟩
      rcases List.mem_cons.1 hz with rfl | hz
      · exact hasymm _ _ hxy
      · cases hzx : before z x with
        | false => rfl
        | true => exact (htrans _ _ _ hzx hxy).symm.trans (hy z hz)
    · rename_i hxy
      refine List.pairwise_cons.2 ⟨fun z hz => ?_, ih hys⟩
      rcases List.mem_cons.1 ((insertBy_perm before x ys).mem_iff.1 hz) with rfl | hz
      · simpa using hxy
      · exact hy z hz

/-- What has been sorted is in order. -/
theorem pairwise_sortBy (xs : List α) :
    (sortBy before xs).Pairwise fun y z => before z y = false := by
  have key : ∀ (xs sorted : List α), (sorted.Pairwise fun y z => before z y = false) →
      (xs.foldl (fun sorted x => insertBy before x sorted) sorted).Pairwise
        fun y z => before z y = false := by
    intro xs
    induction xs with
    | nil => exact fun _ hsorted => hsorted
    | cons x xs ih => exact fun _ hsorted => ih _ (pairwise_insertBy hasymm htrans hsorted)
  exact key xs [] List.Pairwise.nil

end

end MessageRouting
