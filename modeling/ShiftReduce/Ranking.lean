/-!
Stable sorting by a comparison: members that compare alike keep their order.
-/
namespace ShiftReduce.Ranking

variable {α : Type}

def insert (le : α → α → Bool) (x : α) : List α → List α
  | [] => [x]
  | y :: rest => if le x y then x :: y :: rest else y :: insert le x rest

def sort (le : α → α → Bool) (xs : List α) : List α := xs.foldr (insert le) []

theorem insert_perm (le : α → α → Bool) (x : α) (xs : List α) :
    (insert le x xs).Perm (x :: xs) := by
  induction xs with
  | nil => exact .refl _
  | cons y rest ih =>
    by_cases h : le x y
    · simp [insert, h]
    · have moved : (y :: insert le x rest).Perm (y :: x :: rest) := ih.cons y
      simpa [insert, h] using moved.trans (.swap x y rest)

theorem sort_perm (le : α → α → Bool) (xs : List α) : (sort le xs).Perm xs := by
  induction xs with
  | nil => exact .refl _
  | cons x rest ih => exact (insert_perm le x _).trans (ih.cons x)

theorem sort_append (le : α → α → Bool) (xs ys : List α) :
    sort le (xs ++ ys) = xs.foldr (insert le) (sort le ys) := List.foldr_append

section

variable {β : Type} {le : α → α → Bool} {compare : β → β → Bool} {f : α → β}
  (keeps : ∀ x y, compare (f x) (f y) = le x y)

include keeps

theorem insert_map (x : α) (xs : List α) :
    insert compare (f x) (xs.map f) = (insert le x xs).map f := by
  induction xs with
  | nil => rfl
  | cons y rest ih =>
    rw [List.map_cons, insert, keeps, ih, insert]
    split <;> rfl

theorem sort_map (xs : List α) : sort compare (xs.map f) = (sort le xs).map f := by
  induction xs with
  | nil => rfl
  | cons x rest ih =>
    have inserted := insert_map keeps x (sort le rest)
    rwa [← ih] at inserted

end

theorem insert_of_forall_le {le : α → α → Bool} {x : α} {xs : List α}
    (first : ∀ y ∈ xs, le x y = true) : insert le x xs = x :: xs := by
  cases xs with
  | nil => rfl
  | cons y rest => simp [insert, first y]

section

variable {le : α → α → Bool} (total : ∀ x y, le x y = true ∨ le y x = true)
  (trans : ∀ x y z, le x y = true → le y z = true → le x z = true)

include trans

theorem forall_le_of_head {x y : α} {rest : List α} (before : le x y = true)
    (sorted : (y :: rest).Pairwise (le · · = true)) : ∀ z ∈ y :: rest, le x z = true := by
  intro z mem
  obtain rfl | mem := List.mem_cons.mp mem
  · exact before
  · exact trans x y z before ((List.pairwise_cons.mp sorted).1 z mem)

include total

theorem pairwise_insert (x : α) {xs : List α} (sorted : xs.Pairwise (le · · = true)) :
    (insert le x xs).Pairwise (le · · = true) := by
  induction xs with
  | nil => simp [insert]
  | cons y rest ih =>
    by_cases before : le x y = true
    · have first := forall_le_of_head trans before sorted
      rw [insert_of_forall_le first]
      exact List.pairwise_cons.mpr ⟨first, sorted⟩
    · obtain ⟨under, rest_sorted⟩ := List.pairwise_cons.mp sorted
      rw [insert, if_neg before]
      refine List.pairwise_cons.mpr ⟨fun z mem => ?_, ih rest_sorted⟩
      obtain rfl | mem := List.mem_cons.mp ((insert_perm le x rest).mem_iff.mp mem)
      · exact (total z y).resolve_left before
      · exact under z mem

theorem pairwise_sort (xs : List α) : (sort le xs).Pairwise (le · · = true) := by
  induction xs with
  | nil => exact .nil
  | cons x rest ih => exact pairwise_insert total trans x ih

omit total in
theorem filter_insert (keep : α → Bool) (x : α) {xs : List α}
    (sorted : xs.Pairwise (le · · = true)) :
    (insert le x xs).filter keep =
      if keep x then insert le x (xs.filter keep) else xs.filter keep := by
  induction xs with
  | nil => by_cases kept : keep x <;> simp [insert, kept]
  | cons y rest ih =>
    by_cases before : le x y = true
    · have first := forall_le_of_head trans before sorted
      have still : ∀ z ∈ (y :: rest).filter keep, le x z = true :=
        fun z mem => first z (List.mem_filter.mp mem).1
      rw [insert_of_forall_le first, insert_of_forall_le still, List.filter_cons]
    · have inner := ih (List.pairwise_cons.mp sorted).2
      rw [insert, if_neg before, List.filter_cons, inner]
      by_cases kept : keep x <;> by_cases other : keep y <;> simp [kept, other, insert, before]

theorem sort_eq_of_perm {xs ys : List α} (perm : xs.Perm ys)
    (antisymm : ∀ x ∈ xs, ∀ y ∈ xs, le x y = true → le y x = true → x = y) :
    sort le xs = sort le ys := by
  have sorted := (sort_perm le xs).trans (perm.trans (sort_perm le ys).symm)
  refine sorted.eq_of_pairwise ?_ (pairwise_sort total trans xs) (pairwise_sort total trans ys)
  intro x y mem other_mem
  have other := (sorted.symm.trans (sort_perm le xs)).mem_iff.mp other_mem
  exact antisymm x ((sort_perm le xs).mem_iff.mp mem) y other

theorem sort_filter (keep : α → Bool) (xs : List α) :
    sort le (xs.filter keep) = (sort le xs).filter keep := by
  induction xs with
  | nil => rfl
  | cons x rest ih =>
    have inserted := filter_insert trans keep x (pairwise_sort total trans rest)
    rw [← ih] at inserted
    have whole : sort le (x :: rest) = insert le x (sort le rest) := rfl
    rw [whole, inserted, List.filter_cons]
    by_cases kept : keep x
    · rw [if_pos kept, if_pos kept]
      rfl
    · rw [if_neg kept, if_neg kept]

end

end ShiftReduce.Ranking
