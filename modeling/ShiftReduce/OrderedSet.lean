/-!
Lists as sets that remember the order in which their members arrived.
-/
namespace ShiftReduce.OrderedSet

variable {α : Type} [DecidableEq α]

def insert (members : List α) (x : α) : List α := if x ∈ members then members else members ++ [x]

def insertAll (members new : List α) : List α := new.foldl insert members

/-- The members of a list in order of first occurrence. -/
def distinct (xs : List α) : List α := insertAll [] xs

def sameMembers (xs ys : List α) : Bool := xs.all (ys.contains ·) && ys.all (xs.contains ·)

theorem mem_insert {members : List α} {x y : α} :
    y ∈ insert members x ↔ y ∈ members ∨ y = x := by
  by_cases h : x ∈ members <;> simp [insert, h]
  rintro rfl
  exact h

theorem mem_insertAll {members new : List α} {y : α} :
    y ∈ insertAll members new ↔ y ∈ members ∨ y ∈ new := by
  induction new generalizing members with
  | nil => simp [insertAll]
  | cons x rest ih =>
    have step : insertAll members (x :: rest) = insertAll (insert members x) rest := rfl
    rw [step, ih, mem_insert]
    simp [or_assoc]

theorem mem_distinct {xs : List α} {y : α} : y ∈ distinct xs ↔ y ∈ xs := by
  simp [distinct, mem_insertAll]

theorem nodup_insert {members : List α} {x : α} (h : members.Nodup) : (insert members x).Nodup := by
  by_cases hx : x ∈ members
  · simpa [insert, hx] using h
  · simp [insert, hx, List.nodup_append, h]
    rintro a ha rfl
    exact hx ha

theorem nodup_insertAll {members new : List α} (h : members.Nodup) :
    (insertAll members new).Nodup := by
  induction new generalizing members with
  | nil => exact h
  | cons x rest ih => exact ih (nodup_insert h)

theorem prefix_insert (members : List α) (x : α) : members <+: insert members x := by
  by_cases h : x ∈ members
  · simp [insert, h]
  · simp [insert, h]

theorem prefix_insertAll (members new : List α) : members <+: insertAll members new := by
  induction new generalizing members with
  | nil => exact List.prefix_rfl
  | cons x rest ih => exact (prefix_insert members x).trans (ih (insert members x))

theorem nodup_distinct (xs : List α) : (distinct xs).Nodup := nodup_insertAll List.nodup_nil

theorem insertAll_of_nodup {members new : List α} (nodup : (members ++ new).Nodup) :
    insertAll members new = members ++ new := by
  induction new generalizing members with
  | nil => simp [insertAll]
  | cons x rest ih =>
    have fresh : x ∉ members := fun mem =>
      (List.nodup_append.mp nodup).2.2 x mem x List.mem_cons_self rfl
    have step : insertAll members (x :: rest) = insertAll (insert members x) rest := rfl
    rw [List.append_cons] at nodup ⊢
    rw [step, insert, if_neg fresh]
    exact ih nodup

theorem distinct_of_nodup {xs : List α} (nodup : xs.Nodup) : distinct xs = xs :=
  insertAll_of_nodup nodup

theorem insertAll_eq_append (members new : List α) :
    insertAll members new = members ++ (new.filter (· ∉ members)).eraseDups := by
  induction new generalizing members with
  | nil => simp [insertAll]
  | cons x rest ih =>
    have step : insertAll members (x :: rest) = insertAll (insert members x) rest := rfl
    rw [step, ih]
    by_cases known : x ∈ members
    · simp [insert, known]
    · have kept : rest.filter (· ∉ members ++ [x]) =
          (rest.filter (· ∉ members)).filter fun y => !y == x := by
        rw [List.filter_filter]
        refine List.filter_congr fun y _ => ?_
        by_cases same : y = x <;> by_cases mem : y ∈ members <;> simp [same, mem]
      rw [insert, if_neg known, List.filter_cons_of_pos (by simpa using known),
        List.eraseDups_cons, kept, List.append_assoc, List.singleton_append]

theorem distinct_eq_eraseDups (xs : List α) : distinct xs = xs.eraseDups := by
  have whole : xs.filter (· ∉ ([] : List α)) = xs := List.filter_eq_self.mpr (by simp)
  rw [distinct, insertAll_eq_append, whole, List.nil_append]

theorem insertAll_of_subset {members new : List α} (subset : new ⊆ members) :
    insertAll members new = members := by
  have nothing : new.filter (· ∉ members) = [] := by
    rw [List.filter_eq_nil_iff]
    exact fun y mem => by simpa using subset mem
  rw [insertAll_eq_append, nothing]
  simp

omit [DecidableEq α] in
theorem eq_singleton_of_nodup {xs : List α} {x : α} (nodup : xs.Nodup) (only : ∀ y, y ∈ xs ↔ y = x) :
    xs = [x] := by
  match xs with
  | [] => exact absurd ((only x).mpr rfl) List.not_mem_nil
  | [y] => rw [(only y).mp List.mem_cons_self]
  | y :: z :: rest =>
    have first := (only y).mp List.mem_cons_self
    have second := (only z).mp (List.mem_cons_of_mem _ List.mem_cons_self)
    rw [first, second] at nodup
    exact absurd List.mem_cons_self (List.nodup_cons.mp nodup).1

theorem sameMembers_iff {xs ys : List α} : sameMembers xs ys = true ↔ ∀ x, x ∈ xs ↔ x ∈ ys := by
  simp only [sameMembers, Bool.and_eq_true, List.all_eq_true, List.contains_iff_mem]
  exact ⟨fun h x => ⟨h.1 x, h.2 x⟩, fun h => ⟨fun x => (h x).1, fun x => (h x).2⟩⟩

end ShiftReduce.OrderedSet
