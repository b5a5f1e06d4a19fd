import Mathlib
import ShiftReduce.Lowering
import ShiftReduce.Proofs.Registry.Names

/-!
What each helper stands for. Helpers are numbered in the order they are met, so that a number belongs
to one place in a rule, and a helper's name tells the rule and the number.
-/
namespace ShiftReduce

namespace Symbol

theorem takeWhile_owner {owner : String} (chosen : Chosen owner) (tail : List Char) :
    (owner.toList ++ '~' :: tail).takeWhile (· != '~') = owner.toList := by
  have unmarked : ∀ c ∈ owner.toList, (c != '~') = true := by
    intro c mem
    rw [bne_iff_ne]
    rintro rfl
    exact chosen.no_tilde mem
  rw [List.takeWhile_append_of_pos unmarked]
  simp

theorem helper_number_injective {owner : String} {number count : Nat}
    (same : helper owner number = helper owner count) : number = count := by
  have chars : owner.toList ++ '~' :: (toString number).toList
      = owner.toList ++ '~' :: (toString count).toList := by
    rw [← toList_helper, ← toList_helper, same]
  have numbers := List.append_cancel_left chars
  rw [List.cons.injEq, String.toList_inj] at numbers
  exact Nat.repr_inj.mp numbers.2

theorem helper_injective {owner other : String} {number count : Nat} (chosen : Chosen owner)
    (chosen_other : Chosen other) (same : helper owner number = helper other count) :
    owner = other ∧ number = count := by
  have chars : owner.toList ++ '~' :: (toString number).toList
      = other.toList ++ '~' :: (toString count).toList := by
    rw [← toList_helper, ← toList_helper, same]
  have owners : owner.toList = other.toList := by
    have parts := congrArg (List.takeWhile (· != '~')) chars
    rwa [takeWhile_owner chosen, takeWhile_owner chosen_other] at parts
  obtain rfl := String.toList_inj.mp owners
  exact ⟨rfl, helper_number_injective same⟩

end Symbol

namespace Lowering

mutual

/-- The helpers made for a piece of a rule, by number, with what each stands for. -/
def helpersOf (owner : String) (count : Nat) : Rule → List (Nat × Rule)
  | .symbol _ => []
  | .seq rules => helpersOfAll owner count rules
  | .alternatives rules => (count + 1, .alternatives rules) :: helpersOfAll owner (count + 1) rules
  | .many rule => (count + 1, .many rule) :: helpersOf owner (count + 1) rule
  | .many1 rule => (count + 1, .many1 rule) :: helpersOf owner (count + 1) rule
  | .optional rule => (count + 1, .optional rule) :: helpersOf owner (count + 1) rule
  | .sepBy1 separator rule =>
    (count + 1, .sepBy1 separator rule) ::
      (helpersOf owner (count + 1) separator
        ++ helpersOf owner (lower owner (count + 1) separator).helpers rule)
  | .sepBy separator rule =>
    (count + 1, .sepBy separator rule) :: (count + 2, .sepBy1 separator rule) ::
      (helpersOf owner (count + 2) separator
        ++ helpersOf owner (lower owner (count + 2) separator).helpers rule)

def helpersOfAll (owner : String) (count : Nat) : List Rule → List (Nat × Rule)
  | [] => []
  | rule :: rules =>
    helpersOf owner count rule ++ helpersOfAll owner (lower owner count rule).helpers rules

end

structure Numbered (count : Nat) (helpers : List (Nat × Rule)) (last : Nat) : Prop where
  le : count ≤ last
  numbers : helpers.map (·.1) = List.range' (count + 1) (last - count)

namespace Numbered

variable {count middle last : Nat} {first second : List (Nat × Rule)}

theorem nil (count : Nat) : Numbered count [] count := ⟨Nat.le_refl count, by simp⟩

theorem append (before : Numbered count first middle) (after : Numbered middle second last) :
    Numbered count (first ++ second) last := by
  have le := before.le
  have le' := after.le
  refine ⟨by omega, ?_⟩
  have next : middle + 1 = count + 1 + 1 * (middle - count) := by omega
  have total : last - count = middle - count + (last - middle) := by omega
  rw [List.map_append, before.numbers, after.numbers, next, List.range'_append, total]

theorem cons (rule : Rule) (after : Numbered (count + 1) first last) :
    Numbered count ((count + 1, rule) :: first) last := by
  have le := after.le
  refine ⟨by omega, ?_⟩
  have total : last - count = last - (count + 1) + 1 := by omega
  rw [List.map_cons, after.numbers, total, List.range'_succ]

theorem last_eq (numbered : Numbered count first last) : last = count + first.length := by
  have sizes := congrArg List.length numbered.numbers
  have le := numbered.le
  rw [List.length_map, List.length_range'] at sizes
  omega

theorem rule_eq {number : Nat} {rule other : Rule} (numbered : Numbered count first last)
    (mem : (number, rule) ∈ first) (mem_other : (number, other) ∈ first) : rule = other := by
  have nodup : (first.map (·.1)).Nodup := numbered.numbers ▸ List.nodup_range'
  have same := List.inj_on_of_nodup_map nodup mem mem_other rfl
  exact (Prod.mk.inj same).2

end Numbered

theorem helpers_lowerChoices (owner : String) (lhs : Symbol) (rules : List Rule) (count : Nat) :
    (lowerChoices owner lhs count rules).helpers = (lowerParts owner count rules).helpers := by
  induction rules generalizing count with
  | nil => rw [lowerChoices, lowerParts]
  | cons rule rules ih => rw [lowerChoices, lowerParts, ih]

mutual

theorem numbered_helpersOf (owner : String) : ∀ (rule : Rule) (count : Nat),
    Numbered count (helpersOf owner count rule) (lower owner count rule).helpers
  | .symbol name, count => by
    rw [helpersOf, lower]
    exact .nil count
  | .seq rules, count => by
    rw [helpersOf, lower]
    exact numbered_helpersOfAll owner rules count
  | .alternatives rules, count => by
    rw [helpersOf, lower, helpers_lowerChoices]
    exact .cons _ (numbered_helpersOfAll owner rules (count + 1))
  | .many rule, count => by
    rw [helpersOf, lower]
    exact .cons _ (numbered_helpersOf owner rule (count + 1))
  | .many1 rule, count => by
    rw [helpersOf, lower]
    exact .cons _ (numbered_helpersOf owner rule (count + 1))
  | .optional rule, count => by
    rw [helpersOf, lower]
    exact .cons _ (numbered_helpersOf owner rule (count + 1))
  | .sepBy1 separator rule, count => by
    rw [helpersOf, lower]
    exact .cons _ ((numbered_helpersOf owner separator (count + 1)).append
      (numbered_helpersOf owner rule _))
  | .sepBy separator rule, count => by
    rw [helpersOf, lower]
    exact .cons _ (.cons _ ((numbered_helpersOf owner separator (count + 2)).append
      (numbered_helpersOf owner rule _)))

theorem numbered_helpersOfAll (owner : String) : ∀ (rules : List Rule) (count : Nat),
    Numbered count (helpersOfAll owner count rules) (lowerParts owner count rules).helpers
  | [], count => by
    rw [helpersOfAll, lowerParts]
    exact .nil count
  | rule :: rules, count => by
    rw [helpersOfAll, lowerParts]
    exact (numbered_helpersOf owner rule count).append (numbered_helpersOfAll owner rules _)

end

end Lowering

end ShiftReduce
