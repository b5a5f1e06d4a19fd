import Mathlib.Data.Finset.Card
import Mathlib.Data.Finset.Range
import Mathlib.Data.Nat.Bitwise
import ShiftReduce.TerminalSet

/-!
Terminal sets as sets of numbers. Two sets over the same universe with the same members are equal, so
that a union which changes a set has more members.
-/
namespace ShiftReduce.TerminalSet

variable {set other : TerminalSet} {count t u : Nat}

theorem toNat_mask (t : Nat) : (mask t).toNat = 2 ^ (t % 64) := by
  have small : t % 64 < 64 := Nat.mod_lt t (by decide)
  have exponent : (UInt64.ofNat (t % 64)).toNat = t % 64 := by
    rw [UInt64.toNat_ofNat']
    omega
  have power : 2 ^ (t % 64) < 2 ^ 64 := Nat.pow_lt_pow_right (by decide) small
  rw [mask, wordBits, UInt64.toNat_shiftLeft, exponent, Nat.mod_mod, UInt64.toNat_one,
    Nat.one_shiftLeft, Nat.mod_eq_of_lt power]

theorem testBit_mask (word : UInt64) (t : Nat) :
    (word &&& mask t != 0) = word.toNat.testBit (t % 64) := by
  have power : 2 ^ (t % 64) ≠ 0 := Nat.pos_iff_ne_zero.mp (Nat.two_pow_pos _)
  have zero : word &&& mask t = 0 ↔ (word.toNat.testBit (t % 64)).toNat * 2 ^ (t % 64) = 0 := by
    rw [← UInt64.toNat_inj, UInt64.toNat_and, toNat_mask, Nat.and_two_pow, UInt64.toNat_zero]
  cases bit : word.toNat.testBit (t % 64) with
  | true => simpa [bit, power] using zero
  | false => simpa [bit] using zero

theorem contains_eq (set : TerminalSet) (t : Nat) :
    set.contains t = (set.words[t / 64]?.getD 0).toNat.testBit (t % 64) := by
  rw [contains, wordBits]
  cases set.words[t / 64]? with
  | none => simp
  | some word => exact testBit_mask word t

theorem testBit_eq_contains (set : TerminalSet) (i : Nat) {k : Nat} (small : k < 64) :
    (set.words[i]?.getD 0).toNat.testBit k = set.contains (64 * i + k) := by
  have quotient : (64 * i + k) / 64 = i := by omega
  have remainder : (64 * i + k) % 64 = k := by omega
  rw [contains_eq, quotient, remainder]

theorem mem_membersFrom {base : Nat} {words : List UInt64} :
    t ∈ membersFrom base words ↔
      base ≤ t ∧ (words[(t - base) / 64]?.getD 0).toNat.testBit ((t - base) % 64) = true := by
  induction words generalizing base with
  | nil => simp [membersFrom]
  | cons word rest ih =>
    have first : t ∈ membersOfWord base word ↔
        base ≤ t ∧ t - base < 64 ∧ word.toNat.testBit (t - base) = true := by
      simp only [membersOfWord, wordBits, List.mem_filterMap, List.mem_range, testBit_mask]
      constructor
      · rintro ⟨bit, small, picked⟩
        rw [Nat.mod_eq_of_lt small] at picked
        split at picked
        · rename_i set
          cases picked
          rw [Nat.add_sub_cancel_left]
          exact ⟨Nat.le_add_right _ _, small, set⟩
        · cases picked
      · rintro ⟨le, small, set⟩
        refine ⟨t - base, small, ?_⟩
        rw [Nat.mod_eq_of_lt small, if_pos set, Nat.add_sub_cancel' le]
    rw [membersFrom, List.mem_append, first, ih, wordBits]
    by_cases small : t - base < 64
    · have word_index : (t - base) / 64 = 0 := Nat.div_eq_of_lt small
      rw [word_index, Nat.mod_eq_of_lt small]
      simp only [List.getElem?_cons_zero, Option.getD_some]
      constructor
      · rintro (⟨le, -, set⟩ | ⟨le, -⟩)
        · exact ⟨le, set⟩
        · omega
      · exact fun ⟨le, set⟩ => .inl ⟨le, small, set⟩
    · have word_index : (t - base) / 64 = (t - (base + 64)) / 64 + 1 := by omega
      have bit_index : (t - base) % 64 = (t - (base + 64)) % 64 := by omega
      rw [word_index, bit_index, List.getElem?_cons_succ]
      constructor
      · rintro (⟨-, lt, -⟩ | ⟨le, set⟩)
        · exact absurd lt small
        · exact ⟨by omega, set⟩
      · exact fun ⟨le, set⟩ => .inr ⟨by omega, set⟩

theorem mem_toList : t ∈ set.toList ↔ set.contains t = true := by
  rw [toList, mem_membersFrom, contains_eq]
  simp

theorem contains_empty : (empty count).contains t = false := by
  rw [contains_eq, empty, List.getElem?_replicate]
  split <;> simp

theorem contains_insert (inside : t / 64 < set.words.length) :
    (set.insert t).contains u = (decide (u = t) || set.contains u) := by
  rw [contains_eq, contains_eq, insert, wordBits, List.getElem?_modify]
  by_cases word : t / 64 = u / 64
  · rw [← word, List.getElem?_eq_getElem inside]
    have bit : (2 ^ (t % 64)).testBit (u % 64) = decide (u = t) := by
      rw [Nat.testBit_two_pow, decide_eq_decide]
      omega
    simp only [Option.map_eq_map, Option.map_some, Option.getD_some, if_true, UInt64.toNat_or,
      toNat_mask, Nat.testBit_or, bit]
    rw [Bool.or_comm]
  · have apart : u ≠ t := fun same => word (by rw [same])
    simp [word, apart]

theorem getD_unionWords (xs ys : List UInt64) (i : Nat) (inside : i < xs.length) :
    (unionWords xs ys)[i]?.getD 0 = xs[i]?.getD 0 ||| ys[i]?.getD 0 := by
  induction xs generalizing ys i with
  | nil => cases inside
  | cons x xs ih =>
    cases ys with
    | nil => simp [unionWords]
    | cons y ys =>
      cases i with
      | zero => simp [unionWords]
      | succ i => simpa [unionWords] using ih ys i (by simpa using inside)

theorem contains_union (inside : t / 64 < set.words.length) :
    (set.union other).contains t = (set.contains t || other.contains t) := by
  rw [contains_eq, contains_eq, contains_eq, union, getD_unionWords _ _ _ inside, UInt64.toNat_or,
    Nat.testBit_or]

theorem length_union : (set.union other).words.length = set.words.length := by
  have same : ∀ xs ys : List UInt64, (unionWords xs ys).length = xs.length := by
    intro xs
    induction xs with
    | nil => simp [unionWords]
    | cons x xs ih =>
      intro ys
      cases ys with
      | nil => rfl
      | cons y ys => simp [unionWords, ih]
  exact same set.words other.words

theorem ext_contains (same : set.words.length = other.words.length)
    (members : ∀ t, set.contains t = other.contains t) : set = other := by
  have words : set.words = other.words := by
    apply List.ext_getElem same
    intro i inside inside'
    have word : set.words[i]?.getD 0 = other.words[i]?.getD 0 := by
      apply UInt64.toNat_inj.mp
      apply Nat.eq_of_testBit_eq
      intro k
      by_cases small : k < 64
      · rw [testBit_eq_contains set i small, testBit_eq_contains other i small, members]
      · have high : ∀ word : UInt64, word.toNat.testBit k = false := fun word =>
          Nat.testBit_lt_two_pow (Nat.lt_of_lt_of_le word.toNat_lt
            (Nat.pow_le_pow_right (by decide) (Nat.le_of_not_lt small)))
        rw [high, high]
    simpa [inside, inside'] using word
  cases set
  cases other
  congr

/-- A set over `count` terminals: it has room for each of them and no other members. -/
structure Fits (count : Nat) (set : TerminalSet) : Prop where
  length_eq : set.words.length = (count + wordBits - 1) / wordBits
  lt : ∀ {t : Nat}, set.contains t = true → t < count

namespace Fits

theorem empty (count : Nat) : Fits count (.empty count) := by
  refine ⟨by simp [TerminalSet.empty], fun mem => ?_⟩
  rw [contains_empty] at mem
  cases mem

theorem inside (fits : Fits count set) (lt : t < count) : t / 64 < set.words.length := by
  rw [fits.length_eq, wordBits]
  omega

theorem contains_singleton (lt : t < count) :
    (singleton count t).contains u = decide (u = t) := by
  rw [singleton, contains_insert ((empty count).inside lt), contains_empty, Bool.or_false]

theorem singleton (lt : t < count) : Fits count (.singleton count t) := by
  refine ⟨by simp [TerminalSet.singleton, TerminalSet.empty, insert], fun mem => ?_⟩
  rw [contains_singleton lt, decide_eq_true_eq] at mem
  rwa [mem]

variable (fits : Fits count set) (bounded : ∀ t, other.contains t = true → t < count)

include fits bounded in
/-- The union has the members of both sets, the second one being over the same terminals. -/
theorem mem_union :
    (set.union other).contains t = true ↔ set.contains t = true ∨ other.contains t = true := by
  by_cases room : t / 64 < set.words.length
  · rw [contains_union room, Bool.or_eq_true]
  · have missing : (set.union other).contains t = false := by
      rw [contains_eq, List.getElem?_eq_none (by rw [length_union]; omega)]
      simp
    have high : ¬ t < count := fun lt => room (fits.inside lt)
    simp only [missing, Bool.false_eq_true, false_iff, not_or]
    exact ⟨fun mem => high (fits.lt mem), fun mem => high (bounded t mem)⟩

include fits bounded in
theorem union : Fits count (set.union other) := by
  refine ⟨by rw [length_union, fits.length_eq], fun mem => ?_⟩
  obtain mem | mem := (fits.mem_union bounded).mp mem
  · exact fits.lt mem
  · exact bounded _ mem

end Fits

def members (count : Nat) (set : TerminalSet) : Finset Nat :=
  (Finset.range count).filter fun t => set.contains t = true

theorem card_members_le : (members count set).card ≤ count := by
  have fewer := Finset.card_filter_le (Finset.range count) fun t => set.contains t = true
  rwa [Finset.card_range] at fewer

theorem Fits.card_lt_union (fits : Fits count set)
    (bounded : ∀ t, other.contains t = true → t < count) (grown : set.union other ≠ set) :
    (members count set).card < (members count (set.union other)).card := by
  apply Finset.card_lt_card
  rw [Finset.ssubset_iff_subset_ne]
  constructor
  · intro t mem
    rw [members, Finset.mem_filter] at mem ⊢
    exact ⟨mem.1, (fits.mem_union bounded).mpr (.inl mem.2)⟩
  · intro same
    apply grown
    refine ext_contains length_union fun t => ?_
    rw [Bool.eq_iff_iff]
    constructor
    · intro mem
      have inside : t ∈ members count (set.union other) := by
        rw [members, Finset.mem_filter, Finset.mem_range]
        exact ⟨(fits.union bounded).lt mem, mem⟩
      rw [← same, members, Finset.mem_filter] at inside
      exact inside.2
    · exact fun mem => (fits.mem_union bounded).mpr (.inl mem)

end ShiftReduce.TerminalSet
