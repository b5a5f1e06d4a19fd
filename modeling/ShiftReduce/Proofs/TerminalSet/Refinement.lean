import Mathlib.Data.Finset.Sort
import Mathlib.Data.List.Sort
import ShiftReduce.Proofs.Checked.Registry

/-!
A terminal set is a finite set of numbers. Each set that insertion, clearing and union make is told next
to the numbers it stands for, and its words answer as the numbers do: what is a member, whether a union has
more of them, and which come next. The members are found by a cursor that looks for the lowest set bit ahead
of it, word by word.
-/
namespace ShiftReduce.TerminalSet

/-- A place in a row of words: a word, and the first of its bits still ahead. -/
structure Cursor where
  index : Nat
  bit : Nat

namespace Cursor

def start : Cursor := ⟨0, 0⟩

def position (cursor : Cursor) : Nat := wordBits * cursor.index + cursor.bit

def pending (word : UInt64) (bit : Nat) : UInt64 := word &&& ~~~((1 <<< UInt64.ofNat bit) - 1)

/-- The lowest of the pending bits; the width of the word if none is set. -/
def lowest (word : UInt64) (bit : Nat) : Nat := (pending word bit).toBitVec.ctz.toNat

/-- The next member, as a 32-bit word, and the place behind it. -/
def next (words : List UInt64) (cursor : Cursor) : Option UInt32 × Cursor :=
  if inside : cursor.index < words.length then
    let found := lowest words[cursor.index] cursor.bit
    if cursor.bit < wordBits ∧ found < wordBits then
      (some (.ofNat (cursor.index * wordBits + found)), ⟨cursor.index, found + 1⟩)
    else next words ⟨cursor.index + 1, 0⟩
  else (none, cursor)
termination_by words.length - cursor.index

/-- What `next` gives when it is called after `calls` other calls. -/
def answer (words : List UInt64) (cursor : Cursor) : Nat → Option UInt32
  | 0 => (cursor.next words).1
  | calls + 1 => (cursor.next words).2.answer words calls

variable {word : UInt64} {bit k : Nat}

theorem getLsbD_pending (small : bit < 64) (inside : k < 64) :
    (pending word bit).toBitVec.getLsbD k = (decide (bit ≤ k) && word.toNat.testBit k) := by
  have power : 2 ^ bit < 2 ^ 64 := Nat.pow_lt_pow_right (by decide) small
  have positive : 0 < 2 ^ bit := Nat.two_pow_pos bit
  have below : ((1 <<< UInt64.ofNat bit) - 1 : UInt64).toNat = 2 ^ bit - 1 := by
    have shifted := toNat_mask bit
    rw [mask, wordBits, Nat.mod_eq_of_lt small] at shifted
    rw [UInt64.toNat_sub_of_le _ _ (by rw [UInt64.le_iff_toNat_le, shifted]; exact positive), shifted]
    rfl
  have low : ((1 <<< UInt64.ofNat bit) - 1 : UInt64).toBitVec.getLsbD k = decide (k < bit) := by
    rw [BitVec.getLsbD, UInt64.toNat_toBitVec, below, Nat.testBit_two_pow_sub_one]
  rw [pending, UInt64.toBitVec_and, UInt64.toBitVec_not, BitVec.getLsbD_and, BitVec.getLsbD_not, low,
    Bool.and_comm]
  by_cases before : k < bit
  · simp [before]
  · simp [before, inside, Nat.le_of_not_lt before, BitVec.getLsbD]

theorem testBit_of_lt_lowest (small : bit < 64) (inside : k < 64) (from_bit : bit ≤ k)
    (before : k < lowest word bit) : word.toNat.testBit k = false := by
  have clear := BitVec.getLsbD_false_of_lt_ctz before
  rwa [getLsbD_pending small inside, decide_eq_true from_bit, Bool.true_and] at clear

theorem testBit_lowest (small : bit < 64) (inside : lowest word bit < 64) :
    bit ≤ lowest word bit ∧ word.toNat.testBit (lowest word bit) = true := by
  have some_set : (pending word bit).toBitVec ≠ 0#64 :=
    BitVec.ctz_lt_iff_ne_zero.mp (BitVec.lt_def.mpr inside)
  have set : (pending word bit).toBitVec.getLsbD (lowest word bit) = true :=
    BitVec.getLsbD_true_ctz_of_ne_zero some_set
  rw [getLsbD_pending small inside, Bool.and_eq_true, decide_eq_true_eq] at set
  exact set

end Cursor

variable {set other : TerminalSet} {numbers more : Finset Nat} {count t p q : Nat}

theorem pairwise_membersOfWord (base : Nat) (word : UInt64) :
    (membersOfWord base word).Pairwise (· < ·) := by
  refine List.pairwise_filterMap.mpr (List.pairwise_lt_range.imp ?_)
  intro bit later before t picked u other_picked
  simp only [ite_eq_iff, Option.some.injEq, reduceCtorEq, and_false, or_false] at picked other_picked
  omega

theorem pairwise_membersFrom (base : Nat) (words : List UInt64) :
    (membersFrom base words).Pairwise (· < ·) := by
  induction words generalizing base with
  | nil => exact .nil
  | cons word rest ih =>
    refine List.pairwise_append.mpr ⟨pairwise_membersOfWord base word, ih _, fun t mem u later => ?_⟩
    have above := (mem_membersFrom.mp later).1
    simp only [membersOfWord, List.mem_filterMap, List.mem_range, ite_eq_iff, Option.some.injEq, reduceCtorEq,
      and_false, or_false] at mem
    obtain ⟨bit, small, -, rfl⟩ := mem
    omega

theorem pairwise_toList : set.toList.Pairwise (· < ·) := pairwise_membersFrom 0 set.words

def ahead (set : TerminalSet) (p : Nat) : List Nat := set.toList.filter (p ≤ ·)

theorem ahead_zero : set.ahead 0 = set.toList := List.filter_eq_self.mpr (by simp)

theorem ahead_eq_of_gap (le : p ≤ q) (gap : ∀ u, p ≤ u → u < q → set.contains u = false) :
    set.ahead p = set.ahead q := by
  refine List.filter_congr fun u mem => decide_eq_decide.mpr ⟨fun from_p => ?_, le.trans⟩
  by_contra before
  have missing := gap u from_p (Nat.lt_of_not_le before)
  rw [mem_toList.mp mem] at missing
  cases missing

theorem ahead_eq_cons (mem : set.contains t = true) (le : p ≤ t)
    (gap : ∀ u, p ≤ u → u < t → set.contains u = false) : set.ahead p = t :: set.ahead (t + 1) := by
  rw [ahead_eq_of_gap le gap]
  have sorted : (t :: set.ahead (t + 1)).Pairwise (· < ·) := by
    refine List.pairwise_cons.mpr ⟨fun u later => ?_, pairwise_toList.filter _⟩
    exact of_decide_eq_true (List.mem_filter.mp later).2
  refine (pairwise_toList.filter _).eq_of_mem_iff sorted fun u => ?_
  simp only [ahead, List.mem_cons, List.mem_filter, decide_eq_true_eq]
  constructor
  · rintro ⟨inside, from_t⟩
    exact (Nat.eq_or_lt_of_le from_t).imp Eq.symm fun after => ⟨inside, after⟩
  · rintro (rfl | ⟨inside, after⟩)
    · exact ⟨mem_toList.mpr mem, Nat.le_refl u⟩
    · exact ⟨inside, Nat.le_of_lt after⟩

theorem ahead_of_length_le (outside : wordBits * set.words.length ≤ p) : set.ahead p = [] := by
  refine List.filter_eq_nil_iff.mpr fun u mem => ?_
  rw [mem_toList, contains_eq] at mem
  have inside : u / 64 < set.words.length := by
    by_contra missing
    simp [List.getElem?_eq_none (Nat.le_of_not_lt missing)] at mem
  rw [wordBits] at outside
  simp only [decide_eq_true_eq]
  omega

namespace Cursor

theorem next_cases (set : TerminalSet) (cursor : Cursor) (within : cursor.bit ≤ 64) :
    (∃ t after, cursor.next set.words = (some (.ofNat t), after) ∧ after.bit ≤ 64 ∧
      set.ahead cursor.position = t :: set.ahead after.position) ∨
    ∃ last, cursor.next set.words = (none, last) ∧ last.bit ≤ 64 ∧
      set.ahead cursor.position = [] ∧ set.ahead last.position = [] := by
  fun_induction next set.words cursor with
  | case1 cursor inside found present =>
    obtain ⟨small, in_word⟩ : cursor.bit < 64 ∧ found < 64 := present
    obtain ⟨from_bit, is_set⟩ := testBit_lowest small in_word
    have word : set.words[cursor.index]?.getD 0 = set.words[cursor.index] := by simp [inside]
    refine .inl ⟨_, _, rfl, in_word, ?_⟩
    have mem : set.contains (64 * cursor.index + found) = true := by
      rw [← testBit_eq_contains set cursor.index in_word, word]
      exact is_set
    -- no bit from the cursor up to this one is set, so it is the first one ahead
    rw [Nat.mul_comm cursor.index]
    refine ahead_eq_cons mem (Nat.add_le_add_left from_bit _) fun u from_p before => ?_
    simp only [position, wordBits] at from_p before
    have offset : u = 64 * cursor.index + (u - 64 * cursor.index) := by omega
    rw [offset, ← testBit_eq_contains set cursor.index (by omega), word]
    have passed : u - 64 * cursor.index < found := by omega
    exact testBit_of_lt_lowest small (passed.trans in_word) (by omega) passed
  | case2 cursor inside found absent ih =>
    have word : set.words[cursor.index]?.getD 0 = set.words[cursor.index] := by simp [inside]
    have beyond : cursor.bit < 64 → 64 ≤ found := fun small =>
      Nat.le_of_not_lt fun in_word => absent ⟨small, in_word⟩
    -- this word has no more members, and the next call begins with the word after it
    have skip : set.ahead cursor.position = set.ahead (Cursor.position ⟨cursor.index + 1, 0⟩) := by
      simp only [position, wordBits]
      refine ahead_eq_of_gap (by omega) fun u from_p before => ?_
      have offset : u = 64 * cursor.index + (u - 64 * cursor.index) := by omega
      rw [offset, ← testBit_eq_contains set cursor.index (by omega), word]
      have small : cursor.bit < 64 := by omega
      exact testBit_of_lt_lowest small (by omega) (by omega)
        (Nat.lt_of_lt_of_le (by omega) (beyond small))
    rw [skip]
    exact ih (Nat.zero_le _)
  | case3 cursor outside =>
    have nothing : set.ahead cursor.position = [] := by
      refine ahead_of_length_le ?_
      simp only [position, wordBits]
      omega
    exact .inr ⟨cursor, rfl, within, nothing, nothing⟩

/-- Calls give the members ahead one after the other, and nothing once these are passed. -/
theorem answer_eq (set : TerminalSet) (cursor : Cursor) (within : cursor.bit ≤ 64) (calls : Nat) :
    cursor.answer set.words calls = (set.ahead cursor.position)[calls]?.map .ofNat := by
  induction calls generalizing cursor with
  | zero =>
    obtain ⟨t, after, step, -, first⟩ | ⟨last, step, -, nothing, -⟩ := next_cases set cursor within
    · simp [answer, step, first]
    · simp [answer, step, nothing]
  | succ calls ih =>
    obtain ⟨t, after, step, kept, first⟩ | ⟨last, step, kept, nothing, still⟩ :=
      next_cases set cursor within
    · simp [answer, step, first, ih after kept]
    · simp [answer, step, nothing, ih last kept, still]

end Cursor

theorem contains_clear : set.clear.contains t = false := by
  rw [contains_eq, clear, List.getElem?_map]
  cases set.words[t / 64]? <;> simp

/-- `Represents count set numbers`: operations that lead from the empty set over `count` terminals to `set`
lead from no numbers to `numbers`. -/
inductive Represents (count : Nat) : TerminalSet → Finset Nat → Prop where
  | empty : Represents count (.empty count) ∅
  | insert {set : TerminalSet} {numbers : Finset Nat} {t : Nat} :
      Represents count set numbers → t < count → Represents count (set.insert t) (Insert.insert t numbers)
  | clear {set : TerminalSet} {numbers : Finset Nat} :
      Represents count set numbers → Represents count set.clear ∅
  | union {set other : TerminalSet} {numbers more : Finset Nat} :
      Represents count set numbers → Represents count other more →
      Represents count (set.unionWith other).1 (numbers ∪ more)

namespace Represents

theorem fits_and_mem (represents : Represents count set numbers) :
    Fits count set ∧ ∀ t, set.contains t = true ↔ t ∈ numbers := by
  induction represents with
  | empty => exact ⟨.empty count, fun t => by simp [contains_empty]⟩
  | @insert set numbers t _ lt ih =>
    obtain ⟨fits, mem⟩ := ih
    have members : ∀ u, (set.insert t).contains u = true ↔ u ∈ Insert.insert t numbers := by
      intro u
      rw [contains_insert (fits.inside lt), Bool.or_eq_true, decide_eq_true_eq, mem, Finset.mem_insert]
    refine ⟨⟨by simpa [TerminalSet.insert] using fits.length_eq, fun {u} inside => ?_⟩, members⟩
    obtain rfl | inside := Finset.mem_insert.mp ((members u).mp inside)
    · exact lt
    · exact fits.lt ((mem u).mpr inside)
  | @clear set numbers _ ih =>
    refine ⟨⟨by simpa [TerminalSet.clear] using ih.1.length_eq, fun inside => ?_⟩, fun t => ?_⟩
    · rw [contains_clear] at inside
      cases inside
    · simp [contains_clear]
  | union _ _ ih other_ih =>
    obtain ⟨fits, mem⟩ := ih
    obtain ⟨other_fits, other_mem⟩ := other_ih
    have bounded := fun t => other_fits.lt (t := t)
    refine ⟨fits.union bounded, fun t => ?_⟩
    rw [unionWith, fits.mem_union bounded, mem, other_mem, Finset.mem_union]

section

variable (represents : Represents count set numbers)

include represents

theorem mem_iff (t : Nat) : set.contains t = true ↔ t ∈ numbers := represents.fits_and_mem.2 t

theorem lt (mem : t ∈ numbers) : t < count := represents.fits_and_mem.1.lt ((represents.mem_iff t).mpr mem)

theorem toList_eq : set.toList = numbers.sort (· ≤ ·) := by
  refine pairwise_toList.eq_of_mem_iff (Finset.sortedLT_sort numbers).pairwise fun t => ?_
  rw [mem_toList, represents.mem_iff, Finset.mem_sort]

theorem unique (same : Represents count other numbers) : set = other := by
  obtain ⟨fits, mem⟩ := represents.fits_and_mem
  obtain ⟨other_fits, other_mem⟩ := same.fits_and_mem
  refine ext_contains (fits.length_eq.trans other_fits.length_eq.symm) fun t => ?_
  rw [Bool.eq_iff_iff, mem, other_mem]

theorem unionWith_grows (also : Represents count other more) :
    (set.unionWith other).2 = true ↔ numbers ⊂ numbers ∪ more := by
  have joined := represents.union also
  rw [unionWith, bne_iff_ne, Finset.ssubset_iff_subset_ne, ne_eq, ne_eq,
    and_iff_right Finset.subset_union_left, not_iff_not]
  constructor
  · intro still
    ext t
    rw [← represents.mem_iff, ← joined.mem_iff, unionWith, still]
  · intro none_new
    rw [← none_new] at joined
    exact joined.unique represents

end

end Represents

/-- Sets over up to 2³² terminals answer as the numbers they stand for. No insertion of a terminal is out of
range. Calls for the next member give the numbers in increasing order, each of them once and whole, and from
then on nothing. -/
theorem refines_numbers (few : count ≤ UInt32.size) (represents : Represents count set numbers) :
    (∀ t < count, Checked.insert set t = some (set.insert t)) ∧
    (∀ t, set.contains t = true ↔ t ∈ numbers) ∧
    set.toList = numbers.sort (· ≤ ·) ∧
    (∀ calls, (Cursor.start.answer set.words calls).map UInt32.toNat = (numbers.sort (· ≤ ·))[calls]?) ∧
    ∀ other more, Represents count other more →
      ((set.unionWith other).2 = true ↔ numbers ⊂ numbers ∪ more) := by
  refine ⟨fun t lt => if_pos (represents.fits_and_mem.1.inside lt), represents.mem_iff,
    represents.toList_eq, fun calls => ?_, fun other more => represents.unionWith_grows⟩
  have whole : Cursor.start.position = 0 := rfl
  rw [Cursor.answer_eq set .start (Nat.zero_le _), whole, ahead_zero, represents.toList_eq]
  cases found : (numbers.sort (· ≤ ·))[calls]? with
  | none => rfl
  | some t =>
    have lt := represents.lt ((Finset.mem_sort (· ≤ ·)).mp (List.mem_of_getElem? found))
    exact congrArg some (UInt32.toNat_ofNat_of_lt' (lt.trans_le few))

/-- Members on both sides of the border between two words, inserted out of order. -/
def bordering : TerminalSet := ((((empty 130).insert 64).insert 63).unionWith (singleton 130 129)).1

theorem refines_numbers_bordering :
    130 ≤ UInt32.size ∧ Represents 130 bordering ({63, 64} ∪ {129}) ∧
    (∀ t, bordering.contains t = true ↔ t = 63 ∨ t = 64 ∨ t = 129) ∧
    ((List.range 5).map fun calls => (Cursor.start.answer bordering.words calls).map UInt32.toNat) =
      [some 63, some 64, some 129, none, none] ∧
    (bordering.unionWith (singleton 130 64)).2 = false ∧
    (bordering.unionWith (singleton 130 128)).2 = true := by
  have one : ∀ t < 130, Represents 130 (singleton 130 t) {t} := fun t lt => .insert .empty lt
  have made : Represents 130 bordering ({63, 64} ∪ {129}) :=
    .union (.insert (one 64 (by decide)) (by decide)) (one 129 (by decide))
  obtain ⟨-, mem, listed, calls, grows⟩ := refines_numbers (by decide) made
  have computed : bordering.toList = [63, 64, 129] := by decide +kernel
  refine ⟨by decide, made, fun t => by simpa using mem t, ?_, ?_, ?_⟩
  · simp only [calls, ← listed, computed]
    rfl
  · rw [← Bool.not_eq_true, grows _ _ (one 64 (by decide))]
    decide
  · rw [grows _ _ (one 128 (by decide))]
    decide

end ShiftReduce.TerminalSet
