import Mathlib.Algebra.Order.BigOperators.Group.List
import Mathlib.Algebra.Order.Ring.Nat
import ShiftReduce.Analysis.SymbolSets
import ShiftReduce.Proofs.TerminalSet

/-!
Growth of symbol sets: only the set of one symbol changes, to a union, and a growth that is reported
adds a member to it.
-/
namespace ShiftReduce.SymbolSets

open TerminalSet

variable {count : Nat} {sets start : SymbolSets} {symbol other : Symbol} {new : TerminalSet}

def keys (sets : SymbolSets) : List Symbol := sets.map (·.1)

theorem get_cons (set : TerminalSet) (rest : SymbolSets) :
    get ((other, set) :: rest) symbol = if other = symbol then set else get rest symbol := by
  by_cases same : other = symbol
  · simp [get, get?, same]
  · have apart : (symbol == other) = false := beq_false_of_ne (Ne.symm same)
    simp [get, get?, List.lookup_cons, apart, same]

theorem mem_of_mem_keys (mem : symbol ∈ keys sets) : (symbol, get sets symbol) ∈ sets := by
  induction sets with
  | nil => simp [keys] at mem
  | cons entry rest ih =>
    obtain ⟨key, set⟩ := entry
    by_cases same : key = symbol
    · simp [get_cons, same]
    · have later : symbol ∈ keys rest := by simpa [keys, Ne.symm same] using mem
      rw [get_cons, if_neg same]
      exact List.mem_cons_of_mem _ (ih later)

theorem mem_keys_of_contains {t : Nat} (mem : (get sets symbol).contains t = true) :
    symbol ∈ keys sets := by
  induction sets with
  | nil => simp [get, get?, contains_empty] at mem
  | cons entry rest ih =>
    obtain ⟨key, set⟩ := entry
    rw [get_cons] at mem
    split at mem
    · rename_i same
      simp [keys, same]
    · exact List.mem_cons_of_mem _ (ih mem)

theorem get?_eq (known : symbol ∈ keys sets) : sets.get? symbol = some (get sets symbol) := by
  cases entry : sets.get? symbol with
  | some set => simp [get, entry]
  | none =>
    obtain ⟨pair, mem, rfl⟩ := List.mem_map.mp known
    have missing := List.lookup_eq_none_iff.mp entry pair mem
    simp at missing

theorem keys_grow (sets : SymbolSets) : keys (grow symbol new sets).1 = keys sets := by
  induction sets with
  | nil => rfl
  | cons entry rest ih =>
    by_cases same : entry.1 = symbol
    · simp [grow, same, keys]
    · simpa [grow, same, keys] using ih

theorem get_grow_of_ne (apart : other ≠ symbol) :
    get (grow symbol new sets).1 other = get sets other := by
  induction sets with
  | nil => rfl
  | cons entry rest ih =>
    obtain ⟨key, set⟩ := entry
    by_cases same : key = symbol
    · subst same
      simp [grow, get_cons, Ne.symm apart]
    · simp [grow, same, get_cons, ih]

theorem get_grow (new : TerminalSet) (mem : symbol ∈ keys sets) :
    get (grow symbol new sets).1 symbol = (get sets symbol).union new ∧
      (grow symbol new sets).2 = ((get sets symbol).union new != get sets symbol) := by
  induction sets with
  | nil => simp [keys] at mem
  | cons entry rest ih =>
    obtain ⟨key, set⟩ := entry
    by_cases same : key = symbol
    · simp [grow, same, get_cons, unionWith]
    · have later : symbol ∈ keys rest := by simpa [keys, Ne.symm same] using mem
      simpa [grow, same, get_cons] using ih later

theorem grow_of_notMem (missing : symbol ∉ keys sets) : grow symbol new sets = (sets, false) := by
  induction sets with
  | nil => rfl
  | cons entry rest ih =>
    obtain ⟨key, set⟩ := entry
    simp only [keys, List.map_cons, List.mem_cons, not_or] at missing
    simp [grow, Ne.symm missing.1, ih missing.2]

theorem contains_get_grow {t : Nat} (fits : ∀ key ∈ keys sets, Fits count (get sets key))
    (bounded : ∀ t, new.contains t = true → t < count)
    (mem : (get (grow symbol new sets).1 other).contains t = true) :
    (get sets other).contains t = true ∨ other = symbol ∧ new.contains t = true := by
  by_cases same : other = symbol
  · by_cases known : symbol ∈ keys sets
    · rw [same, (get_grow new known).1, (fits symbol known).mem_union bounded] at mem
      exact mem.imp (same ▸ ·) fun added => ⟨same, added⟩
    · rw [grow_of_notMem known] at mem
      exact .inl mem
  · rw [get_grow_of_ne same] at mem
    exact .inl mem

theorem mem_keys_of_grow (grew : (grow symbol new sets).2 = true) : symbol ∈ keys sets := by
  by_contra missing
  rw [grow_of_notMem missing] at grew
  cases grew

theorem grow_idle (still : (grow symbol new sets).2 = false) : (grow symbol new sets).1 = sets := by
  induction sets with
  | nil => rfl
  | cons entry rest ih =>
    obtain ⟨key, set⟩ := entry
    by_cases same : key = symbol
    · simp only [grow, same, if_true, unionWith, bne_eq_false_iff_eq] at still ⊢
      rw [still]
    · simp only [grow, same, if_false] at still ⊢
      rw [ih still]

/-- Sets over `count` terminals, with the entries that they had at the start and none of the members
lost. -/
structure Grown (count : Nat) (start sets : SymbolSets) : Prop where
  keys_eq : keys sets = keys start
  fits : ∀ symbol ∈ keys sets, Fits count (get sets symbol)
  kept : ∀ symbol t, (get start symbol).contains t = true → (get sets symbol).contains t = true

def weight (count : Nat) (symbols : List Symbol) (sets : SymbolSets) : Nat :=
  (symbols.map fun symbol => (members count (get sets symbol)).card).sum

theorem weight_le (symbols : List Symbol) : weight count symbols sets ≤ symbols.length * count := by
  rw [weight, ← List.length_map (f := fun symbol => (members count (get sets symbol)).card)]
  refine List.sum_le_card_nsmul _ _ fun size mem => ?_
  obtain ⟨symbol, -, rfl⟩ := List.mem_map.mp mem
  exact card_members_le

namespace Grown

theorem refl (fits : ∀ symbol set, (symbol, set) ∈ start → Fits count set) : Grown count start start :=
  ⟨rfl, fun _ mem => fits _ _ (mem_of_mem_keys mem), fun _ _ had => had⟩

theorem grow (grown : Grown count start sets)
    (bounded : ∀ t, new.contains t = true → t < count) :
    Grown count start (grow symbol new sets).1 := by
  by_cases mem : symbol ∈ keys sets
  · have fits := grown.fits symbol mem
    obtain ⟨joined, -⟩ := get_grow new mem
    refine ⟨(keys_grow sets).trans grown.keys_eq, ?_, ?_⟩
    · intro other other_mem
      rw [keys_grow] at other_mem
      by_cases same : other = symbol
      · rw [same, joined]
        exact fits.union bounded
      · rw [get_grow_of_ne same]
        exact grown.fits other other_mem
    · intro other t had
      have kept := grown.kept other t had
      by_cases same : other = symbol
      · rw [same] at kept ⊢
        rw [joined, fits.mem_union bounded]
        exact .inl kept
      · rwa [get_grow_of_ne same]
  · rwa [grow_of_notMem mem]

theorem weight_lt {symbols : List Symbol} (grown : Grown count start sets)
    (bounded : ∀ t, new.contains t = true → t < count) (listed : symbol ∈ symbols)
    (grew : (SymbolSets.grow symbol new sets).2 = true) :
    weight count symbols sets < weight count symbols (SymbolSets.grow symbol new sets).1 := by
  have mem := mem_keys_of_grow grew
  have fits := grown.fits symbol mem
  obtain ⟨joined, reported⟩ := get_grow new mem
  rw [reported, bne_iff_ne] at grew
  have more := fits.card_lt_union bounded grew
  rw [← joined] at more
  refine List.sum_lt_sum _ _ (fun other _ => ?_) ⟨symbol, listed, more⟩
  by_cases same : other = symbol
  · rw [same]
    exact Nat.le_of_lt more
  · rw [get_grow_of_ne same]

theorem mem_of_idle {t : Nat} (grown : Grown count start sets)
    (bounded : ∀ t, new.contains t = true → t < count) (mem : symbol ∈ keys sets)
    (still : (SymbolSets.grow symbol new sets).2 = false) (inside : new.contains t = true) :
    (get sets symbol).contains t = true := by
  obtain ⟨-, reported⟩ := get_grow new mem
  rw [reported, bne_eq_false_iff_eq] at still
  rw [← still, (grown.fits symbol mem).mem_union bounded]
  exact .inr inside

end Grown

end ShiftReduce.SymbolSets
