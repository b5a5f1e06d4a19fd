import Mathlib.Order.Bounds.Defs
import ShiftReduce.Proofs.Item.Path

/-!
Closure as the least set that holds a kernel and what its members expect, and goto as the closure of
what had a symbol after its dot. A closure has nothing left to add, so it is its own closure.
-/
namespace ShiftReduce.Registry

variable {registry : Registry} {items kernel more : List Item} {symbol other : Symbol}
  {item new : Item}

/-- The beginning of a production is expected next to an item with the left-hand side after its dot. -/
def Expects (registry : Registry) (item new : Item) : Prop :=
  ∃ nonterminal production, registry.next? item = some nonterminal ∧
    nonterminal.isTerminal = false ∧ registry.productions[new.production]? = some production ∧
    production.lhs = nonterminal ∧ new.dot = 0

/-- Productions are looked up by what stands after the dot, be it a terminal: no production has one on
its left. -/
theorem mem_predicted_iff_expects (wellformed : registry.Wellformed) :
    new ∈ registry.predicted item ↔ registry.Expects item new := by
  rw [mem_predicted]
  constructor
  · rintro ⟨_, id, production, next, found, rfl, rfl⟩
    have nonterminal := wellformed.lhs_nonterminal production (List.mem_of_getElem? found)
    exact ⟨production.lhs, production, next, nonterminal, found, rfl, rfl⟩
  · rintro ⟨nonterminal, production, next, -, found, lhs, begun⟩
    exact ⟨nonterminal, new.production, production, next, found, lhs, by rw [← begun]⟩

theorem close_isLeast (wellformed : registry.Wellformed) (kernel : List Item) :
    IsLeast {members : Set Item | (∀ item ∈ kernel, item ∈ members) ∧
        ∀ item ∈ members, ∀ new, registry.Expects item new → new ∈ members}
      {item | item ∈ registry.close kernel} := by
  refine ⟨⟨fun item mem => mem_close.mpr (.kernel mem), fun item mem new expected => ?_⟩, ?_⟩
  · exact close_saturated registry kernel item mem
      ((mem_predicted_iff_expects wellformed).mpr expected)
  · rintro members ⟨holds, closed⟩ item mem
    have closes := mem_close.mp mem
    clear mem
    induction closes with
    | kernel mem => exact holds _ mem
    | predicted _ new ih => exact closed _ ih _ ((mem_predicted_iff_expects wellformed).mp new)

theorem distinct_prefix_close (kernel : List Item) :
    OrderedSet.distinct kernel <+: registry.close kernel := prefix_closeFrom _ _ _

theorem prefix_close (nodup : kernel.Nodup) : kernel <+: registry.close kernel := by
  have whole : OrderedSet.distinct kernel <+: registry.close kernel := distinct_prefix_close kernel
  rwa [OrderedSet.distinct_of_nodup nodup] at whole

theorem closeFrom_of_saturated (fuel i : Nat) (saturated : Saturated registry items) :
    registry.closeFrom fuel i items = items := by
  induction fuel generalizing i with
  | zero => rfl
  | succ fuel ih =>
    unfold closeFrom
    cases found : items[i]? with
    | none => rfl
    | some item =>
      have known := saturated item (List.mem_of_getElem? found)
      simp only [OrderedSet.insertAll_of_subset known]
      exact ih (i + 1)

theorem close_of_saturated (nodup : items.Nodup) (saturated : Saturated registry items) :
    registry.close items = items := by
  rw [close, OrderedSet.distinct_of_nodup nodup, closeFrom_of_saturated _ _ saturated]

@[simp] theorem close_close (kernel : List Item) :
    registry.close (registry.close kernel) = registry.close kernel :=
  close_of_saturated (nodup_close kernel) (close_saturated registry kernel)

@[simp] theorem close_nil : registry.close [] = [] :=
  close_of_saturated List.nodup_nil fun _ mem => absurd mem List.not_mem_nil

theorem close_subset (subset : kernel ⊆ more) : registry.close kernel ⊆ registry.close more :=
  fun _ mem => mem_close.mpr ((mem_close.mp mem).mono subset)

theorem close_eq_nil_iff : registry.close kernel = [] ↔ kernel = [] := by
  constructor
  · intro nothing
    refine List.eq_nil_iff_forall_not_mem.mpr fun item mem => ?_
    have closed : item ∈ registry.close kernel := mem_close.mpr (.kernel mem)
    rw [nothing] at closed
    exact List.not_mem_nil closed
  · rintro rfl
    exact close_nil

theorem advance_eq (registry : Registry) (items : List Item) (symbol : Symbol) :
    registry.advance items symbol =
      (items.filter fun item => registry.next? item = some symbol).map Item.forward := by
  rw [advance, outgoing]
  induction items with
  | nil => rfl
  | cons item rest ih =>
    cases next : registry.next? item with
    | none => simpa [next] using ih
    | some found => by_cases same : found = symbol <;> simpa [next, same] using ih

theorem forward_injective : Function.Injective Item.forward := by
  intro item other same
  cases item
  cases other
  simpa [Item.forward] using same

theorem nodup_advance (nodup : items.Nodup) : (registry.advance items symbol).Nodup := by
  rw [advance_eq]
  exact (nodup.filter _).map forward_injective

theorem symbol_of_advanced (moved : item ∈ registry.advance items symbol)
    (also : item ∈ registry.advance more other) : symbol = other := by
  obtain ⟨before, -, next, rfl⟩ := mem_advance.mp moved
  obtain ⟨earlier, -, other_next, same⟩ := mem_advance.mp also
  rw [forward_injective same, next] at other_next
  exact Option.some.inj other_next

theorem dot_pos_of_advanced (moved : item ∈ registry.advance items symbol) : 0 < item.dot := by
  obtain ⟨before, -, -, rfl⟩ := mem_advance.mp moved
  exact Nat.succ_pos _

theorem advance_eq_nil_iff :
    registry.advance items symbol = [] ↔ ∀ item ∈ items, registry.next? item ≠ some symbol := by
  simp [advance_eq]

theorem goto_eq_nil_iff :
    registry.goto items symbol = [] ↔ ∀ item ∈ items, registry.next? item ≠ some symbol := by
  rw [goto, close_eq_nil_iff, advance_eq_nil_iff]

theorem forward?_of_next? (short : ∀ production ∈ registry.productions,
    production.rhs.length < UInt32.size) (next : registry.next? item = some symbol) :
    item.forward? = some item.forward := by
  obtain ⟨production, found, inside⟩ := next?_eq_some.mp next
  have before := (List.getElem?_eq_some_iff.mp inside).1
  have bound := short production (List.mem_of_getElem? found)
  exact if_pos (by omega)

end ShiftReduce.Registry
