import ShiftReduce.Proofs.Automaton.Determinization
import ShiftReduce.Proofs.Checked.Collection
import ShiftReduce.Proofs.Item.Goto

/-!
Closure and goto of any items of registered productions, repeated or with the dot beyond the end. A dot
is moved as a 32-bit word and could be the largest one, but only dots with a symbol after them are.
-/
namespace ShiftReduce.Checked

open StateTransition

variable {registry : Registry} {items : List Item} {symbol : Symbol}

/-- A closure is taken only if some dot was moved. -/
def goto (registry : Registry) (items : List Item) (symbol : Symbol) : Option (List Item) := do
  let expecting ← filter (fun item => (next registry item).map (· = some symbol)) items
  let moved ← expecting.mapM Item.forward?
  if moved.isEmpty then return moved else close registry moved

theorem goto_eq (short : ∀ production ∈ registry.productions, production.rhs.length < UInt32.size)
    (known : Known registry items) (symbol : Symbol) :
    goto registry items symbol = some (registry.goto items symbol) := by
  have expecting : filter (fun item => (next registry item).map fun x => decide (x = some symbol)) items =
      some (items.filter fun item => registry.next? item = some symbol) := by
    refine filter_eq fun item mem => ?_
    rw [next_eq (known item mem)]
    rfl
  have moved : (items.filter fun item => registry.next? item = some symbol).mapM Item.forward? =
      some (registry.advance items symbol) := by
    rw [Registry.advance_eq]
    refine mapM_eq_map fun item mem => ?_
    exact Registry.forward?_of_next? short (of_decide_eq_true (List.mem_filter.mp mem).2)
  simp only [goto, expecting, moved, Option.bind_eq_bind, Option.bind_some,
    close_eq (known_advance known symbol), Registry.goto]
  split
  · rename_i nothing
    rw [List.isEmpty_iff.mp nothing, Registry.close_nil]
    rfl
  · rfl

/-- The closure of items of registered productions begins with the distinct ones in their order, and its
members are the least set that holds them and what its members expect; it is found by a scan that comes
to the end of the list it extends. Goto is the closure of the items with the symbol after the dot, each
moved past it, and no dot that is moved is the largest word. -/
theorem close_and_goto_exact {grammar : Grammar} {registry : Registry} {items : List Item}
    (accepted : Registry.ofGrammar grammar = .ok registry)
    (short : ∀ production ∈ registry.productions, production.rhs.length < UInt32.size)
    (known : Known registry items) :
    close registry items = some (registry.close items) ∧
    (registry.close items, (registry.close items).length) ∈
      eval registry.scan? (items.eraseDups, 0) ∧
    (registry.close items).Nodup ∧
    items.eraseDups <+: registry.close items ∧
    IsLeast {members : Set Item | (∀ item ∈ items, item ∈ members) ∧
        ∀ item ∈ members, ∀ new, registry.Expects item new → new ∈ members}
      {item | item ∈ registry.close items} ∧
    registry.close (registry.close items) = registry.close items ∧
    (∀ larger, items ⊆ larger → registry.close items ⊆ registry.close larger) ∧
    (∀ other, items.Perm other → ∀ item, item ∈ registry.close other ↔ item ∈ registry.close items) ∧
    ∀ symbol, goto registry items symbol = some (registry.goto items symbol) ∧
      (registry.goto items symbol = [] ↔ ∀ item ∈ items, registry.next? item ≠ some symbol) ∧
      registry.goto items symbol = registry.close
        ((items.filter fun item => registry.next? item = some symbol).map Item.forward) ∧
      ∀ item ∈ items, registry.next? item = some symbol → item.forward? = some item.forward := by
  have wellformed := (Registry.acceptedFrom accepted).wellformed
  rw [← OrderedSet.distinct_eq_eraseDups]
  refine ⟨close_eq known, Registry.eval_scan_close registry items, Registry.nodup_close items,
    Registry.distinct_prefix_close items, Registry.close_isLeast wellformed items,
    Registry.close_close items, fun larger => Registry.close_subset, ?_, fun symbol => ?_⟩
  · intro other permuted item
    simp only [Registry.mem_close]
    exact Registry.closes_congr fun item => permuted.mem_iff.symm
  · refine ⟨goto_eq short known symbol, Registry.goto_eq_nil_iff, ?_, fun item _ next => ?_⟩
    · rw [Registry.goto, Registry.advance_eq]
    · exact Registry.forward?_of_next? short next

open Automaton in
/-- Items given out of order and twice, one with the largest dot there is. -/
theorem close_and_goto_parens :
    close parensRegistry [⟨3, 0⟩, ⟨5, 4294967295⟩, ⟨3, 0⟩, ⟨4, 1⟩] =
      some [⟨3, 0⟩, ⟨5, 4294967295⟩, ⟨4, 1⟩, ⟨4, 0⟩, ⟨5, 0⟩, ⟨2, 0⟩] ∧
    IsLeast {members : Set Item |
        (∀ item ∈ [⟨3, 0⟩, ⟨5, 4294967295⟩, ⟨3, 0⟩, ⟨4, 1⟩], item ∈ members) ∧
        ∀ item ∈ members, ∀ new, parensRegistry.Expects item new → new ∈ members}
      {item | item ∈ [⟨3, 0⟩, ⟨5, 4294967295⟩, ⟨4, 1⟩, ⟨4, 0⟩, ⟨5, 0⟩, ⟨2, 0⟩]} ∧
    goto parensRegistry [⟨3, 0⟩, ⟨5, 4294967295⟩, ⟨3, 0⟩, ⟨4, 1⟩] ⟨"s"⟩ = some [⟨4, 2⟩] ∧
    goto parensRegistry [⟨3, 0⟩, ⟨5, 4294967295⟩, ⟨3, 0⟩, ⟨4, 1⟩] ⟨"Id"⟩ = some [] := by
  have accepted : Registry.ofGrammar parens = .ok parensRegistry := eq_ok_of_isSome parens_accepted
  have computed : (∀ production ∈ parensRegistry.productions, production.rhs.length < UInt32.size) ∧
      Known parensRegistry [⟨3, 0⟩, ⟨5, 4294967295⟩, ⟨3, 0⟩, ⟨4, 1⟩] ∧
      parensRegistry.close [⟨3, 0⟩, ⟨5, 4294967295⟩, ⟨3, 0⟩, ⟨4, 1⟩] =
        [⟨3, 0⟩, ⟨5, 4294967295⟩, ⟨4, 1⟩, ⟨4, 0⟩, ⟨5, 0⟩, ⟨2, 0⟩] ∧
      parensRegistry.goto [⟨3, 0⟩, ⟨5, 4294967295⟩, ⟨3, 0⟩, ⟨4, 1⟩] ⟨"s"⟩ = [⟨4, 2⟩] ∧
      parensRegistry.goto [⟨3, 0⟩, ⟨5, 4294967295⟩, ⟨3, 0⟩, ⟨4, 1⟩] ⟨"Id"⟩ = [] := by
    unfold Known
    decide +kernel
  obtain ⟨short, known, closure, reached, nothing⟩ := computed
  obtain ⟨total, -, -, -, least, -, -, -, moves⟩ := close_and_goto_exact accepted short known
  rw [closure] at total least
  exact ⟨total, least, reached ▸ (moves ⟨"s"⟩).1, nothing ▸ (moves ⟨"Id"⟩).1⟩

end ShiftReduce.Checked
