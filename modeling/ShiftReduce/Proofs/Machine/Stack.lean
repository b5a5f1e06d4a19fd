import ShiftReduce.Machine
import ShiftReduce.Proofs.Automaton.Realization

/-!
The stack of the machine as a path of the automaton. The symbols read along it decide which items are
in the state on top: those the item machine reaches by reading them.
-/
namespace ShiftReduce.Machine

/-- The automaton of a well-formed registry, with one of its start symbols. -/
structure Rooted (registry : Registry) (lookahead : Lookahead) (automaton : Automaton)
    (start : Symbol) (root production : Nat) : Prop where
  wellformed : registry.Wellformed
  realizes : automaton.Realizes registry lookahead
  at_root : automaton.start? start = some root
  declared : registry.startProduction start = some production

/-- A stack, top first, with the symbols on the edges from the root up to the top. -/
inductive Stacked (automaton : Automaton) (root : Nat) : List Nat → List Symbol → Prop where
  | root : Stacked automaton root [root] []
  | push {top target : Nat} {below : List Nat} {path : List Symbol} {symbol : Symbol} :
      Stacked automaton root (top :: below) path → automaton.goto? top symbol = some target →
      Stacked automaton root (target :: top :: below) (path ++ [symbol])

namespace Stacked

variable {registry : Registry} {lookahead : Lookahead} {automaton : Automaton} {root : Nat}
  {start : Symbol} {production : Nat} {stack : List Nat} {path : List Symbol}

theorem drop {before after : List Symbol}
    (stacked : Stacked automaton root stack (before ++ after)) :
    Stacked automaton root (stack.drop after.length) before := by
  generalize whole : before ++ after = path at stacked
  induction stacked generalizing after with
  | root =>
    obtain ⟨rfl, rfl⟩ := List.append_eq_nil_iff.mp whole
    exact .root
  | push stacked edge ih =>
    obtain rfl | ⟨front, final, rfl⟩ := List.eq_nil_or_concat after
    · rw [List.append_nil] at whole
      rw [whole]
      exact .push stacked edge
    · rw [List.concat_eq_append, ← List.append_assoc] at whole
      rw [List.concat_eq_append, List.length_append, List.length_singleton, List.drop_succ_cons]
      exact ih (List.append_inj' whole rfl).1

theorem items (rooted : Rooted registry lookahead automaton start root production)
    (stacked : Stacked automaton root stack path) :
    ∃ top below state, stack = top :: below ∧ automaton.states[top]? = some state ∧
      ∀ item, item ∈ state.items ↔ ItemPath registry production path item := by
  induction stacked with
  | root =>
    obtain ⟨state, at_state, items⟩ := rooted.realizes.start_paths rooted.at_root rooted.declared
    exact ⟨root, [], state, rfl, at_state, items⟩
  | push _ edge ih =>
    obtain ⟨top, below, state, same, at_top, items⟩ := ih
    cases same
    obtain ⟨next, at_next, next_items⟩ := rooted.realizes.goto_paths at_top items edge
    exact ⟨_, _, next, rfl, at_next, next_items⟩

theorem ne_nil (stacked : Stacked automaton root stack path) : stack ≠ [] := by
  cases stacked <;> exact List.cons_ne_nil _ _

theorem top_items {bottom : Nat} (rooted : Rooted registry lookahead automaton start root production)
    (stacked : Stacked automaton root stack path) :
    ∃ state, automaton.states[stack.headD bottom]? = some state ∧
      ∀ item, item ∈ state.items ↔ ItemPath registry production path item := by
  obtain ⟨top, below, state, rfl, at_top, items⟩ := stacked.items rooted
  exact ⟨state, at_top, items⟩

theorem push_top {bottom target : Nat} {symbol : Symbol} (stacked : Stacked automaton root stack path)
    (edge : automaton.goto? (stack.headD bottom) symbol = some target) :
    Stacked automaton root (target :: stack) (path ++ [symbol]) := by
  cases stacked with
  | root => exact .push .root edge
  | push under last => exact .push (.push under last) edge

theorem handle {bottom : Nat} {state : State} {item : Item} {rule : Production}
    (rooted : Rooted registry lookahead automaton start root production)
    (stacked : Stacked automaton root stack path)
    (at_top : automaton.states[stack.headD bottom]? = some state) (mem : item ∈ state.items)
    (found : registry.productions[item.production]? = some rule)
    (complete : registry.isComplete item = true) :
    item.dot = rule.rhs.length ∧ ItemPath registry production path item ∧
      ∃ before, path = before ++ rule.rhs := by
  obtain ⟨_, at_state, items⟩ := stacked.top_items rooted
  cases at_top.symm.trans at_state
  have reached := (items item).mp mem
  obtain ⟨_, known, long⟩ := Registry.isComplete_iff.mp complete
  cases found.symm.trans known
  have dot : item.dot = rule.rhs.length := Nat.le_antisymm (reached.dot_le found) long
  obtain ⟨before, whole, -⟩ := reached.trace found
  rw [dot, List.take_length] at whole
  exact ⟨dot, reached, before, whole⟩

end Stacked

end ShiftReduce.Machine
