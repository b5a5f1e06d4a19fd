import ShiftReduce.Proofs.Item.Path
import ShiftReduce.Proofs.Registry.Analysed

/-!
Prefixes of sentences. Where every nonterminal derives some sentence, whatever the item machine reads
can be completed: a rightmost derivation from the start symbol goes through it, with nothing but
terminals after it.
-/
namespace ShiftReduce

/-- Every nonterminal derives at least one string of terminals. -/
def Registry.Productive (registry : Registry) : Prop :=
  ∀ symbol ∈ registry.nonterminals, ∃ w,
    Derives registry.productions [symbol] w ∧ w.all (·.isTerminal) = true

variable {registry : Registry} {start : Nat} {symbol : Symbol} {read : List Symbol} {item : Item}
  {rule : Production}

theorem Registry.Productive.exists_expands (productive : registry.Productive)
    (wellformed : registry.Wellformed) (mem : rule ∈ registry.productions) {rest : List Symbol}
    (within : rest ⊆ rule.rhs) : ∃ w, Expands registry.productions rest w := by
  induction rest with
  | nil => exact ⟨[], .nil⟩
  | cons symbol rest ih =>
    rw [List.cons_subset] at within
    obtain ⟨w, others⟩ := ih within.2
    cases terminal : symbol.isTerminal with
    | true => exact ⟨symbol :: w, .terminal terminal others⟩
    | false =>
      have known := mem_nonterminals.mpr
        (wellformed.nonterminal_defined rule mem symbol within.1 terminal)
      obtain ⟨v, derivation, terminals⟩ := productive symbol known
      exact ⟨v ++ w, (Expands.of_derives derivation terminals).append others⟩

theorem Registry.drop_of_next? (next : registry.next? item = some symbol)
    (found : registry.productions[item.production]? = some rule) :
    rule.rhs.drop item.dot = symbol :: rule.rhs.drop (item.dot + 1) := by
  obtain ⟨_, known, inside⟩ := next?_eq_some.mp next
  cases found.symm.trans known
  obtain ⟨short, rfl⟩ := List.getElem?_eq_some_iff.mp inside
  exact List.drop_eq_getElem_cons short

namespace ItemPath

variable (wellformed : registry.Wellformed) (declared : registry.starts[start]? = some symbol)

include wellformed declared

theorem registered (path : ItemPath registry start read item) :
    ∃ rule, registry.productions[item.production]? = some rule := by
  cases path with
  | here => exact ⟨_, wellformed.augmented_at declared⟩
  | past _ next =>
    obtain ⟨rule, found, -⟩ := Registry.next?_eq_some.mp next
    exact ⟨rule, found⟩
  | into _ _ found => exact ⟨_, found⟩

variable (productive : registry.Productive)

include productive

theorem exists_rightmost (path : ItemPath registry start read item)
    (found : registry.productions[item.production]? = some rule) :
    ∃ used rest, rest.all (·.isTerminal) = true ∧
      Rightmost registry.productions used [symbol] (read ++ rule.rhs.drop item.dot ++ rest) := by
  induction path generalizing rule with
  | here =>
    cases found.symm.trans (wellformed.augmented_at declared)
    exact ⟨[], [], rfl, .refl _⟩
  | @past read item next_symbol path next ih =>
    obtain ⟨used, rest, terminals, derivation⟩ := ih found
    rw [Registry.drop_of_next? next found] at derivation
    refine ⟨used, rest, terminals, ?_⟩
    simpa [Item.forward] using derivation
  | @into read item expected id production path next known lhs ih =>
    obtain ⟨outer, outer_found, -⟩ := Registry.next?_eq_some.mp next
    obtain ⟨used, rest, terminals, derivation⟩ := ih outer_found
    cases known.symm.trans found
    rw [Registry.drop_of_next? next outer_found, ← lhs] at derivation
    -- what comes after the nonterminal is derived first
    obtain ⟨w, expands⟩ := productive.exists_expands wellformed (List.mem_of_getElem? outer_found)
      (List.drop_subset (item.dot + 1) outer.rhs)
    obtain ⟨more, later⟩ := expands.rightmost
    have before := (later.append_terminals terminals).prepend (read ++ [production.lhs])
    have after : (w ++ rest).all (·.isTerminal) = true := by
      rw [List.all_append, expands.terminals, terminals, Bool.and_self]
    have last : Rightmost registry.productions [id] (read ++ production.lhs :: (w ++ rest))
        (read ++ production.rhs ++ (w ++ rest)) := .step found after (.refl _)
    simp only [List.append_assoc, List.cons_append, List.nil_append] at derivation before
    exact ⟨used ++ (more ++ [id]), w ++ rest, after, derivation.trans (before.trans last)⟩

theorem exists_completion (path : ItemPath registry start read item) :
    ∃ used rest, rest.all (·.isTerminal) = true ∧
      Rightmost registry.productions used [symbol] (read ++ rest) := by
  obtain ⟨rule, found⟩ := path.registered wellformed declared
  obtain ⟨used, rest, terminals, derivation⟩ :=
    path.exists_rightmost wellformed declared productive found
  obtain ⟨w, expands⟩ := productive.exists_expands wellformed (List.mem_of_getElem? found)
    (List.drop_subset item.dot rule.rhs)
  obtain ⟨more, later⟩ := expands.rightmost
  refine ⟨used ++ more, w ++ rest, ?_, ?_⟩
  · rw [List.all_append, expands.terminals, terminals, Bool.and_self]
  · rw [List.append_assoc] at derivation
    exact derivation.trans ((later.append_terminals terminals).prepend read)

end ItemPath

end ShiftReduce
