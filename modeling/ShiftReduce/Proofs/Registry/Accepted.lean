import ShiftReduce.Proofs.Lowering.Symbols
import ShiftReduce.Proofs.Registry.Names
import ShiftReduce.Registry.Registration

/-!
What registration has established once it hands out a registry: how the registry follows from the
grammar, and what the checks say about the names in it.
-/
namespace ShiftReduce

theorem bind_eq_ok {ε α β : Type} {x : Except ε α} {f : α → Except ε β} {b : β} :
    (x >>= f) = .ok b ↔ ∃ a, x = .ok a ∧ f a = .ok b := by
  cases x with
  | error e => simp [bind, Except.bind]
  | ok a => simp [bind, Except.bind]

theorem bind_eq_error {ε α β : Type} {x : Except ε α} {f : α → Except ε β} {e : ε} :
    (x >>= f) = .error e ↔ x = .error e ∨ ∃ a, x = .ok a ∧ f a = .error e := by
  cases x with
  | error e => simp [bind, Except.bind]
  | ok a => simp [bind, Except.bind]

theorem eq_ok_of_isSome {ε α : Type} {x : Except ε α} (succeeds : x.toOption.isSome = true) :
    x = .ok (x.toOption.get succeeds) := by
  cases x with
  | error e => cases succeeds
  | ok a => rfl

namespace Registration

open ShiftReduce.Symbol

theorem checkRuleNames_ok {seen names : List String}
    (checked : checkRuleNames seen names = .ok ()) :
    (∀ name ∈ names, Permitted name ∧ (⟨name⟩ : Symbol).isTerminal = false ∧ name ∉ seen)
      ∧ names.Nodup := by
  induction names generalizing seen with
  | nil => simp
  | cons name rest ih =>
    obtain ⟨_, permitted, checked⟩ := bind_eq_ok.mp checked
    split at checked
    · cases checked
    · rename_i nonterminal
      split at checked
      · cases checked
      · rename_i fresh
        obtain ⟨others, nodup⟩ := ih checked
        have first := permitted_of_checkName permitted
        refine ⟨?_, List.nodup_cons.mpr ⟨?_, nodup⟩⟩
        · intro other mem
          obtain rfl | mem := List.mem_cons.mp mem
          · exact ⟨first, by simpa using nonterminal, by simpa using fresh⟩
          · obtain ⟨permitted, nonterminal, unseen⟩ := others other mem
            exact ⟨permitted, nonterminal, fun seen => unseen (List.mem_cons_of_mem _ seen)⟩
        · intro repeated
          exact (others name repeated).2.2 List.mem_cons_self

theorem checkStarts_ok {defined names : List String}
    (checked : checkStarts defined names = .ok ()) : ∀ name ∈ names, name ∈ defined := by
  induction names with
  | nil => simp
  | cons name rest ih =>
    obtain ⟨_, _, checked⟩ := bind_eq_ok.mp checked
    split at checked
    · rename_i known
      have first : name ∈ defined := by simpa using known
      simpa [first] using ih checked
    · cases checked

theorem checkNames_ok {names : List String} (checked : checkNames names = .ok ()) :
    ∀ name ∈ names, Permitted name := by
  induction names with
  | nil => simp
  | cons name rest ih =>
    obtain ⟨_, permitted, checked⟩ := bind_eq_ok.mp checked
    simpa [permitted_of_checkName permitted] using ih checked

theorem checkReferences_ok {defined : List Symbol} {productions : List Production}
    (checked : checkReferences defined productions = .ok ()) :
    ∀ production ∈ productions, ∀ symbol ∈ production.rhs,
      symbol.isTerminal = false → symbol ∈ defined := by
  induction productions with
  | nil => simp
  | cons production rest ih =>
    unfold checkReferences at checked
    split at checked
    · cases checked
    · rename_i resolved
      rw [List.find?_eq_none] at resolved
      intro other mem symbol inside nonterminal
      obtain rfl | mem := List.mem_cons.mp mem
      · have known := resolved symbol inside
        simpa [isNonterminal, nonterminal] using known
      · exact ih checked other mem symbol inside nonterminal

end Registration

/-- The registry of an accepted grammar and the outcome of the checks on names and references. -/
structure Registry.AcceptedFrom (grammar : Grammar) (registry : Registry) : Prop where
  starts_eq : registry.starts = OrderedSet.distinct (grammar.start.map Symbol.mk)
  productions_eq : registry.productions = grammar.productions registry.starts
  terminals_eq : registry.terminals =
    OrderedSet.distinct (Symbol.eof :: (grammar.names.map Symbol.mk).filter (·.isTerminal))
  nullable_eq : registry.nullable = Nullable.solve registry.productions
  first_eq : registry.first =
    First.solve registry.terminals registry.nonterminals registry.nullable registry.productions
  follow_eq : registry.follow =
    Follow.solve registry.terminals.length (registry.starts.map Symbol.augmented)
      registry.nonterminals registry.nullable registry.first registry.productions
  rules_nodup : (grammar.rules.map (·.1)).Nodup
  rules_chosen : ∀ name ∈ grammar.rules.map (·.1),
    Symbol.Chosen name ∧ (⟨name⟩ : Symbol).isTerminal = false
  starts_defined : ∀ name ∈ grammar.start, name ∈ grammar.rules.map (·.1)
  names_chosen : ∀ name ∈ grammar.names, Symbol.Chosen name
  references : ∀ production ∈ registry.productions, ∀ symbol ∈ production.rhs,
    symbol.isTerminal = false → ∃ defining ∈ registry.productions, defining.lhs = symbol

open Registration in
theorem Registry.acceptedFrom {grammar : Grammar} {registry : Registry}
    (accepted : Registry.ofGrammar grammar = .ok registry) : registry.AcceptedFrom grammar := by
  obtain ⟨_, rules, accepted⟩ := bind_eq_ok.mp accepted
  obtain ⟨_, starts, accepted⟩ := bind_eq_ok.mp accepted
  obtain ⟨_, names, accepted⟩ := bind_eq_ok.mp accepted
  obtain ⟨_, references, accepted⟩ := bind_eq_ok.mp accepted
  obtain ⟨_, _, accepted⟩ := bind_eq_ok.mp accepted
  obtain ⟨declared, _, accepted⟩ := bind_eq_ok.mp accepted
  obtain ⟨_, _, accepted⟩ := bind_eq_ok.mp accepted
  cases accepted
  obtain ⟨permitted, nodup⟩ := checkRuleNames_ok rules
  refine ⟨rfl, rfl, rfl, rfl, rfl, rfl, nodup, ?_, checkStarts_ok starts,
    fun name mem => (checkNames_ok names name mem).toChosen, ?_⟩
  · intro name mem
    exact ⟨(permitted name mem).1.toChosen, (permitted name mem).2.1⟩
  · intro production mem symbol inside nonterminal
    have defined := checkReferences_ok references production mem symbol inside nonterminal
    rw [OrderedSet.mem_distinct, List.mem_map] at defined
    exact defined

open Registration in
structure Registry.Passed (grammar : Grammar) (registry : Registry) : Prop where
  ruleNames : checkRuleNames [] (grammar.rules.map (·.1)) = .ok ()
  starts : checkStarts (grammar.rules.map (·.1)) grammar.start = .ok ()
  names : checkNames grammar.names = .ok ()
  references : checkReferences registry.nonterminals registry.productions = .ok ()
  nullableNames : checkNullableNames (grammar.rules.map (·.1)) grammar.nullable = .ok ()
  empties : declareNullable (grammar.rules.map (·.1))
    (OrderedSet.distinct (grammar.nullable.map Symbol.mk)) registry.productions
      = .ok registry.declaredNullable
  declarations : checkDeclarations registry.nullable grammar.nullable = .ok ()

theorem Registry.passed {grammar : Grammar} {registry : Registry}
    (accepted : Registry.ofGrammar grammar = .ok registry) : registry.Passed grammar := by
  obtain ⟨_, ruleNames, accepted⟩ := bind_eq_ok.mp accepted
  obtain ⟨_, starts, accepted⟩ := bind_eq_ok.mp accepted
  obtain ⟨_, names, accepted⟩ := bind_eq_ok.mp accepted
  obtain ⟨_, references, accepted⟩ := bind_eq_ok.mp accepted
  obtain ⟨_, nullableNames, accepted⟩ := bind_eq_ok.mp accepted
  obtain ⟨_, empties, accepted⟩ := bind_eq_ok.mp accepted
  obtain ⟨_, declarations, accepted⟩ := bind_eq_ok.mp accepted
  cases accepted
  exact ⟨ruleNames, starts, names, references, nullableNames, empties, declarations⟩

end ShiftReduce
