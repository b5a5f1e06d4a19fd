import ShiftReduce.Proofs.Registry.Accepted

/-!
The shape of the productions of an accepted grammar, as the automaton and the machine rely on it: the
augmented productions stand in front and are used nowhere, and every other symbol on a right-hand side
is a registered terminal or has productions of its own.
-/
namespace ShiftReduce

structure Registry.Wellformed (registry : Registry) : Prop where
  starts_nodup : registry.starts.Nodup
  start_nonterminal : ∀ start ∈ registry.starts, start.isTerminal = false
  augmented_at : ∀ {i : Nat} {start : Symbol}, registry.starts[i]? = some start →
    registry.productions[i]? = some ⟨start.augmented, [start]⟩
  lhs_nonterminal : ∀ production ∈ registry.productions, production.lhs.isTerminal = false
  augmented_unused : ∀ start ∈ registry.starts, ∀ production ∈ registry.productions,
    start.augmented ∉ production.rhs
  terminal_registered : ∀ production ∈ registry.productions, ∀ symbol ∈ production.rhs,
    symbol.isTerminal = true → symbol ∈ registry.terminals
  nonterminal_defined : ∀ production ∈ registry.productions, ∀ symbol ∈ production.rhs,
    symbol.isTerminal = false → ∃ defining ∈ registry.productions, defining.lhs = symbol
  eof_unused : ∀ production ∈ registry.productions, Symbol.eof ∉ production.rhs
  registered_terminal : ∀ terminal ∈ registry.terminals, terminal.isTerminal = true
  terminals_nodup : registry.terminals.Nodup
  eof_first : registry.terminals[0]? = some Symbol.eof
  nullable_eq : registry.nullable = Nullable.solve registry.productions
  first_eq : registry.first =
    First.solve registry.terminals registry.nonterminals registry.nullable registry.productions
  follow_eq : registry.follow =
    Follow.solve registry.terminals.length (registry.starts.map Symbol.augmented)
      registry.nonterminals registry.nullable registry.first registry.productions

theorem Registry.mem_nonterminals {registry : Registry} {symbol : Symbol} :
    symbol ∈ registry.nonterminals ↔
      ∃ production ∈ registry.productions, production.lhs = symbol := by
  rw [nonterminals, OrderedSet.mem_distinct, List.mem_map]

theorem Registry.exists_startProduction {registry : Registry} {symbol : Symbol}
    (declared : symbol ∈ registry.starts) :
    ∃ production, registry.startProduction symbol = some production := by
  rw [← Option.isSome_iff_exists, Registry.startProduction, List.isSome_idxOf?]
  exact declared

theorem Registry.getElem?_of_startProduction {registry : Registry} {symbol : Symbol} {production : Nat}
    (found : registry.startProduction symbol = some production) :
    registry.starts[production]? = some symbol := by
  rw [Registry.startProduction, List.idxOf?] at found
  obtain ⟨inside, same, -⟩ := List.findIdx?_eq_some_iff_getElem.mp found
  rw [List.getElem?_eq_getElem inside, eq_of_beq same]

theorem Registry.Wellformed.production_lt {registry : Registry} (wellformed : registry.Wellformed)
    {id : Nat} (start : registry.isStartProduction id = true) : id < registry.productions.length := by
  have front : id < registry.starts.length := of_decide_eq_true start
  have augmented := wellformed.augmented_at (List.getElem?_eq_getElem front)
  exact (List.getElem?_eq_some_iff.mp augmented).1

theorem Grammar.mem_productions {grammar : Grammar} {starts : List Symbol} {production : Production} :
    production ∈ grammar.productions starts ↔
      (∃ start ∈ starts, production = ⟨start.augmented, [start]⟩) ∨
      ∃ name rule, (name, rule) ∈ grammar.rules ∧ production ∈ Lowering.lowerRule name rule := by
  simp [Grammar.productions, eq_comm]

namespace Registry.AcceptedFrom

open ShiftReduce.Symbol

variable {grammar : Grammar} {registry : Registry}

theorem mem_starts {name : String} (accepted : registry.AcceptedFrom grammar) :
    ⟨name⟩ ∈ registry.starts ↔ name ∈ grammar.start := by
  rw [accepted.starts_eq, OrderedSet.mem_distinct]
  simp

theorem start_mem {start : Symbol} (accepted : registry.AcceptedFrom grammar)
    (mem : start ∈ registry.starts) : start.name ∈ grammar.rules.map (·.1) :=
  accepted.starts_defined start.name (accepted.mem_starts.mp mem)

theorem mem_productions {production : Production} (accepted : registry.AcceptedFrom grammar) :
    production ∈ registry.productions ↔
      (∃ start ∈ registry.starts, production = ⟨start.augmented, [start]⟩) ∨
      ∃ name rule, (name, rule) ∈ grammar.rules ∧ production ∈ Lowering.lowerRule name rule := by
  rw [accepted.productions_eq, Grammar.mem_productions]

theorem lhs_cases {production : Production} (accepted : registry.AcceptedFrom grammar)
    (mem : production ∈ registry.productions) :
    (∃ start ∈ registry.starts, production = ⟨start.augmented, [start]⟩) ∨
      ∃ name ∈ grammar.rules.map (·.1),
        production.lhs = ⟨name⟩ ∨ ∃ number, production.lhs = helper name number := by
  obtain augmented | ⟨name, rule, rule_mem, lowered⟩ := accepted.mem_productions.mp mem
  · exact .inl augmented
  · exact .inr ⟨name, List.mem_map_of_mem rule_mem,
      (Lowering.lowerRule_within name rule).lhs production lowered⟩

theorem rhs_cases {production : Production} {symbol : Symbol}
    (accepted : registry.AcceptedFrom grammar) (mem : production ∈ registry.productions)
    (inside : symbol ∈ production.rhs) :
    (Chosen symbol.name ∧ (symbol.isTerminal = true → symbol.name ∈ grammar.names)) ∨
      ∃ name ∈ grammar.rules.map (·.1), ∃ number, symbol = helper name number := by
  obtain ⟨start, start_mem, rfl⟩ | ⟨name, rule, rule_mem, lowered⟩ :=
    accepted.mem_productions.mp mem
  · obtain rfl := List.mem_singleton.mp inside
    obtain ⟨chosen, nonterminal⟩ := accepted.rules_chosen _ (accepted.start_mem start_mem)
    refine .inl ⟨chosen, fun terminal => ?_⟩
    rw [show symbol.isTerminal = false from nonterminal] at terminal
    cases terminal
  · obtain ⟨written, used, rfl⟩ | ⟨number, rfl⟩ :=
      (Lowering.lowerRule_within name rule).rhs production lowered symbol inside
    · have named : written ∈ grammar.names := List.mem_flatMap.mpr ⟨(name, rule), rule_mem, used⟩
      exact .inl ⟨accepted.names_chosen written named, fun _ => named⟩
    · exact .inr ⟨name, List.mem_map_of_mem rule_mem, number, rfl⟩

theorem augmented_unused {production : Production} {start : Symbol}
    (accepted : registry.AcceptedFrom grammar) (declared : start ∈ registry.starts)
    (mem : production ∈ registry.productions) : start.augmented ∉ production.rhs := by
  intro inside
  obtain ⟨chosen, -⟩ | ⟨name, -, number, same⟩ := accepted.rhs_cases mem inside
  · exact augmented_ne_chosen chosen rfl
  · exact helper_ne_augmented (accepted.rules_chosen _ (accepted.start_mem declared)).1 same.symm

theorem lhs_nonterminal {production : Production} (accepted : registry.AcceptedFrom grammar)
    (mem : production ∈ registry.productions) : production.lhs.isTerminal = false := by
  obtain ⟨start, start_mem, rfl⟩ | ⟨name, name_mem, lhs⟩ := accepted.lhs_cases mem
  · obtain ⟨chosen, nonterminal⟩ := accepted.rules_chosen _ (accepted.start_mem start_mem)
    exact (isTerminal_augmented chosen).trans nonterminal
  · obtain ⟨chosen, nonterminal⟩ := accepted.rules_chosen name name_mem
    obtain lhs | ⟨number, lhs⟩ := lhs
    · rw [lhs, nonterminal]
    · rw [lhs, isTerminal_helper chosen, nonterminal]

theorem terminal_chosen {production : Production} {symbol : Symbol}
    (accepted : registry.AcceptedFrom grammar) (mem : production ∈ registry.productions)
    (inside : symbol ∈ production.rhs) (terminal : symbol.isTerminal = true) :
    symbol.name ∈ grammar.names := by
  obtain ⟨-, named⟩ | ⟨name, name_mem, number, rfl⟩ := accepted.rhs_cases mem inside
  · exact named terminal
  · obtain ⟨chosen, nonterminal⟩ := accepted.rules_chosen name name_mem
    rw [isTerminal_helper chosen, nonterminal] at terminal
    cases terminal

theorem augmented_at {i : Nat} {start : Symbol} (accepted : registry.AcceptedFrom grammar)
    (declared : registry.starts[i]? = some start) :
    registry.productions[i]? = some ⟨start.augmented, [start]⟩ := by
  obtain ⟨inside, -⟩ := List.getElem?_eq_some_iff.mp declared
  rw [accepted.productions_eq, Grammar.productions, List.getElem?_append_left (by simpa using inside)]
  simp [declared]

theorem wellformed (accepted : registry.AcceptedFrom grammar) : registry.Wellformed where
  starts_nodup := accepted.starts_eq ▸ OrderedSet.nodup_distinct _
  start_nonterminal _ declared := (accepted.rules_chosen _ (accepted.start_mem declared)).2
  augmented_at := accepted.augmented_at
  lhs_nonterminal _ := accepted.lhs_nonterminal
  augmented_unused _ declared _ := accepted.augmented_unused declared
  terminal_registered production mem symbol inside terminal := by
    rw [accepted.terminals_eq, OrderedSet.mem_distinct, List.mem_cons, List.mem_filter]
    have named := accepted.terminal_chosen mem inside terminal
    exact .inr ⟨List.mem_map_of_mem named, terminal⟩
  nonterminal_defined := accepted.references
  eof_unused production mem inside := by
    have named := accepted.terminal_chosen mem inside (by decide)
    exact (accepted.names_chosen _ named).not_eof rfl
  registered_terminal terminal mem := by
    rw [accepted.terminals_eq, OrderedSet.mem_distinct, List.mem_cons, List.mem_filter] at mem
    obtain rfl | ⟨-, terminal⟩ := mem
    · decide
    · exact terminal
  terminals_nodup := accepted.terminals_eq ▸ OrderedSet.nodup_distinct _
  eof_first := by
    rw [accepted.terminals_eq]
    have front : [eof] <+: OrderedSet.distinct (eof :: (grammar.names.map Symbol.mk).filter
        (·.isTerminal)) := OrderedSet.prefix_insertAll [eof] _
    obtain ⟨rest, whole⟩ := front
    rw [← whole]
    rfl
  nullable_eq := accepted.nullable_eq
  first_eq := accepted.first_eq
  follow_eq := accepted.follow_eq

end Registry.AcceptedFrom

end ShiftReduce
