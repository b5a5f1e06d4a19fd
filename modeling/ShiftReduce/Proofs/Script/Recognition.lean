import ShiftReduce.Proofs.Machine.Quiet
import ShiftReduce.Proofs.Script.Generation

/-!
The parser of the small language recognises the programs. Its table has no conflicts, so it finds the
one rightmost derivation of each program; and since every nonterminal derives a sentence, it refuses
all else without a loop.
-/
namespace ShiftReduce.Script

theorem parser_accepted : parser.toOption.isSome = true := by decide +kernel

def compiled : Parser := parser.toOption.get parser_accepted

theorem parser_eq : parser = .ok compiled := eq_ok_of_isSome parser_accepted

theorem start_declared : start ∈ grammar.start := List.mem_cons_self

theorem compiled_quiet : compiled.automaton.conflicts = [] := by decide +kernel

theorem acceptedFrom_compiled : compiled.registry.AcceptedFrom grammar :=
  Registry.acceptedFrom (Parser.ofGrammar_eq_ok parser_eq).1

theorem productions_compiled : compiled.registry.productions = grammar.productions [⟨start⟩] := by
  rw [acceptedFrom_compiled.productions_eq, acceptedFrom_compiled.starts_eq]
  rfl

theorem Tree.derives {category : Category} (tree : Tree category) :
    Derives compiled.registry.productions [category.symbol] tree.symbols := by
  rw [productions_compiled]
  exact tree.rightmost.derives

theorem rightmostDerivation_program (program : List (Tree .stmt)) :
    RightmostDerivation compiled.registry.productions ⟨start⟩ (derivationOf program)
      (symbolsOf program) := by
  rw [productions_compiled]
  exact ⟨symbolsOf_terminals program, rightmost_program program⟩

theorem generates_iff {w : List Symbol} :
    grammar.Generates start w ↔ ∃ program, symbolsOf program = w := by
  refine ⟨exists_program_of_generates, ?_⟩
  rintro ⟨program, rfl⟩
  obtain ⟨terminals, derivation⟩ := rightmostDerivation_program program
  have mem := acceptedFrom_compiled.mem_language_of_expands List.mem_cons_self
    (.of_derives derivation.derives terminals)
  exact (Grammar.mem_language_iff (by decide)).mp mem

def Category.least : (category : Category) → Tree category
  | stmt => .evaluation (.ofTerm (.ofFactor .number))
  | expr => .ofTerm (.ofFactor .number)
  | term => .ofFactor .number
  | factor => .number

theorem compiled_productive : compiled.registry.Productive := by
  have nonterminals : compiled.registry.nonterminals =
      [⟨"program'"⟩, .helper start 1, ⟨start⟩, ⟨"stmt"⟩, ⟨"expr"⟩, ⟨"term"⟩, ⟨"factor"⟩] := by
    decide +kernel
  have augmented : Derives compiled.registry.productions [⟨"program'"⟩] [] := by
    rw [productions_compiled]
    exact (@Rightmost.root _ _ _ 0 _ _ rfl (rightmost_program [])).derives
  have repetition : Derives compiled.registry.productions [.helper start 1] [] := by
    rw [productions_compiled]
    exact (rightmost_statements []).derives
  have category (category : Category) : ∃ w,
      Derives compiled.registry.productions [category.symbol] w ∧ w.all (·.isTerminal) = true :=
    ⟨_, category.least.derives, category.least.symbols_terminals⟩
  rw [Registry.Productive, nonterminals]
  simp only [List.forall_mem_cons]
  refine ⟨⟨_, augmented, rfl⟩, ⟨_, repetition, rfl⟩, ?_, category .stmt, category .expr,
    category .term, category .factor, by simp⟩
  exact ⟨_, (rightmostDerivation_program []).derives.derives, rfl⟩

/-- The parser finds the derivation of each program. -/
theorem parse_program {program : List (Tree .stmt)} {tokens : List Token}
    (spelled : symbolsOf program = Token.sentence tokens) :
    (compiled.parse ⟨start⟩ tokens).verdict = .accepted ∧
      (compiled.parse ⟨start⟩ tokens).reductions = (derivationOf program).reverse := by
  have derivation := rightmostDerivation_program program
  rw [spelled] at derivation
  exact Parser.parse_eq_of_rightmostDerivation parser_eq compiled_quiet start_declared derivation

theorem symbolsOf_injective : Function.Injective symbolsOf := by
  intro program other same
  have derivation := (rightmostDerivation_program program).derives.derives
  have ended : Symbol.eof ∉ symbolsOf program :=
    (Parser.wellformed parser_eq).eof_notMem_of_derives derivation (by decide)
  have spelled := Token.sentence_of_symbols ended
  have first := (parse_program spelled.symm).2
  have second := (parse_program (same.symm.trans spelled.symm)).2
  exact derivationOf_injective (List.reverse_injective (first.symm.trans second))

theorem accepts_iff {tokens : List Token} : (compiled.parse ⟨start⟩ tokens).verdict = .accepted ↔
    ∃ program, symbolsOf program = Token.sentence tokens := by
  constructor
  · intro accepted
    obtain ⟨-, used, derivation⟩ := Parser.exists_derivation_of_accepted parser_eq accepted
    have mem := acceptedFrom_compiled.mem_language_of_expands List.mem_cons_self
      (.of_derives derivation.derives.derives derivation.terminals)
    exact exists_program_of_generates ((Grammar.mem_language_iff (by decide)).mp mem)
  · rintro ⟨program, spelled⟩
    exact (parse_program spelled).1

/-- The parser of the small language is built, and accepts the programs alone. Each has one syntax
tree and one rightmost derivation, of which the reductions are the reverse. All other input is
refused at a token, and never for a loop of reductions. -/
theorem parser_recognises : ∃ built, parser = .ok built ∧ ∀ tokens,
    ((built.parse ⟨start⟩ tokens).verdict = .accepted ↔
      grammar.Generates start (Token.sentence tokens)) ∧
    ((built.parse ⟨start⟩ tokens).verdict = .accepted ↔
      ∃ program, symbolsOf program = Token.sentence tokens) ∧
    ((built.parse ⟨start⟩ tokens).verdict = .accepted →
      (∃! program, symbolsOf program = Token.sentence tokens) ∧
      ∀ used, RightmostDerivation built.registry.productions ⟨start⟩ used (Token.sentence tokens) ↔
        used = (built.parse ⟨start⟩ tokens).reductions.reverse) ∧
    ((built.parse ⟨start⟩ tokens).verdict ≠ .accepted →
      ∃ token state,
        (built.parse ⟨start⟩ tokens).verdict = .rejected (.unrecognizedInput token state)) ∧
    ∀ token state, (built.parse ⟨start⟩ tokens).verdict ≠ .rejected (.reduceLoop token state) := by
  refine ⟨compiled, parser_eq, fun tokens => ?_⟩
  have no_loop : ∀ token state,
      (compiled.parse ⟨start⟩ tokens).verdict ≠ .rejected (.reduceLoop token state) :=
    Parser.verdict_ne_reduceLoop parser_eq compiled_quiet compiled_productive ⟨start⟩ tokens
  refine ⟨accepts_iff.trans generates_iff.symm, accepts_iff, fun accepted => ?_, fun refused => ?_,
    no_loop⟩
  · obtain ⟨program, spelled⟩ := accepts_iff.mp accepted
    refine ⟨⟨program, spelled, fun other other_spelled => ?_⟩, fun used => ⟨?_, ?_⟩⟩
    · exact symbolsOf_injective (other_spelled.trans spelled.symm)
    · intro derivation
      have found :=
        Parser.parse_eq_of_rightmostDerivation parser_eq compiled_quiet start_declared derivation
      rw [found.2, List.reverse_reverse]
    · intro read_backwards
      rw [read_backwards, (parse_program spelled).2, List.reverse_reverse, ← spelled]
      exact rightmostDerivation_program program
  · obtain accepted | unrecognized | ⟨token, state, looped⟩ :=
      Parser.verdict_of_declared parser_eq start_declared tokens
    · exact absurd accepted refused
    · exact unrecognized
    · exact absurd looped (no_loop token state)

end ShiftReduce.Script
