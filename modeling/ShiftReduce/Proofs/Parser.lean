import ShiftReduce.Parser
import ShiftReduce.Proofs.Machine.Stack

/-!
Parsers handed out for a grammar: their registry is that of the grammar, their automaton realizes it,
and it has a start state for each declared start symbol.
-/
namespace ShiftReduce.Parser

variable {grammar : Grammar} {lookahead : Lookahead} {parser : Parser}

theorem ofGrammar_eq_ok (built : ofGrammar grammar lookahead = .ok parser) :
    Registry.ofGrammar grammar = .ok parser.registry ∧
      Automaton.buildAll parser.registry lookahead = .ok parser.automaton := by
  obtain ⟨registry, accepted, built⟩ := bind_eq_ok.mp built
  obtain ⟨automaton, made, built⟩ := bind_eq_ok.mp built
  cases built
  exact ⟨accepted, made⟩

theorem ofGrammar_of_accepted {registry : Registry} (accepted : Registry.ofGrammar grammar = .ok registry)
    (lookahead : Lookahead) :
    ∃ automaton, ofGrammar grammar lookahead = .ok { lookahead, registry, automaton } := by
  obtain ⟨automaton, built⟩ := Automaton.buildAll_eq_ok registry lookahead
  exact ⟨automaton, bind_eq_ok.mpr ⟨registry, accepted, bind_eq_ok.mpr ⟨automaton, built, rfl⟩⟩⟩

theorem ofGrammar_eq_error {error : GrammarError} :
    ofGrammar grammar lookahead = .error error ↔ Registry.ofGrammar grammar = .error error := by
  refine ⟨fun refused => ?_, fun refused => bind_eq_error.mpr (.inl refused)⟩
  obtain unregistered | ⟨registry, accepted, -⟩ := bind_eq_error.mp refused
  · exact unregistered
  · obtain ⟨automaton, built⟩ := ofGrammar_of_accepted accepted lookahead
    rw [built] at refused
    cases refused

theorem wellformed (built : ofGrammar grammar lookahead = .ok parser) : parser.registry.Wellformed :=
  (Registry.acceptedFrom (ofGrammar_eq_ok built).1).wellformed

theorem realizes (built : ofGrammar grammar lookahead = .ok parser) :
    parser.automaton.Realizes parser.registry lookahead :=
  Automaton.realizes_of_buildFor (wellformed built) (ofGrammar_eq_ok built).2

theorem rooted (built : ofGrammar grammar lookahead = .ok parser) {start : Symbol} {root : Nat}
    (at_root : parser.automaton.start? start = some root) :
    ∃ production, Machine.Rooted parser.registry lookahead parser.automaton start root production := by
  obtain ⟨production, _, declared, _⟩ := (realizes built).start_items at_root
  exact ⟨production, wellformed built, realizes built, at_root, declared⟩

theorem declared_iff (built : ofGrammar grammar lookahead = .ok parser) {name : String} :
    (⟨name⟩ : Symbol) ∈ parser.registry.starts ↔ name ∈ grammar.start :=
  (Registry.acceptedFrom (ofGrammar_eq_ok built).1).mem_starts

theorem start?_of_declared (built : ofGrammar grammar lookahead = .ok parser) {name : String}
    (declared : name ∈ grammar.start) : ∃ root, parser.automaton.start? ⟨name⟩ = some root :=
  Automaton.start?_of_buildFor (ofGrammar_eq_ok built).2
    ((declared_iff built).mpr declared)

theorem declared_of_start? (built : ofGrammar grammar lookahead = .ok parser) {start : Symbol}
    {root : Nat} (at_root : parser.automaton.start? start = some root) :
    start.name ∈ grammar.start := by
  obtain ⟨production, -, declared, -⟩ := (realizes built).start_items at_root
  exact (declared_iff built).mp
    (List.mem_of_getElem? (Registry.getElem?_of_startProduction declared))

def run (parser : Parser) (fuel root : Nat) (tokens : List Token) : Machine.Config × Verdict :=
  Machine.runWatched parser.registry parser.automaton fuel (.start (.start root (.ofList tokens)))

theorem parseSource_eq {start : Symbol} {root : Nat} (at_root : parser.automaton.start? start = some root)
    (fuel : Nat) (tokens : List Token) :
    parser.parseSource fuel start (.ofList tokens) =
      ⟨(parser.run fuel root tokens).1.moves.reverse, (parser.run fuel root tokens).1.source.pulled,
        (parser.run fuel root tokens).2⟩ := by
  simp only [parseSource, at_root]
  rfl

theorem exists_run {start : Symbol} {tokens : List Token} {verdict : Verdict}
    (ended : (parser.parse start tokens).verdict = verdict)
    (started : ∀ error, verdict ≠ .rejected (.grammar error)) :
    ∃ root last, parser.automaton.start? start = some root ∧
      parser.run (Machine.budget tokens.length parser.automaton.states.length) root tokens
        = (last, verdict) := by
  rw [parse] at ended
  cases at_root : parser.automaton.start? start with
  | none =>
    simp only [parseSource, at_root] at ended
    exact absurd ended.symm (started _)
  | some root =>
    rw [parseSource_eq at_root] at ended
    exact ⟨root, _, rfl, Prod.ext rfl ended⟩

end ShiftReduce.Parser
