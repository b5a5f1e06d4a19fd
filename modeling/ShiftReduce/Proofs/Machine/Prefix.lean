import ShiftReduce.Proofs.Item.Prefix
import ShiftReduce.Proofs.Machine.Refinement
import ShiftReduce.Proofs.Machine.Run

/-!
Errors are found in the right place. Whatever has been shifted is the beginning of some sentence, since
the path of the stack can be completed; and without conflicts a token is refused only where no sentence
goes on with it, since the machine would have come to the same place on such a sentence.
-/
namespace ShiftReduce

namespace Machine

variable {registry : Registry} {lookahead : Lookahead} {automaton : Automaton} {start : Symbol}
  {root production fuel state : Nat} {sentence : List Symbol} {config last : Config} {token : Token}
  {verdict : Verdict} {tokens : List Token} {path shifted remaining : List Symbol}

namespace Rooted

variable {string : List Symbol} (rooted : Rooted registry lookahead automaton start root production)

include rooted

theorem start_nonterminal : start.isTerminal = false :=
  rooted.wellformed.start_nonterminal start
    (List.mem_of_getElem? (Registry.getElem?_of_startProduction rooted.declared))

theorem eof_notMem_of_derives (derivation : Derives registry.productions [start] string) :
    Symbol.eof ∉ string := by
  refine rooted.wellformed.eof_notMem_of_derives derivation fun mem => ?_
  have nonterminal := rooted.start_nonterminal
  rw [← List.mem_singleton.mp mem] at nonterminal
  cases nonterminal

theorem registered_of_derives (derivation : Derives registry.productions [start] string)
    (terminals : string.all (·.isTerminal) = true) : ∀ symbol ∈ string, symbol ∈ registry.terminals := by
  intro symbol mem
  refine rooted.wellformed.registered_of_derives derivation ?_ symbol mem
    (List.all_eq_true.mp terminals symbol mem)
  simp [rooted.start_nonterminal]

end Rooted

theorem Stacked.exists_item {stack : List Nat}
    (rooted : Rooted registry lookahead automaton start root production)
    (stacked : Stacked automaton root stack path) : ∃ item, ItemPath registry production path item := by
  cases stacked with
  | root => exact ⟨_, .here⟩
  | push stacked edge =>
    obtain ⟨_, _, state, same, at_top, items⟩ := stacked.items rooted
    cases same
    obtain ⟨⟨item, mem, next⟩, -⟩ := rooted.realizes.goto_items at_top edge
    exact ⟨_, .past ((items item).mp mem) next⟩

theorem read_of_halted (halted : step registry automaton config = .halted last verdict) :
    last.read = config.read := by
  cases effect_of_step halted with
  | empty | refuse | accept | corrupt => rfl
  | strand => exact Config.read_reduce _

theorem lookahead_of_refused
    (halted : step registry automaton config
      = .halted last (.rejected (.unrecognizedInput token state))) :
    token = config.lookahead ∧ last.source = config.source := by
  cases effect_of_step halted <;> exact ⟨rfl, rfl⟩

/-- Some terminals complete the path, and with it what was shifted, to what the start symbol derives;
the reductions made so far are the end of that derivation. -/
theorem Progress.exists_completion
    (rooted : Rooted registry lookahead automaton start root production)
    (productive : registry.Productive)
    (progress : Progress registry automaton root sentence config path shifted remaining) :
    ∃ used rest, rest.all (·.isTerminal) = true ∧
      Rightmost registry.productions used [start] (path ++ rest) ∧
      RightmostDerivation registry.productions start (used ++ config.derivation)
        (shifted ++ rest) := by
  obtain ⟨item, reached⟩ := progress.stacked.exists_item rooted
  obtain ⟨used, rest, terminals, derivation⟩ := reached.exists_completion rooted.wellformed
    (Registry.getElem?_of_startProduction rooted.declared) productive
  refine ⟨used, rest, terminals, derivation, ?_,
    derivation.trans (progress.derives.append_terminals terminals)⟩
  rw [List.all_append, progress.terminals, terminals, Bool.and_self]

section Quiet

variable (rooted : Rooted registry lookahead automaton start root production)
  (quiet : automaton.conflicts = [])

include rooted quiet

theorem not_refused_of_derives
    (ran : run registry automaton fuel (.start root (.ofList tokens))
      = (last, .rejected (.unrecognizedInput token state)))
    (terminals : (Token.sentence tokens).all (·.isTerminal) = true) :
    ¬ Derives registry.productions [start] (Token.sentence tokens) := by
  intro derivation
  obtain ⟨used, rightmost⟩ := exists_rightmost derivation terminals
  obtain ⟨enough, final, accepted, -⟩ := run_of_rightmostDerivation rooted quiet ⟨terminals, rightmost⟩
  have same := run_unique (by rw [ran]; simp) (by rw [accepted]; simp)
  rw [ran, accepted] at same
  cases (Prod.mk.inj same).2

theorem not_derives_of_refused
    (ran : run registry automaton fuel (.start root (.ofList tokens))
      = (last, .rejected (.unrecognizedInput token state))) :
    (∀ rest, (last.read ++ token.symbol :: rest).all (·.isTerminal) = true →
      ¬ Derives registry.productions [start] (last.read ++ token.symbol :: rest)) ∧
      (token.symbol = Symbol.eof → ¬ Derives registry.productions [start] last.read) := by
  obtain ⟨config, reading, ⟨-, ended⟩ | halted⟩ := Reading.of_run rooted ran
  · cases ended
  obtain ⟨path, remaining, progress⟩ := reading.progress
  obtain ⟨rfl, same_source⟩ := lookahead_of_refused halted
  have pulled : last.source.pulled = config.read.length + 1 := by
    rw [same_source, reading.source_eq]
  rw [read_of_halted halted]
  have whole := progress.whole
  cases remaining with
  | nil =>
    -- all was shifted, and the token refused is the end marker
    rw [List.append_nil] at whole
    refine ⟨fun rest _ derivation => ?_, fun _ => ?_⟩
    · refine rooted.eof_notMem_of_derives derivation ?_
      simp [progress.awaits.eof]
    · have terminals := progress.terminals
      rw [whole] at terminals ⊢
      exact not_refused_of_derives rooted quiet ran terminals
  | cons symbol after =>
    have short : config.read.length + 1 ≤ (Token.sentence tokens).length := by
      rw [← whole, List.length_append, List.length_cons]
      omega
    rw [progress.awaits.lookahead_eq]
    refine ⟨fun rest terminals derivation => ?_, fun ended => ?_⟩
    · have unended : Symbol.eof ∉ rest := by
        intro mem
        exact rooted.eof_notMem_of_derives derivation (by simp [mem])
      -- tokens that go on in the other way run the machine into the same refusal
      obtain ⟨other, same, agrees⟩ := Token.exists_continuation short unended
      have longer : Token.sentence other = config.read ++ symbol :: rest := by
        rw [same, ← whole, List.take_length_add_append]
        simp
      have ran_other := run_start_withTokens ran (pulled ▸ agrees)
      rw [← longer] at terminals derivation
      exact not_refused_of_derives rooted quiet ran_other terminals derivation
    · refine absurd ?_ (Token.eof_notMem_sentence tokens)
      rw [← whole, ← ended]
      simp

end Quiet

theorem exists_sentence_of_rejected {error : ParseError}
    (rooted : Rooted registry lookahead automaton start root production)
    (productive : registry.Productive)
    (ran : runWatched registry automaton fuel (.start (.start root (.ofList tokens)))
      = (last, .rejected error)) :
    ∃ rest, (last.read ++ rest).all (·.isTerminal) = true ∧
      Derives registry.productions [start] (last.read ++ rest) := by
  obtain ⟨config, reading, ended⟩ := Reading.of_runWatched rooted ran
  have same : last.read = config.read := by
    obtain ⟨rfl, -⟩ | ⟨rfl, -⟩ | halted := ended
    · rfl
    · rfl
    · exact read_of_halted halted
  obtain ⟨path, remaining, progress⟩ := reading.progress
  obtain ⟨used, rest, -, -, derivation⟩ := progress.exists_completion rooted productive
  rw [same]
  exact ⟨rest, derivation.terminals, derivation.derives.derives⟩

end Machine

def Parse.read (parse : Parse) : List Symbol := (parse.moves.filterMap Move.token?).map (·.symbol)

namespace Parser

variable {grammar : Grammar} {lookahead : Lookahead} {parser : Parser} {name : String}

theorem read_parse {start : Symbol} {root : Nat} (at_root : parser.automaton.start? start = some root)
    (tokens : List Token) :
    (parser.parse start tokens).read =
      (parser.run (Machine.budget tokens.length parser.automaton.states.length) root tokens).1.read := by
  rw [parse, parseSource_eq at_root]
  rfl

/-- Where every nonterminal derives a sentence, a parse that fails has shifted the beginning of one,
however the conflicts of the table were resolved. If there are none, no sentence goes on with the token
refused, and if that is the end marker, what was shifted is no sentence. -/
theorem parse_rejects_in_place (built : ofGrammar grammar lookahead = .ok parser)
    (productive : parser.registry.Productive) (declared : name ∈ grammar.start)
    (tokens : List Token) :
    (∀ error, (parser.parse ⟨name⟩ tokens).verdict = .rejected error →
      ∃ rest, ((parser.parse ⟨name⟩ tokens).read ++ rest).all (·.isTerminal) = true ∧
        Derives parser.registry.productions [⟨name⟩] ((parser.parse ⟨name⟩ tokens).read ++ rest)) ∧
      (parser.automaton.conflicts = [] → ∀ token state,
        (parser.parse ⟨name⟩ tokens).verdict = .rejected (.unrecognizedInput token state) →
        (∀ rest,
          ((parser.parse ⟨name⟩ tokens).read ++ token.symbol :: rest).all (·.isTerminal) = true →
          ¬ Derives parser.registry.productions [⟨name⟩]
            ((parser.parse ⟨name⟩ tokens).read ++ token.symbol :: rest)) ∧
        (token.symbol = Symbol.eof →
          ¬ Derives parser.registry.productions [⟨name⟩] (parser.parse ⟨name⟩ tokens).read)) := by
  obtain ⟨root, at_root⟩ := start?_of_declared built declared
  obtain ⟨production, rooted⟩ := rooted built at_root
  have run_of_verdict : ∀ {verdict}, (parser.parse ⟨name⟩ tokens).verdict = verdict →
      parser.run (Machine.budget tokens.length parser.automaton.states.length) root tokens =
        ((parser.run (Machine.budget tokens.length parser.automaton.states.length) root tokens).1,
          verdict) := by
    intro verdict ended
    rw [parse, parseSource_eq at_root] at ended
    exact Prod.ext rfl ended
  rw [read_parse at_root]
  refine ⟨fun error rejected => ?_, fun quiet token state refused => ?_⟩
  · exact Machine.exists_sentence_of_rejected rooted productive (run_of_verdict rejected)
  · have ran := Machine.run_of_runWatched (run_of_verdict refused) (by simp)
    exact Machine.not_derives_of_refused rooted quiet ran

theorem nests_productive : nestsParser.registry.Productive := by
  have productions : nestsParser.registry.productions =
      [⟨⟨"s'"⟩, [⟨"s"⟩]⟩, ⟨⟨"s"⟩, [⟨"LParen"⟩, ⟨"s"⟩, ⟨"RParen"⟩]⟩, ⟨⟨"s"⟩, [⟨"Id"⟩]⟩] := by
    decide +kernel
  have nonterminals : nestsParser.registry.nonterminals = [⟨"s'"⟩, ⟨"s"⟩] := by decide +kernel
  have inner : Expands nestsParser.registry.productions [⟨"s"⟩] [⟨"Id"⟩] := by
    rw [productions]
    exact @Expands.nonterminal _ ⟨⟨"s"⟩, [⟨"Id"⟩]⟩ [] _ _ (by simp) (.refl rfl) .nil
  have outer : Expands nestsParser.registry.productions [⟨"s'"⟩] [⟨"Id"⟩] := by
    refine @Expands.nonterminal _ ⟨⟨"s'"⟩, [⟨"s"⟩]⟩ [] _ _ ?_ inner .nil
    rw [productions]
    simp
  rw [Registry.Productive, nonterminals]
  simp only [List.forall_mem_cons]
  exact ⟨⟨_, outer.derives, outer.terminals⟩, ⟨_, inner.derives, inner.terminals⟩, by simp⟩

/-- After `LParen Id` the table reduces on any token, and only then refuses the second `Id`. -/
theorem parse_rejects_in_place_nests :
    (nestsParser.parse ⟨"s"⟩ (tokensOf ["LParen", "Id", "Id"])).moves =
        [.shift ⟨⟨"LParen"⟩, "LParen"⟩ 2, .shift ⟨⟨"Id"⟩, "Id"⟩ 3, .reduce 2] ∧
      (∃ rest, Derives nestsParser.registry.productions [⟨"s"⟩]
        ([⟨"LParen"⟩, ⟨"Id"⟩] ++ rest)) ∧
      ∀ rest, ([⟨"LParen"⟩, ⟨"Id"⟩] ++ ⟨"Id"⟩ :: rest : List Symbol).all (·.isTerminal) = true →
        ¬ Derives nestsParser.registry.productions [⟨"s"⟩]
          ([⟨"LParen"⟩, ⟨"Id"⟩] ++ ⟨"Id"⟩ :: rest) := by
  have built : ofGrammar nests .lr0 = .ok nestsParser := eq_ok_of_isSome nests_accepted
  have declared : "s" ∈ nests.start := List.mem_cons_self
  have computed : nestsParser.automaton.conflicts = [] ∧
      (nestsParser.parse ⟨"s"⟩ (tokensOf ["LParen", "Id", "Id"])).moves =
        [.shift ⟨⟨"LParen"⟩, "LParen"⟩ 2, .shift ⟨⟨"Id"⟩, "Id"⟩ 3, .reduce 2] ∧
      (nestsParser.parse ⟨"s"⟩ (tokensOf ["LParen", "Id", "Id"])).verdict =
        .rejected (.unrecognizedInput ⟨⟨"Id"⟩, "Id"⟩ 4) := by decide +kernel
  obtain ⟨quiet, moves, refused⟩ := computed
  have read : (nestsParser.parse ⟨"s"⟩ (tokensOf ["LParen", "Id", "Id"])).read
      = [⟨"LParen"⟩, ⟨"Id"⟩] := by
    rw [Parse.read, moves]
    rfl
  obtain ⟨viable, stops⟩ :=
    parse_rejects_in_place built nests_productive declared (tokensOf ["LParen", "Id", "Id"])
  rw [read] at viable stops
  obtain ⟨rest, -, derivation⟩ := viable _ refused
  exact ⟨moves, ⟨rest, derivation⟩, (stops quiet _ _ refused).1⟩

end Parser

end ShiftReduce
