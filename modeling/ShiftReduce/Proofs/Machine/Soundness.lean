import ShiftReduce.Proofs.Automaton.Action
import ShiftReduce.Proofs.Derivation
import ShiftReduce.Proofs.Machine.Input
import ShiftReduce.Proofs.Machine.Stack
import ShiftReduce.Proofs.Machine.Step
import ShiftReduce.Proofs.Parser

/-!
Every accepting run is a rightmost derivation read backwards, however the conflicts of the table were
resolved. The invariant ties the stack to a path of the automaton and the reductions made so far to a
derivation that rewrites the symbols of this path into the symbols already shifted.
-/
namespace ShiftReduce

def Move.token? : Move → Option Token
  | .shift token _ => some token
  | .reduce _ => none

namespace Machine

namespace Config

variable {config : Config}

/-- The productions reduced so far, latest first. -/
def derivation (config : Config) : List Nat := config.moves.filterMap Move.reduction?

def read (config : Config) : List Symbol :=
  (config.moves.reverse.filterMap Move.token?).map (·.symbol)

theorem read_shift (target : Nat) :
    (config.shift target).read = config.read ++ [config.lookahead.symbol] := by
  simp [read, shift, Move.token?]

theorem read_reduce (id : Nat) :
    read { config with moves := .reduce id :: config.moves } = config.read := by
  simp [read, Move.token?]

end Config

/-- The stack follows `path`, the reductions derive what was shifted from it, and what was shifted
together with what remains is the sentence. -/
structure Progress (registry : Registry) (automaton : Automaton) (root : Nat)
    (sentence : List Symbol) (config : Config) (path shifted remaining : List Symbol) : Prop where
  stacked : Stacked automaton root config.stack path
  derives : Rightmost registry.productions config.derivation path shifted
  terminals : shifted.all (·.isTerminal) = true
  whole : shifted ++ remaining = sentence
  awaits : config.Awaits remaining

theorem progress_start (registry : Registry) (automaton : Automaton) (root : Nat)
    (tokens : List Token) :
    Progress registry automaton root (Token.sentence tokens)
      (.start root (.ofList tokens)) [] [] (Token.sentence tokens) :=
  ⟨.root, .refl [], rfl, rfl, Config.awaits_start root tokens⟩

namespace Progress

variable {registry : Registry} {lookahead : Lookahead} {automaton : Automaton} {start : Symbol}
  {root production : Nat} {sentence : List Symbol} {config : Config}
  {path shifted remaining : List Symbol}

theorem shift {target : Nat} (rooted : Rooted registry lookahead automaton start root production)
    (progress : Progress registry automaton root sentence config path shifted remaining)
    (chosen : automaton.action? config.top config.lookahead.symbol = some (.shift target)) :
    ∃ symbol rest, remaining = symbol :: rest ∧
      Progress registry automaton root sentence (config.shift target)
        (path ++ [symbol]) (shifted ++ [symbol]) rest := by
  obtain ⟨registered, asks⟩ := rooted.realizes.asks_of_action? chosen
  cases asks with
  | shift edge =>
    cases remaining with
    | nil =>
      have unended := rooted.realizes.ne_eof_of_shift rooted.wellformed chosen
      exact absurd progress.awaits.eof unended
    | cons symbol rest =>
      have terminal := rooted.wellformed.registered_terminal _ registered
      rw [progress.awaits.lookahead_eq] at edge terminal
      refine ⟨symbol, rest, rfl, progress.stacked.push_top edge, ?_, ?_, ?_, progress.awaits.shift target⟩
      · exact progress.derives.append_terminals (by simp [terminal])
      · simp [progress.terminals, terminal]
      · rw [List.append_assoc, List.singleton_append, progress.whole]

theorem reduce {id uncovered target : Nat} {rule : Production} {rest : List Nat}
    (rooted : Rooted registry lookahead automaton start root production)
    (progress : Progress registry automaton root sentence config path shifted remaining)
    (chosen : automaton.action? config.top config.lookahead.symbol = some (.reduce id))
    (found : registry.productions[id]? = some rule)
    (cut : config.stack.drop rule.rhs.length = uncovered :: rest)
    (edge : automaton.goto? uncovered rule.lhs = some target) :
    ∃ before, path = before ++ rule.rhs ∧
      Progress registry automaton root sentence (config.reduced id target (uncovered :: rest))
        (before ++ [rule.lhs]) shifted remaining := by
  obtain ⟨-, asks⟩ := rooted.realizes.asks_of_action? chosen
  cases asks with
  | reduce at_top mem complete on =>
    obtain ⟨-, -, before, rfl⟩ := progress.stacked.handle rooted at_top mem found complete
    refine ⟨before, rfl, ?_, ?_, progress.terminals, progress.whole, progress.awaits⟩
    · have under := progress.stacked.drop
      rw [cut] at under
      exact under.push edge
    · refine .step found rfl ?_
      rw [List.append_nil]
      exact progress.derives

theorem accept {id : Nat} (rooted : Rooted registry lookahead automaton start root production)
    (progress : Progress registry automaton root sentence config path shifted remaining)
    (ended : Symbol.eof ∉ sentence)
    (chosen : automaton.action? config.top config.lookahead.symbol = some (.reduce id))
    (front : registry.isStartProduction id = true) :
    id = production ∧ path = [start] ∧ shifted = sentence := by
  obtain ⟨-, asks⟩ := rooted.realizes.asks_of_action? chosen
  cases asks with
  | @reduce state item at_top mem complete _ =>
    have inside : item.production < registry.starts.length := of_decide_eq_true front
    have found := rooted.wellformed.augmented_at (List.getElem?_eq_getElem inside)
    obtain ⟨dot, reached, -⟩ := progress.stacked.handle rooted at_top mem found complete
    obtain ⟨same, read⟩ := reached.augmented rooted.wellformed inside
    have begun := Registry.getElem?_of_startProduction rooted.declared
    rw [← same, List.getElem?_eq_getElem inside] at begun
    cases begun
    refine ⟨same, ?_, ?_⟩
    · rw [read, dot]
      rfl
    · cases remaining with
      | nil => rw [← progress.whole, List.append_nil]
      | cons symbol rest =>
        have last := rooted.realizes.eof_of_accept chosen front
        rw [progress.awaits.lookahead_eq] at last
        rw [← progress.whole, last] at ended
        simp at ended

end Progress

/-- Progress on the sentence of `tokens`, with what was shifted as the moves tell it, and one more
token pulled than was shifted. -/
structure Reading (registry : Registry) (automaton : Automaton) (root : Nat) (tokens : List Token)
    (config : Config) : Prop where
  progress : ∃ path remaining,
    Progress registry automaton root (Token.sentence tokens) config path config.read remaining
  source_eq : config.source = ⟨(TokenSource.ofList tokens).tokenAt, config.read.length + 1⟩

namespace Reading

variable {registry : Registry} {lookahead : Lookahead} {automaton : Automaton} {start : Symbol}
  {root production fuel : Nat} {tokens : List Token} {config next last : Config} {verdict : Verdict}

theorem initial : Reading registry automaton root tokens (.start root (.ofList tokens)) :=
  ⟨⟨_, _, progress_start registry automaton root tokens⟩, rfl⟩

variable (rooted : Rooted registry lookahead automaton start root production)

include rooted

theorem shifted (reading : Reading registry automaton root tokens config)
    (moved : step registry automaton config = .shifted next) :
    Reading registry automaton root tokens next := by
  obtain ⟨⟨path, remaining, progress⟩, source_eq⟩ := reading
  cases effect_of_step moved with
  | shift chosen =>
    obtain ⟨symbol, rest, rfl, further⟩ := progress.shift rooted chosen
    rw [← progress.awaits.lookahead_eq, ← Config.read_shift] at further
    refine ⟨⟨_, _, further⟩, ?_⟩
    rw [Config.read_shift, List.length_append, List.length_singleton]
    simp only [Config.shift, TokenSource.next, source_eq]

theorem reduced (reading : Reading registry automaton root tokens config)
    (moved : step registry automaton config = .reduced next) :
    Reading registry automaton root tokens next := by
  obtain ⟨⟨path, remaining, progress⟩, source_eq⟩ := reading
  cases effect_of_step moved with
  | @reduce id _ _ _ _ chosen _ found cut edge =>
    obtain ⟨before, -, further⟩ := progress.reduce rooted chosen found cut edge
    rw [← Config.read_reduce id] at further source_eq
    exact ⟨⟨_, _, further⟩, source_eq⟩

theorem of_runWatched
    (ran : runWatched registry automaton fuel (.start (.start root (.ofList tokens)))
      = (last, verdict)) :
    ∃ config, Reading registry automaton root tokens config ∧
      (last = config ∧ verdict = .unfinished ∨
        last = config ∧ verdict = .rejected (.reduceLoop last.lookahead last.top) ∨
        step registry automaton config = .halted last verdict) := by
  have initially : Reading registry automaton root tokens (.start root (.ofList tokens)) := initial
  obtain ⟨reading, ended⟩ | ⟨reading, ended⟩ | ⟨config, reading, halted⟩ :=
    runWatched_keeps (fun _ _ => shifted rooted) (fun _ _ => reduced rooted) initially ran
  · exact ⟨last, reading, .inl ⟨rfl, ended⟩⟩
  · exact ⟨last, reading, .inr (.inl ⟨rfl, ended⟩)⟩
  · exact ⟨config, reading, .inr (.inr halted)⟩

end Reading

namespace Progress

variable {registry : Registry} {lookahead : Lookahead} {automaton : Automaton} {start : Symbol}
  {root production : Nat}

theorem of_run {fuel : Nat} {tokens : List Token} {last : Config} {verdict : Verdict}
    (rooted : Rooted registry lookahead automaton start root production)
    (ran : runWatched registry automaton fuel (.start (.start root (.ofList tokens)))
      = (last, verdict)) :
    ∃ config path shifted remaining,
      Progress registry automaton root (Token.sentence tokens) config path shifted remaining ∧
      (last = config ∧ verdict = .unfinished ∨
        last = config ∧ verdict = .rejected (.reduceLoop last.lookahead last.top) ∨
        step registry automaton config = .halted last verdict) := by
  obtain ⟨config, reading, ended⟩ := Reading.of_runWatched rooted ran
  obtain ⟨path, remaining, progress⟩ := reading.progress
  exact ⟨config, path, config.read, remaining, progress, ended⟩

theorem of_accepted {fuel : Nat} {tokens : List Token} {last : Config}
    (rooted : Rooted registry lookahead automaton start root production)
    (ran : runWatched registry automaton fuel (.start (.start root (.ofList tokens)))
      = (last, .accepted)) :
    ∃ id path shifted remaining,
      Progress registry automaton root (Token.sentence tokens) last path shifted remaining ∧
      automaton.action? last.top last.lookahead.symbol = some (.reduce id) ∧
      registry.isStartProduction id = true := by
  obtain ⟨config, path, shifted, remaining, progress, ⟨-, ended⟩ | ⟨-, ended⟩ | halted⟩ :=
    of_run rooted ran
  · cases ended
  · cases ended
  · obtain ⟨rfl, id, chosen, front⟩ := accept_of_step halted
    exact ⟨id, path, shifted, remaining, progress, chosen, front⟩

end Progress

end Machine

end ShiftReduce

namespace ShiftReduce.Parser

theorem reductions_reverse (config : Machine.Config) (pulled : Nat) (verdict : Verdict) :
    (Parse.reductions ⟨config.moves.reverse, pulled, verdict⟩).reverse = config.derivation := by
  rw [Parse.reductions, ← List.filterMap_reverse, List.reverse_reverse]
  rfl

theorem exists_derivation_of_accepted {grammar : Grammar} {lookahead : Lookahead} {parser : Parser}
    (built : ofGrammar grammar lookahead = .ok parser) {start : Symbol} {tokens : List Token}
    (accepted : (parser.parse start tokens).verdict = .accepted) :
    start.name ∈ grammar.start ∧ ∃ used,
      RightmostDerivation parser.registry.productions start used (Token.sentence tokens) := by
  obtain ⟨root, last, at_root, ran⟩ := exists_run accepted (by simp)
  obtain ⟨production, rooted⟩ := rooted built at_root
  obtain ⟨id, path, shifted, remaining, progress, chosen, front⟩ :=
    Machine.Progress.of_accepted rooted ran
  obtain ⟨-, rfl, rfl⟩ := progress.accept rooted (Token.eof_notMem_sentence tokens) chosen front
  exact ⟨declared_of_start? built at_root, last.derivation, progress.terminals, progress.derives⟩

/-- The reductions of an accepting parse, read backwards, are a rightmost derivation of the sentence
from the start symbol asked for, and the production it accepts by is the augmented one of this symbol. -/
theorem rightmostDerivation_of_accepted {grammar : Grammar} {lookahead : Lookahead}
    {parser : Parser} (built : ofGrammar grammar lookahead = .ok parser) {start : Symbol}
    {tokens : List Token} (accepted : (parser.parse start tokens).verdict = .accepted) :
    RightmostDerivation parser.registry.productions start
        (parser.parse start tokens).reductions.reverse (Token.sentence tokens) ∧
      ∃ root last id, parser.automaton.start? start = some root ∧
        parser.run (Machine.budget tokens.length parser.automaton.states.length) root tokens
          = (last, .accepted) ∧
        parser.automaton.action? last.top last.lookahead.symbol = some (.reduce id) ∧
        parser.registry.startProduction start = some id := by
  cases at_root : parser.automaton.start? start with
  | none =>
    simp [parse, parseSource, at_root] at accepted
  | some root =>
    obtain ⟨production, rooted⟩ := rooted built at_root
    rw [parse, parseSource_eq at_root] at accepted ⊢
    cases ran : parser.run (Machine.budget tokens.length parser.automaton.states.length) root tokens with
    | mk last verdict =>
      rw [ran] at accepted
      obtain rfl : verdict = .accepted := accepted
      obtain ⟨id, path, shifted, remaining, progress, chosen, front⟩ :=
        Machine.Progress.of_accepted rooted ran
      obtain ⟨rfl, rfl, rfl⟩ :=
        progress.accept rooted (Token.eof_notMem_sentence tokens) chosen front
      refine ⟨⟨progress.terminals, ?_⟩, root, last, id, rfl, ran, chosen, rooted.declared⟩
      rw [reductions_reverse]
      exact progress.derives

def sums : Grammar where
  start := ["e", "t"]
  rules := [
    ("e", .seq [.symbol "e", .symbol "Plus", .symbol "e"] ||| .symbol "t"),
    ("t", .symbol "Id")]
  nullable := []

theorem sums_accepted : (ofGrammar sums .slr).toOption.isSome = true := by decide +kernel

def sumsParser : Parser := (ofGrammar sums .slr).toOption.get sums_accepted

/-- One token for each name, which is also its text. -/
def tokensOf (names : List String) : List Token := names.map fun name => ⟨⟨name⟩, name⟩

/-- The table of sums has a conflict on `Plus`, and the derivation found is still a derivation. -/
theorem rightmostDerivation_of_sums :
    sumsParser.automaton.conflicts ≠ [] ∧
      (sumsParser.parse ⟨"e"⟩ (tokensOf ["Id", "Plus", "Id", "Plus", "Id"])).verdict = .accepted ∧
      RightmostDerivation sumsParser.registry.productions ⟨"e"⟩
        (sumsParser.parse ⟨"e"⟩ (tokensOf ["Id", "Plus", "Id", "Plus", "Id"])).reductions.reverse
        [⟨"Id"⟩, ⟨"Plus"⟩, ⟨"Id"⟩, ⟨"Plus"⟩, ⟨"Id"⟩] := by
  have accepted : (sumsParser.parse ⟨"e"⟩
      (tokensOf ["Id", "Plus", "Id", "Plus", "Id"])).verdict = .accepted := by decide +kernel
  have found := rightmostDerivation_of_accepted (eq_ok_of_isSome sums_accepted) accepted
  exact ⟨by decide +kernel, accepted, found.1⟩

end ShiftReduce.Parser
