import ShiftReduce.Proofs.Automaton.Lookahead
import ShiftReduce.Proofs.Machine.Completeness

/-!
A table narrowed to FOLLOW sets runs as the wide one wherever that accepts. In an accepting run the
path and the rest of the input are at each step a string derived from the start symbol, so the
lookahead of a reduction is in FOLLOW of its left-hand side, and the narrow table keeps it.
-/
namespace ShiftReduce.Machine

variable {registry : Registry} {lookahead : Lookahead} {automaton wide narrow : Automaton}
  {start : Symbol} {root production fuel : Nat} {sentence path shifted remaining : List Symbol}
  {config last : Config} {watched : Watched}

theorem Progress.derives_of_accepted
    (rooted : Rooted registry lookahead automaton start root production)
    (ended : Symbol.eof ∉ sentence)
    (progress : Progress registry automaton root sentence watched.config path shifted remaining)
    (ran : runWatched registry automaton fuel watched = (last, .accepted)) :
    Derives registry.productions [start] (path ++ remaining) := by
  fun_induction runWatched registry automaton fuel watched generalizing path shifted remaining with
  | case1 => cases ran
  | case2 fuel watched next moved ih =>
    cases effect_of_step moved with
    | shift chosen =>
      obtain ⟨symbol, rest, rfl, further⟩ := progress.shift rooted chosen
      simpa using ih further ran
  | case3 => cases ran
  | case4 fuel watched next moved _ new =>
    rename_i ih
    cases effect_of_step moved with
    | @reduce id rule uncovered rest target chosen _ found cut edge =>
      obtain ⟨before, rfl, further⟩ := progress.reduce rooted chosen found cut edge
      have earlier := ih further ran
      rw [List.append_assoc, List.singleton_append] at earlier
      exact earlier.trans (.single (.replace before remaining (List.mem_of_getElem? found)))
  | case5 fuel watched last verdict halted =>
    cases ran
    obtain ⟨rfl, id, chosen, front⟩ := accept_of_step halted
    obtain ⟨-, rfl, rfl⟩ := progress.accept rooted ended chosen front
    have nothing : remaining = [] := by simpa using progress.whole
    rw [nothing]
    exact .refl [start]

theorem follows_of_derives {rule : Production}
    (rooted : Rooted registry lookahead automaton start root production)
    (awaits : config.Awaits remaining) (mem : rule ∈ registry.productions)
    (derivation : Derives registry.productions [start] (path ++ [rule.lhs] ++ remaining))
    (registered : config.lookahead.symbol ∈ registry.terminals) :
    registry.follows rule.lhs (registry.indexOf config.lookahead.symbol) = true := by
  have declared := List.mem_of_getElem? (Registry.getElem?_of_startProduction rooted.declared)
  have followed : registry.Followed _ :=
    (Registry.Followed.start rooted.wellformed declared).derives rooted.wellformed derivation
  rw [List.append_assoc, List.singleton_append] at followed
  exact followed.follows rooted.wellformed (Registry.mem_nonterminals.mpr ⟨rule, mem, rfl⟩)
    awaits.head (registry.getElem?_indexOf registered)

theorem step_of_narrows (narrows : wide.Narrows registry narrow) {action : Action}
    (chosen : wide.action? config.top config.lookahead.symbol = some action)
    (on : ∀ id, action = .reduce id →
      Candidate.reducesOn registry .slr id (registry.indexOf config.lookahead.symbol)
        config.lookahead.symbol = true) (standing : config.stack ≠ []) :
    step registry narrow config = step registry wide config := by
  rw [step_of_ne_nil standing, step_of_ne_nil standing, act, act, chosen, narrows.action?_eq chosen on]
  simp only [reduce, narrows.goto?_eq]

/-- What the wide table accepts the narrow one accepts by the same steps. -/
theorem runWatched_of_narrows (narrows : wide.Narrows registry narrow)
    (rooted : Rooted registry .lr0 wide start root production) (ended : Symbol.eof ∉ sentence)
    (progress : Progress registry wide root sentence watched.config path shifted remaining)
    (ran : runWatched registry wide fuel watched = (last, .accepted)) :
    runWatched registry narrow fuel watched = (last, .accepted) := by
  fun_induction runWatched registry wide fuel watched generalizing path shifted remaining with
  | case1 => cases ran
  | case2 fuel watched next moved ih =>
    cases effect_of_step moved with
    | shift chosen =>
      obtain ⟨_, _, -, further⟩ := progress.shift rooted chosen
      rw [runWatched, step_of_narrows narrows chosen (by simp) progress.stacked.ne_nil, moved]
      exact ih further ran
  | case3 => cases ran
  | case4 fuel watched next moved _ new =>
    rename_i ih
    cases effect_of_step moved with
    | @reduce id rule uncovered rest target chosen not_start found cut edge =>
      obtain ⟨before, rfl, further⟩ := progress.reduce rooted chosen found cut edge
      have derivation := further.derives_of_accepted rooted ended ran
      have follows := follows_of_derives rooted progress.awaits (List.mem_of_getElem? found)
        derivation (rooted.realizes.asks_of_action? chosen).1
      have on : Candidate.reducesOn registry .slr id
          (registry.indexOf watched.config.lookahead.symbol) watched.config.lookahead.symbol = true := by
        simpa [Candidate.reducesOn, not_start, Registry.lhs?, found] using follows
      rw [runWatched, step_of_narrows narrows chosen (by rintro _ ⟨⟩; exact on) progress.stacked.ne_nil,
        moved]
      exact (if_neg new).trans (ih further ran)
  | case5 fuel watched last verdict halted =>
    cases ran
    obtain ⟨rfl, id, chosen, front⟩ := accept_of_step halted
    obtain ⟨-, asks⟩ := rooted.realizes.asks_of_action? chosen
    cases asks with
    | @reduce _ item _ _ _ wide_on =>
      have on : Candidate.reducesOn registry .slr item.production
          (registry.indexOf watched.config.lookahead.symbol) watched.config.lookahead.symbol = true := by
        simpa [Candidate.reducesOn, front] using wide_on
      rw [runWatched, step_of_narrows narrows chosen (by rintro _ ⟨⟩; exact on) progress.stacked.ne_nil,
        halted]

end ShiftReduce.Machine

namespace ShiftReduce.Parser

variable {grammar : Grammar} {lookahead : Lookahead} {parser plain refined : Parser}

theorem narrows (built : ofGrammar grammar .lr0 = .ok plain)
    (refined_built : ofGrammar grammar .slr = .ok refined) :
    refined.registry = plain.registry ∧
      plain.automaton.Narrows plain.registry refined.automaton := by
  obtain ⟨accepted, made⟩ := ofGrammar_eq_ok built
  obtain ⟨again, refined_made⟩ := ofGrammar_eq_ok refined_built
  have same : refined.registry = plain.registry := Except.ok.inj (again.symm.trans accepted)
  rw [same] at refined_made
  exact ⟨same, Automaton.narrows_of_buildFor (wellformed built) made refined_made⟩

theorem parse_eq_of_accepted (built : ofGrammar grammar .lr0 = .ok plain)
    (refined_built : ofGrammar grammar .slr = .ok refined) {start : Symbol} {tokens : List Token}
    (accepted : (plain.parse start tokens).verdict = .accepted) :
    refined.parse start tokens = plain.parse start tokens := by
  obtain ⟨same, narrows⟩ := narrows built refined_built
  obtain ⟨root, last, at_root, ran⟩ := exists_run accepted (by simp)
  obtain ⟨production, rooted⟩ := rooted built at_root
  have refined_root := (narrows.start?_eq start).trans at_root
  have refined_ran := Machine.runWatched_of_narrows narrows rooted
    (Token.eof_notMem_sentence tokens) (Machine.progress_start _ _ root tokens) ran
  rw [parse, parse, parseSource_eq at_root, parseSource_eq refined_root, narrows.length_eq, ran, run,
    same, refined_ran]

/-- Reducing by FOLLOW sets loses no parse of the parser that reduces on every terminal: the same moves
are made and the same tokens pulled, however the conflicts of the tables were resolved. If that parser
has no conflicts, the two accept the same token lists. -/
theorem slr_extends_lr0 (built : ofGrammar grammar .lr0 = .ok plain) :
    ∃ refined, ofGrammar grammar .slr = .ok refined ∧
      (∀ start tokens, (plain.parse start tokens).verdict = .accepted →
        (refined.parse start tokens).verdict = .accepted ∧
          (refined.parse start tokens).reductions = (plain.parse start tokens).reductions ∧
          (refined.parse start tokens).pulled = (plain.parse start tokens).pulled) ∧
      (plain.automaton.conflicts = [] → ∀ start tokens,
        ((refined.parse start tokens).verdict = .accepted ↔
          (plain.parse start tokens).verdict = .accepted)) := by
  obtain ⟨automaton, refined_built⟩ := ofGrammar_of_accepted (ofGrammar_eq_ok built).1 .slr
  refine ⟨_, refined_built, fun start tokens accepted => ?_, fun quiet start tokens => ⟨?_, ?_⟩⟩
  · rw [parse_eq_of_accepted built refined_built accepted]
    exact ⟨accepted, rfl, rfl⟩
  · intro accepted
    obtain ⟨declared, used, derivation⟩ := exists_derivation_of_accepted refined_built accepted
    exact (parse_eq_of_rightmostDerivation built quiet declared derivation).1
  · intro accepted
    rw [parse_eq_of_accepted built refined_built accepted]
    exact accepted

/-- Rows of `X`, told to end by an empty production. -/
def tails : Grammar where
  start := ["s"]
  rules := [
    ("s", .symbol "a"),
    ("a", .seq [.symbol "X", .symbol "a"] ||| .empty)]
  nullable := ["a"]

theorem tails_accepted : (ofGrammar tails .lr0).toOption.isSome = true := by decide +kernel

def tailsParser : Parser := (ofGrammar tails .lr0).toOption.get tails_accepted

def nests : Grammar where
  start := ["s"]
  rules := [("s", .seq [.symbol "LParen", .symbol "s", .symbol "RParen"] ||| .symbol "Id")]
  nullable := []

theorem nests_accepted : (ofGrammar nests .lr0).toOption.isSome = true := by decide +kernel

def nestsParser : Parser := (ofGrammar nests .lr0).toOption.get nests_accepted

theorem slr_extends_lr0_tails :
    (tailsParser.automaton.conflicts ≠ [] ∧
      (tailsParser.parse ⟨"s"⟩ (tokensOf ["X", "X"])).verdict = .accepted ∧
      ∃ refined, ofGrammar tails .slr = .ok refined ∧
        (refined.parse ⟨"s"⟩ (tokensOf ["X", "X"])).verdict = .accepted ∧
        (refined.parse ⟨"s"⟩ (tokensOf ["X", "X"])).reductions
          = (tailsParser.parse ⟨"s"⟩ (tokensOf ["X", "X"])).reductions) ∧
    nestsParser.automaton.conflicts = [] ∧
      ∃ refined, ofGrammar nests .slr = .ok refined ∧
        ¬ (refined.parse ⟨"s"⟩ (tokensOf ["LParen", "Id"])).verdict = .accepted := by
  have built : ofGrammar tails .lr0 = .ok tailsParser := eq_ok_of_isSome tails_accepted
  have quiet_built : ofGrammar nests .lr0 = .ok nestsParser := eq_ok_of_isSome nests_accepted
  have computed : tailsParser.automaton.conflicts ≠ [] ∧
      (tailsParser.parse ⟨"s"⟩ (tokensOf ["X", "X"])).verdict = .accepted ∧
      nestsParser.automaton.conflicts = [] ∧
      ¬ (nestsParser.parse ⟨"s"⟩ (tokensOf ["LParen", "Id"])).verdict = .accepted := by
    decide +kernel
  obtain ⟨torn, accepted, quiet, refused⟩ := computed
  obtain ⟨refined, made, keeps, -⟩ := slr_extends_lr0 built
  obtain ⟨quiet_refined, quiet_made, -, agrees⟩ := slr_extends_lr0 quiet_built
  obtain ⟨still, reductions, -⟩ := keeps _ _ accepted
  refine ⟨⟨torn, accepted, refined, made, still, reductions⟩, quiet, quiet_refined,
    quiet_made, fun accepts => refused ((agrees quiet _ _).mp accepts)⟩

end ShiftReduce.Parser
