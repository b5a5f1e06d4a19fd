import ShiftReduce.Proofs.Machine.Soundness

/-!
The machine never fails inside a reduction, and its stack is never empty. A complete item in the state
on top has its right-hand side on the stack, and under it a state with an item that expects the left-hand
side; only the root state may have none, and it begins with an augmented production. What is refused is
refused by the table.
-/
namespace ShiftReduce.Machine

variable {registry : Registry} {lookahead : Lookahead} {automaton : Automaton} {start : Symbol}
  {root production id : Nat} {sentence : List Symbol} {config last : Config} {verdict : Verdict}
  {path shifted remaining : List Symbol}

theorem Stacked.length_eq {stack : List Nat} (stacked : Stacked automaton root stack path) :
    stack.length = path.length + 1 := by
  induction stacked with
  | root => rfl
  | push _ _ ih => simpa using ih

theorem Stacked.goto_exists {stack : List Nat} {before : List Symbol} {rule : Production}
    (rooted : Rooted registry lookahead automaton start root production)
    (stacked : Stacked automaton root stack (before ++ rule.rhs))
    (found : registry.productions[id]? = some rule)
    (not_start : registry.isStartProduction id = false)
    (begun : ItemPath registry production before ⟨id, 0⟩) :
    ∃ uncovered rest target, stack.drop rule.rhs.length = uncovered :: rest ∧
      automaton.goto? uncovered rule.lhs = some target := by
  obtain ⟨uncovered, rest, state, cut, at_state, items⟩ := stacked.drop.items rooted
  -- an augmented production apart, the right-hand side was begun where its left-hand side is expected
  obtain ⟨-, rfl⟩ | ⟨item, expecting, next⟩ := begun.begun found
  · rw [Automaton.isStartProduction_of_startProduction rooted.declared] at not_start
    cases not_start
  · obtain ⟨target, edge⟩ :=
      rooted.realizes.goto_exists at_state ((items item).mpr expecting) next
    exact ⟨uncovered, rest, target, cut, edge⟩

namespace Progress

theorem reducible (rooted : Rooted registry lookahead automaton start root production)
    (progress : Progress registry automaton root sentence config path shifted remaining)
    (chosen : automaton.action? config.top config.lookahead.symbol = some (.reduce id)) :
    ∃ rule, registry.productions[id]? = some rule ∧ rule.rhs.length ≤ config.depth - 1 ∧
      (registry.isStartProduction id = false → ∃ uncovered rest target,
        config.stack.drop rule.rhs.length = uncovered :: rest ∧
          automaton.goto? uncovered rule.lhs = some target) := by
  obtain ⟨-, asks⟩ := rooted.realizes.asks_of_action? chosen
  cases asks with
  | @reduce _ item at_top mem complete _ =>
    obtain ⟨rule, found, -⟩ := Registry.isComplete_iff.mp complete
    obtain ⟨dot, reached, -⟩ := progress.stacked.handle rooted at_top mem found complete
    obtain ⟨before, whole, begun⟩ := reached.trace found
    rw [dot, List.take_length] at whole
    subst whole
    refine ⟨rule, found, ?_, fun not_start => ?_⟩
    · have height := progress.stacked.length_eq
      rw [List.length_append] at height
      rw [Config.depth]
      omega
    · exact progress.stacked.goto_exists rooted found not_start begun

theorem halted_by_table (rooted : Rooted registry lookahead automaton start root production)
    (progress : Progress registry automaton root sentence config path shifted remaining)
    (halted : step registry automaton config = .halted last verdict) :
    last = config ∧ (verdict = .accepted ∨
      automaton.action? config.top config.lookahead.symbol = none ∧
        verdict = .rejected (.unrecognizedInput config.lookahead config.top)) := by
  cases effect_of_step halted with
  | empty empty => exact absurd empty progress.stacked.ne_nil
  | refuse none => exact ⟨rfl, .inr ⟨none, rfl⟩⟩
  | accept => exact ⟨rfl, .inl rfl⟩
  | corrupt chosen _ missing =>
    obtain ⟨_, found, -⟩ := progress.reducible rooted chosen
    cases missing.symm.trans found
  | strand chosen not_start found stranded =>
    obtain ⟨_, same, -, goes_on⟩ := progress.reducible rooted chosen
    cases found.symm.trans same
    obtain ⟨_, _, _, cut, edge⟩ := goes_on not_start
    rw [cut, List.head?_cons, Option.bind_some, edge] at stranded
    cases stranded

theorem ne_nil_of_run {fuel : Nat} {tokens : List Token}
    (rooted : Rooted registry lookahead automaton start root production)
    (ran : runWatched registry automaton fuel (.start (.start root (.ofList tokens)))
      = (last, verdict)) : last.stack ≠ [] := by
  obtain ⟨config, _, _, _, progress, ⟨rfl, -⟩ | ⟨rfl, -⟩ | halted⟩ := of_run rooted ran
  · exact progress.stacked.ne_nil
  · exact progress.stacked.ne_nil
  · exact (progress.halted_by_table rooted halted).1 ▸ progress.stacked.ne_nil

end Progress

end ShiftReduce.Machine

namespace ShiftReduce.Parser

variable {grammar : Grammar} {lookahead : Lookahead} {parser : Parser} {name : String}

/-- Wherever the run of a parse has come to, its stack is not empty, and a reduction that the table asks
for takes fewer states off it than there are, and unless it accepts, the state left on top has a goto for
it. So the only token a parse refuses is one without an action in the state reported. -/
theorem reductions_succeed (built : ofGrammar grammar lookahead = .ok parser)
    (declared : name ∈ grammar.start) (tokens : List Token) :
    ∃ root, parser.automaton.start? ⟨name⟩ = some root ∧
      (∀ fuel, (parser.run fuel root tokens).1.stack ≠ []) ∧
      (∀ fuel config id, parser.run fuel root tokens = (config, .unfinished) →
        parser.automaton.action? config.top config.lookahead.symbol = some (.reduce id) →
        ∃ production, parser.registry.productions[id]? = some production ∧
          production.rhs.length ≤ config.depth - 1 ∧
          (parser.registry.isStartProduction id = false → ∃ uncovered rest target,
            config.stack.drop production.rhs.length = uncovered :: rest ∧
              parser.automaton.goto? uncovered production.lhs = some target)) ∧
      ∀ token state,
        (parser.parse ⟨name⟩ tokens).verdict = .rejected (.unrecognizedInput token state) →
        parser.automaton.action? state token.symbol = none := by
  obtain ⟨root, at_root⟩ := start?_of_declared built declared
  obtain ⟨production, rooted⟩ := rooted built at_root
  refine ⟨root, at_root, fun fuel => Machine.Progress.ne_nil_of_run rooted rfl,
    fun fuel config id ran chosen => ?_, fun token state refused => ?_⟩
  · obtain ⟨_, _, _, _, progress, ⟨rfl, -⟩ | ⟨-, ended⟩ | halted⟩ := Machine.Progress.of_run rooted ran
    · exact progress.reducible rooted chosen
    · cases ended
    · cases Machine.effect_of_step halted
  · obtain ⟨_, last, same_root, ran⟩ := exists_run refused (by simp)
    cases at_root.symm.trans same_root
    obtain ⟨config, _, _, _, progress, ⟨-, ended⟩ | ⟨-, ended⟩ | halted⟩ :=
      Machine.Progress.of_run rooted ran
    · cases ended
    · cases ended
    · obtain ⟨-, ended | ⟨none, ended⟩⟩ := progress.halted_by_table rooted halted
      · cases ended
      · cases ended
        exact none

/-- After `Id Plus Id` the reduction of the sum takes all states but the root off the stack. -/
theorem reductions_succeed_sums :
    (∃ config production uncovered rest target,
      sumsParser.run 7 0 (tokensOf ["Id", "Plus", "Id"]) = (config, .unfinished) ∧
        sumsParser.automaton.action? config.top config.lookahead.symbol = some (.reduce 2) ∧
        sumsParser.registry.productions[2]? = some production ∧
        config.stack ≠ [] ∧ production.rhs.length ≤ config.depth - 1 ∧
        config.stack.drop production.rhs.length = uncovered :: rest ∧
        sumsParser.automaton.goto? uncovered production.lhs = some target) ∧
      (sumsParser.parse ⟨"e"⟩ (tokensOf ["Id", "Plus", "Plus"])).verdict
        = .rejected (.unrecognizedInput ⟨⟨"Plus"⟩, "Plus"⟩ 4) ∧
      sumsParser.automaton.action? 4 ⟨"Plus"⟩ = none := by
  have built : ofGrammar sums .slr = .ok sumsParser := eq_ok_of_isSome sums_accepted
  have declared : "e" ∈ sums.start := List.mem_cons_self
  have computed : (sumsParser.run 7 0 (tokensOf ["Id", "Plus", "Id"])).2 = .unfinished ∧
      sumsParser.automaton.action? (sumsParser.run 7 0 (tokensOf ["Id", "Plus", "Id"])).1.top
        (sumsParser.run 7 0 (tokensOf ["Id", "Plus", "Id"])).1.lookahead.symbol = some (.reduce 2) ∧
      sumsParser.registry.isStartProduction 2 = false ∧
      sumsParser.automaton.start? ⟨"e"⟩ = some 0 ∧
      (sumsParser.parse ⟨"e"⟩ (tokensOf ["Id", "Plus", "Plus"])).verdict
        = .rejected (.unrecognizedInput ⟨⟨"Plus"⟩, "Plus"⟩ 4) := by decide +kernel
  obtain ⟨unfinished, chosen, not_start, at_root, refused⟩ := computed
  obtain ⟨root, found, standing, reductions, -⟩ :=
    reductions_succeed built declared (tokensOf ["Id", "Plus", "Id"])
  obtain ⟨-, -, -, -, refusals⟩ := reductions_succeed built declared (tokensOf ["Id", "Plus", "Plus"])
  cases at_root.symm.trans found
  obtain ⟨production, known, short, goes_on⟩ :=
    reductions 7 _ 2 (Prod.ext rfl unfinished) chosen
  obtain ⟨uncovered, rest, target, cut, edge⟩ := goes_on not_start
  exact ⟨⟨_, production, uncovered, rest, target, Prod.ext rfl unfinished, chosen, known,
    standing 7, short, cut, edge⟩, refused, refusals _ _ refused⟩

end ShiftReduce.Parser
