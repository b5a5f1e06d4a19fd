import ShiftReduce.Proofs.Machine.Safety
import ShiftReduce.Proofs.Machine.Visits

/-!
Every run of a parser ends. Between two shifts each reduction that is not caught raises the rank of
the watch, which has a bound; a shift uses up one symbol of the input and leaves the stack at most as
much higher as there are states. The step budget is beyond what this adds up to.
-/
namespace ShiftReduce

def Verdict.IsFinal (verdict : Verdict) : Prop :=
  verdict = .accepted ∨ ∃ error, verdict = .rejected error

theorem Verdict.IsFinal.ne_unfinished {verdict : Verdict} (final : verdict.IsFinal) :
    verdict ≠ .unfinished := by
  rintro rfl
  simp [IsFinal] at final

namespace Machine

section Limit

variable (states remaining base : Nat)

/-- More steps than a run can take with `remaining` symbols to read and the stack at depth `base`. -/
def limit : Nat :=
  (remaining + 1) * ((base + remaining * states) * (states + 1) ^ states + 1)

variable {base} in
theorem limit_mono {lower : Nat} (le : lower ≤ base) :
    limit states remaining lower ≤ limit states remaining base := by
  have inner : (lower + remaining * states) * (states + 1) ^ states
      ≤ (base + remaining * states) * (states + 1) ^ states := Nat.mul_le_mul_right _ (by omega)
  exact Nat.mul_le_mul_left _ (by omega)

theorem limit_succ : base * (states + 1) ^ states + 1 + limit states remaining (base + states)
    ≤ limit states (remaining + 1) base := by
  have same : base + states + remaining * states = base + (remaining + 1) * states := by
    rw [Nat.succ_mul]
    omega
  have inner : base * (states + 1) ^ states
      ≤ (base + (remaining + 1) * states) * (states + 1) ^ states :=
    Nat.mul_le_mul_right _ (by omega)
  rw [limit, limit, same, Nat.succ_mul (remaining + 1)]
  omega

theorem lt_limit : base * (states + 1) ^ states < limit states remaining base := by
  have inner : base * (states + 1) ^ states
      ≤ (base + remaining * states) * (states + 1) ^ states := Nat.mul_le_mul_right _ (by omega)
  rw [limit, Nat.succ_mul]
  omega

variable {remaining} in
theorem limit_le_budget {tokens : Nat} (short : remaining ≤ tokens) :
    limit states remaining 1 ≤ budget tokens states := by
  have positive : 0 < (states + 1) ^ states := Nat.pow_pos (Nat.succ_pos states)
  have levels : 1 + remaining * states + 1 ≤ (tokens + 2) * (states + 1) := by
    have fewer : remaining * states ≤ tokens * states := Nat.mul_le_mul_right _ short
    rw [Nat.add_mul, Nat.mul_succ, Nat.mul_succ]
    omega
  calc limit states remaining 1
      ≤ (tokens + 2) * ((1 + remaining * states) * (states + 1) ^ states + 1) :=
        Nat.mul_le_mul_right _ (by omega)
    _ ≤ (tokens + 2) * ((1 + remaining * states + 1) * (states + 1) ^ states) := by
        refine Nat.mul_le_mul_left _ ?_
        rw [Nat.succ_mul (1 + remaining * states)]
        omega
    _ ≤ (tokens + 2) * ((tokens + 2) * (states + 1) * (states + 1) ^ states) :=
        Nat.mul_le_mul_left _ (Nat.mul_le_mul_right _ levels)
    _ = (tokens + 2) * (tokens + 2) * (states + 1) ^ (states + 1) := by
        rw [Nat.pow_succ (states + 1), Nat.mul_comm ((states + 1) ^ states)]
        simp only [Nat.mul_assoc]
    _ ≤ budget tokens states := by
        refine Nat.mul_le_mul_left _ ?_
        exact Nat.le_trans (Nat.pow_le_pow_left (by omega) _)
          (Nat.pow_le_pow_right (by omega) (by omega))

end Limit

variable {registry : Registry} {lookahead : Lookahead} {automaton : Automaton} {start : Symbol}
  {root production base low : Nat} {sentence : List Symbol} {watched : Watched}
  {path shifted remaining : List Symbol}

theorem Progress.top_lt {config : Config}
    (rooted : Rooted registry lookahead automaton start root production)
    (progress : Progress registry automaton root sentence config path shifted remaining) :
    config.top < automaton.states.length := by
  obtain ⟨state, at_top, -⟩ := progress.stacked.top_items rooted
  exact (List.getElem?_eq_some_iff.mp at_top).1

/-- With fuel for all the steps that can follow, a run does not stop for want of fuel. -/
theorem runWatched_final {fuel : Nat}
    (rooted : Rooted registry lookahead automaton start root production)
    (progress : Progress registry automaton root sentence watched.config path shifted remaining)
    (watch : Watch automaton.states.length base low watched)
    (enough : limit automaton.states.length remaining.length base
      ≤ fuel + Watch.rank automaton.states.length base low watched) :
    Verdict.IsFinal (runWatched registry automaton fuel watched).2 := by
  induction fuel generalizing watched path shifted remaining base low with
  | zero =>
    have ranked := watch.rank_lt
    have limited := lt_limit automaton.states.length remaining.length base
    omega
  | succ fuel ih =>
    have ranked := watch.rank_lt
    unfold runWatched
    cases outcome : step registry automaton watched.config with
    | shifted next =>
      cases effect_of_step outcome with
      | shift chosen =>
        -- the watch starts anew, fewer than `states` levels higher and with one symbol less to read
        obtain ⟨symbol, rest, rfl, further⟩ := progress.shift rooted chosen
        refine ih further (.start further.stacked.ne_nil (further.top_lt rooted)) ?_
        have height := watch.depth_lt
        have lowered := watch.lowered
        have split := limit_succ automaton.states.length rest.length base
        have grown : limit automaton.states.length rest.length (watched.config.depth + 1)
            ≤ limit automaton.states.length rest.length (base + automaton.states.length) :=
          limit_mono _ _ (by omega)
        rw [List.length_cons] at enough
        change limit automaton.states.length rest.length (watched.config.depth + 1) ≤ _
        omega
    | reduced next =>
      dsimp only
      split
      · exact .inr ⟨_, rfl⟩
      · rename_i new
        obtain ⟨uncovered, cut, -⟩ := cut_of_step outcome
        cases effect_of_step outcome with
        | @reduce id rule under rest target chosen _ found dropped edge =>
          -- what the budget loses by the step the rank gains
          obtain ⟨before, -, further⟩ := progress.reduce rooted chosen found dropped edge
          have known := further.top_lt rooted
          have raised := watch.rank_lt_reduce uncovered
          exact ih further (watch.reduce uncovered cut known new) (by omega)
    | halted last verdict =>
      obtain ⟨-, rfl | ⟨-, rfl⟩⟩ := progress.halted_by_table rooted outcome
      · exact .inl rfl
      · exact .inr ⟨_, rfl⟩

theorem top_lt_of_reduced {config next : Config}
    (moved : step registry automaton config = .reduced next) :
    config.top < automaton.states.length := by
  cases effect_of_step moved with
  | reduce chosen =>
    obtain ⟨state, at_top, -⟩ := Option.bind_eq_some_iff.mp chosen
    exact (List.getElem?_eq_some_iff.mp at_top).1

theorem Watch.caught {configs : Nat → Config} {i : Nat}
    (reduces : ∀ i, step registry automaton (configs i) = .reduced (configs (i + 1)))
    (here : watched.config = configs i)
    (watch : Watch automaton.states.length base low watched) :
    ∃ n, runWatched registry automaton n watched =
      (configs (i + n), .rejected (.reduceLoop (configs i).lookahead (configs (i + n)).top)) := by
  -- how far the rank is from its bound; every reduction that is not caught brings it closer
  obtain ⟨gap, within⟩ : ∃ gap, base * (automaton.states.length + 1) ^ automaton.states.length
      ≤ gap + Watch.rank automaton.states.length base low watched := ⟨_, Nat.le_add_right _ _⟩
  induction gap generalizing i low watched with
  | zero =>
    have ranked := watch.rank_lt
    omega
  | succ gap ih =>
    have moved := reduces i
    rw [← here] at moved
    obtain ⟨uncovered, cut, same⟩ := cut_of_step moved
    rw [here] at same
    by_cases repeats : (Watched.surviving watched.visits (configs (i + 1))).any
        (·.isRepeatedBy (configs (i + 1))) = true
    · refine ⟨1, ?_⟩
      simp only [runWatched, moved, repeats, if_true, same]
    · have raised := watch.rank_lt_reduce uncovered
      have known := top_lt_of_reduced (reduces (i + 1))
      obtain ⟨n, ran⟩ := ih rfl (watch.reduce uncovered cut known repeats) (by omega)
      refine ⟨n + 1, ?_⟩
      rw [same] at ran
      simp only [runWatched, moved, repeats]
      rw [← Nat.add_assoc i n 1, Nat.add_right_comm i n 1]
      exact ran

section Budget

variable {tokens : List Token} {fuel : Nat}
  (rooted : Rooted registry lookahead automaton start root production)

include rooted

theorem runWatched_start_final (enough : budget tokens.length automaton.states.length ≤ fuel) :
    Verdict.IsFinal
      (runWatched registry automaton fuel (.start (.start root (.ofList tokens)))).2 := by
  have progress := progress_start registry automaton root tokens
  refine runWatched_final rooted progress (.start progress.stacked.ne_nil (progress.top_lt rooted)) ?_
  have limited := limit_le_budget automaton.states.length (Token.length_sentence_le tokens)
  change limit automaton.states.length (Token.sentence tokens).length 1 ≤ _
  omega

theorem runWatched_start_of_finished
    (finished : (runWatched registry automaton fuel
      (.start (.start root (.ofList tokens)))).2 ≠ .unfinished) :
    runWatched registry automaton (budget tokens.length automaton.states.length)
        (.start (.start root (.ofList tokens))) =
      runWatched registry automaton fuel (.start (.start root (.ofList tokens))) := by
  have final := runWatched_start_final rooted
    (Nat.le_refl (budget tokens.length automaton.states.length))
  rw [← runWatched_more final.ne_unfinished fuel, Nat.add_comm, runWatched_more finished]

end Budget

end Machine

namespace Parser

variable {grammar : Grammar} {lookahead : Lookahead} {parser : Parser} {start : Symbol} {root : Nat}

theorem run_final (built : ofGrammar grammar lookahead = .ok parser)
    (at_root : parser.automaton.start? start = some root) {tokens : List Token} {fuel : Nat}
    (enough : Machine.budget tokens.length parser.automaton.states.length ≤ fuel) :
    (parser.run fuel root tokens).2.IsFinal := by
  obtain ⟨production, rooted⟩ := rooted built at_root
  exact Machine.runWatched_start_final rooted enough

theorem run_of_budget_le (built : ofGrammar grammar lookahead = .ok parser)
    (at_root : parser.automaton.start? start = some root) {tokens : List Token} {fuel : Nat}
    (enough : Machine.budget tokens.length parser.automaton.states.length ≤ fuel) :
    parser.run fuel root tokens =
      parser.run (Machine.budget tokens.length parser.automaton.states.length) root tokens := by
  have final := run_final built at_root (Nat.le_refl
    (Machine.budget tokens.length parser.automaton.states.length))
  obtain ⟨more, rfl⟩ := Nat.exists_eq_add_of_le enough
  exact Machine.runWatched_more final.ne_unfinished more

theorem parse_final (built : ofGrammar grammar lookahead = .ok parser) (start : Symbol)
    (tokens : List Token) : (parser.parse start tokens).verdict.IsFinal := by
  cases at_root : parser.automaton.start? start with
  | none =>
    simp only [parse, parseSource, at_root]
    exact .inr ⟨_, rfl⟩
  | some root =>
    rw [parse, parseSource_eq at_root]
    exact run_final built at_root (Nat.le_refl _)

theorem run_of_finished (built : ofGrammar grammar lookahead = .ok parser)
    (at_root : parser.automaton.start? start = some root) {tokens : List Token} {fuel : Nat}
    (finished : (parser.run fuel root tokens).2 ≠ .unfinished) :
    parser.run (Machine.budget tokens.length parser.automaton.states.length) root tokens =
      parser.run fuel root tokens := by
  obtain ⟨production, rooted⟩ := rooted built at_root
  exact Machine.runWatched_start_of_finished rooted finished

theorem verdict_of_declared (built : ofGrammar grammar lookahead = .ok parser) {name : String}
    (declared : name ∈ grammar.start) (tokens : List Token) :
    (parser.parse ⟨name⟩ tokens).verdict = .accepted ∨
      (∃ token state,
        (parser.parse ⟨name⟩ tokens).verdict = .rejected (.unrecognizedInput token state)) ∨
      ∃ token state, (parser.parse ⟨name⟩ tokens).verdict = .rejected (.reduceLoop token state) := by
  obtain ⟨root, at_root⟩ := start?_of_declared built declared
  obtain ⟨production, rooted⟩ := rooted built at_root
  have final := run_final built at_root (Nat.le_refl
    (Machine.budget tokens.length parser.automaton.states.length))
  rw [parse, parseSource_eq at_root]
  cases ran : parser.run (Machine.budget tokens.length parser.automaton.states.length) root tokens with
  | mk last verdict =>
    rw [ran] at final
    obtain ⟨config, path, shifted, remaining, progress, ⟨-, rfl⟩ | ⟨-, rfl⟩ | halted⟩ :=
      Machine.Progress.of_run rooted ran
    · exact absurd rfl final.ne_unfinished
    · exact .inr (.inr ⟨_, _, rfl⟩)
    · obtain ⟨-, rfl | ⟨-, rfl⟩⟩ := progress.halted_by_table rooted halted
      · exact .inl rfl
      · exact .inr (.inl ⟨_, _, rfl⟩)

/-- Whatever the grammar, the start symbol and the tokens, a parse accepts or refuses, and more fuel
changes nothing about it. Reductions that would go on forever are among those it refuses. -/
theorem parse_terminates (built : ofGrammar grammar lookahead = .ok parser) (start : Symbol)
    (tokens : List Token) :
    (parser.parse start tokens).verdict.IsFinal ∧
      (∀ fuel, Machine.budget tokens.length parser.automaton.states.length ≤ fuel →
        parser.parseSource fuel start (.ofList tokens) = parser.parse start tokens) ∧
      ∀ configs : Nat → Machine.Config,
        (∀ i, Machine.step parser.registry parser.automaton (configs i) = .reduced (configs (i + 1))) →
        ∃ n, Machine.runWatched parser.registry parser.automaton n (.start (configs 0)) =
          (configs n, .rejected (.reduceLoop (configs 0).lookahead (configs n).top)) := by
  refine ⟨parse_final built start tokens, ?_, ?_⟩
  · intro fuel enough
    cases at_root : parser.automaton.start? start with
    | none => simp only [parse, parseSource, at_root]
    | some root =>
      rw [parse, parseSource_eq at_root, parseSource_eq at_root, run_of_budget_le built at_root enough]
  · intro configs reduces
    have caught := Machine.Watch.caught reduces rfl (.start
      (Machine.ne_nil_of_reduces (reduces 0)) (Machine.top_lt_of_reduced (reduces 0)))
    simpa using caught

/-- An empty nonterminal in front of its own rule, so that the stack grows on any lookahead. -/
def growing : Grammar where
  start := ["s"]
  rules := [
    ("s", .seq [.symbol "a", .symbol "s", .symbol "X"] ||| .symbol "Y"),
    ("a", .empty)]
  nullable := ["a"]

theorem growing_accepted : (ofGrammar growing .lr0).toOption.isSome = true := by decide +kernel

def growingParser : Parser := (ofGrammar growing .lr0).toOption.get growing_accepted

theorem parse_terminates_growing :
    (growingParser.parse ⟨"s"⟩ (tokensOf ["X"])).verdict
        = .rejected (.reduceLoop ⟨⟨"X"⟩, "X"⟩ 2) ∧
      (growingParser.parse ⟨"s"⟩ (tokensOf ["X"])).verdict.IsFinal ∧
      ∀ fuel, Machine.budget 1 growingParser.automaton.states.length ≤ fuel →
        growingParser.parseSource fuel ⟨"s"⟩ (.ofList (tokensOf ["X"]))
          = growingParser.parse ⟨"s"⟩ (tokensOf ["X"]) := by
  have ended := parse_terminates (eq_ok_of_isSome growing_accepted) ⟨"s"⟩ (tokensOf ["X"])
  exact ⟨by decide +kernel, ended.1, ended.2.1⟩

end Parser

end ShiftReduce
