import Mathlib.Logic.Function.Iterate
import ShiftReduce.Proofs.Machine.Replay
import ShiftReduce.Proofs.Machine.Termination

/-!
The alarm of the watch is never false. Where the watched machine reports a loop, the machine without
a watch does what it did so far and then reduces forever on the same token; where the machine without
a watch halts, the watched one does the same.
-/
namespace ShiftReduce.Machine

variable {registry : Registry} {automaton : Automaton} {config last : Config} {watched : Watched}
  {token : Token} {state fuel : Nat}

theorem Endless.exists_configs
    (endless : Endless registry automaton config.lookahead.symbol config.stack) :
    ∃ configs : Nat → Config, configs 0 = config ∧
      ∀ i, (configs i).lookahead = config.lookahead ∧
        step registry automaton (configs i) = .reduced (configs (i + 1)) := by
  obtain ⟨family, here, recurs⟩ := endless
  let Looping := {c : Config // family c.stack ∧ c.lookahead = config.lookahead}
  have goes_on : ∀ looping : Looping, ∃ next : Looping,
      step registry automaton looping.1 = .reduced next.1 := by
    intro looping
    obtain ⟨c, mem, same⟩ := looping
    obtain ⟨after, reduces, after_mem⟩ := recurs _ mem
    rw [← same] at reduces
    obtain ⟨next, moved, rfl, kept⟩ := reduces.step_eq
    exact ⟨⟨next, after_mem, kept.trans same⟩, moved⟩
  choose after moved using goes_on
  let looping (i : Nat) : Looping := after^[i] ⟨config, here, rfl⟩
  refine ⟨fun i => (looping i).1, rfl, fun i => ⟨(looping i).2.2, ?_⟩⟩
  have next : looping (i + 1) = after (looping i) := Function.iterate_succ_apply' after i _
  simp only [next, moved]

theorem run_of_reduces {configs : Nat → Config}
    (reduces : ∀ i, step registry automaton (configs i) = .reduced (configs (i + 1))) (i fuel : Nat) :
    run registry automaton fuel (configs i) = (configs (i + fuel), .unfinished) := by
  induction fuel generalizing i with
  | zero => rfl
  | succ fuel ih =>
    simp only [run, reduces i]
    rw [ih, Nat.add_right_comm, Nat.add_assoc]

theorem step_ne_reduceLoop :
    step registry automaton config ≠ .halted last (.rejected (.reduceLoop token state)) := by
  intro halted
  cases effect_of_step halted

/-- The watched machine reports a loop in a configuration that the machine without a watch gets to,
and from which its reductions are endless. -/
theorem endless_of_reduceLoop (recalls : watched.Recalls registry automaton)
    (ran : runWatched registry automaton fuel watched
      = (last, .rejected (.reduceLoop token state))) :
    Leads registry automaton watched.config last ∧ last.lookahead = token ∧ last.top = state ∧
      Endless registry automaton last.lookahead.symbol last.stack := by
  fun_induction runWatched registry automaton fuel watched with
  | case1 => cases ran
  | case2 fuel watched next shifted ih =>
    obtain ⟨leads, rest⟩ := ih (.start (ne_nil_of_shifted shifted)) ran
    exact ⟨.trans (.of_shifted shifted) leads, rest⟩
  | case3 fuel watched next reduced _ repeats =>
    cases ran
    exact ⟨.of_reduced reduced, rfl, rfl, recalls.endless reduced repeats⟩
  | case4 fuel watched next reduced _ _ ih =>
    obtain ⟨leads, rest⟩ := ih (recalls.reduce reduced) ran
    exact ⟨.trans (.of_reduced reduced) leads, rest⟩
  | case5 fuel watched last verdict halted =>
    cases ran
    exact absurd halted step_ne_reduceLoop

end ShiftReduce.Machine

namespace ShiftReduce.Parser

variable {grammar : Grammar} {lookahead : Lookahead} {parser : Parser}

/-- A parse by the machine without a watch, for at most `fuel` steps. -/
def parseUnwatched (parser : Parser) (fuel : Nat) (start : Symbol) (source : TokenSource) : Parse :=
  match parser.automaton.start? start with
  | none => ⟨[], source.pulled, .rejected (.grammar (parser.registry.startError start))⟩
  | some root =>
    let (last, verdict) := Machine.run parser.registry parser.automaton fuel (.start root source)
    ⟨last.moves.reverse, last.source.pulled, verdict⟩

theorem parseUnwatched_eq {start : Symbol} {root : Nat}
    (at_root : parser.automaton.start? start = some root) (fuel : Nat) (source : TokenSource) :
    parser.parseUnwatched fuel start source =
      ⟨(Machine.run parser.registry parser.automaton fuel (.start root source)).1.moves.reverse,
        (Machine.run parser.registry parser.automaton fuel (.start root source)).1.source.pulled,
        (Machine.run parser.registry parser.automaton fuel (.start root source)).2⟩ := by
  simp only [parseUnwatched, at_root]

theorem run_eq_of_halts (built : ofGrammar grammar lookahead = .ok parser) {start : Symbol}
    {root fuel : Nat} {tokens : List Token} (at_root : parser.automaton.start? start = some root)
    (halts : (Machine.run parser.registry parser.automaton fuel
      (.start root (.ofList tokens))).2 ≠ .unfinished) :
    parser.run (Machine.budget tokens.length parser.automaton.states.length) root tokens =
      Machine.run parser.registry parser.automaton fuel (.start root (.ofList tokens)) := by
  have watched : parser.run fuel root tokens =
      Machine.run parser.registry parser.automaton fuel (.start root (.ofList tokens)) :=
    Machine.runWatched_eq_run (.start (Machine.Config.start_ne_nil _ _)) halts
  rw [run_of_finished built at_root (by rwa [watched]), watched]

/-- A parse that reports a loop has stopped where the machine without a watch goes on with endless
reductions on the token reported. Whatever that machine halts with is what the parse ends with. -/
theorem parse_no_false_alarm (built : ofGrammar grammar lookahead = .ok parser) (start : Symbol)
    (tokens : List Token) :
    (∀ token state, (parser.parse start tokens).verdict = .rejected (.reduceLoop token state) →
      ∃ (root n : Nat) (configs : Nat → Machine.Config),
        parser.automaton.start? start = some root ∧
        parser.parse start tokens = ⟨(configs 0).moves.reverse, (configs 0).source.pulled,
          .rejected (.reduceLoop token state)⟩ ∧
        (∀ i, Machine.run parser.registry parser.automaton (n + i) (.start root (.ofList tokens))
          = (configs i, .unfinished)) ∧
        ∀ i, (configs i).lookahead = token ∧
          Machine.step parser.registry parser.automaton (configs i) = .reduced (configs (i + 1))) ∧
      ∀ fuel, (parser.parseUnwatched fuel start (.ofList tokens)).verdict ≠ .unfinished →
        parser.parse start tokens = parser.parseUnwatched fuel start (.ofList tokens) := by
  refine ⟨fun token state looped => ?_, fun fuel halts => ?_⟩
  · obtain ⟨root, last, at_root, ran⟩ := exists_run looped (by simp)
    obtain ⟨⟨n, leads⟩, same, -, endless⟩ := Machine.endless_of_reduceLoop
      (.start (Machine.Config.start_ne_nil _ _)) ran
    obtain ⟨configs, first, reduces⟩ := endless.exists_configs
    refine ⟨root, n, configs, at_root, ?_, fun i => ?_, fun i => ?_⟩
    · rw [parse, parseSource_eq at_root, ran, first]
    · have onward := Machine.run_of_reduces (fun i => (reduces i).2) 0 i
      rw [first, Nat.zero_add] at onward
      exact (leads i).trans onward
    · exact ⟨(reduces i).1.trans same, (reduces i).2⟩
  · cases at_root : parser.automaton.start? start with
    | none => simp only [parse, parseSource, parseUnwatched, at_root]
    | some root =>
      rw [parseUnwatched_eq at_root] at halts ⊢
      rw [parse, parseSource_eq at_root, run_eq_of_halts built at_root halts]

theorem parse_no_false_alarm_growing :
    (∃ (root n : Nat) (configs : Nat → Machine.Config),
      growingParser.automaton.start? ⟨"s"⟩ = some root ∧
      growingParser.parse ⟨"s"⟩ (tokensOf ["X"]) =
        ⟨(configs 0).moves.reverse, (configs 0).source.pulled,
          .rejected (.reduceLoop ⟨⟨"X"⟩, "X"⟩ 2)⟩ ∧
      (∀ i, Machine.run growingParser.registry growingParser.automaton (n + i)
        (.start root (.ofList (tokensOf ["X"]))) = (configs i, .unfinished)) ∧
      ∀ i, (configs i).lookahead = ⟨⟨"X"⟩, "X"⟩ ∧
        Machine.step growingParser.registry growingParser.automaton (configs i)
          = .reduced (configs (i + 1))) ∧
      (growingParser.parseUnwatched 10 ⟨"s"⟩ (.ofList (tokensOf ["Y"]))).verdict = .accepted ∧
      growingParser.parse ⟨"s"⟩ (tokensOf ["Y"]) =
        growingParser.parseUnwatched 10 ⟨"s"⟩ (.ofList (tokensOf ["Y"])) := by
  have built : ofGrammar growing .lr0 = .ok growingParser := eq_ok_of_isSome growing_accepted
  have looped : (growingParser.parse ⟨"s"⟩ (tokensOf ["X"])).verdict
      = .rejected (.reduceLoop ⟨⟨"X"⟩, "X"⟩ 2) := by decide +kernel
  have accepted : (growingParser.parseUnwatched 10 ⟨"s"⟩ (.ofList (tokensOf ["Y"]))).verdict
      = .accepted := by decide +kernel
  refine ⟨(parse_no_false_alarm built _ _).1 _ _ looped, accepted, ?_⟩
  refine (parse_no_false_alarm built _ _).2 10 ?_
  rw [accepted]
  simp

end ShiftReduce.Parser
