import ShiftReduce.Machine.Watch

/-!
The moves of the machine, each stated once, and what a run of it keeps.
-/
namespace ShiftReduce.Machine

variable {registry : Registry} {automaton : Automaton} {config next last : Config}

theorem Config.start_ne_nil (root : Nat) (source : TokenSource) : (start root source).stack ≠ [] :=
  List.cons_ne_nil _ _

theorem Config.stack_eq (standing : config.stack ≠ []) : config.stack = config.top :: config.stack.tail := by
  obtain ⟨top, below, stack⟩ := List.exists_cons_of_ne_nil standing
  rw [Config.top, stack, List.headD_cons, List.tail_cons]

/-- `config` after production `id` was reduced and the goto on its left-hand side led to `target`. -/
def Config.reduced (config : Config) (id target : Nat) (stack : List Nat) : Config :=
  { config with stack := target :: stack, moves := .reduce id :: config.moves }

/-- All that one step can do, with the guards it has passed. -/
inductive Effect (registry : Registry) (automaton : Automaton) (config : Config) : Step → Prop where
  | empty : config.stack = [] →
      Effect registry automaton config
        (.halted config (.rejected (.unrecognizedInput config.lookahead config.top)))
  | refuse : automaton.action? config.top config.lookahead.symbol = none → config.stack ≠ [] →
      Effect registry automaton config
        (.halted config (.rejected (.unrecognizedInput config.lookahead config.top)))
  | shift {target : Nat} :
      automaton.action? config.top config.lookahead.symbol = some (.shift target) →
      config.stack ≠ [] → Effect registry automaton config (.shifted (config.shift target))
  | accept {id : Nat} :
      automaton.action? config.top config.lookahead.symbol = some (.reduce id) →
      registry.isStartProduction id = true → config.stack ≠ [] →
      Effect registry automaton config (.halted config .accepted)
  | corrupt {id : Nat} :
      automaton.action? config.top config.lookahead.symbol = some (.reduce id) →
      registry.isStartProduction id = false → registry.productions[id]? = none → config.stack ≠ [] →
      Effect registry automaton config (.halted config (.corrupt id))
  | reduce {id : Nat} {production : Production} {uncovered : Nat} {rest : List Nat} {target : Nat} :
      automaton.action? config.top config.lookahead.symbol = some (.reduce id) →
      registry.isStartProduction id = false → registry.productions[id]? = some production →
      config.stack.drop production.rhs.length = uncovered :: rest →
      automaton.goto? uncovered production.lhs = some target →
      Effect registry automaton config (.reduced (config.reduced id target (uncovered :: rest)))
  | strand {id : Nat} {production : Production} :
      automaton.action? config.top config.lookahead.symbol = some (.reduce id) →
      registry.isStartProduction id = false → registry.productions[id]? = some production →
      (config.stack.drop production.rhs.length).head?.bind (automaton.goto? · production.lhs) = none →
      config.stack ≠ [] →
      Effect registry automaton config (.halted { config with
          stack := config.stack.drop production.rhs.length
          moves := .reduce id :: config.moves }
        (.rejected (.unrecognizedInput config.lookahead config.top)))

theorem step_of_ne_nil (standing : config.stack ≠ []) :
    step registry automaton config = act registry automaton config config.top := by
  rw [step, Config.stack_eq standing]

theorem reduce_effect {id : Nat} {production : Production}
    (chosen : automaton.action? config.top config.lookahead.symbol = some (.reduce id))
    (not_start : registry.isStartProduction id = false)
    (found : registry.productions[id]? = some production) (standing : config.stack ≠ []) :
    Effect registry automaton config (reduce automaton config config.top id production) := by
  unfold reduce
  dsimp only
  split
  · exact .strand chosen not_start found ‹_› standing
  · rename_i target leads
    cases cut : config.stack.drop production.rhs.length with
    | nil => simp [cut] at leads
    | cons uncovered rest =>
      rw [cut] at leads
      exact .reduce chosen not_start found cut leads

theorem step_effect (registry : Registry) (automaton : Automaton) (config : Config) :
    Effect registry automaton config (step registry automaton config) := by
  by_cases standing : config.stack = []
  · have same : config.top = config.root := by rw [Config.top, standing, List.headD_nil]
    have halted := @Effect.empty registry automaton config standing
    rw [same] at halted
    rwa [step, standing]
  · rw [step_of_ne_nil standing, act]
    split
    · exact .refuse ‹_› standing
    · exact .shift ‹_› standing
    · rename_i id chosen
      split
      · exact .accept chosen ‹_› standing
      · rename_i not_start
        rw [Bool.not_eq_true] at not_start
        split
        · exact .corrupt chosen not_start ‹_› standing
        · exact reduce_effect chosen not_start ‹_› standing

theorem effect_of_step {outcome : Step} (stepped : step registry automaton config = outcome) :
    Effect registry automaton config outcome := stepped ▸ step_effect registry automaton config

theorem accept_of_step (halted : step registry automaton config = .halted last .accepted) :
    last = config ∧ ∃ id,
      automaton.action? config.top config.lookahead.symbol = some (.reduce id) ∧
        registry.isStartProduction id = true := by
  cases effect_of_step halted with
  | accept chosen front => exact ⟨rfl, _, chosen, front⟩

theorem cut_of_step (moved : step registry automaton config = .reduced next) :
    1 < next.depth ∧ next.depth ≤ config.depth + 1 ∧ next.lookahead = config.lookahead := by
  cases effect_of_step moved with
  | @reduce id production uncovered rest target _ _ _ cut _ =>
    have length := congrArg List.length cut
    rw [List.length_drop, List.length_cons] at length
    simp only [Config.reduced, Config.depth, List.length_cons]
    exact ⟨by omega, by omega, trivial⟩

theorem ne_nil_of_shifted (moved : step registry automaton config = .shifted next) : next.stack ≠ [] := by
  cases effect_of_step moved with
  | shift => exact List.cons_ne_nil _ _

theorem ne_nil_of_reduced (moved : step registry automaton config = .reduced next) : next.stack ≠ [] := by
  cases effect_of_step moved with
  | reduce => exact List.cons_ne_nil _ _

theorem ne_nil_of_reduces (moved : step registry automaton config = .reduced next) :
    config.stack ≠ [] := by
  cases effect_of_step moved with
  | reduce _ _ _ cut _ =>
    intro empty
    simp [empty] at cut

theorem Effect.step_eq {outcome : Step} (effect : Effect registry automaton config outcome) :
    step registry automaton config = outcome := by
  cases effect with
  | empty empty => simp [step, Config.top, empty]
  | refuse none standing => simp [step_of_ne_nil standing, act, none]
  | shift chosen standing => simp [step_of_ne_nil standing, act, chosen]
  | accept chosen front standing => simp [step_of_ne_nil standing, act, chosen, front]
  | corrupt chosen not_start missing standing =>
    simp [step_of_ne_nil standing, act, chosen, not_start, missing]
  | reduce chosen not_start found cut edge =>
    have standing : config.stack ≠ [] := by
      intro empty
      simp [empty] at cut
    simp [step_of_ne_nil standing, act, chosen, not_start, found, Machine.reduce, cut, edge, Config.reduced]
  | strand chosen not_start found stranded standing =>
    simp only [step_of_ne_nil standing, act, chosen, not_start, found, Machine.reduce, stranded,
      Bool.false_eq_true, if_false]

/-- The machine without a watch gets from one configuration to a later one. -/
def Leads (registry : Registry) (automaton : Automaton) (config later : Config) : Prop :=
  ∃ n, ∀ fuel, run registry automaton (n + fuel) config = run registry automaton fuel later

namespace Leads

theorem refl (config : Config) : Leads registry automaton config config :=
  ⟨0, fun fuel => by rw [Nat.zero_add]⟩

theorem trans (first : Leads registry automaton config next)
    (second : Leads registry automaton next last) : Leads registry automaton config last := by
  obtain ⟨n, first⟩ := first
  obtain ⟨m, second⟩ := second
  exact ⟨n + m, fun fuel => by rw [Nat.add_assoc, first, second]⟩

theorem of_shifted (moved : step registry automaton config = .shifted next) :
    Leads registry automaton config next :=
  ⟨1, fun fuel => by simp only [Nat.add_comm 1, run, moved]⟩

theorem of_reduced (moved : step registry automaton config = .reduced next) :
    Leads registry automaton config next :=
  ⟨1, fun fuel => by simp only [Nat.add_comm 1, run, moved]⟩

end Leads

theorem runWatched_keeps {kept : Config → Prop}
    (shifted : ∀ config next, kept config → step registry automaton config = .shifted next → kept next)
    (reduced : ∀ config next, kept config → step registry automaton config = .reduced next → kept next)
    {fuel : Nat} {watched : Watched} {verdict : Verdict} (initially : kept watched.config)
    (ran : runWatched registry automaton fuel watched = (last, verdict)) :
    (kept last ∧ verdict = .unfinished) ∨
      (kept last ∧ verdict = .rejected (.reduceLoop last.lookahead last.top)) ∨
      ∃ config, kept config ∧ step registry automaton config = .halted last verdict := by
  fun_induction runWatched registry automaton fuel watched with
  | case1 =>
    cases ran
    exact .inl ⟨initially, rfl⟩
  | case2 fuel watched next moved ih => exact ih (shifted _ next initially moved) ran
  | case3 fuel watched next moved =>
    cases ran
    exact .inr (.inl ⟨reduced _ _ initially moved, rfl⟩)
  | case4 fuel watched next moved _ _ ih => exact ih (reduced _ next initially moved) ran
  | case5 fuel watched last verdict halted =>
    cases ran
    exact .inr (.inr ⟨_, initially, halted⟩)

theorem runWatched_more {fuel : Nat} {watched : Watched}
    (finished : (runWatched registry automaton fuel watched).2 ≠ .unfinished) (more : Nat) :
    runWatched registry automaton (fuel + more) watched = runWatched registry automaton fuel watched := by
  fun_induction runWatched registry automaton fuel watched with
  | case1 => exact absurd rfl finished
  | case2 fuel watched next moved ih =>
    rw [Nat.succ_add, runWatched, moved]
    exact ih finished
  | case3 fuel watched next moved _ repeats =>
    rw [Nat.succ_add, runWatched, moved]
    exact if_pos repeats
  | case4 fuel watched next moved _ new ih =>
    rw [Nat.succ_add, runWatched, moved]
    exact (if_neg new).trans (ih finished)
  | case5 fuel watched last verdict halted => rw [Nat.succ_add, runWatched, halted]

end ShiftReduce.Machine
