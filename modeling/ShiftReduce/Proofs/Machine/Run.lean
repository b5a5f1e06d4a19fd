import ShiftReduce.Proofs.Machine.Replay
import ShiftReduce.Proofs.Machine.Soundness

/-!
Runs of the machine without a watch. What they do depends on no more of the input than the tokens
pulled so far, and a watched run that halts without an alarm is one of them.
-/
namespace ShiftReduce.Machine

variable {registry : Registry} {automaton : Automaton} {config next last : Config} {fuel : Nat}
  {verdict : Verdict}

theorem run_keeps {kept : Config → Prop}
    (shifted : ∀ config next, kept config → step registry automaton config = .shifted next → kept next)
    (reduced : ∀ config next, kept config → step registry automaton config = .reduced next → kept next)
    (initially : kept config) (ran : run registry automaton fuel config = (last, verdict)) :
    (kept last ∧ verdict = .unfinished) ∨
      ∃ config, kept config ∧ step registry automaton config = .halted last verdict := by
  fun_induction run registry automaton fuel config with
  | case1 =>
    cases ran
    exact .inl ⟨initially, rfl⟩
  | case2 fuel config next moved ih => exact ih (shifted _ next initially moved) ran
  | case3 fuel config next moved ih => exact ih (reduced _ next initially moved) ran
  | case4 fuel config last verdict halted =>
    cases ran
    exact .inr ⟨_, initially, halted⟩

theorem run_more (finished : (run registry automaton fuel config).2 ≠ .unfinished) (more : Nat) :
    run registry automaton (fuel + more) config = run registry automaton fuel config := by
  fun_induction run registry automaton fuel config with
  | case1 => exact absurd rfl finished
  | case2 fuel config next moved ih =>
    rw [Nat.succ_add, run, moved]
    exact ih finished
  | case3 fuel config next moved ih =>
    rw [Nat.succ_add, run, moved]
    exact ih finished
  | case4 fuel config last verdict halted => rw [Nat.succ_add, run, halted]

theorem run_unique {other : Nat} (finished : (run registry automaton fuel config).2 ≠ .unfinished)
    (other_finished : (run registry automaton other config).2 ≠ .unfinished) :
    run registry automaton fuel config = run registry automaton other config := by
  rw [← run_more finished other, Nat.add_comm, run_more other_finished fuel]

theorem run_of_runWatched {watched : Watched}
    (ran : runWatched registry automaton fuel watched = (last, verdict))
    (silent : ∀ token state, verdict ≠ .rejected (.reduceLoop token state)) :
    run registry automaton fuel watched.config = (last, verdict) := by
  fun_induction runWatched registry automaton fuel watched with
  | case1 => exact ran
  | case2 fuel watched next moved ih =>
    rw [run, moved]
    exact ih ran
  | case3 =>
    cases ran
    exact absurd rfl (silent _ _)
  | case4 fuel watched next moved _ _ ih =>
    rw [run, moved]
    exact ih ran
  | case5 fuel watched last verdict halted =>
    rw [run, halted]
    exact ran

theorem derivation_length_le (ran : run registry automaton fuel config = (last, verdict)) :
    last.derivation.length ≤ config.derivation.length + fuel := by
  fun_induction run registry automaton fuel config with
  | case1 =>
    cases ran
    exact Nat.le_refl _
  | case2 fuel config next moved ih =>
    have rest := ih ran
    cases effect_of_step moved with
    | shift =>
      simp only [Config.shift, Config.derivation, List.filterMap_cons, Move.reduction?] at rest ⊢
      omega
  | case3 fuel config next moved ih =>
    have rest := ih ran
    cases effect_of_step moved with
    | reduce =>
      simp only [Config.reduced, Config.derivation, List.filterMap_cons, Move.reduction?,
        List.length_cons] at rest ⊢
      omega
  | case4 fuel config last verdict halted =>
    cases ran
    cases effect_of_step halted <;>
      simp only [Config.derivation, List.filterMap_cons, Move.reduction?, List.length_cons] <;> omega

section Supply

def Config.withSource (source : TokenSource) (config : Config) : Config := { config with source }

variable {source : TokenSource}

theorem step_withSource_shifted (source : TokenSource)
    (moved : step registry automaton config = .shifted next)
    (agrees : source.next.1 = config.source.next.1) :
    step registry automaton (config.withSource source)
      = .shifted (next.withSource source.next.2) := by
  cases effect_of_step moved with
  | @shift target chosen standing =>
    have same : (config.shift target).withSource source.next.2
        = (config.withSource source).shift target := by
      simp only [Config.withSource, Config.shift, agrees]
    rw [same]
    exact Effect.step_eq (.shift chosen standing)

theorem step_withSource_reduced (moved : step registry automaton config = .reduced next) :
    step registry automaton (config.withSource source) = .reduced (next.withSource source) := by
  cases effect_of_step moved with
  | reduce chosen not_start found cut edge =>
    exact Effect.step_eq (.reduce chosen not_start found cut edge)

theorem step_withSource_halted (halted : step registry automaton config = .halted last verdict) :
    step registry automaton (config.withSource source)
      = .halted (last.withSource source) verdict := by
  cases effect_of_step halted with
  | empty empty => exact Effect.step_eq (.empty empty)
  | refuse none standing => exact Effect.step_eq (.refuse none standing)
  | accept chosen front standing => exact Effect.step_eq (.accept chosen front standing)
  | corrupt chosen not_start missing standing =>
    exact Effect.step_eq (.corrupt chosen not_start missing standing)
  | strand chosen not_start found stranded standing =>
    exact Effect.step_eq (.strand chosen not_start found stranded standing)

theorem source_of_shifted (moved : step registry automaton config = .shifted next) :
    next.source = config.source.next.2 ∧ next.lookahead = config.source.next.1 := by
  cases effect_of_step moved with
  | shift => exact ⟨rfl, rfl⟩

theorem source_of_reduced (moved : step registry automaton config = .reduced next) :
    next.source = config.source ∧ next.lookahead = config.lookahead := by
  cases effect_of_step moved with
  | reduce => exact ⟨rfl, rfl⟩

theorem source_of_halted (halted : step registry automaton config = .halted last verdict) :
    last.source = config.source := by
  cases effect_of_step halted <;> rfl

/-- The configuration with other tokens in its source, as many of them pulled. -/
def Config.withTokens (tokenAt : Nat → Token) (config : Config) : Config :=
  { config with source := { config.source with tokenAt } }

variable {tokenAt : Nat → Token}

theorem pulled_le_of_run (ran : run registry automaton fuel config = (last, verdict)) :
    config.source.pulled ≤ last.source.pulled := by
  fun_induction run registry automaton fuel config with
  | case1 =>
    cases ran
    exact Nat.le_refl _
  | case2 fuel config next moved ih =>
    have rest := ih ran
    cases effect_of_step moved with
    | shift => exact Nat.le_of_succ_le rest
  | case3 fuel config next moved ih =>
    have rest := ih ran
    cases effect_of_step moved with
    | reduce => exact rest
  | case4 fuel config last verdict halted =>
    cases ran
    cases effect_of_step halted <;> exact Nat.le_refl _

theorem run_withTokens (ran : run registry automaton fuel config = (last, verdict))
    (agrees : ∀ i < last.source.pulled, tokenAt i = config.source.tokenAt i) :
    run registry automaton fuel (config.withTokens tokenAt) = (last.withTokens tokenAt, verdict) := by
  fun_induction run registry automaton fuel config with
  | case1 =>
    cases ran
    rfl
  | case2 fuel config next moved ih =>
    have later := pulled_le_of_run ran
    cases effect_of_step moved with
    | shift =>
      have same := step_withSource_shifted { config.source with tokenAt } moved (agrees _ later)
      rw [Config.withTokens, run, ← Config.withSource, same]
      exact ih ran agrees
  | case3 fuel config next moved ih =>
    rw [Config.withTokens, run, ← Config.withSource, step_withSource_reduced moved]
    cases effect_of_step moved with
    | reduce => exact ih ran agrees
  | case4 fuel config last verdict halted =>
    rw [Config.withTokens, run, ← Config.withSource, step_withSource_halted halted]
    cases ran
    rw [Config.withTokens, source_of_halted halted]
    rfl

theorem run_start_withTokens {root : Nat} {tokens other : List Token}
    (ran : run registry automaton fuel (.start root (.ofList tokens)) = (last, verdict))
    (agrees : ∀ i < last.source.pulled, other.getD i Token.eof = tokens.getD i Token.eof) :
    run registry automaton fuel (.start root (.ofList other))
      = (last.withTokens (TokenSource.ofList other).tokenAt, verdict) := by
  have first : 0 < last.source.pulled := pulled_le_of_run ran
  have same : Config.start root (.ofList other)
      = (Config.start root (.ofList tokens)).withTokens (TokenSource.ofList other).tokenAt := by
    simp only [Config.start, Config.withTokens, TokenSource.next, TokenSource.ofList,
      agrees 0 first]
  rw [same]
  exact run_withTokens ran agrees

end Supply

theorem Reading.of_run {lookahead : Lookahead} {start : Symbol} {root production : Nat}
    {tokens : List Token} (rooted : Rooted registry lookahead automaton start root production)
    (ran : run registry automaton fuel (.start root (.ofList tokens)) = (last, verdict)) :
    ∃ config, Reading registry automaton root tokens config ∧
      (last = config ∧ verdict = .unfinished ∨
        step registry automaton config = .halted last verdict) := by
  have initially : Reading registry automaton root tokens (.start root (.ofList tokens)) := .initial
  obtain ⟨reading, ended⟩ | ⟨config, reading, halted⟩ :=
    run_keeps (fun _ _ => Reading.shifted rooted) (fun _ _ => Reading.reduced rooted) initially ran
  · exact ⟨last, reading, .inl ⟨rfl, ended⟩⟩
  · exact ⟨config, reading, .inr halted⟩

end ShiftReduce.Machine
