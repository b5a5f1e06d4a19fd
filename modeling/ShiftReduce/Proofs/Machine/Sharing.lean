import ShiftReduce.Proofs.Automaton.Sharing
import ShiftReduce.Proofs.Machine.Termination

/-!
Runs under shared states. Where one automaton embeds in another, each step of the first is one of the
second with the states renumbered, and so is what the watch sees, since different states keep
different numbers.
-/
namespace ShiftReduce

variable {f : Nat → Nat}

def Move.rename (f : Nat → Nat) : Move → Move
  | .shift token target => .shift token (f target)
  | .reduce production => .reduce production

def ParseError.rename (f : Nat → Nat) : ParseError → ParseError
  | .grammar error => .grammar error
  | .unrecognizedInput token state => .unrecognizedInput token (f state)
  | .reduceLoop token state => .reduceLoop token (f state)

def Verdict.rename (f : Nat → Nat) : Verdict → Verdict
  | .accepted => .accepted
  | .rejected error => .rejected (error.rename f)
  | .corrupt production => .corrupt production
  | .unfinished => .unfinished

theorem Verdict.rename_ne_unfinished {verdict : Verdict} (finished : verdict ≠ .unfinished) :
    verdict.rename f ≠ .unfinished := by
  cases verdict with
  | unfinished => exact absurd rfl finished
  | accepted | rejected | corrupt => exact Verdict.noConfusion

def Parse.rename (f : Nat → Nat) (parse : Parse) : Parse :=
  { moves := parse.moves.map (Move.rename f)
    pulled := parse.pulled
    verdict := parse.verdict.rename f }

theorem Parse.reductions_rename (parse : Parse) :
    (parse.rename f).reductions = parse.reductions := by
  rw [reductions, reductions, rename, List.filterMap_map]
  refine List.filterMap_congr fun move _ => ?_
  cases move <;> rfl

namespace Machine

def Config.rename (f : Nat → Nat) (config : Config) : Config :=
  { config with
    root := f config.root
    stack := config.stack.map f
    moves := config.moves.map (Move.rename f) }

def Step.rename (f : Nat → Nat) : Step → Step
  | .shifted config => .shifted (config.rename f)
  | .reduced config => .reduced (config.rename f)
  | .halted config verdict => .halted (config.rename f) (verdict.rename f)

def Visit.rename (f : Nat → Nat) (visit : Visit) : Visit := { visit with state := f visit.state }

def Watched.rename (f : Nat → Nat) (watched : Watched) : Watched :=
  ⟨watched.config.rename f, watched.visits.map (Visit.rename f)⟩

theorem Config.depth_rename (config : Config) : (config.rename f).depth = config.depth := by
  simp [depth, rename]

theorem Config.top_rename (config : Config) : (config.rename f).top = f config.top := by
  simp only [top, rename]
  cases config.stack <;> rfl

theorem Visit.fresh_rename (config : Config) :
    fresh (config.rename f) = (fresh config).rename f := by
  simp only [fresh, Config.depth_rename, Config.top_rename, rename]

theorem Watched.start_rename (config : Config) :
    start (config.rename f) = (start config).rename f := by
  rw [start, Visit.fresh_rename]
  rfl

theorem Watched.surviving_rename (visits : List Visit) (config : Config) :
    surviving (visits.map (Visit.rename f)) (config.rename f) =
      (surviving visits config).map (Visit.rename f) := by
  simp only [surviving, Config.depth_rename, List.map_map, List.filter_map]
  rfl

variable {registry : Registry} {symbols : List Symbol} {single shared : Automaton}

theorem Watched.any_isRepeatedBy_rename (injective : Function.Injective f) (visits : List Visit)
    (config : Config) :
    (visits.map (Visit.rename f)).any (·.isRepeatedBy (config.rename f)) =
      visits.any (·.isRepeatedBy config) := by
  have repeated : ∀ visit : Visit, (visit.rename f).isRepeatedBy (config.rename f) =
      visit.isRepeatedBy config := by
    intro visit
    have same : (f visit.state == f config.top) = (visit.state == config.top) := by
      rw [Bool.eq_iff_iff, beq_iff_eq, beq_iff_eq, injective.eq_iff]
    simp only [Visit.isRepeatedBy, Config.depth_rename, Config.top_rename]
    rw [← same]
    rfl
  simp only [List.any_map, Function.comp_def, repeated]

section

variable (embeds : single.Embeds symbols f shared)

include embeds

theorem reduce_rename (config : Config) (top id : Nat) (production : Production) :
    reduce shared (config.rename f) (f top) id production =
      (reduce single config top id production).rename f := by
  have cut : (config.rename f).stack.drop production.rhs.length =
      (config.stack.drop production.rhs.length).map f := List.map_drop.symm
  simp only [reduce, cut]
  cases config.stack.drop production.rhs.length with
  | nil => rfl
  | cons uncovered rest =>
    simp only [List.map_cons, List.head?_cons, Option.bind_some, embeds.goto]
    cases single.goto? uncovered production.lhs with
    | none => rfl
    | some target => rfl

theorem act_rename (config : Config) (top : Nat) :
    act registry shared (config.rename f) (f top) = (act registry single config top).rename f := by
  have chosen : shared.action? (f top) (config.rename f).lookahead.symbol =
      (single.action? top config.lookahead.symbol).map (Action.rename f) :=
    embeds.action top config.lookahead.symbol
  unfold act
  rw [chosen]
  cases single.action? top config.lookahead.symbol with
  | none => rfl
  | some action =>
    cases action with
    | shift target => rfl
    | reduce id =>
      simp only [Option.map_some, Action.rename]
      split
      · rfl
      · cases registry.productions[id]? with
        | none => rfl
        | some production => exact reduce_rename embeds config top id production

theorem step_rename (config : Config) :
    step registry shared (config.rename f) = (step registry single config).rename f := by
  have stack : (config.rename f).stack = config.stack.map f := rfl
  rw [step, step, stack]
  cases config.stack with
  | nil => rfl
  | cons top below => exact act_rename embeds config top

theorem runWatched_rename (fuel : Nat) (watched : Watched) :
    runWatched registry shared fuel (watched.rename f) =
      ((runWatched registry single fuel watched).1.rename f,
        (runWatched registry single fuel watched).2.rename f) := by
  have stepped : ∀ watched : Watched, step registry shared (watched.rename f).config =
      (step registry single watched.config).rename f :=
    fun watched => step_rename embeds watched.config
  fun_induction runWatched registry single fuel watched with
  | case1 => rfl
  | case2 fuel watched next moved ih =>
    rw [runWatched, stepped, moved, ← ih, ← Watched.start_rename]
    rfl
  | case3 fuel watched next moved visits repeats =>
    have seen := Watched.any_isRepeatedBy_rename embeds.injective visits next
    rw [repeats, ← Watched.surviving_rename] at seen
    rw [runWatched, stepped, moved]
    refine (if_pos seen).trans ?_
    rw [Config.top_rename]
    rfl
  | case4 fuel watched next moved visits new ih =>
    have unseen := Watched.any_isRepeatedBy_rename embeds.injective visits next
    rw [← unseen, ← Watched.surviving_rename] at new
    have continued : Watched.rename f ⟨next, visits ++ [.fresh next]⟩ =
        ⟨next.rename f, Watched.surviving (watched.visits.map (Visit.rename f)) (next.rename f) ++
          [.fresh (next.rename f)]⟩ := by
      rw [Watched.surviving_rename, Visit.fresh_rename, Watched.rename, List.map_append]
      rfl
    rw [runWatched, stepped, moved, ← ih, continued]
    exact if_neg new
  | case5 fuel watched last verdict halted =>
    simp only [runWatched, stepped, halted, Step.rename]

end

end Machine

namespace Parser

variable {registry : Registry} {lookahead : Lookahead} {symbols more : List Symbol}
  {single shared : Automaton}

theorem parse_rename (wellformed : registry.Wellformed) {start : Symbol}
    (built : Automaton.buildFor registry lookahead symbols = .ok single)
    (shared_built : Automaton.buildFor registry lookahead more = .ok shared)
    (embeds : single.Embeds symbols f shared) (mem : start ∈ symbols) (tokens : List Token) :
    parse ⟨lookahead, registry, shared⟩ start tokens =
      (parse ⟨lookahead, registry, single⟩ start tokens).rename f := by
  obtain ⟨root, at_root, at_shared⟩ := embeds.start start mem
  have realizes := Automaton.realizes_of_buildFor wellformed built
  have realizes_shared := Automaton.realizes_of_buildFor wellformed shared_built
  obtain ⟨production, _, declared, -⟩ := realizes.start_items at_root
  have rooted : Machine.Rooted registry lookahead single start root production :=
    ⟨wellformed, realizes, at_root, declared⟩
  have shared_rooted : Machine.Rooted registry lookahead shared start (f root) production :=
    ⟨wellformed, realizes_shared, at_shared, declared⟩
  have enough := Nat.le_refl (Machine.budget tokens.length single.states.length)
  have final := Machine.runWatched_start_final rooted enough
  have renamed : Machine.runWatched registry shared
      (Machine.budget tokens.length single.states.length)
      (.start (.start (f root) (.ofList tokens))) = _ := Machine.runWatched_rename embeds
    (Machine.budget tokens.length single.states.length) (.start (.start root (.ofList tokens)))
  have finished : (Machine.runWatched registry shared
      (Machine.budget tokens.length single.states.length)
      (.start (.start (f root) (.ofList tokens)))).2 ≠ .unfinished := by
    rw [renamed]
    exact Verdict.rename_ne_unfinished final.ne_unfinished
  have same : run ⟨lookahead, registry, shared⟩
      (Machine.budget tokens.length shared.states.length) (f root) tokens = _ :=
    (Machine.runWatched_start_of_finished shared_rooted finished).trans renamed
  rw [parse, parse, parseSource_eq at_shared, parseSource_eq at_root, same]
  simp only [Parse.rename, List.map_reverse]
  rfl

/-- Sharing states between start symbols changes nothing. The states of the automaton built for one
start symbol are among those of the automaton for all of them, up to their numbers, and a parse from
this symbol does the same on both. -/
theorem parse_shared_states {grammar : Grammar} {name : String}
    (accepted : Registry.ofGrammar grammar = .ok registry) (lookahead : Lookahead)
    (declared : name ∈ grammar.start) :
    ∃ single shared f, Automaton.build registry lookahead ⟨name⟩ = .ok single ∧
      Automaton.buildAll registry lookahead = .ok shared ∧ single.Embeds [⟨name⟩] f shared ∧
      ∀ tokens, parse ⟨lookahead, registry, shared⟩ ⟨name⟩ tokens =
          (parse ⟨lookahead, registry, single⟩ ⟨name⟩ tokens).rename f ∧
        (parse ⟨lookahead, registry, shared⟩ ⟨name⟩ tokens).reductions =
          (parse ⟨lookahead, registry, single⟩ ⟨name⟩ tokens).reductions := by
  have wellformed := (Registry.acceptedFrom accepted).wellformed
  have subset : [⟨name⟩] ⊆ registry.starts := by
    intro symbol mem
    rw [List.mem_singleton.mp mem, (Registry.acceptedFrom accepted).starts_eq,
      OrderedSet.mem_distinct]
    exact List.mem_map_of_mem declared
  obtain ⟨pairs, paired⟩ := Automaton.startProductions_of_declared subset
  obtain ⟨shared, shared_built⟩ := Automaton.buildAll_eq_ok registry lookahead
  have built : Automaton.build registry lookahead ⟨name⟩ =
      .ok (Automaton.ofProductions registry lookahead pairs) := bind_eq_ok.mpr ⟨pairs, paired, rfl⟩
  have embeds := Automaton.embeds_of_buildFor wellformed built shared_built subset
  have renamed := parse_rename wellformed built shared_built embeds List.mem_cons_self
  refine ⟨_, shared, _, built, shared_built, embeds, fun tokens => ⟨renamed tokens, ?_⟩⟩
  rw [renamed, Parse.reductions_rename]

/-- With a second start symbol the start state of the other is one of the last. -/
theorem parse_shared_states_parens :
    ∃ single f root, Automaton.build Automaton.parensRegistry .lr0 ⟨"t"⟩ = .ok single ∧
      single.Embeds [⟨"t"⟩] f Automaton.parensAutomaton ∧
      single.start? ⟨"t"⟩ = some root ∧ f root = 9 ∧
      ∀ tokens, parse ⟨.lr0, Automaton.parensRegistry, Automaton.parensAutomaton⟩ ⟨"t"⟩ tokens =
        (parse ⟨.lr0, Automaton.parensRegistry, single⟩ ⟨"t"⟩ tokens).rename f := by
  have accepted : Registry.ofGrammar Automaton.parens = .ok Automaton.parensRegistry :=
    eq_ok_of_isSome Automaton.parens_accepted
  have all_built : Automaton.buildAll Automaton.parensRegistry .lr0 = .ok Automaton.parensAutomaton :=
    eq_ok_of_isSome Automaton.parens_built
  have declared : "t" ∈ Automaton.parens.start := by decide
  have second : Automaton.parensAutomaton.start? ⟨"t"⟩ = some 9 := by decide +kernel
  obtain ⟨single, shared, f, built, shared_built, embeds, parses⟩ :=
    parse_shared_states accepted .lr0 declared
  cases shared_built.symm.trans all_built
  obtain ⟨root, at_root, at_shared⟩ := embeds.start ⟨"t"⟩ List.mem_cons_self
  have moved : f root = 9 := Option.some.inj (at_shared.symm.trans second)
  exact ⟨single, f, root, built, embeds, at_root, moved, fun tokens => (parses tokens).1⟩

end Parser

end ShiftReduce
