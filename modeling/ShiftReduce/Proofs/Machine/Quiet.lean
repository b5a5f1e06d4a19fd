import Mathlib.Data.Fintype.Pigeonhole
import Mathlib.Order.Interval.Finset.Nat
import ShiftReduce.Proofs.Machine.Alarm
import ShiftReduce.Proofs.Machine.Prefix

/-!
A table without conflicts has no endless reductions. Each of the paths that endless reductions go
through could be completed to a sentence, and of those sentences infinitely many would go on with the
same symbol. The machine takes the same steps on all of them until it shifts this symbol, so it would
reduce more often than it does on any one of them, which it accepts.
-/
namespace ShiftReduce

theorem Token.getD_eq_of_head?_eq {front rest other : List Symbol}
    (same : (rest ++ [Symbol.eof]).head? = (other ++ [Symbol.eof]).head?)
    (unended : Symbol.eof ∉ rest) (other_unended : Symbol.eof ∉ other) {i : Nat}
    (within : i ≤ front.length) :
    ((front ++ rest).map fun symbol => (⟨symbol, symbol.name⟩ : Token)).getD i Token.eof =
      ((front ++ other).map fun symbol => (⟨symbol, symbol.name⟩ : Token)).getD i Token.eof := by
  simp only [List.getD_eq_getElem?_getD, List.getElem?_map]
  obtain before | rfl := Nat.lt_or_eq_of_le within
  · rw [List.getElem?_append_left before, List.getElem?_append_left before]
  · cases rest with
    | nil =>
      cases other with
      | nil => rfl
      | cons symbol others => simp_all
    | cons symbol rest =>
      cases other with
      | nil => simp_all
      | cons first others => simp_all

namespace Machine

variable {registry : Registry} {lookahead : Lookahead} {automaton : Automaton} {start : Symbol}
  {root production : Nat} {sentence path shifted remaining : List Symbol} {config : Config}

theorem Viable.rightmost {used : List Nat} {u v : List Symbol} (viable : Viable registry production u)
    (wellformed : registry.Wellformed) (derivation : Rightmost registry.productions used u v) :
    Viable registry production v := by
  induction derivation with
  | refl => exact viable
  | step found terminals _ ih => exact ih (viable.step wellformed found terminals)

section Quiet

variable (rooted : Rooted registry lookahead automaton start root production)
  (quiet : automaton.conflicts = [])

include rooted quiet

theorem exists_run_of_rightmost {outer inner : List Nat} {rest : List Symbol} {tokens : List Token}
    (terminals : rest.all (·.isTerminal) = true)
    (before : Rightmost registry.productions outer [start] (path ++ rest))
    (after : Rightmost registry.productions inner (path ++ rest) (Token.sentence tokens))
    (whole_terminals : (Token.sentence tokens).all (·.isTerminal) = true) :
    ∃ n later, run registry automaton n (.start root (.ofList tokens)) = (later, .unfinished) ∧
      later.derivation = inner ∧
      later.source.pulled + rest.length ≤ (Token.sentence tokens).length + 1 := by
  have declared := List.mem_of_getElem? (Registry.getElem?_of_startProduction rooted.declared)
  have registered := rooted.registered_of_derives (before.trans after).derives whole_terminals
  have viable := (Viable.of_start rooted).rightmost rooted.wellformed before
  have followed := (Registry.Followed.start rooted.wellformed declared).derives rooted.wellformed
    before.derives
  obtain ⟨later, read, shifted, remaining, ⟨n, leads⟩, same, progress, whole, stops⟩ :=
    Progress.of_rightmost rooted quiet registered (progress_start registry automaton root tokens) rfl
      after viable followed
  obtain ⟨middle, -, rfl⟩ := exists_middle terminals whole.symm stops
  have ran : run registry automaton n (.start root (.ofList tokens)) = (later, .unfinished) := leads 0
  refine ⟨n, later, ran, same, ?_⟩
  obtain ⟨config, reading, ⟨rfl, -⟩ | halted⟩ := Reading.of_run rooted ran
  · obtain ⟨_, unread, reached⟩ := reading.progress
    have unended := Token.eof_notMem_sentence tokens
    have left : Symbol.eof ∉ middle ++ rest := fun mem =>
      unended (progress.whole ▸ List.mem_append_right shifted mem)
    have left_unread : Symbol.eof ∉ unread := fun mem =>
      unended (reached.whole ▸ List.mem_append_right later.read mem)
    have length := congrArg List.length reached.whole
    rw [← progress.awaits.unique reached.awaits left left_unread] at length
    rw [reading.source_eq, ← length]
    simp only [List.length_append]
    omega
  · cases effect_of_step halted

/-- As far as its sentence agrees with one that is accepted, the machine makes fewer reductions than
the steps that the other takes. -/
theorem derivation_length_lt {outer inner : List Nat} {front rest other : List Symbol} {enough : Nat}
    (accepted : (run registry automaton enough (.start root
      (.ofList ((front ++ other).map fun symbol => ⟨symbol, symbol.name⟩)))).2 = .accepted)
    (other_unended : Symbol.eof ∉ front ++ other)
    (same : (other ++ [Symbol.eof]).head? = (rest ++ [Symbol.eof]).head?)
    (terminals : (front ++ rest).all (·.isTerminal) = true)
    (before : Rightmost registry.productions outer [start] (path ++ rest))
    (after : Rightmost registry.productions inner (path ++ rest) (front ++ rest)) :
    inner.length < enough := by
  have unended := rooted.eof_notMem_of_derives (before.trans after).derives
  have spelled := Token.sentence_of_symbols unended
  have rest_terminals : rest.all (·.isTerminal) = true := by
    rw [List.all_append, Bool.and_eq_true] at terminals
    exact terminals.2
  rw [← spelled] at terminals after
  obtain ⟨n, later, ran, made, early⟩ :=
    exists_run_of_rightmost rooted quiet rest_terminals before after terminals
  have reductions := derivation_length_le ran
  have fresh : (Config.start root (.ofList
    ((front ++ rest).map fun symbol => ⟨symbol, symbol.name⟩))).derivation = [] := rfl
  rw [made, fresh, List.length_nil, Nat.zero_add] at reductions
  -- up to the symbol after the front the two sentences are the same to the machine
  have ran_on := run_start_withTokens ran fun k within =>
    Token.getD_eq_of_head?_eq same (fun mem => other_unended (List.mem_append_right _ mem))
      (fun mem => unended (List.mem_append_right _ mem)) (by
        rw [spelled, List.length_append] at early
        omega)
  have finished : (run registry automaton enough (.start root
      (.ofList ((front ++ other).map fun symbol => ⟨symbol, symbol.name⟩)))).2 ≠ .unfinished := by
    rw [accepted]
    simp
  by_contra beyond
  have halted := run_more finished (n - enough)
  rw [Nat.add_sub_cancel' (by omega), ran_on] at halted
  rw [← halted] at accepted
  cases accepted

omit quiet in
theorem Progress.exists_longer
    (progress : Progress registry automaton root sentence config path shifted remaining)
    (endless : Endless registry automaton config.lookahead.symbol config.stack)
    (n : Nat) : ∃ later path,
      Progress registry automaton root sentence later path shifted remaining ∧
        n ≤ later.derivation.length := by
  obtain ⟨configs, first, reduces⟩ := endless.exists_configs
  have reached : ∀ i, ∃ path,
      Progress registry automaton root sentence (configs i) path shifted remaining ∧
        i ≤ (configs i).derivation.length := by
    intro i
    induction i with
    | zero =>
      rw [first]
      exact ⟨path, progress, Nat.zero_le _⟩
    | succ i ih =>
      obtain ⟨path, progress, long⟩ := ih
      have moved := (reduces i).2
      generalize configs (i + 1) = next at moved ⊢
      cases effect_of_step moved with
      | reduce chosen _ found cut edge =>
        obtain ⟨before, -, further⟩ := progress.reduce rooted chosen found cut edge
        exact ⟨_, further, Nat.succ_le_succ long⟩
  exact ⟨configs n, reached n⟩

theorem Progress.not_endless (productive : registry.Productive)
    (progress : Progress registry automaton root sentence config path shifted remaining) :
    ¬ Endless registry automaton config.lookahead.symbol config.stack := by
  intro endless
  choose later paths progresses long using progress.exists_longer rooted endless
  choose used rest terminals outer derivation using
    fun i => (progresses i).exists_completion rooted productive
  have unended : ∀ i, Symbol.eof ∉ shifted ++ rest i := fun i =>
    rooted.eof_notMem_of_derives (derivation i).derives.derives
  -- what each sentence goes on with after the part shifted
  have goes_on : ∀ i, ∃ terminal : {symbol // symbol ∈ registry.terminals},
      (rest i ++ [Symbol.eof]).head? = some terminal.1 := by
    intro i
    cases form : rest i with
    | nil => exact ⟨⟨_, List.mem_of_getElem? rooted.wellformed.eof_first⟩, rfl⟩
    | cons symbol others =>
      have known := rooted.registered_of_derives (derivation i).derives.derives
        (derivation i).terminals symbol (by simp [form])
      exact ⟨⟨symbol, known⟩, rfl⟩
  choose next head using goes_on
  obtain ⟨terminal, often⟩ := Finite.exists_infinite_fiber next
  have many := Set.infinite_coe_iff.mp often
  obtain ⟨i, at_i⟩ := Set.Infinite.nonempty many
  have whole := derivation i
  rw [← Token.sentence_of_symbols (unended i)] at whole
  obtain ⟨enough, final, accepted, -⟩ := run_of_rightmostDerivation rooted quiet whole
  obtain ⟨j, at_j, more⟩ := Set.Infinite.exists_gt many enough
  have heads : (rest i ++ [Symbol.eof]).head? = (rest j ++ [Symbol.eof]).head? := by
    rw [head i, head j, at_i, at_j]
  have fewer := derivation_length_lt rooted quiet (congrArg Prod.snd accepted) (unended i) heads
    (derivation j).terminals (outer j) ((progresses j).derives.append_terminals (terminals j))
  exact absurd (more.trans_le (long j)) fewer.asymm

end Quiet

end Machine

namespace Parser

variable {grammar : Grammar} {lookahead : Lookahead} {parser : Parser}

theorem verdict_ne_reduceLoop (built : ofGrammar grammar lookahead = .ok parser)
    (quiet : parser.automaton.conflicts = []) (productive : parser.registry.Productive)
    (start : Symbol) (tokens : List Token) (token : Token) (state : Nat) :
    (parser.parse start tokens).verdict ≠ .rejected (.reduceLoop token state) := by
  intro looped
  obtain ⟨root, last, at_root, ran⟩ := exists_run looped (by simp)
  obtain ⟨production, rooted⟩ := rooted built at_root
  obtain ⟨-, -, -, endless⟩ := Machine.endless_of_reduceLoop
    (.start (Machine.Config.start_ne_nil _ _)) ran
  obtain ⟨config, path, shifted, remaining, progress, ⟨-, ended⟩ | ⟨rfl, -⟩ | halted⟩ :=
    Machine.Progress.of_run rooted ran
  · cases ended
  · exact progress.not_endless rooted quiet productive endless
  · exact Machine.step_ne_reduceLoop halted

/-- Where every nonterminal derives a sentence, a parser without conflicts needs no watch. It reports
no loop, whatever it is given to read, and the machine without a watch comes to the same end within the
same number of steps. -/
theorem parse_without_loops (built : ofGrammar grammar lookahead = .ok parser)
    (productive : parser.registry.Productive) (quiet : parser.automaton.conflicts = [])
    (start : Symbol) (tokens : List Token) :
    (∀ token state, (parser.parse start tokens).verdict ≠ .rejected (.reduceLoop token state)) ∧
      parser.parseUnwatched (Machine.budget tokens.length parser.automaton.states.length) start
        (.ofList tokens) = parser.parse start tokens := by
  have silent := verdict_ne_reduceLoop built quiet productive start tokens
  refine ⟨silent, ?_⟩
  cases at_root : parser.automaton.start? start with
  | none => simp only [parse, parseSource, parseUnwatched, at_root]
  | some root =>
    rw [parse, parseSource_eq at_root] at silent ⊢
    have same : Machine.run parser.registry parser.automaton
        (Machine.budget tokens.length parser.automaton.states.length) (.start root (.ofList tokens))
          = parser.run (Machine.budget tokens.length parser.automaton.states.length) root tokens :=
      Machine.run_of_runWatched rfl silent
    rw [parseUnwatched_eq at_root, same]

def refinedNestsParser : Parser := (ofGrammar nests .slr).toOption.get (by decide +kernel)

/-- A closing parenthesis may follow `Id` inside others, so the table by FOLLOW sets reduces on one that
is too many before it is refused. -/
theorem parse_without_loops_nests :
    (refinedNestsParser.parse ⟨"s"⟩ (tokensOf ["Id", "RParen"])).moves =
        [.shift ⟨⟨"Id"⟩, "Id"⟩ 3, .reduce 2] ∧
      (∀ token state, (refinedNestsParser.parse ⟨"s"⟩ (tokensOf ["Id", "RParen"])).verdict
        ≠ .rejected (.reduceLoop token state)) ∧
      refinedNestsParser.parseUnwatched
          (Machine.budget 2 refinedNestsParser.automaton.states.length) ⟨"s"⟩
          (.ofList (tokensOf ["Id", "RParen"]))
        = refinedNestsParser.parse ⟨"s"⟩ (tokensOf ["Id", "RParen"]) := by
  have built : ofGrammar nests .slr = .ok refinedNestsParser := eq_ok_of_isSome _
  have same := (narrows (eq_ok_of_isSome nests_accepted) built).1
  have productive : refinedNestsParser.registry.Productive := by
    rw [same]
    exact nests_productive
  have computed : refinedNestsParser.automaton.conflicts = [] ∧
      (refinedNestsParser.parse ⟨"s"⟩ (tokensOf ["Id", "RParen"])).moves =
        [.shift ⟨⟨"Id"⟩, "Id"⟩ 3, .reduce 2] := by decide +kernel
  obtain ⟨quiet, moves⟩ := computed
  obtain ⟨silent, settles⟩ :=
    parse_without_loops built productive quiet ⟨"s"⟩ (tokensOf ["Id", "RParen"])
  exact ⟨moves, silent, settles⟩

end Parser

end ShiftReduce
