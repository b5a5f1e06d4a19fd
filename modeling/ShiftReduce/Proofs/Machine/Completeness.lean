import ShiftReduce.Proofs.Machine.Replay
import ShiftReduce.Proofs.Machine.Termination
import ShiftReduce.Proofs.Registry.Analysed

/-!
A table without conflicts finds every derivation. The machine follows a rightmost derivation from its
end: before each production used, it shifts up to the end of the right-hand side, finds the complete
item there and nothing that competes with it, and reduces.
-/
namespace ShiftReduce.Machine

/-- The rightmost nonterminal of the string is expected by an item where it stands. -/
structure Viable (registry : Registry) (production : Nat) (string : List Symbol) : Prop where
  expected : ∀ {before after : List Symbol} {symbol : Symbol}, string = before ++ symbol :: after →
    symbol.isTerminal = false → after.all (·.isTerminal) = true →
    ∃ item, ItemPath registry production before item ∧ registry.next? item = some symbol

variable {registry : Registry} {lookahead : Lookahead} {automaton : Automaton} {start : Symbol}
  {root production id : Nat} {sentence : List Symbol} {config : Config} {rule : Production}
  {before after path shifted remaining : List Symbol} {item : Item}

namespace Viable

theorem of_start (rooted : Rooted registry lookahead automaton start root production) :
    Viable registry production [start] := by
  constructor
  intro before after symbol whole _ _
  obtain ⟨rfl, rfl, -⟩ := of_singleton_eq_append_cons whole
  have found := rooted.wellformed.augmented_at (Registry.getElem?_of_startProduction rooted.declared)
  exact ⟨_, .here, Registry.next?_eq_some.mpr ⟨_, found, rfl⟩⟩

theorem handle (viable : Viable registry production (before ++ rule.lhs :: after))
    (wellformed : registry.Wellformed) (found : registry.productions[id]? = some rule)
    (terminals : after.all (·.isTerminal) = true) :
    ItemPath registry production (before ++ rule.rhs) ⟨id, rule.rhs.length⟩ := by
  have nonterminal := wellformed.lhs_nonterminal rule (List.mem_of_getElem? found)
  obtain ⟨item, path, next⟩ := viable.expected rfl nonterminal terminals
  have passed := (ItemPath.into path next found rfl).pass found (Nat.le_refl rule.rhs.length)
  rwa [List.take_length] at passed

theorem step (viable : Viable registry production (before ++ rule.lhs :: after))
    (wellformed : registry.Wellformed) (found : registry.productions[id]? = some rule)
    (terminals : after.all (·.isTerminal) = true) :
    Viable registry production (before ++ rule.rhs ++ after) := by
  constructor
  intro front back symbol whole nonterminal _
  obtain ⟨rest, inside, -⟩ | ⟨middle, -, rfl⟩ := append_eq_append_cons whole
  · have reached := viable.handle wellformed found terminals
    rw [inside] at reached
    exact reached.expects
  · simp [nonterminal] at terminals

end Viable

theorem exists_middle {string : List Symbol} (terminals : after.all (·.isTerminal) = true)
    (whole : string ++ after = path ++ remaining)
    (stops : ∀ front symbol, path = front ++ [symbol] → symbol.isTerminal = false) :
    ∃ middle, string = path ++ middle ∧ remaining = middle ++ after := by
  obtain ⟨beyond, rfl, rfl⟩ | ⟨middle, rfl, rfl⟩ := List.append_eq_append_iff.mp whole
  · obtain rfl | ⟨front, symbol, rfl⟩ := List.eq_nil_or_concat beyond
    · exact ⟨[], by simp, by simp⟩
    · have nonterminal := stops (string ++ front) symbol (by simp)
      simp [nonterminal] at terminals
  · exact ⟨middle, rfl, rfl⟩

namespace Progress

variable (rooted : Rooted registry lookahead automaton start root production)
  (quiet : automaton.conflicts = [])

include rooted quiet

theorem shift_all {middle : List Symbol}
    (registered : ∀ symbol ∈ sentence, symbol ∈ registry.terminals)
    (progress : Progress registry automaton root sentence config path shifted (middle ++ after))
    (reached : ItemPath registry production (path ++ middle) item) :
    ∃ later, Leads registry automaton config later ∧ later.derivation = config.derivation ∧
      Progress registry automaton root sentence later (path ++ middle) (shifted ++ middle) after := by
  induction middle generalizing config path shifted with
  | nil =>
    rw [List.append_nil, List.append_nil]
    exact ⟨config, .refl config, rfl, progress⟩
  | cons symbol middle ih =>
    obtain ⟨earlier, at_path, next⟩ := reached.expects
    obtain ⟨state, at_top, items⟩ := progress.stacked.top_items rooted
    obtain ⟨target, edge⟩ := rooted.realizes.goto_exists at_top ((items earlier).mpr at_path) next
    have known : symbol ∈ registry.terminals := by
      refine registered symbol ?_
      rw [← progress.whole]
      simp
    have chosen := rooted.realizes.action?_of_asks quiet known at_top (.shift edge)
    rw [← progress.awaits.lookahead_eq] at chosen
    obtain ⟨_, _, split, further⟩ := progress.shift rooted chosen
    cases split
    rw [List.append_cons] at reached
    obtain ⟨later, leads, same, arrived⟩ := ih further reached
    have moved : step registry automaton config = .shifted (config.shift target) :=
      Effect.step_eq (.shift chosen progress.stacked.ne_nil)
    refine ⟨later, .trans (.of_shifted moved) leads, same, ?_⟩
    rwa [List.append_cons, List.append_cons shifted]

theorem reduce_handle
    (progress : Progress registry automaton root sentence config (before ++ rule.rhs) shifted remaining)
    (found : registry.productions[id]? = some rule)
    (path : ItemPath registry production before item) (next : registry.next? item = some rule.lhs)
    (follows : registry.follows rule.lhs (registry.indexOf config.lookahead.symbol) = true)
    (known : config.lookahead.symbol ∈ registry.terminals) :
    ∃ later, Leads registry automaton config later ∧ later.derivation = id :: config.derivation ∧
      Progress registry automaton root sentence later (before ++ [rule.lhs]) shifted remaining := by
  obtain ⟨state, at_top, items⟩ := progress.stacked.top_items rooted
  have not_start := ItemPath.isStartProduction_of_expected rooted.wellformed found next
  have passed := (ItemPath.into path next found rfl).pass found (Nat.le_refl rule.rhs.length)
  rw [List.take_length] at passed
  have complete : registry.isComplete ⟨id, rule.rhs.length⟩ = true :=
    Registry.isComplete_iff.mpr ⟨rule, found, Nat.le_refl _⟩
  have on : Candidate.reducesOn registry lookahead id (registry.indexOf config.lookahead.symbol)
      config.lookahead.symbol = true := by
    unfold Candidate.reducesOn
    rw [not_start]
    cases lookahead with
    | lr0 => rfl
    | slr => simp [Registry.lhs?, found, follows]
  have chosen := rooted.realizes.action?_of_asks quiet known at_top
    (.reduce at_top ((items _).mpr passed) complete on)
  obtain ⟨uncovered, rest, under, cut, at_under, under_items⟩ := progress.stacked.drop.items rooted
  obtain ⟨target, edge⟩ := rooted.realizes.goto_exists at_under ((under_items item).mpr path) next
  obtain ⟨front, whole, further⟩ := progress.reduce rooted chosen found cut edge
  rw [← List.append_cancel_right whole] at further
  exact ⟨_, .of_reduced (Effect.step_eq (.reduce chosen not_start found cut edge)), rfl, further⟩

/-- The machine gets to the beginning of any rightmost derivation of its sentence: it has reduced all
its productions, and the path stops at the last nonterminal. -/
theorem of_rightmost {used : List Nat} {string : List Symbol}
    (registered : ∀ symbol ∈ sentence, symbol ∈ registry.terminals)
    (initial : Progress registry automaton root sentence config [] [] sentence)
    (fresh : config.derivation = [])
    (derivation : Rightmost registry.productions used string sentence)
    (viable : Viable registry production string) (followed : registry.Followed string) :
    ∃ later path shifted remaining, Leads registry automaton config later ∧
      later.derivation = used ∧
      Progress registry automaton root sentence later path shifted remaining ∧
      path ++ remaining = string ∧
      ∀ front symbol, path = front ++ [symbol] → symbol.isTerminal = false := by
  induction derivation with
  | refl =>
    refine ⟨config, [], [], _, .refl config, fresh, initial, List.nil_append _, ?_⟩
    simp
  | @step id used rule before after result found after_terminals derivation ih =>
    have mem := List.mem_of_getElem? found
    have inner : Viable registry production (before ++ rule.rhs ++ after) :=
      viable.step rooted.wellformed found after_terminals
    have followed_inner : registry.Followed (before ++ rule.rhs ++ after) :=
      followed.step rooted.wellformed (.replace before after mem)
    obtain ⟨later, path, shifted, remaining, leads, same, progress, whole, stops⟩ :=
      ih registered initial inner followed_inner
    -- the rest of the right-hand side is still in the input: shift it, then reduce
    obtain ⟨middle, handle, rfl⟩ := exists_middle after_terminals whole.symm stops
    have reached := viable.handle rooted.wellformed found after_terminals
    rw [handle] at reached
    obtain ⟨at_handle, leads_on, same_handle, progress⟩ :=
      progress.shift_all rooted quiet registered reached
    rw [← handle] at progress
    obtain ⟨item, expecting, next⟩ :=
      viable.expected rfl (rooted.wellformed.lhs_nonterminal rule mem) after_terminals
    have known : at_handle.lookahead.symbol ∈ registry.terminals := by
      have head := List.mem_of_mem_head? progress.awaits.head
      rw [List.mem_append, List.mem_singleton] at head
      obtain inside | ended := head
      · refine registered _ ?_
        rw [← progress.whole]
        exact List.mem_append_right _ inside
      · rw [ended]
        exact List.mem_of_getElem? rooted.wellformed.eof_first
    have follows := followed.follows rooted.wellformed
      (Registry.mem_nonterminals.mpr ⟨rule, mem, rfl⟩) progress.awaits.head
      (registry.getElem?_indexOf known)
    obtain ⟨reduced, leads_last, same_last, progress⟩ :=
      progress.reduce_handle rooted quiet found expecting next follows known
    refine ⟨reduced, before ++ [rule.lhs], _, after, (leads.trans leads_on).trans leads_last, ?_,
      progress, by simp, ?_⟩
    · rw [same_last, same_handle, same]
    · intro front symbol split
      rw [← List.singleton_inj.mp (List.append_inj' split rfl).2]
      exact rooted.wellformed.lhs_nonterminal rule mem

theorem step_accept (progress : Progress registry automaton root sentence config [start] shifted []) :
    step registry automaton config = .halted config .accepted := by
  obtain ⟨state, at_top, items⟩ := progress.stacked.top_items rooted
  have declared := Registry.getElem?_of_startProduction rooted.declared
  have found := rooted.wellformed.augmented_at declared
  have front : registry.isStartProduction production = true :=
    decide_eq_true (List.getElem?_eq_some_iff.mp declared).1
  have reached : ItemPath registry production [start] ⟨production, 1⟩ :=
    .past .here (Registry.next?_eq_some.mpr ⟨_, found, rfl⟩)
  have complete : registry.isComplete ⟨production, 1⟩ = true :=
    Registry.isComplete_iff.mpr ⟨_, found, Nat.le_refl 1⟩
  have ended := progress.awaits.eof
  have on : Candidate.reducesOn registry lookahead production
      (registry.indexOf config.lookahead.symbol) config.lookahead.symbol = true := by
    unfold Candidate.reducesOn
    rw [front, if_pos rfl, ended]
    rfl
  have known : config.lookahead.symbol ∈ registry.terminals := by
    rw [ended]
    exact List.mem_of_getElem? rooted.wellformed.eof_first
  have chosen := rooted.realizes.action?_of_asks quiet known at_top
    (.reduce at_top ((items _).mpr reached) complete on)
  exact Effect.step_eq (.accept chosen front progress.stacked.ne_nil)

end Progress

theorem run_of_rightmostDerivation (rooted : Rooted registry lookahead automaton start root production)
    (quiet : automaton.conflicts = []) {used : List Nat} {tokens : List Token}
    (derivation : RightmostDerivation registry.productions start used (Token.sentence tokens)) :
    ∃ fuel last, run registry automaton fuel (.start root (.ofList tokens)) = (last, .accepted) ∧
      last.derivation = used := by
  have declared : start ∈ registry.starts :=
    List.mem_of_getElem? (Registry.getElem?_of_startProduction rooted.declared)
  have nonterminal := rooted.wellformed.start_nonterminal start declared
  have registered : ∀ symbol ∈ Token.sentence tokens, symbol ∈ registry.terminals := by
    intro symbol mem
    refine rooted.wellformed.registered_of_derives derivation.derives.derives ?_ symbol mem
      (List.all_eq_true.mp derivation.terminals symbol mem)
    simp [nonterminal]
  have viable : Viable registry production [start] := .of_start rooted
  have followed : registry.Followed [start] := .start rooted.wellformed declared
  obtain ⟨last, path, shifted, remaining, ⟨n, leads⟩, same, progress, whole, -⟩ :=
    Progress.of_rightmost rooted quiet registered (progress_start registry automaton root tokens) rfl
      derivation.derives viable followed
  obtain ⟨rfl, rfl⟩ : path = [start] ∧ remaining = [] := by
    obtain ⟨rfl, rfl⟩ | alone := List.append_eq_singleton_iff.mp whole
    · have terminal := List.all_eq_true.mp derivation.terminals start (by simp [← progress.whole])
      rw [nonterminal] at terminal
      cases terminal
    · exact alone
  refine ⟨n + 1, last, ?_, same⟩
  rw [leads]
  simp only [run, progress.step_accept rooted quiet]

end ShiftReduce.Machine

namespace ShiftReduce.Parser

variable {grammar : Grammar} {lookahead : Lookahead} {parser : Parser} {name : String}

theorem parse_eq_of_rightmostDerivation (built : ofGrammar grammar lookahead = .ok parser)
    (quiet : parser.automaton.conflicts = []) (declared : name ∈ grammar.start) {used : List Nat}
    {tokens : List Token}
    (derivation : RightmostDerivation parser.registry.productions ⟨name⟩ used (Token.sentence tokens)) :
    (parser.parse ⟨name⟩ tokens).verdict = .accepted ∧
      (parser.parse ⟨name⟩ tokens).reductions = used.reverse := by
  obtain ⟨root, at_root⟩ := start?_of_declared built declared
  obtain ⟨production, rooted⟩ := rooted built at_root
  obtain ⟨fuel, last, ran, same⟩ := Machine.run_of_rightmostDerivation rooted quiet derivation
  have watched : parser.run fuel root tokens = (last, .accepted) := by
    rw [run, Machine.runWatched_eq_run (.start (Machine.Config.start_ne_nil _ _))]
    · exact ran
    · rw [Machine.Watched.start, ran]
      simp
  rw [parse, parseSource_eq at_root, run_of_finished built at_root (by rw [watched]; simp), watched]
  refine ⟨rfl, ?_⟩
  rw [← same, ← reductions_reverse, List.reverse_reverse]

/-- A parser without conflicts finds the rightmost derivation of each sentence. There is exactly one,
and no sentence is given up as a loop of reductions. -/
theorem parse_complete (built : ofGrammar grammar lookahead = .ok parser)
    (quiet : parser.automaton.conflicts = []) (declared : name ∈ grammar.start) :
    (∀ tokens used,
      RightmostDerivation parser.registry.productions ⟨name⟩ used (Token.sentence tokens) →
      (parser.parse ⟨name⟩ tokens).verdict = .accepted ∧
        (parser.parse ⟨name⟩ tokens).reductions = used.reverse) ∧
      (∀ sentence, Derives parser.registry.productions [⟨name⟩] sentence →
        sentence.all (·.isTerminal) = true →
        ∃! used, RightmostDerivation parser.registry.productions ⟨name⟩ used sentence) ∧
      ∀ tokens token state,
        Derives parser.registry.productions [⟨name⟩] (Token.sentence tokens) →
        (Token.sentence tokens).all (·.isTerminal) = true →
        (parser.parse ⟨name⟩ tokens).verdict ≠ .rejected (.reduceLoop token state) := by
  have found : ∀ {tokens used},
      RightmostDerivation parser.registry.productions ⟨name⟩ used (Token.sentence tokens) →
      (parser.parse ⟨name⟩ tokens).verdict = .accepted ∧
        (parser.parse ⟨name⟩ tokens).reductions = used.reverse :=
    parse_eq_of_rightmostDerivation built quiet declared
  refine ⟨fun _ _ => found, fun sentence derivation terminals => ?_,
    fun tokens token state derivation terminals => ?_⟩
  · obtain ⟨used, rightmost⟩ := exists_rightmost derivation terminals
    have ended : Symbol.eof ∉ sentence := by
      refine (wellformed built).eof_notMem_of_derives derivation fun mem => ?_
      have nonterminal := (wellformed built).start_nonterminal _ ((declared_iff built).mpr declared)
      rw [← List.mem_singleton.mp mem] at nonterminal
      exact absurd nonterminal (by decide)
    refine ⟨used, ⟨terminals, rightmost⟩, fun other derives => ?_⟩
    rw [← Token.sentence_of_symbols ended] at derives terminals rightmost
    have first := (found ⟨terminals, rightmost⟩).2
    have second := (found derives).2
    exact List.reverse_injective (second.symm.trans first)
  · obtain ⟨used, rightmost⟩ := exists_rightmost derivation terminals
    rw [(found ⟨terminals, rightmost⟩).1]
    simp

def leftSums : Grammar where
  start := ["e"]
  rules := [
    ("e", .seq [.symbol "e", .symbol "Plus", .symbol "t"] ||| .symbol "t"),
    ("t", .symbol "Id")]
  nullable := []

theorem leftSums_accepted : (ofGrammar leftSums .slr).toOption.isSome = true := by decide +kernel

def leftSumsParser : Parser := (ofGrammar leftSums .slr).toOption.get leftSums_accepted

theorem parse_complete_leftSums :
    leftSumsParser.automaton.conflicts = [] ∧
      (leftSumsParser.parse ⟨"e"⟩ (tokensOf ["Id", "Plus", "Id"])).verdict = .accepted ∧
      (leftSumsParser.parse ⟨"e"⟩ (tokensOf ["Id", "Plus", "Id"])).reductions = [3, 2, 3, 1] := by
  have quiet : leftSumsParser.automaton.conflicts = [] := by decide +kernel
  have productions : leftSumsParser.registry.productions =
      [⟨⟨"e'"⟩, [⟨"e"⟩]⟩, ⟨⟨"e"⟩, [⟨"e"⟩, ⟨"Plus"⟩, ⟨"t"⟩]⟩, ⟨⟨"e"⟩, [⟨"t"⟩]⟩, ⟨⟨"t"⟩, [⟨"Id"⟩]⟩] := by
    decide +kernel
  have derivation : RightmostDerivation leftSumsParser.registry.productions ⟨"e"⟩ [1, 3, 2, 3]
      (Token.sentence (tokensOf ["Id", "Plus", "Id"])) := by
    rw [productions]
    refine ⟨by decide, ?_⟩
    exact @Rightmost.step _ 1 _ ⟨⟨"e"⟩, [⟨"e"⟩, ⟨"Plus"⟩, ⟨"t"⟩]⟩ [] [] _ rfl rfl
      (@Rightmost.step _ 3 _ ⟨⟨"t"⟩, [⟨"Id"⟩]⟩ [⟨"e"⟩, ⟨"Plus"⟩] [] _ rfl rfl
        (@Rightmost.step _ 2 _ ⟨⟨"e"⟩, [⟨"t"⟩]⟩ [] [⟨"Plus"⟩, ⟨"Id"⟩] _ rfl (by decide)
          (@Rightmost.step _ 3 _ ⟨⟨"t"⟩, [⟨"Id"⟩]⟩ [] [⟨"Plus"⟩, ⟨"Id"⟩] _ rfl (by decide)
            (.refl _))))
  have declared : "e" ∈ leftSums.start := List.mem_cons_self
  have found :=
    (parse_complete (eq_ok_of_isSome leftSums_accepted) quiet declared).1 _ _ derivation
  exact ⟨quiet, found⟩

end ShiftReduce.Parser
