import ShiftReduce.Proofs.Machine.Alarm
import ShiftReduce.Proofs.Machine.Prefix

/-!
What a parse takes from its source: the tokens it shifts, and one more that it looks at. No state has an
edge on the end marker, so this is where a parse stops pulling, and what a source holds behind its first
end marker has no part in the outcome.
-/
namespace ShiftReduce

namespace TokenSource

variable {source other : TokenSource}

theorem take_succ (source : TokenSource) (count : Nat) :
    source.take (count + 1) = source.take count ++ [source.tokenAt (source.pulled + count)] := by
  simp only [take_eq, List.range_succ, List.map_append, List.map_singleton]

theorem tokenAt_eq_of_take {count i : Nat} (same : source.take count = other.take count)
    (before : i < count) :
    source.tokenAt (source.pulled + i) = other.tokenAt (other.pulled + i) := by
  rw [take_eq, take_eq, List.map_inj_left] at same
  exact same i (List.mem_range.mpr before)

theorem take_ofList (tokens : List Token) : (ofList tokens).take tokens.length = tokens := by
  rw [take_eq]
  refine List.ext_getElem (by simp) fun i _ inside => ?_
  simp [ofList, inside]

/-- Two sources give the same tokens up to the first end marker. -/
def AgreesWith (source other : TokenSource) : Prop :=
  ∀ n, (∀ i < n, (source.tokenAt (source.pulled + i)).symbol ≠ Symbol.eof) →
    source.tokenAt (source.pulled + n) = other.tokenAt (other.pulled + n)

theorem AgreesWith.next (agrees : source.AgreesWith other) :
    source.next.1 = other.next.1 ∧
      (source.next.1.symbol ≠ Symbol.eof → source.next.2.AgreesWith other.next.2) := by
  have first := agrees 0 (fun i before => absurd before (Nat.not_lt_zero i))
  refine ⟨first, fun unended n before => ?_⟩
  have shifted := agrees (n + 1) fun i within => ?_
  · simpa only [TokenSource.next, Nat.add_assoc, Nat.add_comm 1 n] using shifted
  · cases i with
    | zero => exact unended
    | succ i =>
      have later := before i (Nat.lt_of_succ_lt_succ within)
      simpa only [TokenSource.next, Nat.add_assoc, Nat.add_comm 1 i] using later

theorem AgreesWith.of_take {tokens : List Token} {marker : Token}
    (ends : marker.symbol = Symbol.eof) (begins : source.take (tokens.length + 1) = tokens ++ [marker])
    (other_begins : other.take (tokens.length + 1) = tokens ++ [marker]) :
    source.AgreesWith other := by
  intro n unended
  by_cases within : n < tokens.length + 1
  · exact tokenAt_eq_of_take (begins.trans other_begins.symm) within
  · rw [take_succ] at begins
    have last := (List.append_inj' begins rfl).2
    rw [List.singleton_inj] at last
    have early := unended tokens.length (by omega)
    rw [last] at early
    exact absurd ends early

end TokenSource

namespace Machine

variable {registry : Registry} {lookahead : Lookahead} {automaton : Automaton} {config next last : Config}
  {source other : TokenSource} {fuel root : Nat} {watched : Watched} {verdict : Verdict}

def Config.shifted (config : Config) : List Token := config.moves.reverse.filterMap Move.token?

theorem Config.shifted_shift (target : Nat) :
    (config.shift target).shifted = config.shifted ++ [config.lookahead] := by
  simp [Config.shifted, Config.shift, Move.token?]

theorem Config.shifted_reduce (config : Config) (id : Nat) :
    Config.shifted { config with moves := .reduce id :: config.moves } = config.shifted := by
  simp [Config.shifted, Move.token?]

theorem shifted_of_halted (halted : step registry automaton config = .halted last verdict) :
    last.shifted = config.shifted := by
  cases effect_of_step halted with
  | empty | refuse | accept | corrupt => rfl
  | strand => exact Config.shifted_reduce _ _

/-- From `source` the machine has pulled what it shifted and then its lookahead, and shifted no end
marker. -/
structure Supplied (source : TokenSource) (config : Config) : Prop where
  source_eq : config.source = ⟨source.tokenAt, source.pulled + (config.shifted.length + 1)⟩
  taken : source.take (config.shifted.length + 1) = config.shifted ++ [config.lookahead]
  unended : ∀ token ∈ config.shifted, token.symbol ≠ Symbol.eof

theorem supplied_start (root : Nat) (source : TokenSource) :
    Supplied source (.start root source) := by
  refine ⟨rfl, rfl, ?_⟩
  simp [Config.start, Config.shifted]

section

variable (realizes : automaton.Realizes registry lookahead) (wellformed : registry.Wellformed)

include realizes wellformed

theorem Supplied.step_shifted (supplied : Supplied source config)
    (moved : step registry automaton config = .shifted next) : Supplied source next := by
  cases effect_of_step moved with
  | @shift target chosen =>
    have longer : (config.shift target).shifted.length = config.shifted.length + 1 := by
      rw [Config.shifted_shift, List.length_append, List.length_singleton]
    have pulled : (config.shift target).source = config.source.next.2 := rfl
    have looks : (config.shift target).lookahead = config.source.next.1 := rfl
    refine ⟨?_, ?_, ?_⟩
    · rw [longer, pulled, supplied.source_eq]
      rfl
    · rw [longer, TokenSource.take_succ, supplied.taken, Config.shifted_shift, looks,
        supplied.source_eq]
      rfl
    · rw [Config.shifted_shift, List.forall_mem_append, List.forall_mem_singleton]
      exact ⟨supplied.unended, realizes.ne_eof_of_shift wellformed chosen⟩

omit realizes wellformed in
theorem Supplied.step_reduced (supplied : Supplied source config)
    (moved : step registry automaton config = .reduced next) : Supplied source next := by
  cases effect_of_step moved with
  | @reduce id =>
    have same := Config.shifted_reduce config id
    refine ⟨?_, ?_, ?_⟩
    · exact same ▸ supplied.source_eq
    · exact same ▸ supplied.taken
    · exact same ▸ supplied.unended

theorem Supplied.of_runWatched
    (ran : runWatched registry automaton fuel (.start (.start root source)) = (last, verdict)) :
    ∃ config, Supplied source config ∧
      (last = config ∧ verdict = .unfinished ∨
        last = config ∧ verdict = .rejected (.reduceLoop last.lookahead last.top) ∨
        step registry automaton config = .halted last verdict) := by
  have initially : Supplied source (Watched.start (.start root source)).config :=
    supplied_start root source
  obtain ⟨supplied, ended⟩ | ⟨supplied, ended⟩ | ⟨config, supplied, halted⟩ :=
    runWatched_keeps (fun _ _ here => here.step_shifted realizes wellformed)
      (fun _ _ here => here.step_reduced) initially ran
  · exact ⟨last, supplied, .inl ⟨rfl, ended⟩⟩
  · exact ⟨last, supplied, .inr (.inl ⟨rfl, ended⟩)⟩
  · exact ⟨config, supplied, .inr (.inr halted)⟩

theorem runWatched_withSource
    (agrees : watched.config.lookahead.symbol ≠ Symbol.eof → watched.config.source.AgreesWith other)
    (ran : runWatched registry automaton fuel watched = (last, verdict)) :
    ∃ rest, runWatched registry automaton fuel ⟨watched.config.withSource other, watched.visits⟩
        = (last.withSource rest, verdict) ∧
      watched.config.source.pulled + rest.pulled = other.pulled + last.source.pulled := by
  fun_induction runWatched registry automaton fuel watched generalizing other with
  | case1 =>
    cases ran
    exact ⟨other, rfl, Nat.add_comm _ _⟩
  | case2 fuel watched next moved ih =>
    have unended : watched.config.lookahead.symbol ≠ Symbol.eof := by
      cases effect_of_step moved with
      | shift chosen => exact realizes.ne_eof_of_shift wellformed chosen
    -- the end marker is never shifted, so both sources still give the same token
    obtain ⟨first, later⟩ := (agrees unended).next
    obtain ⟨source_eq, lookahead_eq⟩ := source_of_shifted moved
    rw [← source_eq, ← lookahead_eq] at later
    obtain ⟨rest, follows, counts⟩ := ih later ran
    refine ⟨rest, ?_, ?_⟩
    · rw [runWatched, step_withSource_shifted _ moved first.symm]
      exact follows
    · have grown : next.source.pulled = watched.config.source.pulled + 1 := by
        rw [source_eq]
        rfl
      change next.source.pulled + rest.pulled = other.pulled + 1 + last.source.pulled at counts
      omega
  | case3 fuel watched next moved _ =>
    rename_i repeats
    cases ran
    refine ⟨other, ?_, ?_⟩
    · rw [runWatched, step_withSource_reduced moved]
      exact if_pos repeats
    · rw [(source_of_reduced moved).1]
      exact Nat.add_comm _ _
  | case4 fuel watched next moved _ new =>
    rename_i ih
    obtain ⟨source_eq, lookahead_eq⟩ := source_of_reduced moved
    rw [← source_eq, ← lookahead_eq] at agrees
    obtain ⟨rest, follows, counts⟩ := ih agrees ran
    refine ⟨rest, ?_, ?_⟩
    · rw [runWatched, step_withSource_reduced moved]
      exact (if_neg new).trans follows
    · rw [← source_eq]
      exact counts
  | case5 fuel watched last verdict halted =>
    cases ran
    refine ⟨other, ?_, ?_⟩
    · rw [runWatched, step_withSource_halted halted]
    · rw [source_of_halted halted]
      exact Nat.add_comm _ _

end

end Machine

def Parse.shifted (parse : Parse) : List Token := parse.moves.filterMap Move.token?

/-- A parse has pulled from `source` the tokens it shifted, none of them an end marker, and then `last`,
which is the token reported where it fails and an end marker where it accepts. -/
structure Parse.PullsFrom (source : TokenSource) (parse : Parse) (last : Token) : Prop where
  pulled : parse.pulled = source.pulled + (parse.shifted.length + 1)
  taken : source.take (parse.shifted.length + 1) = parse.shifted ++ [last]
  unended : ∀ token ∈ parse.shifted, token.symbol ≠ Symbol.eof
  refused : ∀ token state, parse.verdict = .rejected (.unrecognizedInput token state) → token = last
  looped : ∀ token state, parse.verdict = .rejected (.reduceLoop token state) → token = last
  accepted : parse.verdict = .accepted → last.symbol = Symbol.eof

namespace Parser

open Machine

variable {grammar : Grammar} {lookahead : Lookahead} {parser : Parser} {name : String}

theorem parseSource_of_run {start : Symbol} {root fuel : Nat} {source : TokenSource} {last : Config}
    {verdict : Verdict} (at_root : parser.automaton.start? start = some root)
    (ran : runWatched parser.registry parser.automaton fuel (.start (.start root source))
      = (last, verdict)) :
    parser.parseSource fuel start source = ⟨last.moves.reverse, last.source.pulled, verdict⟩ := by
  simp only [parseSource, at_root, ran]

theorem pullsFrom_parseSource (built : ofGrammar grammar lookahead = .ok parser) {start : Symbol}
    {root : Nat} (at_root : parser.automaton.start? start = some root) (source : TokenSource)
    (fuel : Nat) : ∃ last, (parser.parseSource fuel start source).PullsFrom source last := by
  cases ran : runWatched parser.registry parser.automaton fuel (.start (.start root source)) with
  | mk final verdict =>
    rw [parseSource_of_run at_root ran]
    obtain ⟨config, supplied, ended⟩ :=
      Supplied.of_runWatched (realizes built) (wellformed built) ran
    have moves : final.shifted = config.shifted ∧ final.source = config.source := by
      obtain ⟨rfl, -⟩ | ⟨rfl, -⟩ | halted := ended
      · exact ⟨rfl, rfl⟩
      · exact ⟨rfl, rfl⟩
      · exact ⟨shifted_of_halted halted, source_of_halted halted⟩
    have shifted : Parse.shifted ⟨final.moves.reverse, final.source.pulled, verdict⟩
        = config.shifted := moves.1
    exact ⟨config.lookahead, {
      pulled := by rw [shifted, moves.2, supplied.source_eq]
      taken := by
        rw [shifted]
        exact supplied.taken
      unended := by
        rw [shifted]
        exact supplied.unended
      refused := by
        rintro token state rfl
        obtain ⟨-, ended⟩ | ⟨-, ended⟩ | halted := ended
        · cases ended
        · cases ended
        · exact (lookahead_of_refused halted).1
      looped := by
        rintro token state rfl
        obtain ⟨-, ended⟩ | ⟨rfl, ended⟩ | halted := ended
        · cases ended
        · cases ended
          rfl
        · exact absurd halted step_ne_reduceLoop
      accepted := by
        rintro rfl
        obtain ⟨-, ended⟩ | ⟨-, ended⟩ | halted := ended
        · cases ended
        · cases ended
        · obtain ⟨-, id, chosen, front⟩ := accept_of_step halted
          exact (realizes built).eof_of_accept chosen front }⟩

theorem parseSource_of_agrees (built : ofGrammar grammar lookahead = .ok parser) {start : Symbol}
    {root : Nat} (at_root : parser.automaton.start? start = some root) {source other : TokenSource}
    (agrees : source.AgreesWith other) (fuel : Nat) :
    (parser.parseSource fuel start other).moves = (parser.parseSource fuel start source).moves ∧
      (parser.parseSource fuel start other).verdict = (parser.parseSource fuel start source).verdict ∧
      source.pulled + (parser.parseSource fuel start other).pulled
        = other.pulled + (parser.parseSource fuel start source).pulled := by
  cases ran : runWatched parser.registry parser.automaton fuel (.start (.start root source)) with
  | mk final verdict =>
    obtain ⟨first, later⟩ := agrees.next
    obtain ⟨rest, follows, counts⟩ :=
      runWatched_withSource (realizes built) (wellformed built) later ran
    have same : (Config.start root source).withSource other.next.2 = .start root other := by
      simp only [Config.withSource, Config.start, first]
    rw [Watched.start, same] at follows
    rw [parseSource_of_run at_root ran, parseSource_of_run at_root follows]
    refine ⟨rfl, rfl, ?_⟩
    simp only [Watched.start, Config.start, TokenSource.next] at counts
    change source.pulled + 1 + rest.pulled = other.pulled + 1 + final.source.pulled at counts
    change source.pulled + rest.pulled = other.pulled + final.source.pulled
    omega

/-- At every step of a parse one token more has been pulled than shifted, the tokens pulled before the
last one are those shifted, and none of these is an end marker. So no token is pulled behind an end
marker, the last token is the one a failed parse reports, and an accepting parse has stopped at an end
marker. Sources that begin alike up to an end marker come to the same end with as many pulls. -/
theorem parse_pulls_exactly (built : ofGrammar grammar lookahead = .ok parser)
    (declared : name ∈ grammar.start) (source : TokenSource) :
    (∀ fuel, ∃ last, (parser.parseSource fuel ⟨name⟩ source).PullsFrom source last) ∧
      ∀ (other : TokenSource) (tokens : List Token) (marker : Token),
        marker.symbol = Symbol.eof → source.take (tokens.length + 1) = tokens ++ [marker] →
        other.take (tokens.length + 1) = tokens ++ [marker] →
        (∃ fuel, (parser.parseSource fuel ⟨name⟩ source).verdict.IsFinal) ∧
        ∀ fuel,
          (parser.parseSource fuel ⟨name⟩ other).moves =
            (parser.parseSource fuel ⟨name⟩ source).moves ∧
          (parser.parseSource fuel ⟨name⟩ other).verdict =
            (parser.parseSource fuel ⟨name⟩ source).verdict ∧
          (parser.parseSource fuel ⟨name⟩ other).pulled - other.pulled =
            (parser.parseSource fuel ⟨name⟩ source).pulled - source.pulled := by
  obtain ⟨root, at_root⟩ := start?_of_declared built declared
  refine ⟨pullsFrom_parseSource built at_root source, ?_⟩
  intro other tokens marker ends begins other_begins
  refine ⟨?_, fun fuel => ?_⟩
  · have listed : (TokenSource.ofList (tokens ++ [marker])).take (tokens.length + 1)
        = tokens ++ [marker] := by
      simpa using TokenSource.take_ofList (tokens ++ [marker])
    have agrees := TokenSource.AgreesWith.of_take ends listed begins
    have same := (parseSource_of_agrees built at_root agrees
      (budget (tokens ++ [marker]).length parser.automaton.states.length)).2.1
    refine ⟨budget (tokens ++ [marker]).length parser.automaton.states.length, ?_⟩
    rw [same]
    exact parse_final built ⟨name⟩ (tokens ++ [marker])
  · have agrees := TokenSource.AgreesWith.of_take ends begins other_begins
    obtain ⟨moves, verdict, counts⟩ := parseSource_of_agrees built at_root agrees fuel
    obtain ⟨_, pulls⟩ := pullsFrom_parseSource built at_root source fuel
    obtain ⟨_, other_pulls⟩ := pullsFrom_parseSource built at_root other fuel
    have enough := pulls.pulled
    have other_enough := other_pulls.pulled
    exact ⟨moves, verdict, by omega⟩

/-- A sum that an end marker cuts short, with one more token behind it. -/
def cutSum : TokenSource :=
  .ofList (tokensOf ["Id", "Plus"] ++ [⟨Symbol.eof, "stop"⟩] ++ tokensOf ["Id"])

/-- The same sum, with a token pulled before it and another behind the end marker. -/
def resumedSum : TokenSource :=
  { TokenSource.ofList (tokensOf ["Plus", "Id", "Plus"] ++ [⟨Symbol.eof, "stop"⟩]
      ++ tokensOf ["Plus"]) with pulled := 1 }

theorem parse_pulls_exactly_cutSum :
    (sumsParser.parseSource 9 ⟨"e"⟩ cutSum).verdict =
        .rejected (.unrecognizedInput ⟨Symbol.eof, "stop"⟩ 4) ∧
      (sumsParser.parseSource 9 ⟨"e"⟩ cutSum).PullsFrom cutSum ⟨Symbol.eof, "stop"⟩ ∧
      (sumsParser.parseSource 9 ⟨"e"⟩ resumedSum).verdict =
        .rejected (.unrecognizedInput ⟨Symbol.eof, "stop"⟩ 4) ∧
      (sumsParser.parseSource 9 ⟨"e"⟩ resumedSum).pulled - 1 = 3 := by
  have built : ofGrammar sums .slr = .ok sumsParser := eq_ok_of_isSome sums_accepted
  have declared : "e" ∈ sums.start := List.mem_cons_self
  have computed : (sumsParser.parseSource 9 ⟨"e"⟩ cutSum).verdict =
        .rejected (.unrecognizedInput ⟨Symbol.eof, "stop"⟩ 4) ∧
      (sumsParser.parseSource 9 ⟨"e"⟩ cutSum).pulled = 3 ∧
      cutSum.take 3 = tokensOf ["Id", "Plus"] ++ [⟨Symbol.eof, "stop"⟩] ∧
      resumedSum.take 3 = tokensOf ["Id", "Plus"] ++ [⟨Symbol.eof, "stop"⟩] := by decide +kernel
  obtain ⟨refused, pulled, begins, resumes⟩ := computed
  obtain ⟨pulls, agree⟩ := parse_pulls_exactly built declared cutSum
  obtain ⟨last, from_source⟩ := pulls 9
  obtain ⟨-, verdict, counts⟩ := (agree resumedSum (tokensOf ["Id", "Plus"])
    ⟨Symbol.eof, "stop"⟩ rfl begins resumes).2 9
  refine ⟨refused, ?_, verdict.trans refused, ?_⟩
  · rwa [← from_source.refused _ _ refused] at from_source
  · rw [pulled] at counts
    exact counts

end Parser

end ShiftReduce
