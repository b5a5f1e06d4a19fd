import ShiftReduce.Proofs.Automaton.Kernel
import ShiftReduce.Proofs.Automaton.Realization

/-!
The automaton is the item machine made deterministic. A walk from a start state along a string goes
through exactly if the item machine can read the string, and the state at its end holds the items the
machine may then be in. There is one state for each such set of items, whichever start symbols the
walks began with.
-/
namespace ShiftReduce

/-- Reading `read` leads from the beginning of the augmented production of `start` to `item`. -/
def Registry.Reaches (registry : Registry) (start : Symbol) (read : List Symbol) (item : Item) :
    Prop :=
  ∃ production, registry.startProduction start = some production ∧
    ItemPath registry production read item

theorem Registry.reaches_iff {registry : Registry} {start : Symbol} {production : Nat}
    {read : List Symbol} {item : Item}
    (declared : registry.startProduction start = some production) :
    registry.Reaches start read item ↔ ItemPath registry production read item := by
  simp [Reaches, declared]

namespace Automaton

def walkEnd (automaton : Automaton) (start : Symbol) (path : List Symbol) : Option Nat :=
  (automaton.walk start path).getLast?.join

variable {registry : Registry} {lookahead : Lookahead} {automaton : Automaton} {symbols : List Symbol}
  {start symbol : Symbol} {path : List Symbol} {q : Nat}

theorem walkEnd_eq_foldl : automaton.walkEnd start path =
    path.foldl (fun state symbol => state.bind (automaton.goto? · symbol)) (automaton.start? start) := by
  rw [walkEnd, walk]
  generalize automaton.start? start = state
  induction path generalizing state with
  | nil => rfl
  | cons symbol rest ih =>
    rw [List.foldl_cons, ← ih, walkFrom, List.getLast?_cons]
    cases rest <;> simp [walkFrom, List.getLast?_cons]

theorem walkEnd_nil : automaton.walkEnd start [] = automaton.start? start := rfl

theorem walkEnd_snoc : automaton.walkEnd start (path ++ [symbol]) =
    (automaton.walkEnd start path).bind (automaton.goto? · symbol) := by
  simp [walkEnd_eq_foldl]

namespace Realizes

variable {production : Nat} (realizes : Realizes registry lookahead automaton)

include realizes

theorem items_of_walkEnd (declared : registry.startProduction start = some production)
    (walked : automaton.walkEnd start path = some q) :
    (∃ item, ItemPath registry production path item) ∧ ∃ state, automaton.states[q]? = some state ∧
      ∀ item, item ∈ state.items ↔ ItemPath registry production path item := by
  induction path using List.reverseRecOn generalizing q with
  | nil => exact ⟨⟨_, .here⟩, realizes.start_paths walked declared⟩
  | append_singleton path symbol ih =>
    rw [walkEnd_snoc, Option.bind_eq_some_iff] at walked
    obtain ⟨before, walked, edge⟩ := walked
    obtain ⟨-, state, at_before, items⟩ := ih walked
    obtain ⟨⟨item, mem, next⟩, -⟩ := realizes.goto_items at_before edge
    exact ⟨⟨_, .past ((items item).mp mem) next⟩, realizes.goto_paths at_before items edge⟩

theorem walkEnd_of_path {root : Nat} {item : Item} (at_root : automaton.start? start = some root)
    (declared : registry.startProduction start = some production)
    (reached : ItemPath registry production path item) :
    ∃ q, automaton.walkEnd start path = some q := by
  induction path using List.reverseRecOn generalizing item with
  | nil => exact ⟨root, walkEnd_nil.trans at_root⟩
  | append_singleton path symbol ih =>
    obtain ⟨earlier, at_path, next⟩ := reached.expects
    obtain ⟨before, walked⟩ := ih at_path
    obtain ⟨-, state, at_before, items⟩ := realizes.items_of_walkEnd declared walked
    obtain ⟨target, edge⟩ := realizes.goto_exists at_before ((items earlier).mpr at_path) next
    refine ⟨target, ?_⟩
    rw [walkEnd_snoc, walked]
    exact edge

end Realizes

theorem state_unique (wellformed : registry.Wellformed)
    (built : buildFor registry lookahead symbols = .ok automaton) {r : Nat} {state other : State}
    (at_q : automaton.states[q]? = some state) (at_r : automaton.states[r]? = some other)
    (same : ∀ item, item ∈ state.items ↔ item ∈ other.items) : q = r := by
  obtain ⟨pairs, -, paired, rfl⟩ := ofProductions_of_buildFor built
  rw [getElem?_states (production_lt_of_paired wellformed paired), Option.map_eq_some_iff] at at_q at_r
  obtain ⟨node, at_q, rfl⟩ := at_q
  obtain ⟨node', at_r, rfl⟩ := at_r
  exact Collection.index_unique wellformed (isStartProduction_of_paired paired) at_q at_r same

/-- An automaton built for any of the start symbols, one or all of them, is the item machine of their
augmented productions made deterministic. -/
theorem determinizes {grammar : Grammar} (accepted : Registry.ofGrammar grammar = .ok registry)
    (built : buildFor registry lookahead symbols = .ok automaton) :
    (∀ start ∈ symbols, ∀ path,
      ((∃ q, automaton.walkEnd start path = some q) ↔ ∃ item, registry.Reaches start path item) ∧
      ∀ q, automaton.walkEnd start path = some q → ∃ state, automaton.states[q]? = some state ∧
        ∀ item, item ∈ state.items ↔ registry.Reaches start path item) ∧
    ∀ start ∈ symbols, ∀ other ∈ symbols, ∀ path way q r,
      automaton.walkEnd start path = some q → automaton.walkEnd other way = some r →
      (q = r ↔ ∀ item, registry.Reaches start path item ↔ registry.Reaches other way item) := by
  have wellformed := (Registry.acceptedFrom accepted).wellformed
  have realizes := realizes_of_buildFor wellformed built
  have rooted : ∀ start ∈ symbols, ∃ root production, automaton.start? start = some root ∧
      registry.startProduction start = some production := by
    intro start mem
    obtain ⟨root, at_root⟩ := start?_of_buildFor built mem
    obtain ⟨production, -, declared, -⟩ := realizes.start_items at_root
    exact ⟨root, production, at_root, declared⟩
  refine ⟨fun start mem path => ?_, fun start mem other other_mem path way q r to_q to_r => ?_⟩
  · obtain ⟨root, production, at_root, declared⟩ := rooted start mem
    simp only [Registry.reaches_iff declared]
    refine ⟨⟨fun walk => ?_, fun reads => ?_⟩, fun q walked => ?_⟩
    · obtain ⟨q, walked⟩ := walk
      exact (realizes.items_of_walkEnd declared walked).1
    · obtain ⟨item, reached⟩ := reads
      exact realizes.walkEnd_of_path at_root declared reached
    · exact (realizes.items_of_walkEnd declared walked).2
  · obtain ⟨-, first, -, declared⟩ := rooted start mem
    obtain ⟨-, second, -, other_declared⟩ := rooted other other_mem
    obtain ⟨-, state, at_q, items⟩ := realizes.items_of_walkEnd declared to_q
    obtain ⟨-, end_state, at_r, end_items⟩ := realizes.items_of_walkEnd other_declared to_r
    simp only [Registry.reaches_iff declared, Registry.reaches_iff other_declared, ← items,
      ← end_items]
    constructor
    · rintro rfl
      cases at_q.symm.trans at_r
      exact fun _ => Iff.rfl
    · exact state_unique wellformed built at_q at_r

def parens : Grammar where
  start := ["s", "t"]
  rules := [
    ("s", .seq [.symbol "t", .symbol "Plus", .symbol "s"] ||| .symbol "t"),
    ("t", .seq [.symbol "LParen", .symbol "s", .symbol "RParen"] ||| .symbol "Id")]
  nullable := []

theorem parens_accepted : (Registry.ofGrammar parens).toOption.isSome = true := by decide +kernel

def parensRegistry : Registry := (Registry.ofGrammar parens).toOption.get parens_accepted

theorem parens_built : (buildAll parensRegistry .lr0).toOption.isSome = true := by decide +kernel

def parensAutomaton : Automaton := (buildAll parensRegistry .lr0).toOption.get parens_built

/-- Behind an opening parenthesis it does not matter how many there were and where the walk began. -/
theorem determinizes_parens :
    (∃ q, parensAutomaton.walkEnd ⟨"s"⟩ [⟨"LParen"⟩, ⟨"LParen"⟩] = some q ∧
      parensAutomaton.walkEnd ⟨"t"⟩ [⟨"LParen"⟩] = some q) ∧
    (∀ item, parensRegistry.Reaches ⟨"s"⟩ [⟨"LParen"⟩, ⟨"LParen"⟩] item ↔
      parensRegistry.Reaches ⟨"t"⟩ [⟨"LParen"⟩] item) ∧
    parensAutomaton.walkEnd ⟨"t"⟩ [⟨"Id"⟩, ⟨"Plus"⟩] = none ∧
    ∀ item, ¬ parensRegistry.Reaches ⟨"t"⟩ [⟨"Id"⟩, ⟨"Plus"⟩] item := by
  have accepted : Registry.ofGrammar parens = .ok parensRegistry := eq_ok_of_isSome parens_accepted
  have built : buildFor parensRegistry .lr0 parensRegistry.starts = .ok parensAutomaton :=
    eq_ok_of_isSome parens_built
  have computed : (⟨"s"⟩ : Symbol) ∈ parensRegistry.starts ∧
      (⟨"t"⟩ : Symbol) ∈ parensRegistry.starts ∧
      parensAutomaton.walkEnd ⟨"s"⟩ [⟨"LParen"⟩, ⟨"LParen"⟩] = some 3 ∧
      parensAutomaton.walkEnd ⟨"t"⟩ [⟨"LParen"⟩] = some 3 ∧
      parensAutomaton.walkEnd ⟨"t"⟩ [⟨"Id"⟩, ⟨"Plus"⟩] = none := by decide +kernel
  obtain ⟨sum, term, deep, shallow, stuck⟩ := computed
  obtain ⟨reads, meets⟩ := determinizes accepted built
  refine ⟨⟨3, deep, shallow⟩, ?_, stuck, fun item reached => ?_⟩
  · exact (meets _ sum _ term _ _ 3 3 deep shallow).mp rfl
  · obtain ⟨q, walked⟩ := (reads _ term _).1.mpr ⟨item, reached⟩
    rw [stuck] at walked
    cases walked

end Automaton

end ShiftReduce
