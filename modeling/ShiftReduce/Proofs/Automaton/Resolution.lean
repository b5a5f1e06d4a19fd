import ShiftReduce.Proofs.Automaton.Canonical
import ShiftReduce.Proofs.Automaton.Renaming
import ShiftReduce.Proofs.Registry.Follow

/-!
The table of actions and the list of conflicts are exact. What competes for a terminal in a state is a
shift along its edge and a reduction for each complete item that may reduce there. The table holds the
one whose production was registered first, and a shift before a reduction by the same production. Where
there are others, one conflict lists them in that order. How the items of the state are ordered plays no
part in it.
-/
namespace ShiftReduce

/-- The one of an earlier production is better, and of one production, the shift. -/
def Candidate.Outranks (better worse : Candidate) : Prop :=
  better.rank < worse.rank ∨
    better.rank = worse.rank ∧ better.action.isShift = true ∧ worse.action.isShift = false

namespace Candidate

variable {registry : Registry} {lookahead : Lookahead} {items : List Item} {t : Nat} {terminal : Symbol}

theorem pairwise_insert_shift {shift : Candidate} {others : List Candidate}
    (shifts : shift.action.isShift = true)
    (reduce : ∀ other ∈ others, other.action.isShift = false) (sorted : others.Pairwise Outranks) :
    (Ranking.insert precedes shift others).Pairwise Outranks := by
  induction others with
  | nil => exact List.pairwise_singleton _ _
  | cons first rest ih =>
    rw [List.forall_mem_cons] at reduce
    obtain ⟨worse, rest_sorted⟩ := List.pairwise_cons.mp sorted
    by_cases before : shift.rank ≤ first.rank
    · have front : precedes shift first = true := decide_eq_true before
      rw [Ranking.insert, if_pos front, List.pairwise_cons, List.forall_mem_cons]
      refine ⟨⟨?_, fun other mem => ?_⟩, sorted⟩
      · exact (Nat.lt_or_eq_of_le before).imp_right fun tied => ⟨tied, shifts, reduce.1⟩
      · have first_le : first.rank ≤ other.rank :=
          (worse other mem).elim Nat.le_of_lt fun tied => Nat.le_of_eq tied.1
        exact (Nat.lt_or_eq_of_le (Nat.le_trans before first_le)).imp_right
          fun tied => ⟨tied, shifts, reduce.2 other mem⟩
    · rw [Ranking.insert, if_neg (by simpa [precedes] using before), List.pairwise_cons]
      refine ⟨fun other mem => ?_, ih reduce.2 rest_sorted⟩
      obtain rfl | mem := List.mem_cons.mp ((Ranking.insert_perm _ _ _).mem_iff.mp mem)
      · exact .inl (Nat.lt_of_not_le before)
      · exact worse other mem

theorem nodup_complete (nodup : items.Nodup) (valid : ∀ item ∈ items, registry.Valid item) :
    ((items.filter registry.isComplete).map (·.production)).Nodup := by
  refine List.Nodup.map_on ?_ (nodup.filter _)
  intro item mem other other_mem same
  rw [List.mem_filter, Registry.isComplete_iff] at mem other_mem
  obtain ⟨inside, production, found, complete⟩ := mem
  obtain ⟨other_inside, production', found', other_complete⟩ := other_mem
  obtain ⟨_, valid_found, within⟩ := valid item inside
  obtain ⟨_, other_valid_found, other_within⟩ := valid other other_inside
  rw [same] at found valid_found
  cases found.symm.trans found'
  cases found.symm.trans valid_found
  cases found.symm.trans other_valid_found
  cases item
  cases other
  simp only [Item.mk.injEq] at same ⊢
  exact ⟨same, by dsimp only at *; omega⟩

theorem pairwise_sort_reduces (nodup : items.Nodup)
    (valid : ∀ item ∈ items, registry.Valid item) :
    (Ranking.sort precedes (reduces registry lookahead (items.filter registry.isComplete)
      t terminal)).Pairwise Outranks := by
  have sorted := Ranking.pairwise_sort precedes_total precedes_trans
    (reduces registry lookahead (items.filter registry.isComplete) t terminal)
  have ranks : ((reduces registry lookahead (items.filter registry.isComplete) t terminal).map
      (·.rank)).Nodup := by
    rw [reduces, List.map_map]
    exact (nodup_complete nodup valid).sublist (List.filter_sublist.map _)
  have apart := ((Ranking.sort_perm precedes _).map (·.rank)).nodup_iff.mpr ranks
  have apart := List.pairwise_map.mp apart
  refine (sorted.and apart).imp fun both => .inl ?_
  exact Nat.lt_of_le_of_ne (of_decide_eq_true both.1) both.2

section

variable {edges : List (Symbol × Nat)} {candidate : Candidate}

theorem shifts_cases (registry : Registry) (items : List Item) (edges : List (Symbol × Nat))
    (terminal : Symbol) : shifts registry items edges terminal = [] ∨
      ∃ rank target, shifts registry items edges terminal = [⟨rank, .shift target⟩] := by
  unfold shifts
  cases edges.lookup terminal with
  | none => exact .inl rfl
  | some target =>
    dsimp only
    cases ((registry.advance items terminal).map (·.production)).min? with
    | none => exact .inl rfl
    | some rank => exact .inr ⟨rank, target, rfl⟩

theorem mem_shifts : candidate ∈ shifts registry items edges terminal ↔
    ∃ rank target, candidate = ⟨rank, .shift target⟩ ∧ edges.lookup terminal = some target ∧
      (∃ item ∈ items, registry.next? item = some terminal ∧ item.production = rank) ∧
      ∀ item ∈ items, registry.next? item = some terminal → rank ≤ item.production := by
  have advanced : ∀ rank, rank ∈ (registry.advance items terminal).map (·.production) ↔
      ∃ item ∈ items, registry.next? item = some terminal ∧ item.production = rank := by
    intro rank
    simp only [Registry.advance_eq, List.map_map, List.mem_map, List.mem_filter, decide_eq_true_eq,
      and_assoc]
    rfl
  have least : ∀ rank, ((registry.advance items terminal).map (·.production)).min? = some rank ↔
      (∃ item ∈ items, registry.next? item = some terminal ∧ item.production = rank) ∧
        ∀ item ∈ items, registry.next? item = some terminal → rank ≤ item.production := by
    intro rank
    simp only [List.min?_eq_some_iff, advanced, forall_exists_index, and_imp]
    exact and_congr_right fun _ => ⟨fun first item mem next => first _ item mem next rfl,
      fun first _ item mem next same => same ▸ first item mem next⟩
  simp only [← least]
  unfold shifts
  cases edges.lookup terminal with
  | none => simp
  | some target => simp [eq_comm, and_comm]

theorem mem_reduces {complete : List Item} :
    candidate ∈ reduces registry lookahead complete t terminal ↔ ∃ item ∈ complete,
      reducesOn registry lookahead item.production t terminal = true ∧
        candidate = ⟨item.production, .reduce item.production⟩ := by
  simp only [reduces, List.mem_map, List.mem_filter, and_assoc, eq_comm]

/-- The candidates of a state are strictly ordered. -/
theorem pairwise_ranked (nodup : items.Nodup) (valid : ∀ item ∈ items, registry.Valid item) :
    (ranked registry lookahead items (items.filter registry.isComplete) edges
      t terminal).Pairwise Outranks := by
  rw [ranked, Ranking.sort_append]
  obtain none | ⟨rank, target, one⟩ := shifts_cases registry items edges terminal
  · rw [none]
    exact pairwise_sort_reduces nodup valid
  · rw [one]
    refine pairwise_insert_shift rfl (fun other mem => ?_) (pairwise_sort_reduces nodup valid)
    obtain ⟨item, -, -, rfl⟩ := mem_reduces.mp (Ranking.mem_sort.mp mem)
    rfl

end

theorem reducesOn_iff (wellformed : registry.Wellformed) (at_t : registry.terminals[t]? = some terminal)
    {id : Nat} {production : Production} (found : registry.productions[id]? = some production) :
    reducesOn registry lookahead id t terminal = true ↔
      registry.isStartProduction id = true ∧ terminal = Symbol.eof ∨
        registry.isStartProduction id = false ∧
          (lookahead = .lr0 ∨ terminal ∈ registry.followOf production.lhs) := by
  have lhs : registry.lhs? id = some production.lhs := by rw [Registry.lhs?, found]; rfl
  unfold reducesOn
  rw [lhs, Option.any_some, Registry.mem_followOf wellformed at_t]
  cases start : registry.isStartProduction id with
  | true => simp [Symbol.isEof_iff]
  | false => cases lookahead <;> simp

end Candidate

namespace Cell

theorem rename_id (cell : Cell) : cell.rename id = cell := by
  have same : Action.rename id = id := by
    funext action
    cases action <;> rfl
  rw [rename, same, List.map_id]
  rfl

theorem row_perm {registry : Registry} {lookahead : Lookahead} {items other : List Item}
    (nodup : items.Nodup) (perm : other.Perm items) (edges : List (Symbol × Nat)) :
    row registry lookahead other edges = row registry lookahead items edges := by
  have renamed : row registry lookahead other edges =
      (row registry lookahead items edges).map fun entry => (entry.1, entry.2.rename id) :=
    row_rename (fun _ => perm.mem_iff) nodup (perm.nodup_iff.mpr nodup)
      fun symbol => Option.map_id'.symm
  simpa only [rename_id, List.map_id'] using renamed

end Cell

theorem Conflict.lookahead_of_ofCell? {state : Nat} {lookahead : Symbol} {cell : Cell}
    {conflict : Conflict} (made : ofCell? state lookahead cell = some conflict) :
    conflict.lookahead = lookahead := by
  unfold ofCell? at made
  split at made
  · cases made
    rfl
  · cases made

theorem Conflict.ofCell?_ofCandidates (state : Nat) (lookahead : Symbol) (best next : Candidate)
    (others : List Candidate) :
    (Cell.ofCandidates (best :: next :: others)).bind (ofCell? state lookahead) =
      some ⟨state, lookahead,
        if (best :: next :: others).any (·.action.isShift) then .shiftReduce else .reduceReduce,
        best.action, (next :: others).map (·.action)⟩ := by
  have shifting : Cell.hasShift ⟨best.action, (next :: others).map (·.action)⟩ =
      (best :: next :: others).any (·.action.isShift) := by
    simp [Cell.hasShift, Function.comp_def]
  simp only [Cell.ofCandidates, Option.bind_some, ofCell?, shifting]
  rfl

section

variable {α β : Type} [DecidableEq α] {value : α → Option β} {key : β → α} {keys : List α} {k : α}
  (named : ∀ k b, value k = some b → key b = k)

include named

theorem filter_filterMap_of_notMem (missing : k ∉ keys) :
    (keys.filterMap value).filter (key · = k) = [] := by
  rw [List.filter_eq_nil_iff]
  intro b mem same
  obtain ⟨other, listed, made⟩ := List.mem_filterMap.mp mem
  have other_key := named other b made
  rw [of_decide_eq_true same] at other_key
  exact missing (other_key ▸ listed)

theorem filter_filterMap_of_nodup (nodup : keys.Nodup) (mem : k ∈ keys) :
    (keys.filterMap value).filter (key · = k) = (value k).toList := by
  induction keys with
  | nil => cases mem
  | cons first rest ih =>
    rw [List.nodup_cons] at nodup
    obtain rfl | later := List.mem_cons.mp mem
    · have others := filter_filterMap_of_notMem named nodup.1
      cases made : value k with
      | none => simp [made, others]
      | some b => simp [made, named k b made, others]
    · have apart : first ≠ k := fun same => nodup.1 (same ▸ later)
      cases made : value first with
      | none => simp [made, ih nodup.2 later]
      | some b => simp [made, named first b made, apart, ih nodup.2 later]

end

namespace Automaton

variable {registry : Registry} {lookahead : Lookahead} {symbols : List Symbol} {automaton : Automaton}
  {q : Nat} {state : State} {terminal : Symbol} {candidate : Candidate}

/-- What competes for a terminal in the state numbered `q`. A shift along the edge ranks by the earliest
production among the items that have the terminal next, a reduction by its own production. -/
inductive Competes (registry : Registry) (lookahead : Lookahead) (automaton : Automaton) (q : Nat)
    (terminal : Symbol) : Candidate → Prop where
  | shift {state : State} {target rank : Nat} : automaton.states[q]? = some state →
      automaton.goto? q terminal = some target →
      (∃ item ∈ state.items, registry.next? item = some terminal ∧ item.production = rank) →
      (∀ item ∈ state.items, registry.next? item = some terminal → rank ≤ item.production) →
      Competes registry lookahead automaton q terminal ⟨rank, .shift target⟩
  | accept {state : State} {item : Item} : automaton.states[q]? = some state →
      item ∈ state.items → registry.isComplete item = true →
      registry.isStartProduction item.production = true → terminal = Symbol.eof →
      Competes registry lookahead automaton q terminal ⟨item.production, .reduce item.production⟩
  | reduce {state : State} {item : Item} {production : Production} :
      automaton.states[q]? = some state → item ∈ state.items → registry.isComplete item = true →
      registry.isStartProduction item.production = false →
      registry.productions[item.production]? = some production →
      lookahead = .lr0 ∨ terminal ∈ registry.followOf production.lhs →
      Competes registry lookahead automaton q terminal ⟨item.production, .reduce item.production⟩

def conflictsAt (automaton : Automaton) (q : Nat) (terminal : Symbol) : List Conflict :=
  automaton.conflicts.filter fun conflict => conflict.state = q ∧ conflict.lookahead = terminal

/-- What is held for one state and terminal, where `ranking` has all that competes there, best first: the
first action, and one conflict if there are others. -/
structure Resolves (automaton : Automaton) (q : Nat) (terminal : Symbol) (ranking : List Candidate) :
    Prop where
  action?_eq : automaton.action? q terminal = ranking.head?.map (·.action)
  recorded : (automaton.conflictsAt q terminal).length = if 2 ≤ ranking.length then 1 else 0
  chosen : ∀ conflict ∈ automaton.conflictsAt q terminal,
    automaton.action? q terminal = some conflict.chosen
  rejected : ∀ conflict ∈ automaton.conflictsAt q terminal,
    ranking.map (·.action) = conflict.chosen :: conflict.rejected
  kind : ∀ conflict ∈ automaton.conflictsAt q terminal,
    conflict.kind = .shiftReduce ↔ ∃ candidate ∈ ranking, candidate.action.isShift = true

theorem Resolves.of_quiet {ranking : List Candidate}
    (action : automaton.action? q terminal = ranking.head?.map (·.action))
    (quiet : automaton.conflictsAt q terminal = []) (few : ranking.length < 2) :
    Resolves automaton q terminal ranking := by
  have none : ∀ conflict, conflict ∉ automaton.conflictsAt q terminal := by simp [quiet]
  refine ⟨action, ?_, ?_, ?_, ?_⟩
  · rw [quiet, if_neg (Nat.not_le_of_lt few)]
    rfl
  all_goals exact fun conflict mem => absurd mem (none conflict)

theorem mem_candidates_iff (wellformed : registry.Wellformed)
    (registered : terminal ∈ registry.terminals) (at_q : automaton.states[q]? = some state) :
    candidate ∈ candidates registry lookahead state terminal ↔
      Competes registry lookahead automaton q terminal candidate := by
  rw [candidates, Candidate.ranked, Ranking.mem_sort, List.mem_append, Candidate.mem_shifts,
    Candidate.mem_reduces]
  have at_t := registry.getElem?_indexOf registered
  constructor
  · rintro (⟨rank, target, rfl, edge, earliest, least⟩ | ⟨item, mem, on, rfl⟩)
    · exact .shift at_q ((Realizes.goto?_eq at_q terminal).trans edge) earliest least
    · obtain ⟨inside, complete⟩ := List.mem_filter.mp mem
      obtain ⟨production, found, -⟩ := Registry.isComplete_iff.mp complete
      obtain ⟨start, ends⟩ | ⟨inner, followed⟩ :=
        (Candidate.reducesOn_iff wellformed at_t found).mp on
      · exact .accept at_q inside complete start ends
      · exact .reduce at_q inside complete inner found followed
  · intro competes
    cases competes with
    | shift at_q' edge earliest least =>
      cases at_q.symm.trans at_q'
      rw [Realizes.goto?_eq at_q] at edge
      exact .inl ⟨_, _, rfl, edge, earliest, least⟩
    | accept at_q' inside complete start ends =>
      cases at_q.symm.trans at_q'
      obtain ⟨production, found, -⟩ := Registry.isComplete_iff.mp complete
      exact .inr ⟨_, List.mem_filter.mpr ⟨inside, complete⟩,
        (Candidate.reducesOn_iff wellformed at_t found).mpr (.inl ⟨start, ends⟩), rfl⟩
    | reduce at_q' inside complete inner found followed =>
      cases at_q.symm.trans at_q'
      exact .inr ⟨_, List.mem_filter.mpr ⟨inside, complete⟩,
        (Candidate.reducesOn_iff wellformed at_t found).mpr (.inr ⟨inner, followed⟩), rfl⟩

theorem conflictsAt_eq_filter (automaton : Automaton) (q : Nat) (terminal : Symbol) :
    automaton.conflictsAt q terminal =
      (automaton.conflicts.filter (·.state = q)).filter (·.lookahead = terminal) := by
  rw [conflictsAt, List.filter_filter]
  exact List.filter_congr fun conflict _ => by rw [Bool.decide_and, Bool.and_comm]

theorem conflictsAt_of_state_none (realizes : Realizes registry lookahead automaton)
    (missing : automaton.states[q]? = none) (terminal : Symbol) :
    automaton.conflictsAt q terminal = [] := by
  rw [conflictsAt_eq_filter, conflicts_of_state realizes, missing]
  rfl

theorem not_competes_of_state_none (missing : automaton.states[q]? = none) :
    ¬Competes registry lookahead automaton q terminal candidate := by
  intro competes
  cases competes with
  | shift at_q | accept at_q | reduce at_q => cases missing.symm.trans at_q

theorem lookahead_of_candidates {conflict : Conflict}
    (made : (Cell.ofCandidates (candidates registry lookahead state terminal)).bind
      (Conflict.ofCell? q terminal) = some conflict) : conflict.lookahead = terminal := by
  obtain ⟨cell, -, made⟩ := Option.bind_eq_some_iff.mp made
  exact Conflict.lookahead_of_ofCell? made

section

variable (realizes : Realizes registry lookahead automaton) (at_q : automaton.states[q]? = some state)

include realizes at_q

theorem conflicts_of_candidates : automaton.conflicts.filter (·.state = q) =
    registry.terminals.filterMap fun terminal =>
      (Cell.ofCandidates (candidates registry lookahead state terminal)).bind
        (Conflict.ofCell? q terminal) := by
  rw [conflicts_of_state realizes, at_q, Option.elim_some, realizes.row_eq at_q,
    Cell.row_eq realizes.terminals_nodup, List.filterMap_filterMap]
  refine List.filterMap_congr fun terminal _ => ?_
  rw [Option.bind_map]
  rfl

theorem conflictsAt_of_notMem (missing : terminal ∉ registry.terminals) :
    automaton.conflictsAt q terminal = [] := by
  rw [conflictsAt_eq_filter, conflicts_of_candidates realizes at_q]
  exact filter_filterMap_of_notMem (fun _ _ => lookahead_of_candidates) missing

theorem conflictsAt_of_mem (nodup : registry.terminals.Nodup)
    (registered : terminal ∈ registry.terminals) :
    automaton.conflictsAt q terminal =
      ((Cell.ofCandidates (candidates registry lookahead state terminal)).bind
        (Conflict.ofCell? q terminal)).toList := by
  rw [conflictsAt_eq_filter, conflicts_of_candidates realizes at_q]
  exact filter_filterMap_of_nodup (fun _ _ => lookahead_of_candidates) nodup registered

theorem action?_of_mem (registered : terminal ∈ registry.terminals) :
    automaton.action? q terminal =
      (candidates registry lookahead state terminal).head?.map (·.action) := by
  refine Option.ext fun action => ?_
  rw [realizes.action?_eq_some_iff at_q]
  cases candidates registry lookahead state terminal <;> simp [registered]

theorem resolves_candidates (nodup : registry.terminals.Nodup)
    (registered : terminal ∈ registry.terminals) :
    Resolves automaton q terminal (candidates registry lookahead state terminal) := by
  have conflicts := conflictsAt_of_mem realizes at_q nodup registered
  have action := action?_of_mem realizes at_q registered
  match ranked : candidates registry lookahead state terminal with
  | [] =>
    rw [ranked] at conflicts action
    exact .of_quiet action conflicts (by simp)
  | [only] =>
    rw [ranked] at conflicts action
    exact .of_quiet action conflicts (by simp)
  | best :: next :: others =>
    rw [ranked] at action
    rw [ranked, Conflict.ofCell?_ofCandidates, Option.toList_some] at conflicts
    constructor
    · exact action
    · simp [conflicts]
    · simp [conflicts, action]
    · simp [conflicts]
    · intro conflict mem
      rw [conflicts, List.mem_singleton] at mem
      rw [mem]
      by_cases shifts : (best :: next :: others).any (·.action.isShift) = true
      · simpa only [if_pos shifts, true_iff] using List.any_eq_true.mp shifts
      · simpa only [if_neg shifts, reduceCtorEq, false_iff] using mt List.any_eq_true.mpr shifts

end

/-- The table and the conflicts of an automaton are exact. Before a registered terminal all that competes
has one ranking, and it settles what the table holds and which conflict is recorded. Before any other
symbol there is nothing, and the order of the items in a state does not matter. -/
theorem table_exact {grammar : Grammar} (accepted : Registry.ofGrammar grammar = .ok registry)
    (built : buildFor registry lookahead symbols = .ok automaton) :
    (∀ q, ∀ terminal ∈ registry.terminals, ∃ ranking : List Candidate,
      (∀ candidate, candidate ∈ ranking ↔
        Competes registry lookahead automaton q terminal candidate) ∧
      ranking.Pairwise Candidate.Outranks ∧ Resolves automaton q terminal ranking) ∧
    (∀ q symbol, symbol ∉ registry.terminals →
      automaton.action? q symbol = none ∧ automaton.conflictsAt q symbol = []) ∧
    ∀ (q : Nat) (state : State), automaton.states[q]? = some state →
      ∀ items, items.Perm state.items →
        Cell.row registry lookahead items state.edges = state.row := by
  have wellformed := (Registry.acceptedFrom accepted).wellformed
  have realizes := realizes_of_buildFor wellformed built
  refine ⟨fun q terminal registered => ?_, fun q symbol missing => ⟨?_, ?_⟩, ?_⟩
  · cases at_q : automaton.states[q]? with
    | none =>
      exact ⟨[], fun _ => iff_of_false List.not_mem_nil (not_competes_of_state_none at_q), .nil,
        .of_quiet (action?_of_state_none at_q terminal) (conflictsAt_of_state_none realizes at_q terminal)
          (by simp)⟩
    | some state =>
      have canonical := canonicalState_of_buildFor wellformed built at_q
      exact ⟨_, fun candidate => mem_candidates_iff wellformed registered at_q,
        Candidate.pairwise_ranked canonical.nodup canonical.valid,
        resolves_candidates realizes at_q wellformed.terminals_nodup registered⟩
  · refine Option.eq_none_iff_forall_ne_some.mpr fun action chosen => missing ?_
    exact (realizes.asks_of_action? chosen).1
  · cases at_q : automaton.states[q]? with
    | none => exact conflictsAt_of_state_none realizes at_q symbol
    | some state => exact conflictsAt_of_notMem realizes at_q missing
  · intro q state at_q items perm
    have canonical := canonicalState_of_buildFor wellformed built at_q
    rw [realizes.row_eq at_q]
    exact Cell.row_perm canonical.nodup perm state.edges

/-- Sums that may be taken apart in two ways: behind one of them `Plus` is shifted and reduced on by the
same production. -/
def ties : Grammar where
  start := ["e"]
  rules := [
    ("e", .seq [.symbol "e", .symbol "Plus", .symbol "e"] ||| .symbol "Id" ||| .symbol "n"),
    ("n", .symbol "Id")]
  nullable := []

def tiesRegistry : Registry := (Registry.ofGrammar ties).toOption.get (by decide +kernel)

def tiesAutomaton : Automaton := (buildAll tiesRegistry .slr).toOption.get (by decide +kernel)

theorem table_of_ties :
    tiesAutomaton.action? 5 ⟨"Plus"⟩ = some (.shift 4) ∧
      (∀ action ∈ [Action.shift 4, .reduce 1], ∃ rank,
        Competes tiesRegistry .slr tiesAutomaton 5 ⟨"Plus"⟩ ⟨rank, action⟩) ∧
      (∀ candidate, Competes tiesRegistry .slr tiesAutomaton 5 ⟨"Plus"⟩ candidate →
        candidate.action ∈ [Action.shift 4, .reduce 1]) ∧
      tiesAutomaton.action? 5 ⟨"n"⟩ = none := by
  have accepted : Registry.ofGrammar ties = .ok tiesRegistry := eq_ok_of_isSome _
  have built : buildFor tiesRegistry .slr tiesRegistry.starts = .ok tiesAutomaton :=
    eq_ok_of_isSome _
  have computed : ⟨"Plus"⟩ ∈ tiesRegistry.terminals ∧ ⟨"n"⟩ ∉ tiesRegistry.terminals ∧
      tiesAutomaton.conflictsAt 5 ⟨"Plus"⟩ =
        [⟨5, ⟨"Plus"⟩, .shiftReduce, .shift 4, [.reduce 1]⟩] := by decide +kernel
  obtain ⟨registered, nonterminal, recorded⟩ := computed
  obtain ⟨exact_cells, nothing, -⟩ := table_exact accepted built
  obtain ⟨ranking, competing, -, resolves⟩ := exact_cells 5 ⟨"Plus"⟩ registered
  have conflict := recorded ▸ List.mem_singleton_self
    (⟨5, ⟨"Plus"⟩, .shiftReduce, .shift 4, [.reduce 1]⟩ : Conflict)
  have actions := resolves.rejected _ conflict
  refine ⟨resolves.chosen _ conflict, fun action mem => ?_, fun candidate competes => ?_,
    (nothing 5 _ nonterminal).1⟩
  · rw [← actions] at mem
    obtain ⟨candidate, listed, rfl⟩ := List.mem_map.mp mem
    exact ⟨candidate.rank, (competing candidate).mp listed⟩
  · rw [← actions]
    exact List.mem_map_of_mem ((competing candidate).mpr competes)

end Automaton

end ShiftReduce
