import ShiftReduce.Proofs.Automaton.Realization

/-!
Which actions compete for a lookahead, and that the table holds one of them. Without a recorded
conflict there is only one to choose, so every action asked for is the one in the table.
-/
namespace ShiftReduce

theorem Ranking.mem_sort {α : Type} {le : α → α → Bool} {xs : List α} {x : α} :
    x ∈ Ranking.sort le xs ↔ x ∈ xs := (Ranking.sort_perm le xs).mem_iff

namespace Registry

variable {registry : Registry} {terminal : Symbol}

def indexOf (registry : Registry) (terminal : Symbol) : Nat := registry.terminals.idxOf terminal

theorem getElem?_indexOf (registered : terminal ∈ registry.terminals) :
    registry.terminals[registry.indexOf terminal]? = some terminal :=
  List.getElem?_idxOf registered

theorem indexOf_eq (nodup : registry.terminals.Nodup) {t : Nat}
    (at_t : registry.terminals[t]? = some terminal) : registry.indexOf terminal = t := by
  obtain ⟨inside, rfl⟩ := List.getElem?_eq_some_iff.mp at_t
  exact nodup.idxOf_getElem t inside

end Registry

theorem Cell.row_eq {registry : Registry} (nodup : registry.terminals.Nodup) (lookahead : Lookahead)
    (items : List Item) (edges : List (Symbol × Nat)) :
    row registry lookahead items edges = registry.terminals.filterMap fun terminal =>
      (ofCandidates (Candidate.ranked registry lookahead items (items.filter registry.isComplete) edges
        (registry.indexOf terminal) terminal)).map (terminal, ·) := by
  conv_rhs => rw [← List.zipIdx_map_fst 0 registry.terminals, List.filterMap_map]
  refine List.filterMap_congr fun (terminal, t) mem => ?_
  have index := registry.indexOf_eq nodup (List.mk_mem_zipIdx_iff_getElem?.mp mem)
  simp only [Function.comp_apply, index]

namespace Automaton

variable {registry : Registry} {lookahead : Lookahead} {automaton : Automaton} {q : Nat}
  {state : State} {terminal : Symbol} {action : Action}

theorem goto?_of_state_none (missing : automaton.states[q]? = none) (symbol : Symbol) :
    automaton.goto? q symbol = none := by
  rw [goto?, missing]
  rfl

theorem action?_of_state_none (missing : automaton.states[q]? = none) (terminal : Symbol) :
    automaton.action? q terminal = none := by
  rw [action?, missing]
  rfl

/-- The actions that a state asks for on a terminal. -/
inductive Asks (registry : Registry) (lookahead : Lookahead) (automaton : Automaton) (q : Nat)
    (terminal : Symbol) : Action → Prop where
  | shift {target : Nat} : automaton.goto? q terminal = some target →
      Asks registry lookahead automaton q terminal (.shift target)
  | reduce {state : State} {item : Item} : automaton.states[q]? = some state →
      item ∈ state.items → registry.isComplete item = true →
      Candidate.reducesOn registry lookahead item.production (registry.indexOf terminal) terminal = true →
      Asks registry lookahead automaton q terminal (.reduce item.production)

def candidates (registry : Registry) (lookahead : Lookahead) (state : State) (terminal : Symbol) :
    List Candidate :=
  Candidate.ranked registry lookahead state.items (state.items.filter registry.isComplete)
    state.edges (registry.indexOf terminal) terminal

namespace Realizes

theorem goto?_eq (at_q : automaton.states[q]? = some state) (symbol : Symbol) :
    automaton.goto? q symbol = state.edges.lookup symbol := by
  rw [goto?, at_q]
  rfl

theorem mem_candidates (realizes : Realizes registry lookahead automaton)
    (at_q : automaton.states[q]? = some state) :
    (∃ candidate ∈ candidates registry lookahead state terminal, candidate.action = action) ↔
      Asks registry lookahead automaton q terminal action := by
  simp only [candidates, Candidate.ranked, Ranking.mem_sort, List.mem_append]
  constructor
  · rintro ⟨candidate, shift | reduce, rfl⟩
    · unfold Candidate.shifts at shift
      split at shift
      · cases shift
      · rename_i target edge
        obtain ⟨rank, -, rfl⟩ := List.mem_map.mp shift
        exact .shift ((goto?_eq at_q terminal).trans edge)
    · obtain ⟨item, mem, rfl⟩ := List.mem_map.mp reduce
      rw [List.mem_filter, List.mem_filter] at mem
      exact .reduce at_q mem.1.1 mem.1.2 mem.2
  · intro asks
    cases asks with
    | shift edge =>
      obtain ⟨⟨item, mem, next⟩, -⟩ := realizes.goto_items at_q edge
      rw [goto?_eq at_q] at edge
      have advanced : item.forward.production ∈
          (registry.advance state.items terminal).map (·.production) :=
        List.mem_map_of_mem (Registry.mem_advance.mpr ⟨item, mem, next, rfl⟩)
      obtain ⟨rank, least⟩ := Option.isSome_iff_exists.mp
        (List.isSome_min?_of_mem advanced)
      refine ⟨⟨rank, .shift _⟩, .inl ?_, rfl⟩
      simp [Candidate.shifts, edge, least]
    | reduce at_q' mem complete on =>
      cases at_q.symm.trans at_q'
      refine ⟨⟨_, _⟩, .inr (List.mem_map.mpr ⟨_, ?_, rfl⟩), rfl⟩
      rw [List.mem_filter, List.mem_filter]
      exact ⟨⟨mem, complete⟩, on⟩

theorem lookup_row (realizes : Realizes registry lookahead automaton)
    (at_q : automaton.states[q]? = some state) {cell : Cell} :
    state.row.lookup terminal = some cell ↔ terminal ∈ registry.terminals ∧
      Cell.ofCandidates (candidates registry lookahead state terminal) = some cell := by
  rw [realizes.row_eq at_q, Cell.row_eq realizes.terminals_nodup]
  exact lookup_filterMap

theorem action?_eq_some_iff (realizes : Realizes registry lookahead automaton)
    (at_q : automaton.states[q]? = some state) :
    automaton.action? q terminal = some action ↔ terminal ∈ registry.terminals ∧
      ∃ best others, candidates registry lookahead state terminal = best :: others ∧
        best.action = action := by
  rw [action?, at_q, Option.bind_some, Option.map_eq_some_iff]
  simp only [realizes.lookup_row at_q]
  constructor
  · rintro ⟨cell, ⟨registered, made⟩, rfl⟩
    cases ranked : candidates registry lookahead state terminal with
    | nil => simp [ranked, Cell.ofCandidates] at made
    | cons best others =>
      rw [ranked] at made
      cases made
      exact ⟨registered, best, others, rfl, rfl⟩
  · rintro ⟨registered, best, others, ranked, rfl⟩
    exact ⟨⟨best.action, others.map (·.action)⟩, ⟨registered, by rw [ranked]; rfl⟩, rfl⟩

theorem asks_of_action? (realizes : Realizes registry lookahead automaton)
    (chosen : automaton.action? q terminal = some action) :
    terminal ∈ registry.terminals ∧ Asks registry lookahead automaton q terminal action := by
  obtain ⟨state, at_q, -⟩ := Option.bind_eq_some_iff.mp chosen
  obtain ⟨registered, best, others, ranked, rfl⟩ := (realizes.action?_eq_some_iff at_q).mp chosen
  exact ⟨registered, (realizes.mem_candidates at_q).mp ⟨best, by simp [ranked], rfl⟩⟩

theorem ne_eof_of_shift {target : Nat} (realizes : Realizes registry lookahead automaton)
    (wellformed : registry.Wellformed)
    (chosen : automaton.action? q terminal = some (.shift target)) : terminal ≠ Symbol.eof := by
  cases (realizes.asks_of_action? chosen).2 with
  | shift edge =>
    obtain ⟨state, at_q, -⟩ := Option.bind_eq_some_iff.mp edge
    obtain ⟨⟨item, mem, next⟩, -⟩ := realizes.goto_items at_q edge
    obtain ⟨rule, found, inside⟩ := Registry.next?_eq_some.mp next
    rintro rfl
    exact wellformed.eof_unused rule (List.mem_of_getElem? found) (List.mem_of_getElem? inside)

theorem eof_of_accept {id : Nat} (realizes : Realizes registry lookahead automaton)
    (chosen : automaton.action? q terminal = some (.reduce id))
    (front : registry.isStartProduction id = true) : terminal = Symbol.eof := by
  cases (realizes.asks_of_action? chosen).2 with
  | reduce _ _ _ on =>
    unfold Candidate.reducesOn at on
    rw [if_pos front] at on
    exact Symbol.isEof_iff.mp on

theorem rejected_nil_of_conflicts_nil (quiet : automaton.conflicts = [])
    (at_q : automaton.states[q]? = some state) {cell : Cell}
    (entry : state.row.lookup terminal = some cell) : cell.rejected = [] := by
  obtain ⟨before, after, row, -⟩ := List.lookup_eq_some_iff.mp entry
  have mem : (terminal, cell) ∈ state.row := by simp [row]
  rw [conflicts, List.flatMap_eq_nil_iff] at quiet
  have silent := quiet state (List.mem_of_getElem? at_q)
  have none := List.filterMap_eq_nil_iff.mp silent (terminal, cell) mem
  simpa [Conflict.ofCell?, Cell.hasConflict] using none

/-- Without conflicts the table holds every action that is asked for. -/
theorem action?_of_asks (realizes : Realizes registry lookahead automaton)
    (quiet : automaton.conflicts = []) (registered : terminal ∈ registry.terminals)
    (at_q : automaton.states[q]? = some state)
    (asks : Asks registry lookahead automaton q terminal action) :
    automaton.action? q terminal = some action := by
  obtain ⟨candidate, mem, rfl⟩ := (realizes.mem_candidates at_q).mpr asks
  cases ranked : candidates registry lookahead state terminal with
  | nil => simp [ranked] at mem
  | cons best others =>
    have entry : state.row.lookup terminal = some ⟨best.action, others.map (·.action)⟩ :=
      (realizes.lookup_row at_q).mpr ⟨registered, by rw [ranked]; rfl⟩
    have alone : others = [] := by
      simpa using rejected_nil_of_conflicts_nil quiet at_q entry
    rw [ranked, alone, List.mem_singleton] at mem
    exact (realizes.action?_eq_some_iff at_q).mpr ⟨registered, best, others, ranked, by rw [mem]⟩

end Realizes

end Automaton

end ShiftReduce
