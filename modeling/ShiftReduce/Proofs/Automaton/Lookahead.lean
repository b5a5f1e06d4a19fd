import ShiftReduce.Proofs.Automaton.Action

/-!
The tables of the two lookahead modes side by side. FOLLOW sets take reductions away and add none, and
what is taken away does not change the order of the rest: an action of the table for every terminal
that is still asked for is in the table by FOLLOW sets too.
-/
namespace ShiftReduce

namespace Candidate

variable {registry : Registry} {terminal : Symbol} {id t : Nat}

theorem precedes_total (a b : Candidate) : precedes a b = true ∨ precedes b a = true := by
  simp only [precedes, decide_eq_true_eq]
  omega

theorem precedes_trans (a b c : Candidate) (first : precedes a b = true)
    (second : precedes b c = true) : precedes a c = true := by
  simp only [precedes, decide_eq_true_eq] at first second ⊢
  omega

def isFollowed (registry : Registry) (t : Nat) (terminal : Symbol) (candidate : Candidate) : Bool :=
  match candidate.action with
  | .shift _ => true
  | .reduce id => reducesOn registry .slr id t terminal

theorem reducesOn_lr0 (on : reducesOn registry .slr id t terminal = true) :
    reducesOn registry .lr0 id t terminal = true := by
  unfold reducesOn at on ⊢
  split
  · rwa [if_pos ‹_›] at on
  · rfl

theorem reduces_slr (complete : List Item) : reduces registry .slr complete t terminal =
    (reduces registry .lr0 complete t terminal).filter (isFollowed registry t terminal) := by
  rw [reduces, reduces, List.filter_map, List.filter_filter]
  congr 1
  refine List.filter_congr fun item _ => ?_
  change reducesOn registry .slr item.production t terminal =
    (reducesOn registry .slr item.production t terminal &&
      reducesOn registry .lr0 item.production t terminal)
  cases on : reducesOn registry .slr item.production t terminal with
  | false => rfl
  | true => rw [reducesOn_lr0 on]; rfl

theorem shifts_isFollowed {items : List Item} {edges : List (Symbol × Nat)} :
    ∀ candidate ∈ shifts registry items edges terminal,
      isFollowed registry t terminal candidate = true := by
  intro candidate mem
  unfold shifts at mem
  split at mem
  · cases mem
  · obtain ⟨rank, -, rfl⟩ := List.mem_map.mp mem
    rfl

theorem ranked_slr (items complete : List Item) (edges : List (Symbol × Nat)) :
    ranked registry .slr items complete edges t terminal =
      (ranked registry .lr0 items complete edges t terminal).filter (isFollowed registry t terminal) := by
  rw [ranked, ranked, ← Ranking.sort_filter precedes_total precedes_trans, List.filter_append,
    reduces_slr, List.filter_eq_self.mpr shifts_isFollowed]

end Candidate

namespace Automaton

/-- `narrow` has the states and edges of `wide`, and those of its actions that FOLLOW sets allow. -/
structure Narrows (registry : Registry) (wide narrow : Automaton) : Prop where
  start?_eq : ∀ symbol, narrow.start? symbol = wide.start? symbol
  length_eq : narrow.states.length = wide.states.length
  goto?_eq : ∀ q symbol, narrow.goto? q symbol = wide.goto? q symbol
  action?_eq : ∀ {q : Nat} {terminal : Symbol} {action : Action},
    wide.action? q terminal = some action →
    (∀ id, action = .reduce id →
      Candidate.reducesOn registry .slr id (registry.indexOf terminal) terminal = true) →
    narrow.action? q terminal = some action

variable {registry : Registry} {symbols : List Symbol} {wide narrow : Automaton}

theorem narrows_of_buildFor (wellformed : registry.Wellformed)
    (built : buildFor registry .lr0 symbols = .ok wide)
    (narrow_built : buildFor registry .slr symbols = .ok narrow) : Narrows registry wide narrow := by
  have realizes := realizes_of_buildFor wellformed built
  have narrow_realizes := realizes_of_buildFor wellformed narrow_built
  obtain ⟨pairs, listed, made⟩ := bind_eq_ok.mp built
  obtain ⟨_, same, narrow_made⟩ := bind_eq_ok.mp narrow_built
  cases listed.symm.trans same
  have known := production_lt_of_paired wellformed (startProductions_eq listed).2
  cases made
  cases narrow_made
  refine ⟨fun symbol => rfl, ?_, fun q symbol => ?_, fun {q terminal action} chosen on => ?_⟩
  · simp [ofProductions]
  · rw [goto?, goto?, getElem?_states known, getElem?_states known, Option.bind_map, Option.bind_map]
    rfl
  · obtain ⟨state, at_q, -⟩ := Option.bind_eq_some_iff.mp chosen
    obtain ⟨registered, best, others, ranked, rfl⟩ := (realizes.action?_eq_some_iff at_q).mp chosen
    rw [getElem?_states known] at at_q
    obtain ⟨node, at_node, rfl⟩ := Option.map_eq_some_iff.mp at_q
    have at_narrow := getElem?_states known .slr q
    rw [at_node] at at_narrow
    refine (narrow_realizes.action?_eq_some_iff at_narrow).mpr ⟨registered, best,
      others.filter (Candidate.isFollowed registry (registry.indexOf terminal) terminal), ?_, rfl⟩
    have followed : Candidate.isFollowed registry (registry.indexOf terminal) terminal best = true := by
      unfold Candidate.isFollowed
      cases action : best.action with
      | shift => rfl
      | reduce id => exact on id action
    rw [candidates] at ranked ⊢
    rw [Candidate.ranked_slr, ranked, List.filter_cons_of_pos followed]

end Automaton

end ShiftReduce
