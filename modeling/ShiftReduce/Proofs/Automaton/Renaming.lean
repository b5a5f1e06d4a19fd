import ShiftReduce.Proofs.Automaton.Lookahead

/-!
Rows of actions do not depend on the order of the items or on how states are numbered. Complete items
are ranked by their productions, of which each asks for one reduction only, and a shift is ranked by
the earliest of the items it advances; so two states with the same items have the same row, up to the
names of the states that shifts lead to.
-/
namespace ShiftReduce

variable {f : Nat → Nat}

def Action.rename (f : Nat → Nat) : Action → Action
  | .shift target => .shift (f target)
  | .reduce production => .reduce production

theorem Action.isShift_rename (action : Action) : (action.rename f).isShift = action.isShift := by
  cases action <;> rfl

namespace Candidate

def rename (f : Nat → Nat) (candidate : Candidate) : Candidate :=
  { candidate with action := candidate.action.rename f }

variable {registry : Registry} {lookahead : Lookahead} {items other : List Item}
  {edges other_edges : List (Symbol × Nat)} {t : Nat} {terminal : Symbol}

theorem reduces_rename (complete : List Item) :
    (reduces registry lookahead complete t terminal).map (rename f) =
      reduces registry lookahead complete t terminal := by
  rw [reduces, List.map_map]
  rfl

theorem reduces_antisymm (complete : List Item) :
    ∀ a ∈ reduces registry lookahead complete t terminal,
      ∀ b ∈ reduces registry lookahead complete t terminal,
        precedes a b = true → precedes b a = true → a = b := by
  intro a a_mem b b_mem first second
  obtain ⟨item, -, rfl⟩ := List.mem_map.mp a_mem
  obtain ⟨item', -, rfl⟩ := List.mem_map.mp b_mem
  simp only [precedes, decide_eq_true_eq] at first second
  rw [Nat.le_antisymm first second]

section SameItems

variable (same : ∀ item, item ∈ other ↔ item ∈ items)

include same

theorem shifts_rename
    (targets : other_edges.lookup terminal = (edges.lookup terminal).map f) :
    shifts registry other other_edges terminal =
      (shifts registry items edges terminal).map (rename f) := by
  have least : ((registry.advance other terminal).map (·.production)).min? =
      ((registry.advance items terminal).map (·.production)).min? := by
    refine Option.ext fun rank => ?_
    simp only [List.min?_eq_some_iff, List.mem_map, Registry.mem_advance_congr same]
  unfold shifts
  rw [targets]
  cases edges.lookup terminal with
  | none => rfl
  | some target =>
    simp only [Option.map_some, least, List.map_map]
    rfl

variable (nodup : items.Nodup) (other_nodup : other.Nodup)

include nodup other_nodup

theorem ranked_rename
    (targets : other_edges.lookup terminal = (edges.lookup terminal).map f) :
    ranked registry lookahead other (other.filter registry.isComplete) other_edges t terminal =
      (ranked registry lookahead items (items.filter registry.isComplete) edges t terminal).map
        (rename f) := by
  have perm : other.Perm items := (List.perm_ext_iff_of_nodup other_nodup nodup).mpr same
  have reductions : (reduces registry lookahead (other.filter registry.isComplete) t terminal).Perm
      (reduces registry lookahead (items.filter registry.isComplete) t terminal) :=
    ((perm.filter _).filter _).map _
  have sorted := Ranking.sort_eq_of_perm precedes_total precedes_trans reductions
    (reduces_antisymm _)
  have keeps : ∀ a b : Candidate, precedes (rename f a) (rename f b) = precedes a b :=
    fun _ _ => rfl
  rw [ranked, ranked, ← Ranking.sort_map keeps, List.map_append, ← shifts_rename same targets,
    reduces_rename, Ranking.sort_append, Ranking.sort_append, sorted]

end SameItems

end Candidate

namespace Cell

def rename (f : Nat → Nat) (cell : Cell) : Cell :=
  ⟨cell.chosen.rename f, cell.rejected.map (Action.rename f)⟩

theorem ofCandidates_rename (candidates : List Candidate) :
    ofCandidates (candidates.map (Candidate.rename f)) =
      (ofCandidates candidates).map (rename f) := by
  cases candidates with
  | nil => rfl
  | cons best others =>
    simp only [List.map_cons, ofCandidates, Option.map_some, rename, List.map_map]
    rfl

theorem row_rename {registry : Registry} {lookahead : Lookahead} {items other : List Item}
    {edges other_edges : List (Symbol × Nat)} (same : ∀ item, item ∈ other ↔ item ∈ items)
    (nodup : items.Nodup) (other_nodup : other.Nodup)
    (targets : ∀ symbol, other_edges.lookup symbol = (edges.lookup symbol).map f) :
    row registry lookahead other other_edges =
      (row registry lookahead items edges).map fun (terminal, cell) => (terminal, cell.rename f) := by
  simp only [row, List.map_filterMap]
  refine List.filterMap_congr fun (terminal, t) _ => ?_
  rw [Candidate.ranked_rename same nodup other_nodup (targets terminal), ofCandidates_rename]
  simp [Option.map_map, Function.comp_def]

theorem lookup_rename (row : List (Symbol × Cell)) (terminal : Symbol) :
    (row.map fun (terminal, cell) => (terminal, cell.rename f)).lookup terminal =
      (row.lookup terminal).map (rename f) := by
  induction row with
  | nil => rfl
  | cons entry rest ih =>
    obtain ⟨symbol, cell⟩ := entry
    simp only [List.map_cons, List.lookup_cons, ih]
    cases terminal == symbol <;> rfl

end Cell

namespace Conflict

def rename (f : Nat → Nat) (conflict : Conflict) : Conflict :=
  { conflict with
    state := f conflict.state
    chosen := conflict.chosen.rename f
    rejected := conflict.rejected.map (Action.rename f) }

theorem state_of_ofCell? {state : Nat} {lookahead : Symbol} {cell : Cell} {conflict : Conflict}
    (made : ofCell? state lookahead cell = some conflict) : conflict.state = state := by
  unfold ofCell? at made
  split at made
  · cases made
    rfl
  · cases made

theorem ofCell?_rename (state : Nat) (lookahead : Symbol) (cell : Cell) :
    ofCell? (f state) lookahead (cell.rename f) =
      (ofCell? state lookahead cell).map (rename f) := by
  have conflicting : (cell.rename f).hasConflict = cell.hasConflict := by
    simp [Cell.hasConflict, Cell.rename]
  have shifting : (cell.rename f).hasShift = cell.hasShift := by
    simp [Cell.hasShift, Cell.rename, Action.isShift_rename, Function.comp_def]
  unfold ofCell?
  rw [conflicting, shifting]
  split
  · split <;> rfl
  · rfl

end Conflict

namespace Automaton

theorem flatMap_of_numbered {α β : Type} {number : α → Nat} {xs : List α} {first : Nat}
    (numbered : ∀ (q : Nat) (x : α), xs[q]? = some x → number x = first + q) (value : α → List β)
    (q : Nat) : (xs.flatMap fun x => if number x = first + q then value x else []) =
      (xs[q]?).elim [] value := by
  induction xs generalizing first q with
  | nil => rfl
  | cons x rest ih =>
    have at_x := numbered 0 x rfl
    have at_rest : ∀ (q : Nat) (y : α), rest[q]? = some y → number y = first + 1 + q := by
      intro q y at_q
      have := numbered (q + 1) y at_q
      omega
    rw [List.flatMap_cons]
    cases q with
    | zero =>
      have later : (rest.flatMap fun x => if number x = first + 0 then value x else []) = [] := by
        rw [List.flatMap_eq_nil_iff]
        intro y mem
        obtain ⟨i, at_i⟩ := List.mem_iff_getElem?.mp mem
        have beyond := at_rest i y at_i
        exact if_neg (by omega)
      rw [later]
      simp [at_x]
    | succ q =>
      have other : number x ≠ first + (q + 1) := by omega
      have shifted : first + (q + 1) = first + 1 + q := by omega
      simp only [other, if_false, List.nil_append, List.getElem?_cons_succ]
      rw [shifted]
      exact ih at_rest q

theorem conflicts_of_state {registry : Registry} {lookahead : Lookahead} {automaton : Automaton}
    (realizes : Realizes registry lookahead automaton) (q : Nat) :
    automaton.conflicts.filter (·.state = q) =
      (automaton.states[q]?).elim [] fun state =>
        state.row.filterMap fun (lookahead, cell) => Conflict.ofCell? q lookahead cell := by
  have of_row : ∀ state : State,
      (state.row.filterMap fun (lookahead, cell) => Conflict.ofCell? state.id lookahead cell).filter
        (·.state = q) =
      if state.id = 0 + q then
        state.row.filterMap fun (lookahead, cell) => Conflict.ofCell? q lookahead cell
      else [] := by
    intro state
    have at_id : ∀ conflict ∈
        (state.row.filterMap fun (lookahead, cell) => Conflict.ofCell? state.id lookahead cell),
        conflict.state = state.id := by
      intro conflict mem
      obtain ⟨⟨lookahead, cell⟩, -, made⟩ := List.mem_filterMap.mp mem
      exact Conflict.state_of_ofCell? made
    rw [Nat.zero_add]
    split
    · subst q
      exact List.filter_eq_self.mpr fun conflict mem => decide_eq_true (at_id conflict mem)
    · rename_i apart
      refine List.filter_eq_nil_iff.mpr fun conflict mem same => apart ?_
      exact (at_id conflict mem).symm.trans (of_decide_eq_true same)
  have at_zero : ∀ (i : Nat) (state : State), automaton.states[i]? = some state → state.id = 0 + i :=
    fun i state at_i => (realizes.id_eq at_i).trans (Nat.zero_add i).symm
  rw [conflicts, List.filter_flatMap, ← flatMap_of_numbered at_zero]
  exact List.flatMap_congr fun state _ => of_row state

end Automaton

end ShiftReduce
