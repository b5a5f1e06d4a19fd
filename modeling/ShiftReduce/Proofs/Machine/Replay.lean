import Mathlib.Logic.Relation
import ShiftReduce.Proofs.Machine.Step

/-!
The watch raises no false alarm. What a reduction does depends on no more of the stack than it cuts
through, so a run of reductions can be replayed over any other stack. A repeated visit is either back
at the same stack, or at the state it started from with more under it; in both cases the reductions
since then are replayed without end, and the machine without a watch never halts.
-/
namespace ShiftReduce.Machine

open Relation

variable {registry : Registry} {automaton : Automaton} {symbol : Symbol} {config next : Config}
  {stack after upper base : List Nat}

/-- One reduction on a fixed lookahead, as a step between stacks. -/
inductive Reduces (registry : Registry) (automaton : Automaton) (symbol : Symbol) :
    List Nat → List Nat → Prop where
  | mk {top id uncovered target : Nat} {below rest : List Nat} {production : Production} :
      automaton.action? top symbol = some (.reduce id) →
      registry.isStartProduction id = false → registry.productions[id]? = some production →
      (top :: below).drop production.rhs.length = uncovered :: rest →
      automaton.goto? uncovered production.lhs = some target →
      Reduces registry automaton symbol (top :: below) (target :: uncovered :: rest)

namespace Reduces

theorem of_step (moved : step registry automaton config = .reduced next) :
    Reduces registry automaton config.lookahead.symbol config.stack
      next.stack := by
  have standing := ne_nil_of_reduces moved
  cases effect_of_step moved with
  | reduce chosen not_start found cut edge =>
    rw [Config.stack_eq standing] at cut ⊢
    exact .mk chosen not_start found cut edge

theorem step_eq (reduces : Reduces registry automaton config.lookahead.symbol config.stack after) :
    ∃ next, step registry automaton config = .reduced next ∧ next.stack = after ∧
      next.lookahead = config.lookahead := by
  generalize stack_eq : config.stack = stack at reduces
  cases reduces with
  | @mk top id uncovered target below rest production chosen not_start found cut edge =>
    have same : config.top = top := by rw [Config.top, stack_eq, List.headD_cons]
    rw [← same] at chosen
    rw [← stack_eq] at cut
    exact ⟨_, Effect.step_eq (.reduce chosen not_start found cut edge), rfl, rfl⟩

theorem one_lt_length (reduces : Reduces registry automaton symbol stack after) : 1 < after.length := by
  cases reduces
  simp

theorem append (reduces : Reduces registry automaton symbol stack after) (base : List Nat) :
    Reduces registry automaton symbol (stack ++ base) (after ++ base) := by
  cases reduces with
  | @mk top id uncovered target below rest production chosen not_start found cut edge =>
    have short : production.rhs.length ≤ (top :: below).length := by
      have length := congrArg List.length cut
      rw [List.length_drop, List.length_cons (a := uncovered)] at length
      omega
    have wider : (top :: (below ++ base)).drop production.rhs.length = uncovered :: (rest ++ base) := by
      rw [← List.cons_append, List.drop_append_of_le_length short, cut, List.cons_append]
    exact .mk chosen not_start found wider edge

/-- A reduction that does not cut into `base` leaves it where it is, and if it cuts to a state above
`base` it can be done without it. -/
theorem split (reduces : Reduces registry automaton symbol (upper ++ base) after)
    (kept : base.length < after.length) :
    ∃ first rest, after = (first :: rest) ++ base ∧
      (base.length + 1 < after.length → Reduces registry automaton symbol upper (first :: rest)) := by
  generalize whole : upper ++ base = stack at reduces
  cases reduces with
  | @mk top id uncovered target below rest production chosen not_start found cut edge =>
    have length := congrArg List.length cut
    rw [← whole, List.length_drop, List.length_append] at length
    simp only [List.length_cons] at kept length
    have short : production.rhs.length ≤ upper.length := by omega
    rw [← whole, List.drop_append_of_le_length short] at cut
    refine ⟨target, upper.drop production.rhs.length, by rw [List.cons_append, cut], fun above => ?_⟩
    simp only [List.length_cons] at above
    cases upper with
    | nil =>
      simp only [List.length_nil] at length
      omega
    | cons head tail =>
      cases whole
      cases left : (top :: tail).drop production.rhs.length with
      | nil =>
        have same := congrArg List.length cut
        simp only [left, List.nil_append, List.length_cons] at same
        omega
      | cons inner others =>
        rw [left] at cut
        cases cut
        exact .mk chosen not_start found left edge

end Reduces

/-- Reductions from `stack` go on forever: there is a family of stacks each of which reduces to
another one. -/
def Endless (registry : Registry) (automaton : Automaton) (symbol : Symbol) (stack : List Nat) : Prop :=
  ∃ family : List Nat → Prop, family stack ∧ ∀ stack, family stack →
    ∃ after, Reduces registry automaton symbol stack after ∧ family after

theorem endless_of_recurring (family : List Nat → Prop) (here : family stack)
    (recurs : ∀ stack, family stack →
      ∃ after, TransGen (Reduces registry automaton symbol) stack after ∧ family after) :
    Endless registry automaton symbol stack := by
  refine ⟨fun stack => ∃ later, ReflTransGen (Reduces registry automaton symbol) stack later ∧
    family later, ⟨stack, .refl, here⟩, ?_⟩
  intro stack reaches
  obtain ⟨later, path, mem⟩ := reaches
  obtain ⟨again, further, mem_again⟩ := recurs later mem
  have whole := TransGen.trans_right path further
  obtain ⟨after, first, rest⟩ := TransGen.head'_iff.mp whole
  exact ⟨after, first, again, rest, mem_again⟩

theorem Endless.run_unfinished {fuel : Nat}
    (endless : Endless registry automaton config.lookahead.symbol config.stack) :
    (run registry automaton fuel config).2 = .unfinished := by
  obtain ⟨family, here, recurs⟩ := endless
  induction fuel generalizing config with
  | zero => rfl
  | succ fuel ih =>
    obtain ⟨after, reduces, mem⟩ := recurs _ here
    obtain ⟨next, moved, rfl, same⟩ := reduces.step_eq
    simp only [run, moved]
    exact ih mem (by rwa [same])

/-- What a visit tells of the stack: the states under it are still there, the reductions since then
have led from its stack to this one, and while it stands they can do without what is under it. The
relation `reaches` says how many reductions there were, any number or at least one. -/
def Visit.Recalls (reduces : List Nat → List Nat → Prop)
    (closure : (List Nat → List Nat → Prop) → List Nat → List Nat → Prop)
    (stack : List Nat) (visit : Visit) : Prop :=
  ∃ first rest base, stack = (first :: rest) ++ base ∧ base.length + 1 = visit.depth ∧
    closure reduces (visit.state :: base) stack ∧
    (visit.depth ≤ visit.floor → closure reduces [visit.state] (first :: rest))

namespace Visit.Recalls

theorem fresh (standing : config.stack ≠ []) : (Visit.fresh config).Recalls
    (Reduces registry automaton symbol) ReflTransGen config.stack := by
  rw [Config.stack_eq standing]
  refine ⟨config.top, [], config.stack.tail, rfl, ?_, .refl, fun _ => .refl⟩
  change _ = config.stack.length
  rw [Config.stack_eq standing, List.tail_cons, List.length_cons]

variable {visit : Visit}

theorem lower
    (recalls : visit.Recalls (Reduces registry automaton symbol) ReflTransGen stack)
    (reduces : Reduces registry automaton symbol stack next.stack)
    (comparable : visit.depth ≤ min visit.floor (next.depth - 1) + 1) :
    (visit.lower (next.depth - 1)).Recalls (Reduces registry automaton symbol) TransGen
      next.stack := by
  obtain ⟨first, rest, base, whole, depth, path, free⟩ := recalls
  have height : 1 < next.depth := reduces.one_lt_length
  have kept : base.length < next.stack.length := by
    change base.length < next.depth
    omega
  have last := reduces
  rw [whole] at last
  obtain ⟨first', rest', split, above⟩ := last.split kept
  refine ⟨first', rest', base, split, depth, .tail' path reduces, fun stands => ?_⟩
  simp only [Visit.lower] at stands
  refine .tail' (free (by omega)) (above ?_)
  change base.length + 1 < next.depth
  omega

theorem weaken (recalls : visit.Recalls (Reduces registry automaton symbol) TransGen stack) :
    visit.Recalls (Reduces registry automaton symbol) ReflTransGen stack := by
  obtain ⟨first, rest, base, whole, depth, path, free⟩ := recalls
  exact ⟨first, rest, base, whole, depth, path.to_reflTransGen,
    fun stands => (free stands).to_reflTransGen⟩

theorem endless
    (recalls : visit.Recalls (Reduces registry automaton symbol) TransGen next.stack)
    (repeats : visit.isRepeatedBy next = true) :
    Endless registry automaton symbol next.stack := by
  obtain ⟨first, rest, base, whole, depth, path, free⟩ := recalls
  rw [isRepeatedBy, Bool.and_eq_true, Bool.or_eq_true, beq_iff_eq, beq_iff_eq, decide_eq_true_eq]
    at repeats
  have top : next.top = first := by rw [Config.top, whole, List.cons_append, List.headD_cons]
  obtain ⟨state, level | stands⟩ := repeats
  -- at the same depth the stack itself recurs
  · have height := congrArg List.length whole
    simp only [List.length_cons, List.length_append] at height
    change visit.depth = next.stack.length at level
    have single : rest = [] := List.eq_nil_of_length_eq_zero (by omega)
    have same : next.stack = visit.state :: base := by
      rw [whole, single, state, top]
      rfl
    rw [same] at path ⊢
    exact endless_of_recurring (· = visit.state :: base) rfl
      fun stack here => ⟨_, here ▸ path, rfl⟩
  -- while the visit stands, the reductions since then can be done over any stack
  · obtain rfl : first = visit.state := (state.trans top).symm
    have longer := free stands
    refine endless_of_recurring (fun stack => ∃ under, stack = visit.state :: under)
      ⟨rest ++ base, whole⟩ ?_
    intro stack here
    obtain ⟨under, rfl⟩ := here
    exact ⟨_, longer.lift (· ++ under) fun _ _ once => once.append under, rest ++ under, rfl⟩

end Visit.Recalls

theorem Watched.mem_surviving {visits : List Visit} {visit : Visit} :
    visit ∈ surviving visits next ↔ ∃ earlier ∈ visits,
      earlier.lower (next.depth - 1) = visit ∧
        earlier.depth ≤ min earlier.floor (next.depth - 1) + 1 := by
  simp only [surviving, List.mem_filter, List.mem_map, Visit.isComparable, decide_eq_true_eq]
  constructor
  · intro kept
    obtain ⟨⟨earlier, mem, rfl⟩, comparable⟩ := kept
    exact ⟨earlier, mem, rfl, comparable⟩
  · intro kept
    obtain ⟨earlier, mem, rfl, comparable⟩ := kept
    exact ⟨⟨earlier, mem, rfl⟩, comparable⟩

def Watched.Recalls (registry : Registry) (automaton : Automaton) (watched : Watched) : Prop :=
  ∀ visit ∈ watched.visits, visit.Recalls
    (Reduces registry automaton watched.config.lookahead.symbol) ReflTransGen
    watched.config.stack

namespace Watched.Recalls

variable {watched : Watched}

theorem start (standing : config.stack ≠ []) : (Watched.start config).Recalls registry automaton := by
  intro visit mem
  rw [Watched.start, List.mem_singleton] at mem
  rw [mem]
  exact .fresh standing

theorem surviving (recalls : watched.Recalls registry automaton)
    (moved : step registry automaton watched.config = .reduced next) {visit : Visit}
    (mem : visit ∈ Watched.surviving watched.visits next) :
    visit.Recalls (Reduces registry automaton next.lookahead.symbol) TransGen
      next.stack := by
  obtain ⟨earlier, earlier_mem, rfl, comparable⟩ := Watched.mem_surviving.mp mem
  rw [(cut_of_step moved).2.2]
  exact (recalls earlier earlier_mem).lower (.of_step moved) comparable

theorem reduce (recalls : watched.Recalls registry automaton)
    (moved : step registry automaton watched.config = .reduced next) :
    Watched.Recalls registry automaton
      ⟨next, Watched.surviving watched.visits next ++ [.fresh next]⟩ := by
  intro visit mem
  rw [List.mem_append, List.mem_singleton] at mem
  obtain mem | rfl := mem
  · exact (recalls.surviving moved mem).weaken
  · exact .fresh (ne_nil_of_reduced moved)

theorem endless (recalls : watched.Recalls registry automaton)
    (moved : step registry automaton watched.config = .reduced next)
    (repeats : (Watched.surviving watched.visits next).any (·.isRepeatedBy next) = true) :
    Endless registry automaton next.lookahead.symbol next.stack := by
  obtain ⟨visit, mem, repeated⟩ := List.any_eq_true.mp repeats
  exact (recalls.surviving moved mem).endless repeated

end Watched.Recalls

/-- Where the machine without a watch halts, the watched one halts in the same way. -/
theorem runWatched_eq_run {fuel : Nat} {watched : Watched}
    (recalls : watched.Recalls registry automaton)
    (halts : (run registry automaton fuel watched.config).2 ≠ .unfinished) :
    runWatched registry automaton fuel watched = run registry automaton fuel watched.config := by
  induction fuel generalizing watched with
  | zero => rfl
  | succ fuel ih =>
    unfold runWatched run
    unfold run at halts
    cases outcome : step registry automaton watched.config with
    | shifted next =>
      rw [outcome] at halts
      exact ih (.start (ne_nil_of_shifted outcome)) halts
    | halted last verdict => rfl
    | reduced next =>
      rw [outcome] at halts
      dsimp only
      split
      · rename_i repeats
        exact absurd (recalls.endless outcome repeats).run_unfinished halts
      · exact ih (recalls.reduce outcome) halts

end ShiftReduce.Machine
