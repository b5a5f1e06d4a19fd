import Mathlib.Algebra.Order.Ring.Nat
import ShiftReduce.Proofs.Machine.Step

/-!
What the watch keeps between two shifts, and why it cannot go on forever.

At each depth the visits have distinct states, and so have the visits that still stand on the stack.
There is a standing visit at each depth from the lowest one up, so the stack grows by fewer levels
than there are states. A reduction forgets the visits above it and adds one of its own; with the visits
weighed by a power of the number of states, the more the lower they are, it gains more than it loses.
-/
namespace ShiftReduce.Machine

section Weight

variable {states ceiling : Nat}

/-- A visit weighs more than all visits above it together, as far up as `ceiling`. -/
def Visit.weight (states ceiling : Nat) (visit : Visit) : Nat :=
  (states + 1) ^ (ceiling - visit.depth)

def crowd (states ceiling : Nat) (visits : List Visit) : Nat :=
  (visits.map (Visit.weight states ceiling)).sum

theorem crowd_append (left right : List Visit) :
    crowd states ceiling (left ++ right) = crowd states ceiling left + crowd states ceiling right := by
  simp [crowd]

theorem crowd_filter (visits : List Visit) (keep : Visit → Bool) :
    crowd states ceiling visits = crowd states ceiling (visits.filter keep) +
      crowd states ceiling (visits.filter fun visit => !keep visit) := by
  rw [← crowd_append]
  have same := List.filter_append_perm keep visits
  exact ((same.map (Visit.weight states ceiling)).sum_nat).symm

theorem crowd_lower (visits : List Visit) (depth : Nat) :
    crowd states ceiling (visits.map (.lower depth)) = crowd states ceiling visits := by
  rw [crowd, List.map_map]
  rfl

theorem length_le_states {visits : List Visit} (bounded : ∀ visit ∈ visits, visit.state < states)
    (distinct : visits.Pairwise fun a b => a.state ≠ b.state) : visits.length ≤ states := by
  have nodup : (visits.map (·.state)).Nodup := List.pairwise_map.mpr distinct
  have inside : visits.map (·.state) ⊆ List.range states := by
    intro state mem
    obtain ⟨visit, visit_mem, rfl⟩ := List.mem_map.mp mem
    exact List.mem_range.mpr (bounded visit visit_mem)
  simpa using nodup.length_le_of_subset inside

theorem length_le_of_level {visits : List Visit} {depth : Nat}
    (level : ∀ visit ∈ visits, visit.depth = depth) (bounded : ∀ visit ∈ visits, visit.state < states)
    (distinct : visits.Pairwise fun a b => a.state = b.state → a.depth ≠ b.depth) :
    visits.length ≤ states := by
  refine length_le_states bounded ?_
  refine distinct.imp_of_mem fun {a b} mem_a mem_b apart same => ?_
  exact apart same ((level a mem_a).trans (level b mem_b).symm)

theorem crowd_level {visits : List Visit} {depth : Nat}
    (level : ∀ visit ∈ visits, visit.depth = depth) :
    crowd states ceiling visits = visits.length * (states + 1) ^ (ceiling - depth) := by
  induction visits with
  | nil => simp [crowd]
  | cons visit rest ih =>
    have first := level visit List.mem_cons_self
    have others := ih fun visit mem => level visit (List.mem_cons_of_mem _ mem)
    rw [crowd] at others ⊢
    rw [List.map_cons, List.sum_cons, others, Visit.weight, first, List.length_cons, Nat.succ_mul]
    omega

/-- All visits in the highest `height` levels together weigh less than one visit below them. -/
theorem crowd_lt {visits : List Visit} {height : Nat}
    (below : ∀ visit ∈ visits, visit.depth ≤ ceiling)
    (above : ∀ visit ∈ visits, ceiling < visit.depth + height)
    (bounded : ∀ visit ∈ visits, visit.state < states)
    (distinct : visits.Pairwise fun a b => a.state = b.state → a.depth ≠ b.depth) :
    crowd states ceiling visits < (states + 1) ^ height := by
  induction height generalizing visits with
  | zero =>
    have none : visits = [] := by
      rw [List.eq_nil_iff_forall_not_mem]
      intro visit mem
      have low := below visit mem
      have high := above visit mem
      omega
    simp [none, crowd]
  | succ height ih =>
    -- the lowest of these levels is counted, the others are the smaller case
    let lowest (visit : Visit) : Bool := visit.depth + height = ceiling
    have level : ∀ visit ∈ visits.filter lowest, visit.depth = ceiling - height := by
      intro visit mem
      have same : visit.depth + height = ceiling := by simpa [lowest] using (List.mem_filter.mp mem).2
      omega
    have count : (visits.filter lowest).length ≤ states :=
      length_le_of_level level (fun visit mem => bounded visit (List.mem_filter.mp mem).1)
        (distinct.filter _)
    have rest : crowd states ceiling (visits.filter fun visit => !lowest visit)
        < (states + 1) ^ height := by
      refine ih (fun visit mem => below visit (List.mem_filter.mp mem).1) ?_
        (fun visit mem => bounded visit (List.mem_filter.mp mem).1) (distinct.filter _)
      intro visit mem
      have high := above visit (List.mem_filter.mp mem).1
      have other : ¬ visit.depth + height = ceiling := by simpa [lowest] using (List.mem_filter.mp mem).2
      omega
    have weight : crowd states ceiling (visits.filter lowest)
        ≤ states * (states + 1) ^ height := by
      rw [crowd_level level]
      by_cases empty : visits.filter lowest = []
      · simp [empty]
      · obtain ⟨visit, mem⟩ := List.exists_mem_of_ne_nil _ empty
        have at_level := level visit mem
        have same : visit.depth + height = ceiling := by simpa [lowest] using (List.mem_filter.mp mem).2
        have exponent : ceiling - (ceiling - height) = height := by omega
        rw [exponent]
        exact Nat.mul_le_mul_right _ count
    rw [crowd_filter visits lowest, Nat.pow_succ, Nat.mul_add, Nat.mul_one, Nat.mul_comm _ states]
    omega

end Weight

/-- The visits since the last shift, which left the stack at depth `base`; from then on it was never
lower than `low`. -/
structure Watch (states base low : Nat) (watched : Watched) : Prop where
  positive : 0 < low
  lowered : low ≤ base
  reached : low ≤ watched.config.depth
  bounded : ∀ visit ∈ watched.visits, visit.state < states
  comparable : ∀ visit ∈ watched.visits, visit.depth ≤ visit.floor + 1
  above : ∀ visit ∈ watched.visits, low ≤ visit.depth
  below : ∀ visit ∈ watched.visits, visit.depth ≤ watched.config.depth
  distinct : watched.visits.Pairwise fun earlier later => earlier.state = later.state →
    earlier.depth ≠ later.depth ∧ earlier.floor < earlier.depth
  standing : ∀ depth, low ≤ depth → depth ≤ watched.config.depth →
    ∃ visit ∈ watched.visits, visit.depth = depth ∧ depth ≤ visit.floor

namespace Watch

variable {states base low : Nat} {watched : Watched} {next : Config}

theorem start {config : Config} (standing : config.stack ≠ []) (known : config.top < states) :
    Watch states config.depth config.depth (.start config) := by
  refine ⟨List.length_pos_iff.mpr standing, Nat.le_refl _, Nat.le_refl _, ?_, ?_, ?_, ?_,
    List.pairwise_singleton _ _, ?_⟩
  · simpa [Watched.start, Visit.fresh] using known
  · simp [Watched.start, Visit.fresh]
  · simp [Watched.start, Visit.fresh]
  · simp [Watched.start, Visit.fresh]
  · intro depth low high
    have same : depth = config.depth := Nat.le_antisymm high low
    exact ⟨.fresh config, List.mem_singleton.mpr rfl, same.symm, Nat.le_of_eq same⟩

theorem depth_lt (watch : Watch states base low watched) :
    watched.config.depth < low + states := by
  let stands (visit : Visit) : Bool := visit.depth ≤ visit.floor
  have count : (watched.visits.filter stands).length ≤ states := by
    refine length_le_states (fun visit mem => watch.bounded visit (List.mem_filter.mp mem).1) ?_
    rw [List.pairwise_filter]
    refine watch.distinct.imp fun {earlier later} apart stands_earlier _ same => ?_
    have left := (apart same).2
    have stood : earlier.depth ≤ earlier.floor := by simpa [stands] using stands_earlier
    omega
  have levels : List.range' low (watched.config.depth + 1 - low)
      ⊆ (watched.visits.filter stands).map (·.depth) := by
    intro depth mem
    rw [List.mem_range'_1] at mem
    obtain ⟨visit, visit_mem, rfl, stood⟩ := watch.standing depth mem.1 (by omega)
    refine List.mem_map_of_mem (List.mem_filter.mpr ⟨visit_mem, ?_⟩)
    simpa [stands] using stood
  have apart : (List.range' low (watched.config.depth + 1 - low)).Nodup := List.nodup_range'
  have height := apart.length_le_of_subset levels
  rw [List.length_range', List.length_map] at height
  have reached := watch.reached
  omega

theorem visit_depth_lt (watch : Watch states base low watched) {visit : Visit}
    (mem : visit ∈ watched.visits) : visit.depth < low + states :=
  Nat.lt_of_le_of_lt (watch.below visit mem) watch.depth_lt

theorem crowd_visits_lt (watch : Watch states base low watched) :
    crowd states (low + states - 1) watched.visits < (states + 1) ^ states := by
  refine crowd_lt ?_ ?_ watch.bounded (watch.distinct.imp fun apart same => (apart same).1)
  · intro visit mem
    have high := watch.visit_depth_lt mem
    omega
  · intro visit mem
    have above := watch.above visit mem
    have positive := watch.positive
    omega

theorem surviving_eq (watch : Watch states base low watched) (uncovered : 1 < next.depth) :
    Watched.surviving watched.visits next =
      (watched.visits.filter (·.depth ≤ next.depth)).map (.lower (next.depth - 1)) := by
  rw [Watched.surviving, List.filter_map]
  congr 1
  refine List.filter_congr fun visit mem => ?_
  have comparable := watch.comparable visit mem
  change decide (visit.depth ≤ min visit.floor (next.depth - 1) + 1) = decide (visit.depth ≤ next.depth)
  rw [decide_eq_decide]
  omega

theorem forall_visits (watch : Watch states base low watched) (uncovered : 1 < next.depth)
    {property : Visit → Prop} (kept : ∀ visit ∈ watched.visits, visit.depth ≤ next.depth →
      property (visit.lower (next.depth - 1)))
    (fresh : property (.fresh next)) :
    ∀ visit ∈ Watched.surviving watched.visits next ++ [.fresh next], property visit := by
  intro visit mem
  rw [List.mem_append, List.mem_singleton] at mem
  obtain mem | rfl := mem
  · rw [watch.surviving_eq uncovered, List.mem_map] at mem
    obtain ⟨earlier, mem, rfl⟩ := mem
    rw [List.mem_filter, decide_eq_true_eq] at mem
    exact kept earlier mem.1 mem.2
  · exact fresh

/-- What the run since the last shift has been through, as a number that every reduction raises. -/
def rank (states base low : Nat) (watched : Watched) : Nat :=
  (base - low) * (states + 1) ^ states + crowd states (low + states - 1) watched.visits

theorem rank_lt (watch : Watch states base low watched) :
    rank states base low watched < base * (states + 1) ^ states := by
  have crowded := watch.crowd_visits_lt
  have positive := watch.positive
  have lowered := watch.lowered
  have room : (base - low + 1) * (states + 1) ^ states ≤ base * (states + 1) ^ states :=
    Nat.mul_le_mul_right _ (by omega)
  rw [Nat.succ_mul] at room
  rw [rank]
  omega

theorem reduce (watch : Watch states base low watched) (uncovered : 1 < next.depth)
    (cut : next.depth ≤ watched.config.depth + 1) (known : next.top < states)
    (new : ¬ (Watched.surviving watched.visits next).any (·.isRepeatedBy next) = true) :
    Watch states base (min low next.depth)
      ⟨next, Watched.surviving watched.visits next ++ [.fresh next]⟩ where
  positive := by
    have positive := watch.positive
    omega
  lowered := (Nat.min_le_left _ _).trans watch.lowered
  reached := Nat.min_le_right _ _
  bounded := watch.forall_visits uncovered (fun visit mem _ => watch.bounded visit mem) known
  comparable := by
    refine watch.forall_visits uncovered (fun visit mem under => ?_) (Nat.le_succ _)
    have comparable := watch.comparable visit mem
    simp only [Visit.lower]
    omega
  above := by
    refine watch.forall_visits uncovered (fun visit mem _ => ?_) (Nat.min_le_right _ _)
    exact (Nat.min_le_left _ _).trans (watch.above visit mem)
  below := watch.forall_visits uncovered (fun visit _ under => under) (Nat.le_refl _)
  distinct := by
    -- the visits kept are as apart as before, and the new one is apart from them as it repeats none
    rw [List.pairwise_append]
    refine ⟨?_, List.pairwise_singleton _ _, ?_⟩
    · rw [watch.surviving_eq uncovered, List.pairwise_map]
      refine (watch.distinct.filter _).imp fun {earlier later} apart same => ?_
      obtain ⟨depths, fallen⟩ := apart same
      exact ⟨depths, Nat.lt_of_le_of_lt (Nat.min_le_left _ _) fallen⟩
    · intro visit mem fresh same_fresh same
      rw [List.mem_singleton] at same_fresh
      subst same_fresh
      rw [Bool.not_eq_true, List.any_eq_false] at new
      have apart := new visit mem
      simp only [Visit.fresh] at same ⊢
      simpa [Visit.isRepeatedBy, same] using apart
  standing := by
    -- up to the cut the earlier visits still stand, and on top of it stands the new one
    intro depth low_le le_top
    change depth ≤ next.depth at le_top
    by_cases top : depth = next.depth
    · exact ⟨.fresh next, by simp, top.symm, Nat.le_of_eq top⟩
    · have under : depth ≤ next.depth - 1 := by omega
      obtain ⟨visit, mem, rfl, stood⟩ := watch.standing depth (by omega) (by omega)
      refine ⟨visit.lower (next.depth - 1), ?_, rfl, ?_⟩
      · rw [watch.surviving_eq uncovered]
        refine List.mem_append_left _ (List.mem_map_of_mem ?_)
        rw [List.mem_filter, decide_eq_true_eq]
        exact ⟨mem, le_top⟩
      · simp only [Visit.lower]
        omega

theorem rank_lt_reduce (watch : Watch states base low watched) (uncovered : 1 < next.depth) :
    rank states base low watched < rank states base (min low next.depth)
      ⟨next, Watched.surviving watched.visits next ++ [.fresh next]⟩ := by
  have fresh : ∀ ceiling, crowd states ceiling [.fresh next]
      = (states + 1) ^ (ceiling - next.depth) := by
    intro ceiling
    simp [crowd, Visit.weight, Visit.fresh]
  simp only [rank, watch.surviving_eq uncovered, crowd_append, crowd_lower, fresh]
  by_cases lower : next.depth < low
  · have lowered := watch.lowered
    have crowded := watch.crowd_visits_lt
    have room : (base - low + 1) * (states + 1) ^ states
        ≤ (base - min low next.depth) * (states + 1) ^ states :=
      Nat.mul_le_mul_right _ (by omega)
    rw [Nat.succ_mul] at room
    omega
  · have same : min low next.depth = low := by omega
    rw [same, crowd_filter watched.visits (·.depth ≤ next.depth)]
    have forgotten : crowd states (low + states - 1)
        (watched.visits.filter fun visit => !decide (visit.depth ≤ next.depth))
          < (states + 1) ^ (low + states - 1 - next.depth) := by
      refine crowd_lt ?_ ?_ ?_ ?_
      · intro visit mem
        have high := watch.visit_depth_lt (List.mem_filter.mp mem).1
        omega
      · intro visit mem
        have high := watch.visit_depth_lt (List.mem_filter.mp mem).1
        have above : next.depth < visit.depth := by simpa using (List.mem_filter.mp mem).2
        omega
      · intro visit mem
        exact watch.bounded visit (List.mem_filter.mp mem).1
      · exact (watch.distinct.filter _).imp fun apart same => (apart same).1
    omega

end Watch

end ShiftReduce.Machine
