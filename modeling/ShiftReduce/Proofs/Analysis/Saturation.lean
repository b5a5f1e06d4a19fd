import ShiftReduce.Analysis.Saturation

/-!
Repeated passes reach a fixed point when every growth is counted by a measure with a bound. The
fuel has to exceed what is left of the bound.
-/
namespace ShiftReduce.Analysis

variable {α β : Type} {step : α → β → α × Bool} {items : List β} {invariant : α → Prop}
  {measure : α → Nat} {bound : Nat} {x y z : α}

/-- Passes from `x`, repeated for as long as they report growth, come to an end, and leave `y`. -/
inductive Settles (pass : α → α × Bool) : α → α → Prop where
  | rest {x y : α} : pass x = (y, false) → Settles pass x y
  | again {x y z : α} : pass x = (y, true) → Settles pass y z → Settles pass x z

theorem Settles.unique {pass : α → α × Bool} (settles : Settles pass x y)
    (other : Settles pass x z) : y = z := by
  induction settles with
  | rest last =>
    cases other with
    | rest also => exact congrArg Prod.fst (last.symm.trans also)
    | again more _ => cases last.symm.trans more
  | again more _ ih =>
    cases other with
    | rest last => cases more.symm.trans last
    | again also rest =>
      cases more.symm.trans also
      exact ih rest

theorem saturate_succ (pass : α → α × Bool) (fuel : Nat) (x : α) :
    saturate pass (fuel + 1) x = if (pass x).2 then saturate pass fuel (pass x).1 else (pass x).1 := rfl

/-- Steps for `items` keep an invariant and either change nothing or raise a bounded measure, and they
say which. -/
structure Climbs (step : α → β → α × Bool) (items : List β) (invariant : α → Prop)
    (measure : α → Nat) (bound : Nat) : Prop where
  keeps : ∀ x, invariant x → ∀ item ∈ items, invariant (step x item).1
  idle : ∀ x, invariant x → ∀ item ∈ items, (step x item).2 = false → (step x item).1 = x
  grows : ∀ x, invariant x → ∀ item ∈ items, (step x item).2 = true →
    measure x < measure (step x item).1
  bounded : ∀ x, invariant x → measure x ≤ bound

namespace Climbs

theorem mono {fewer : List β} (climbs : Climbs step items invariant measure bound)
    (subset : fewer ⊆ items) : Climbs step fewer invariant measure bound where
  keeps x holds item mem := climbs.keeps x holds item (subset mem)
  idle x holds item mem := climbs.idle x holds item (subset mem)
  grows x holds item mem := climbs.grows x holds item (subset mem)
  bounded := climbs.bounded

theorem and {property : α → Prop} (climbs : Climbs step items invariant measure bound)
    (keeps : ∀ x, invariant x → property x → ∀ item ∈ items, property (step x item).1) :
    Climbs step items (fun x => invariant x ∧ property x) measure bound where
  keeps x holds item mem := ⟨climbs.keeps x holds.1 item mem, keeps x holds.1 holds.2 item mem⟩
  idle x holds := climbs.idle x holds.1
  grows x holds := climbs.grows x holds.1
  bounded x holds := climbs.bounded x holds.1

theorem sweep (climbs : Climbs step items invariant measure bound) (holds : invariant x) :
    invariant (sweep step items x).1 ∧
      ((Analysis.sweep step items x).2 = false →
        (Analysis.sweep step items x).1 = x ∧ ∀ item ∈ items, (step x item).2 = false) ∧
      ((Analysis.sweep step items x).2 = true → measure x < measure (Analysis.sweep step items x).1) := by
  induction items generalizing x with
  | nil => simpa [Analysis.sweep] using holds
  | cons item rest ih =>
    have first := climbs.keeps x holds item List.mem_cons_self
    have idle := climbs.idle x holds item List.mem_cons_self
    have grows := climbs.grows x holds item List.mem_cons_self
    obtain ⟨kept, still, raised⟩ := ih (climbs.mono (List.subset_cons_self item rest)) first
    simp only [Analysis.sweep]
    cases grew : (step x item).2 with
    | false =>
      -- nothing changed, so the rest of the sweep starts from the same value
      rw [idle grew] at kept still raised ⊢
      refine ⟨kept, fun none => ?_, raised⟩
      obtain ⟨same, others⟩ := still none
      exact ⟨same, List.forall_mem_cons.mpr ⟨grew, others⟩⟩
    | true =>
      refine ⟨kept, fun none => absurd none (by simp), fun _ => ?_⟩
      have step_up := grows grew
      cases more : (Analysis.sweep step rest (step x item).1).2 with
      | false => rwa [(still more).1]
      | true => exact Nat.lt_trans step_up (raised more)

/-- Where a bounded measure rises with every growth, passes with fuel enough come to rest. -/
theorem settles {fuel : Nat} (climbs : Climbs step items invariant measure bound)
    (holds : invariant x) (enough : bound < fuel + measure x) :
    Settles (Analysis.sweep step items) x (Analysis.saturate (Analysis.sweep step items) fuel x) := by
  induction fuel generalizing x with
  | zero =>
    have within := climbs.bounded x holds
    omega
  | succ fuel ih =>
    obtain ⟨kept, -, raised⟩ := climbs.sweep holds
    rw [saturate_succ]
    by_cases grew : (Analysis.sweep step items x).2 = true
    · have higher := raised grew
      have later := ih kept (by omega)
      rw [if_pos grew]
      exact .again (Prod.ext rfl grew) later
    · rw [if_neg grew]
      exact .rest (Prod.ext rfl ((Bool.not_eq_true _).mp grew))

theorem still (climbs : Climbs step items invariant measure bound)
    (settles : Settles (Analysis.sweep step items) x y) (holds : invariant x) :
    invariant y ∧ ∀ item ∈ items, (step y item).2 = false := by
  induction settles with
  | @rest x y last =>
    have idle := (climbs.sweep holds).2.1
    rw [last] at idle
    obtain ⟨same, rest⟩ := idle rfl
    change y = x at same
    rw [same]
    exact ⟨holds, rest⟩
  | @again x y z more _ ih =>
    have kept := (climbs.sweep holds).1
    rw [more] at kept
    exact ih kept

theorem saturate {fuel : Nat} (climbs : Climbs step items invariant measure bound)
    (holds : invariant x) (enough : bound < fuel + measure x) :
    invariant (saturate (Analysis.sweep step items) fuel x) ∧
      ∀ item ∈ items, (step (Analysis.saturate (Analysis.sweep step items) fuel x) item).2 = false :=
  climbs.still (climbs.settles holds enough) holds

theorem saturate_eq {fuel more : Nat} (climbs : Climbs step items invariant measure bound)
    (holds : invariant x) (enough : bound < fuel + measure x) (le : fuel ≤ more) :
    Analysis.saturate (Analysis.sweep step items) more x =
      Analysis.saturate (Analysis.sweep step items) fuel x :=
  (climbs.settles holds (by omega)).unique (climbs.settles holds enough)

end Climbs

theorem sweep_of_idle (idle : ∀ item ∈ items, step x item = (x, false)) :
    sweep step items x = (x, false) := by
  induction items with
  | nil => rfl
  | cons item rest ih =>
    rw [List.forall_mem_cons] at idle
    simp [sweep, idle.1, ih idle.2]

theorem Climbs.sweep_eq (climbs : Climbs step items invariant measure bound) (holds : invariant x)
    (still : ∀ item ∈ items, (step x item).2 = false) : Analysis.sweep step items x = (x, false) :=
  sweep_of_idle fun item mem => Prod.ext (climbs.idle x holds item mem (still item mem)) (still item mem)

end ShiftReduce.Analysis
