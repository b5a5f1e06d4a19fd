import ShiftReduce.Production

/-!
Derivations by a list of productions, each known by its position. `Derives` replaces any nonterminal,
`Rightmost` only one with nothing but terminals after it, and keeps the productions it used.
-/
namespace ShiftReduce

/-- One production replaces its left-hand side somewhere in a string. -/
inductive DerivesStep (productions : List Production) : List Symbol → List Symbol → Prop where
  | replace (before after : List Symbol) {production : Production} (mem : production ∈ productions) :
      DerivesStep productions (before ++ production.lhs :: after)
        (before ++ production.rhs ++ after)

inductive Derives (productions : List Production) : List Symbol → List Symbol → Prop where
  | refl (string : List Symbol) : Derives productions string string
  | step {u v w : List Symbol} : DerivesStep productions u v → Derives productions v w →
      Derives productions u w

/-- The productions `used`, each applied to the rightmost nonterminal, lead from the first string to
the second. -/
inductive Rightmost (productions : List Production) : List Nat → List Symbol → List Symbol → Prop
  where
  | refl (string : List Symbol) : Rightmost productions [] string string
  | step {id : Nat} {used : List Nat} {production : Production} {before after result : List Symbol} :
      productions[id]? = some production →
      after.all (·.isTerminal) = true →
      Rightmost productions used (before ++ production.rhs ++ after) result →
      Rightmost productions (id :: used) (before ++ production.lhs :: after) result

variable {productions : List Production} {u v w : List Symbol}

theorem DerivesStep.context (before after : List Symbol) (head : DerivesStep productions u v) :
    DerivesStep productions (before ++ u ++ after) (before ++ v ++ after) := by
  obtain ⟨left, right, mem⟩ := head
  have wider := DerivesStep.replace (before ++ left) (right ++ after) mem
  simpa using wider

namespace Derives

theorem trans (first : Derives productions u v) (second : Derives productions v w) :
    Derives productions u w := by
  induction first with
  | refl => exact second
  | step head _ ih => exact .step head (ih second)

theorem single (head : DerivesStep productions u v) : Derives productions u v := .step head (.refl v)

theorem context (before after : List Symbol) (derivation : Derives productions u v) :
    Derives productions (before ++ u ++ after) (before ++ v ++ after) := by
  induction derivation with
  | refl => exact .refl _
  | step head _ ih => exact .step (head.context before after) ih

end Derives

end ShiftReduce
