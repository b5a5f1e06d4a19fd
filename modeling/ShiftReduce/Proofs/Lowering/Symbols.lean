import ShiftReduce.Lowering

/-!
Which symbols lowering writes. On a right-hand side stand names of the rule and helpers of its owner;
on a left-hand side stands the owner, for the alternatives at its top, or one of its helpers.
-/
namespace ShiftReduce.Lowering

def IsHelper (owner : String) (symbol : Symbol) : Prop :=
  ∃ number, symbol = Symbol.helper owner number

def Owned (owner : String) (names : List String) (symbol : Symbol) : Prop :=
  (∃ name ∈ names, symbol = ⟨name⟩) ∨ IsHelper owner symbol

theorem isHelper_helper (owner : String) (number : Nat) :
    IsHelper owner (.helper owner number) := ⟨number, rfl⟩

variable {owner : String} {names more : List String}

theorem Owned.mono {symbol : Symbol} (owned : Owned owner names symbol) (subset : names ⊆ more) :
    Owned owner more symbol := by
  obtain ⟨name, mem, rfl⟩ | helper := owned
  · exact .inl ⟨name, subset mem, rfl⟩
  · exact .inr helper

/-- The symbols of a lowered piece and of the productions made for it. -/
structure Within (owner : String) (names : List String) (left : Symbol → Prop)
    (lowered : Lowered) : Prop where
  symbols : ∀ symbol ∈ lowered.symbols, Owned owner names symbol
  lhs : ∀ production ∈ lowered.productions, left production.lhs
  rhs : ∀ production ∈ lowered.productions, ∀ symbol ∈ production.rhs, Owned owner names symbol

namespace Within

variable {left : Symbol → Prop} {lowered first second : Lowered}

theorem append (before : Within owner names left first) (after : Within owner more left second)
    (count : Nat) :
    Within owner (names ++ more) left
      ⟨first.symbols ++ second.symbols, first.productions ++ second.productions, count⟩ := by
  have inLeft := List.subset_append_left names more
  have inRight := List.subset_append_right names more
  refine ⟨?_, ?_, ?_⟩
  · intro symbol mem
    obtain mem | mem := List.mem_append.mp mem
    · exact (before.symbols symbol mem).mono inLeft
    · exact (after.symbols symbol mem).mono inRight
  · intro production mem
    obtain mem | mem := List.mem_append.mp mem
    · exact before.lhs production mem
    · exact after.lhs production mem
  · intro production mem symbol inside
    obtain mem | mem := List.mem_append.mp mem
    · exact (before.rhs production mem symbol inside).mono inLeft
    · exact (after.rhs production mem symbol inside).mono inRight

theorem wrap (body : Within owner names (IsHelper owner) lowered) {own : List Production}
    (lhs : ∀ production ∈ own, IsHelper owner production.lhs)
    (rhs : ∀ production ∈ own, ∀ symbol ∈ production.rhs,
      symbol ∈ lowered.symbols ∨ IsHelper owner symbol) (number count : Nat) :
    Within owner names (IsHelper owner)
      ⟨[.helper owner number], lowered.productions ++ own, count⟩ := by
  refine ⟨?_, ?_, ?_⟩
  · intro symbol mem
    rw [List.mem_singleton.mp mem]
    exact .inr (isHelper_helper owner number)
  · intro production mem
    obtain mem | mem := List.mem_append.mp mem
    · exact body.lhs production mem
    · exact lhs production mem
  · intro production mem symbol inside
    obtain mem | mem := List.mem_append.mp mem
    · exact body.rhs production mem symbol inside
    · obtain used | helper := rhs production mem symbol inside
      · exact body.symbols symbol used
      · exact .inr helper

end Within

mutual

theorem lower_within (owner : String) (count : Nat) :
    (rule : Rule) → Within owner rule.names (IsHelper owner) (lower owner count rule)
  | .symbol name => by
    refine ⟨?_, ?_, ?_⟩ <;> simp [lower, Rule.names, Owned]
  | .seq rules => by
    simpa only [lower, Rule.names] using lowerParts_within owner count rules
  | .alternatives rules => by
    have body := lowerChoices_within owner (.helper owner (count + 1)) (count + 1) rules
    refine ⟨?_, ?_, body.rhs⟩
    · simp [lower, Owned, isHelper_helper]
    · intro production mem
      obtain same | helper := body.lhs production mem
      · exact ⟨count + 1, same⟩
      · exact helper
  | .many rule => by
    refine (lower_within owner (count + 1) rule).wrap ?_ ?_ (count + 1) _ <;>
      simp +contextual [isHelper_helper]
  | .many1 rule => by
    refine (lower_within owner (count + 1) rule).wrap ?_ ?_ (count + 1) _ <;>
      simp +contextual [isHelper_helper]
  | .optional rule => by
    refine (lower_within owner (count + 1) rule).wrap ?_ ?_ (count + 1) _ <;>
      simp +contextual [isHelper_helper]
  | .sepBy1 separator rule => by
    have between := lower_within owner (count + 1) separator
    have body := lower_within owner (lower owner (count + 1) separator).helpers rule
    refine (between.append body 0).wrap ?_ ?_ (count + 1) _ <;>
      simp +contextual [separated, isHelper_helper, or_imp]
  | .sepBy separator rule => by
    have between := lower_within owner (count + 2) separator
    have body := lower_within owner (lower owner (count + 2) separator).helpers rule
    simp only [lower, Rule.names, List.append_assoc _ (separated _ _ _) _]
    refine (between.append body 0).wrap ?_ ?_ (count + 1) _ <;>
      simp +contextual [separated, isHelper_helper, or_imp]

theorem lowerParts_within (owner : String) (count : Nat) :
    (rules : List Rule) →
      Within owner (Rule.namesOfAll rules) (IsHelper owner) (lowerParts owner count rules)
  | [] => by refine ⟨?_, ?_, ?_⟩ <;> simp [lowerParts]
  | rule :: rules => by
    have first := lower_within owner count rule
    exact first.append (lowerParts_within owner (lower owner count rule).helpers rules) _

theorem lowerChoices_within (owner : String) (lhs : Symbol) (count : Nat) :
    (rules : List Rule) →
      Within owner (Rule.namesOfAll rules) (fun symbol => symbol = lhs ∨ IsHelper owner symbol)
        (lowerChoices owner lhs count rules)
  | [] => by refine ⟨?_, ?_, ?_⟩ <;> simp [lowerChoices]
  | rule :: rules => by
    have first := lower_within owner count rule
    have rest := lowerChoices_within owner lhs (lower owner count rule).helpers rules
    have inFirst : rule.names ⊆ Rule.namesOfAll (rule :: rules) := List.subset_append_left _ _
    have inRest : Rule.namesOfAll rules ⊆ Rule.namesOfAll (rule :: rules) :=
      List.subset_append_right _ _
    refine ⟨by simp [lowerChoices], ?_, ?_⟩
    · simp only [lowerChoices, List.mem_append, List.mem_cons]
      rintro production (mem | rfl | mem)
      · exact .inr (first.lhs production mem)
      · exact .inl rfl
      · exact rest.lhs production mem
    · simp only [lowerChoices, List.mem_append, List.mem_cons]
      rintro production (mem | rfl | mem) symbol inside
      · exact (first.rhs production mem symbol inside).mono inFirst
      · exact (first.symbols symbol inside).mono inFirst
      · exact (rest.rhs production mem symbol inside).mono inRest

end

theorem namesOfAll_choices (rule : Rule) : Rule.namesOfAll rule.choices = rule.names := by
  cases rule <;> simp [Rule.choices, Rule.names, Rule.namesOfAll]

theorem lowerRule_within (name : String) (rule : Rule) :
    Within name rule.names (fun symbol => symbol = ⟨name⟩ ∨ IsHelper name symbol)
      (lowerChoices name ⟨name⟩ 0 rule.choices) := by
  have within := lowerChoices_within name ⟨name⟩ 0 rule.choices
  rwa [namesOfAll_choices] at within

end ShiftReduce.Lowering
