import ShiftReduce.Proofs.Lowering.Combinators
import ShiftReduce.Proofs.Lowering.Occurrence

/-!
In which order the productions of a rule come. What a helper needs is made before the helper itself, so a
production of a helper never comes after one that uses the helper, other than its own.

The invariant is about numbers: a piece that is lowered when `count` helpers are there makes those after
`count` and uses them and no others, so that pieces lowered one after the other have nothing to do with
each other.
-/
namespace ShiftReduce.Lowering

open ShiftReduce.Symbol

/-- If `later` belongs to a helper of `owner` that `earlier` uses, then both do. -/
def Settled (owner : String) (earlier later : Production) : Prop :=
  ∀ number, later.lhs = helper owner number → later.lhs ∈ earlier.rhs → later.lhs = earlier.lhs

def InRange (owner : String) (count last : Nat) (symbol : Symbol) : Prop :=
  ∀ number, symbol = helper owner number → count < number ∧ number ≤ last

variable {owner name : String} {count middle last : Nat} {lhs symbol : Symbol} {production : Production}
  {left : Symbol → Prop} {first second body : Lowered} {own : List Production}

theorem InRange.mono {less more : Nat} (range : InRange owner count last symbol) (from_less : less ≤ count)
    (to_more : last ≤ more) : InRange owner less more symbol := by
  intro number same
  obtain ⟨after, upTo⟩ := range number same
  exact ⟨by omega, by omega⟩

theorem inRange_of_chosen (chosen : Chosen symbol.name) : InRange owner count last symbol :=
  fun _ same => absurd same.symm (helper_ne_chosen chosen)

theorem inRange_helper {number : Nat} (after : count < number) (upTo : number ≤ last) :
    InRange owner count last (helper owner number) := by
  intro other same
  rw [← helper_number_injective same]
  exact ⟨after, upTo⟩

/-- All helpers in a production are in a range. It may also be one of a symbol from outside, in `left`. -/
structure Contained (owner : String) (left : Symbol → Prop) (count last : Nat) (production : Production) :
    Prop where
  lhs : left production.lhs ∨ InRange owner count last production.lhs
  rhs : ∀ symbol ∈ production.rhs, InRange owner count last symbol

theorem Contained.mono {less more : Nat} (contained : Contained owner left count last production)
    (from_less : less ≤ count) (to_more : last ≤ more) : Contained owner left less more production where
  lhs := contained.lhs.imp_right (·.mono from_less to_more)
  rhs symbol mem := (contained.rhs symbol mem).mono from_less to_more

/-- A production uses none of the helpers made after it. -/
theorem settled_of_inRange {earlier later : Production}
    (used : ∀ symbol ∈ earlier.rhs, InRange owner count middle symbol)
    (new : InRange owner middle last later.lhs) : Settled owner earlier later := by
  intro number same inside
  have before := (used _ inside number same).2
  have after := (new number same).1
  omega

theorem Mentions.of_closed (mentions : Mentions body symbol) (closed : body.symbols = []) :
    ∃ production ∈ body.productions, symbol ∈ production.rhs :=
  mentions.resolve_left (by simp [closed])

theorem symbols_lowerChoices (owner : String) (lhs : Symbol) (count : Nat) (rules : List Rule) :
    (lowerChoices owner lhs count rules).symbols = [] := by
  cases rules <;> rfl

/-- A lowered piece whose helpers are new, in use, and settled when they are used. -/
structure Ordered (owner : String) (left : Symbol → Prop) (count : Nat) (lowered : Lowered) : Prop where
  le : count ≤ lowered.helpers
  symbols : ∀ symbol ∈ lowered.symbols, InRange owner count lowered.helpers symbol
  contained : ∀ production ∈ lowered.productions,
    Contained owner left count lowered.helpers production
  used : ∀ number, count < number → number ≤ lowered.helpers → Mentions lowered (helper owner number)
  settled : lowered.productions.Pairwise (Settled owner)

abbrev OrderedPart (owner : String) : Nat → Lowered → Prop := Ordered owner fun _ => False

namespace Ordered

theorem nil (owner : String) (left : Symbol → Prop) (count : Nat) :
    Ordered owner left count ⟨[], [], count⟩ := by
  refine ⟨Nat.le_refl count, by simp, by simp, fun number after upTo => ?_, .nil⟩
  exact absurd after (Nat.not_lt.mpr upTo)

theorem single (chosen : Chosen name) : OrderedPart owner count ⟨[⟨name⟩], [], count⟩ := by
  refine ⟨Nat.le_refl count, by simpa using inRange_of_chosen chosen, by simp,
    fun number after upTo => ?_, .nil⟩
  exact absurd after (Nat.not_lt.mpr upTo)

theorem append (before : OrderedPart owner count first) (after : OrderedPart owner first.helpers second) :
    OrderedPart owner count
      ⟨first.symbols ++ second.symbols, first.productions ++ second.productions, second.helpers⟩ := by
  refine ⟨before.le.trans after.le, ?_, ?_, fun number new upTo => ?_, ?_⟩
  · rw [List.forall_mem_append]
    exact ⟨fun symbol mem => (before.symbols symbol mem).mono (Nat.le_refl _) after.le,
      fun symbol mem => (after.symbols symbol mem).mono before.le (Nat.le_refl _)⟩
  · rw [List.forall_mem_append]
    exact ⟨fun production mem => (before.contained production mem).mono (Nat.le_refl _) after.le,
      fun production mem => (after.contained production mem).mono before.le (Nat.le_refl _)⟩
  · rcases Nat.lt_or_ge first.helpers number with later | earlier
    · exact (after.used number later upTo).right first _
    · exact (before.used number new earlier).left second _
  · refine List.pairwise_append.mpr ⟨before.settled, after.settled, fun earlier mem later mem' => ?_⟩
    exact settled_of_inRange (before.contained earlier mem).rhs
      ((after.contained later mem').lhs.resolve_left id)

theorem wrap (inside : OrderedPart owner (count + 1) body)
    (lhs : ∀ production ∈ own, production.lhs = helper owner (count + 1))
    (rhs : ∀ production ∈ own, ∀ symbol ∈ production.rhs,
      symbol = helper owner (count + 1) ∨ symbol ∈ body.symbols)
    (whole : ∃ production ∈ own, body.symbols ⊆ production.rhs) :
    OrderedPart owner count
      ⟨[helper owner (count + 1)], body.productions ++ own, body.helpers⟩ := by
  have self : InRange owner count body.helpers (helper owner (count + 1)) :=
    inRange_helper (Nat.lt_succ_self count) inside.le
  refine ⟨Nat.le_of_succ_le inside.le, by simpa using self, ?_, fun number new upTo => ?_, ?_⟩
  · rw [List.forall_mem_append]
    refine ⟨fun production mem => (inside.contained production mem).mono (Nat.le_succ count)
      (Nat.le_refl _), fun production mem => ⟨.inr (lhs production mem ▸ self), fun symbol used => ?_⟩⟩
    obtain rfl | used := rhs production mem symbol used
    · exact self
    · exact (inside.symbols symbol used).mono (Nat.le_succ count) (Nat.le_refl _)
  · rcases Nat.eq_or_lt_of_le new with rfl | later
    · exact .inl List.mem_cons_self
    · exact (inside.used number later upTo).wrap whole _ _
  · refine List.pairwise_append.mpr ⟨inside.settled, ?_, fun earlier mem later mem' => ?_⟩
    · refine List.pairwise_of_forall_mem_list fun earlier mem later mem' _ _ _ => ?_
      rw [lhs later mem', lhs earlier mem]
    · intro number _ used
      rw [lhs later mem'] at used
      exact absurd ((inside.contained earlier mem).rhs _ used _ rfl).1 (Nat.lt_irrefl _)

theorem list (between : OrderedPart owner (count + 1) first)
    (element : OrderedPart owner first.helpers second) :
    OrderedPart owner count ⟨[helper owner (count + 1)],
      first.productions ++ second.productions
        ++ separated (helper owner (count + 1)) first.symbols second.symbols,
      second.helpers⟩ :=
  (between.append element).wrap (by simp [separated]) (by simp +contextual [separated, or_imp])
    (by simp [separated])

theorem choice (known : ∀ number, lhs = helper owner number → number ≤ count)
    (before : OrderedPart owner count first) (after : Ordered owner (· = lhs) first.helpers second)
    (closed : second.symbols = []) :
    Ordered owner (· = lhs) count
      ⟨[], first.productions ++ ⟨lhs, first.symbols⟩ :: second.productions, second.helpers⟩ := by
  have unused : ∀ earlier ∈ first.productions, Settled owner earlier ⟨lhs, first.symbols⟩ := by
    intro earlier mem number same inside
    have new := ((before.contained earlier mem).rhs lhs inside number same).1
    have old := known number same
    omega
  refine ⟨before.le.trans after.le, by simp, ?_, fun number new upTo => .inr ?_, ?_⟩
  · rw [List.forall_mem_append, List.forall_mem_cons]
    refine ⟨fun production mem => ?_, ⟨.inl rfl, fun symbol mem => ?_⟩, fun production mem => ?_⟩
    · have contained := (before.contained production mem).mono (Nat.le_refl _) after.le
      exact ⟨.inr (contained.lhs.resolve_left id), contained.rhs⟩
    · exact (before.symbols symbol mem).mono (Nat.le_refl _) after.le
    · exact (after.contained production mem).mono before.le (Nat.le_refl _)
  · rcases Nat.lt_or_ge first.helpers number with later | earlier
    · obtain ⟨production, mem, inside⟩ := (after.used number later upTo).of_closed closed
      exact ⟨production, List.mem_append_right _ (List.mem_cons_of_mem _ mem), inside⟩
    · obtain mem | ⟨production, mem, inside⟩ := before.used number new earlier
      · exact ⟨_, List.mem_append_right _ List.mem_cons_self, mem⟩
      · exact ⟨production, List.mem_append_left _ mem, inside⟩
  · refine List.pairwise_append.mpr ⟨before.settled, List.pairwise_cons.mpr ⟨?_, after.settled⟩, ?_⟩
    · intro later mem
      obtain same | new := (after.contained later mem).lhs
      · exact fun _ _ _ => same
      · exact settled_of_inRange before.symbols new
    · intro earlier mem
      rw [List.forall_mem_cons]
      refine ⟨unused earlier mem, fun later mem' => ?_⟩
      obtain same | new := (after.contained later mem').lhs
      · intro number
        rw [same]
        exact unused earlier mem number
      · exact settled_of_inRange (before.contained earlier mem).rhs new

theorem alternatives (inside : Ordered owner (· = helper owner (count + 1)) (count + 1) body)
    (closed : body.symbols = []) :
    OrderedPart owner count ⟨[helper owner (count + 1)], body.productions, body.helpers⟩ := by
  have self : InRange owner count body.helpers (helper owner (count + 1)) :=
    inRange_helper (Nat.lt_succ_self count) inside.le
  refine ⟨Nat.le_of_succ_le inside.le, by simpa using self, fun production mem => ?_,
    fun number new upTo => ?_, inside.settled⟩
  · have contained := (inside.contained production mem).mono (Nat.le_succ count) (Nat.le_refl _)
    refine ⟨.inr (contained.lhs.elim (fun same => ?_) id), contained.rhs⟩
    rw [same]
    exact self
  · rcases Nat.eq_or_lt_of_le new with rfl | later
    · exact .inl List.mem_cons_self
    · exact .inr ((inside.used number later upTo).of_closed closed)

end Ordered

mutual

theorem ordered_lower (owner : String) : ∀ (rule : Rule) (count : Nat),
    (∀ name ∈ rule.names, Chosen name) → OrderedPart owner count (lower owner count rule)
  | .symbol name, count, chosen => by
    rw [lower]
    exact .single (chosen name (by simp [Rule.names]))
  | .seq rules, count, chosen => by
    rw [lower]
    exact ordered_lowerParts owner rules count chosen
  | .alternatives rules, count, chosen => by
    rw [lower]
    have inside := ordered_lowerChoices owner _ rules (count + 1) chosen fun number same =>
      (helper_number_injective same).ge
    exact inside.alternatives (symbols_lowerChoices ..)
  | .many rule, count, chosen => by
    rw [lower]
    exact (ordered_lower owner rule (count + 1) chosen).wrap (by simp) (by simp) (by simp)
  | .many1 rule, count, chosen => by
    rw [lower]
    exact (ordered_lower owner rule (count + 1) chosen).wrap (by simp) (by simp +contextual) (by simp)
  | .optional rule, count, chosen => by
    rw [lower]
    exact (ordered_lower owner rule (count + 1) chosen).wrap (by simp) (by simp +contextual) (by simp)
  | .sepBy1 separator rule, count, chosen => by
    rw [Rule.names, List.forall_mem_append] at chosen
    rw [lower]
    exact (ordered_lower owner separator (count + 1) chosen.1).list (ordered_lower owner rule _ chosen.2)
  | .sepBy separator rule, count, chosen => by
    rw [Rule.names, List.forall_mem_append] at chosen
    rw [lower]
    have list := (ordered_lower owner separator (count + 2) chosen.1).list
      (ordered_lower owner rule _ chosen.2)
    exact list.wrap (by simp) (by simp) (by simp)

theorem ordered_lowerParts (owner : String) : ∀ (rules : List Rule) (count : Nat),
    (∀ name ∈ Rule.namesOfAll rules, Chosen name) →
      OrderedPart owner count (lowerParts owner count rules)
  | [], count, _ => by
    rw [lowerParts]
    exact .nil owner _ count
  | rule :: rules, count, chosen => by
    rw [Rule.namesOfAll, List.forall_mem_append] at chosen
    rw [lowerParts]
    exact (ordered_lower owner rule count chosen.1).append (ordered_lowerParts owner rules _ chosen.2)

theorem ordered_lowerChoices (owner : String) (lhs : Symbol) : ∀ (rules : List Rule) (count : Nat),
    (∀ name ∈ Rule.namesOfAll rules, Chosen name) →
      (∀ number, lhs = helper owner number → number ≤ count) →
        Ordered owner (· = lhs) count (lowerChoices owner lhs count rules)
  | [], count, _, _ => by
    rw [lowerChoices]
    exact .nil owner _ count
  | rule :: rules, count, chosen, known => by
    rw [Rule.namesOfAll, List.forall_mem_append] at chosen
    rw [lowerChoices]
    have before := ordered_lower owner rule count chosen.1
    have after := ordered_lowerChoices owner lhs rules _ chosen.2 fun number same =>
      (known number same).trans before.le
    exact before.choice known after (symbols_lowerChoices ..)

end

theorem ordered_lowerRule {rule : Rule} (chosen : Chosen name)
    (names : ∀ name ∈ rule.names, Chosen name) :
    Ordered name (· = ⟨name⟩) 0 (lowerChoices name ⟨name⟩ 0 rule.choices) := by
  rw [← namesOfAll_choices] at names
  refine ordered_lowerChoices name ⟨name⟩ rule.choices 0 names fun number same => ?_
  exact absurd same.symm (helper_ne_chosen chosen)

theorem exists_use_of_combinator {rule combinator : Rule} {i : Nat} (chosen : Chosen name)
    (names : ∀ name ∈ rule.names, Chosen name)
    (at_i : (Rule.combinatorsOfAll rule.choices)[i]? = some combinator) :
    ∃ production ∈ lowerRule name rule, helper name (i + 1) ∈ production.rhs := by
  have ordered := ordered_lowerRule chosen names
  have inside := (List.getElem?_eq_some_iff.mp at_i).1
  have last : (lowerChoices name ⟨name⟩ 0 rule.choices).helpers =
      (Rule.combinatorsOfAll rule.choices).length := by
    rw [helpers_lowerChoices, helpers_lowerParts, Nat.zero_add]
  exact (ordered.used (i + 1) (Nat.succ_pos i) (by omega)).of_closed (symbols_lowerChoices ..)

end ShiftReduce.Lowering
