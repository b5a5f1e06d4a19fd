import ShiftReduce.Proofs.Lowering.Numbering
import ShiftReduce.Proofs.Lowering.Symbols

/-!
What is registered for each combinator of a rule, told without the recursion of the lowering. The
combinators of a rule are listed from left to right, each before those inside it, and the helper of the
combinator at a place has the number of the place. So the symbols that stand for a part of a rule are
known from how many combinators are before it.
-/
namespace ShiftReduce

namespace Rule

mutual

/-- The combinators that a helper is made for. The list inside a `sepBy` has one of its own. -/
def combinators : Rule → List Rule
  | .symbol _ => []
  | .seq rules => combinatorsOfAll rules
  | .alternatives rules => .alternatives rules :: combinatorsOfAll rules
  | .many rule => .many rule :: rule.combinators
  | .many1 rule => .many1 rule :: rule.combinators
  | .optional rule => .optional rule :: rule.combinators
  | .sepBy1 separator rule =>
    .sepBy1 separator rule :: (separator.combinators ++ rule.combinators)
  | .sepBy separator rule =>
    .sepBy separator rule :: .sepBy1 separator rule :: (separator.combinators ++ rule.combinators)

def combinatorsOfAll : List Rule → List Rule
  | [] => []
  | rule :: rules => rule.combinators ++ combinatorsOfAll rules

end

end Rule

namespace Lowering

mutual

/-- The symbols for a part of a rule with `count` combinators before it: a sequence is spliced, and a
combinator is one symbol. -/
def spell (owner : String) (count : Nat) : Rule → List Symbol
  | .symbol name => [⟨name⟩]
  | .seq rules => spellAll owner count rules
  | _ => [.helper owner (count + 1)]

def spellAll (owner : String) (count : Nat) : List Rule → List Symbol
  | [] => []
  | rule :: rules =>
    spell owner count rule ++ spellAll owner (count + rule.combinators.length) rules

end

def spellChoices (owner : String) (lhs : Symbol) (count : Nat) : List Rule → List Production
  | [] => []
  | rule :: rules =>
    ⟨lhs, spell owner count rule⟩ ::
      spellChoices owner lhs (count + rule.combinators.length) rules

/-- The productions of the helper with the number `number`, made for a combinator. -/
def own (owner : String) (number : Nat) : Rule → List Production
  | .symbol _ => []
  | .seq _ => []
  | .alternatives rules => spellChoices owner (.helper owner number) number rules
  | .many rule =>
    let helper := Symbol.helper owner number
    [⟨helper, helper :: spell owner number rule⟩, ⟨helper, []⟩]
  | .many1 rule =>
    let helper := Symbol.helper owner number
    [⟨helper, helper :: spell owner number rule⟩, ⟨helper, spell owner number rule⟩]
  | .optional rule =>
    let helper := Symbol.helper owner number
    [⟨helper, spell owner number rule⟩, ⟨helper, []⟩]
  | .sepBy1 separator rule =>
    separated (.helper owner number) (spell owner number separator)
      (spell owner (number + separator.combinators.length) rule)
  | .sepBy _ _ =>
    let helper := Symbol.helper owner number
    [⟨helper, [.helper owner (number + 1)]⟩, ⟨helper, []⟩]

def select (symbol : Symbol) (productions : List Production) : List Production :=
  productions.filter (·.lhs = symbol)

/-- Those of the helper numbered `number` among what is made for combinators that `count` others come
before. -/
def made (owner : String) (count : Nat) (combinators : List Rule) (number : Nat) : List Production :=
  (combinators.zipIdx (count + 1)).flatMap fun (combinator, place) =>
    if place = number then own owner place combinator else []

variable {owner : String} {lhs symbol : Symbol} {count number : Nat} {rules : List Rule}
  {combinator : Rule} {combinators : List Rule}

section

theorem mem_select {productions : List Production} {production : Production} :
    production ∈ select symbol productions ↔ production ∈ productions ∧ production.lhs = symbol := by
  rw [select, List.mem_filter, decide_eq_true_iff]

theorem select_append (symbol : Symbol) (first second : List Production) :
    select symbol (first ++ second) = select symbol first ++ select symbol second :=
  List.filter_append ..

theorem select_cons (symbol : Symbol) (production : Production) (rest : List Production) :
    select symbol (production :: rest) =
      if production.lhs = symbol then production :: select symbol rest else select symbol rest := by
  by_cases same : production.lhs = symbol <;> simp [select, same]

theorem select_eq_self {productions : List Production}
    (same : ∀ production ∈ productions, production.lhs = symbol) :
    select symbol productions = productions :=
  List.filter_eq_self.mpr fun production mem => decide_eq_true (same production mem)

theorem select_eq_nil {productions : List Production}
    (other : ∀ production ∈ productions, production.lhs ≠ symbol) :
    select symbol productions = [] :=
  List.filter_eq_nil_iff.mpr fun production mem => by simpa using other production mem

theorem length_spellChoices (owner : String) (lhs : Symbol) (rules : List Rule) (count : Nat) :
    (spellChoices owner lhs count rules).length = rules.length := by
  induction rules generalizing count with
  | nil => rfl
  | cons rule rules ih => rw [spellChoices, List.length_cons, ih, List.length_cons]

theorem lhs_spellChoices (owner : String) (lhs : Symbol) (rules : List Rule) (count : Nat) :
    ∀ production ∈ spellChoices owner lhs count rules, production.lhs = lhs := by
  induction rules generalizing count with
  | nil => simp [spellChoices]
  | cons rule rules ih => simpa [spellChoices] using ih _

theorem lhs_own : ∀ production ∈ own owner number combinator,
    production.lhs = .helper owner number := by
  cases combinator with
  | symbol => simp [own]
  | seq => simp [own]
  | alternatives rules => exact lhs_spellChoices owner _ rules number
  | many => simp [own]
  | many1 => simp [own]
  | optional => simp [own]
  | sepBy => simp [own]
  | sepBy1 => simp [own, separated]

theorem select_own (owner : String) (place number : Nat) (combinator : Rule) :
    select (.helper owner number) (own owner place combinator) =
      if place = number then own owner place combinator else [] := by
  split
  · rename_i same
    subst same
    exact select_eq_self lhs_own
  · rename_i different
    refine select_eq_nil fun production mem same => different ?_
    exact Symbol.helper_number_injective ((lhs_own production mem).symm.trans same)

end

section

theorem made_append (owner : String) (count number : Nat) (first second : List Rule) :
    made owner count (first ++ second) number =
      made owner count first number ++ made owner (count + first.length) second number := by
  have next : count + 1 + first.length = count + first.length + 1 := by omega
  rw [made, List.zipIdx_append, List.flatMap_append, next]
  rfl

theorem made_cons (owner : String) (count number : Nat) (combinator : Rule) (rest : List Rule) :
    made owner count (combinator :: rest) number =
      (if count + 1 = number then own owner (count + 1) combinator else [])
        ++ made owner (count + 1) rest number := by
  rw [made, List.zipIdx_cons, List.flatMap_cons]
  rfl

theorem mem_made {production : Production} :
    production ∈ made owner count combinators number ↔ ∃ i combinator,
      combinators[i]? = some combinator ∧ count + i + 1 = number ∧
        production ∈ own owner number combinator := by
  simp only [made, List.mem_flatMap, Prod.exists, List.mk_mem_zipIdx_iff_le_and_getElem?_sub]
  constructor
  · rintro ⟨combinator, place, ⟨after, at_i⟩, mem⟩
    split at mem
    · rename_i same
      subst same
      exact ⟨place - (count + 1), combinator, at_i, by omega, mem⟩
    · cases mem
  · rintro ⟨i, combinator, at_i, rfl, mem⟩
    refine ⟨combinator, count + i + 1, ⟨by omega, ?_⟩, by rwa [if_pos rfl]⟩
    rwa [show count + i + 1 - (count + 1) = i by omega]

theorem made_of_le (combinators : List Rule) (before : number ≤ count) :
    made owner count combinators number = [] := by
  rw [List.eq_nil_iff_forall_not_mem]
  intro production mem
  obtain ⟨i, -, -, place, -⟩ := mem_made.mp mem
  omega

theorem made_of_getElem? {i : Nat} (at_i : combinators[i]? = some combinator) :
    made owner count combinators (count + i + 1) = own owner (count + i + 1) combinator := by
  induction combinators generalizing count i with
  | nil => simp at at_i
  | cons first rest ih =>
    cases i with
    | zero =>
      cases at_i
      rw [made_cons, if_pos rfl, made_of_le rest (Nat.le_refl _), List.append_nil, Nat.add_zero]
    | succ i =>
      have place : count + (i + 1) + 1 = count + 1 + i + 1 := by omega
      rw [made_cons, if_neg (by omega), List.nil_append, place]
      exact ih at_i

theorem made_append_select_own (owner : String) (count number : Nat) (combinator : Rule)
    (inside : List Rule) :
    made owner (count + 1) inside number
        ++ select (.helper owner number) (own owner (count + 1) combinator) =
      made owner count (combinator :: inside) number := by
  rw [made_cons, select_own]
  split
  · rename_i same
    rw [made_of_le inside (by omega), List.nil_append, List.append_nil]
  · rw [List.append_nil, List.nil_append]

end

mutual

theorem map_snd_helpersOf (owner : String) : ∀ (rule : Rule) (count : Nat),
    (helpersOf owner count rule).map (·.2) = rule.combinators
  | .symbol _, _ => by simp [helpersOf, Rule.combinators]
  | .seq rules, count => by
    simpa only [helpersOf, Rule.combinators] using map_snd_helpersOfAll owner rules count
  | .alternatives rules, count => by
    simp [helpersOf, Rule.combinators, map_snd_helpersOfAll owner rules]
  | .many rule, count => by simp [helpersOf, Rule.combinators, map_snd_helpersOf owner rule]
  | .many1 rule, count => by simp [helpersOf, Rule.combinators, map_snd_helpersOf owner rule]
  | .optional rule, count => by simp [helpersOf, Rule.combinators, map_snd_helpersOf owner rule]
  | .sepBy1 separator rule, count => by
    simp [helpersOf, Rule.combinators, map_snd_helpersOf owner separator,
      map_snd_helpersOf owner rule]
  | .sepBy separator rule, count => by
    simp [helpersOf, Rule.combinators, map_snd_helpersOf owner separator,
      map_snd_helpersOf owner rule]

theorem map_snd_helpersOfAll (owner : String) : ∀ (rules : List Rule) (count : Nat),
    (helpersOfAll owner count rules).map (·.2) = Rule.combinatorsOfAll rules
  | [], _ => by simp [helpersOfAll, Rule.combinatorsOfAll]
  | rule :: rules, count => by
    simp [helpersOfAll, Rule.combinatorsOfAll, map_snd_helpersOf owner rule,
      map_snd_helpersOfAll owner rules]

end

@[simp] theorem helpers_lower (owner : String) (count : Nat) (rule : Rule) :
    (lower owner count rule).helpers = count + rule.combinators.length := by
  rw [(numbered_helpersOf owner rule count).last_eq, ← map_snd_helpersOf owner rule count,
    List.length_map]

theorem helpers_lowerParts (owner : String) (count : Nat) (rules : List Rule) :
    (lowerParts owner count rules).helpers = count + (Rule.combinatorsOfAll rules).length := by
  rw [(numbered_helpersOfAll owner rules count).last_eq, ← map_snd_helpersOfAll owner rules count,
    List.length_map]

mutual

@[simp] theorem symbols_lower (owner : String) : ∀ (count : Nat) (rule : Rule),
    (lower owner count rule).symbols = spell owner count rule
  | _, .symbol _ => rfl
  | count, .seq rules => symbols_lowerParts owner count rules
  | _, .alternatives _ => rfl
  | _, .many _ => rfl
  | _, .many1 _ => rfl
  | _, .optional _ => rfl
  | _, .sepBy1 _ _ => rfl
  | _, .sepBy _ _ => rfl

@[simp] theorem symbols_lowerParts (owner : String) : ∀ (count : Nat) (rules : List Rule),
    (lowerParts owner count rules).symbols = spellAll owner count rules
  | _, [] => rfl
  | count, rule :: rules => by
    rw [lowerParts, spellAll, symbols_lower owner count rule, symbols_lowerParts, helpers_lower]

end

theorem select_lowerChoices_of_ne (other : lhs ≠ symbol) (rules : List Rule) (count : Nat) :
    select symbol (lowerChoices owner lhs count rules).productions =
      select symbol (lowerParts owner count rules).productions := by
  induction rules generalizing count with
  | nil => rfl
  | cons rule rules ih =>
    rw [lowerChoices, lowerParts, select_append, select_append, select_cons, if_neg other, ih]

theorem select_lowerChoices_self (rules : List Rule) (count : Nat)
    (elsewhere : select lhs (lowerParts owner count rules).productions = []) :
    select lhs (lowerChoices owner lhs count rules).productions =
      spellChoices owner lhs count rules := by
  induction rules generalizing count with
  | nil => rfl
  | cons rule rules ih =>
    rw [lowerParts, select_append, List.append_eq_nil_iff] at elsewhere
    rw [lowerChoices, select_append, select_cons, if_pos rfl, elsewhere.1, ih _ elsewhere.2,
      List.nil_append, spellChoices, symbols_lower, helpers_lower]

mutual

/-- The productions of a helper in a lowered part are those made for its combinator. -/
theorem select_lower (owner : String) (number : Nat) : ∀ (count : Nat) (rule : Rule),
    select (.helper owner number) (lower owner count rule).productions =
      made owner count rule.combinators number
  | _, .symbol _ => rfl
  | count, .seq rules => by
    rw [lower, Rule.combinators, select_lowerParts owner number count rules]
  | count, .alternatives rules => by
    have inside := select_lowerParts owner number (count + 1) rules
    rw [lower, Rule.combinators, made_cons]
    by_cases place : count + 1 = number
    · rw [← place, made_of_le _ (Nat.le_refl _)] at inside
      rw [← place, if_pos rfl, made_of_le _ (Nat.le_refl _), List.append_nil, own]
      exact select_lowerChoices_self rules (count + 1) inside
    · have other : Symbol.helper owner (count + 1) ≠ .helper owner number :=
        fun same => place (Symbol.helper_number_injective same)
      rw [if_neg place, List.nil_append, select_lowerChoices_of_ne other, inside]
  | count, .many rule => by
    rw [Rule.combinators, ← made_append_select_own, ← select_lower owner number (count + 1) rule,
      ← select_append]
    simp [lower, own]
  | count, .many1 rule => by
    rw [Rule.combinators, ← made_append_select_own, ← select_lower owner number (count + 1) rule,
      ← select_append]
    simp [lower, own]
  | count, .optional rule => by
    rw [Rule.combinators, ← made_append_select_own, ← select_lower owner number (count + 1) rule,
      ← select_append]
    simp [lower, own]
  | count, .sepBy1 separator rule => by
    rw [Rule.combinators, ← made_append_select_own, made_append,
      ← select_lower owner number (count + 1) separator, ← select_lower owner number _ rule,
      ← select_append, ← select_append]
    simp [lower, own]
  | count, .sepBy separator rule => by
    rw [Rule.combinators, ← made_append_select_own, ← made_append_select_own, made_append,
      ← select_lower owner number (count + 2) separator, ← select_lower owner number _ rule,
      ← select_append, ← select_append, ← select_append]
    simp [lower, own]

theorem select_lowerParts (owner : String) (number : Nat) : ∀ (count : Nat) (rules : List Rule),
    select (.helper owner number) (lowerParts owner count rules).productions =
      made owner count (Rule.combinatorsOfAll rules) number
  | _, [] => rfl
  | count, rule :: rules => by
    rw [lowerParts, Rule.combinatorsOfAll, made_append, select_append,
      select_lower owner number count rule, helpers_lower, select_lowerParts owner number _ rules]

end

theorem helper_ne_owner (owner : String) (number : Nat) : Symbol.helper owner number ≠ ⟨owner⟩ := by
  intro same
  have chars := congrArg (·.name.toList) same
  simp [Symbol.toList_helper] at chars

theorem select_lowerRule_self (name : String) (body : Rule) :
    select ⟨name⟩ (lowerRule name body) = spellChoices name ⟨name⟩ 0 body.choices := by
  refine select_lowerChoices_self body.choices 0 (select_eq_nil fun production mem same => ?_)
  obtain ⟨number, lhs⟩ := (lowerParts_within name 0 body.choices).lhs production mem
  exact helper_ne_owner name number (lhs.symm.trans same)

theorem select_lowerRule_helper (name : String) (body : Rule) (number : Nat) :
    select (.helper name number) (lowerRule name body) =
      made name 0 (Rule.combinatorsOfAll body.choices) number := by
  rw [lowerRule, select_lowerChoices_of_ne (helper_ne_owner name number).symm, select_lowerParts]

theorem lhs_lowerRule {name : String} {body : Rule} {production : Production}
    (mem : production ∈ lowerRule name body) :
    production.lhs = ⟨name⟩ ∨ ∃ i combinator,
      (Rule.combinatorsOfAll body.choices)[i]? = some combinator ∧
        production.lhs = .helper name (i + 1) := by
  refine ((lowerRule_within name body).lhs production mem).imp_right fun ⟨number, lhs⟩ => ?_
  have selected : production ∈ select (.helper name number) (lowerRule name body) :=
    mem_select.mpr ⟨mem, lhs⟩
  rw [select_lowerRule_helper] at selected
  obtain ⟨i, combinator, at_i, rfl, -⟩ := mem_made.mp selected
  exact ⟨i, combinator, at_i, by rw [lhs, Nat.zero_add]⟩

end Lowering

end ShiftReduce
