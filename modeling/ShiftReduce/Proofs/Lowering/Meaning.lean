import ShiftReduce.Proofs.Derivation
import ShiftReduce.Proofs.Language
import ShiftReduce.Proofs.Lowering.Numbering
import ShiftReduce.Proofs.Lowering.Symbols
import ShiftReduce.Proofs.Registry.Wellformed

/-!
Lowering adds no string. When every helper means what the rule it stands for does, each production is
sound: the meanings of its right-hand side, one after the other, are within the meaning of its
left-hand side. What is derived by sound productions is in the meaning of what it is derived from.
-/
namespace ShiftReduce

open Computability

def meanings (meaning : Symbol → Language Symbol) (symbols : List Symbol) : Language Symbol :=
  (symbols.map meaning).prod

def Production.Sound (meaning : Symbol → Language Symbol) (productions : List Production) : Prop :=
  ∀ production ∈ productions, meanings meaning production.rhs ≤ meaning production.lhs

section

variable {meaning : Symbol → Language Symbol} {productions : List Production} {u v w : List Symbol}

theorem meanings_cons (symbol : Symbol) (rest : List Symbol) :
    meanings meaning (symbol :: rest) = meaning symbol * meanings meaning rest := by
  simp [meanings]

theorem meanings_append : meanings meaning (u ++ v) = meanings meaning u * meanings meaning v := by
  simp [meanings]

theorem meanings_nil : meanings meaning [] = 1 := rfl

theorem meanings_singleton (symbol : Symbol) : meanings meaning [symbol] = meaning symbol := by
  simp [meanings]

theorem Production.sound_nil : Production.Sound meaning [] := by simp [Production.Sound]

theorem Production.sound_append {more : List Production} :
    Production.Sound meaning (productions ++ more) ↔
      Production.Sound meaning productions ∧ Production.Sound meaning more := List.forall_mem_append

theorem Production.sound_cons {production : Production} :
    Production.Sound meaning (production :: productions) ↔
      meanings meaning production.rhs ≤ meaning production.lhs ∧
        Production.Sound meaning productions := List.forall_mem_cons

theorem Expands.mem_meanings (sound : Production.Sound meaning productions)
    (terminals : ∀ symbol : Symbol, symbol.isTerminal = true → [symbol] ∈ meaning symbol)
    (expands : Expands productions u w) : w ∈ meanings meaning u := by
  induction expands with
  | nil => exact Language.nil_mem_one
  | @terminal symbol rest w terminal _ ih =>
    rw [meanings_cons]
    exact Language.append_mem_mul (terminals symbol terminal) ih
  | nonterminal mem _ _ inner outer =>
    rw [meanings_cons]
    exact Language.append_mem_mul (sound _ mem inner) outer

end

namespace Lowering

variable {owner : String} {env : String → Language Symbol} {meaning : Symbol → Language Symbol}

/-- The names written in a piece and the helpers made for it mean what they stand for. -/
structure Meant (env : String → Language Symbol) (meaning : Symbol → Language Symbol)
    (owner : String) (names : List String) (helpers : List (Nat × Rule)) : Prop where
  names : ∀ name ∈ names, meaning ⟨name⟩ = (Rule.symbol name).language env
  helpers : ∀ number rule, (number, rule) ∈ helpers →
    meaning (.helper owner number) = rule.language env

namespace Meant

variable {names more : List String} {first second : List (Nat × Rule)} {number : Nat} {rule : Rule}

theorem head (meant : Meant env meaning owner names ((number, rule) :: first)) :
    meaning (.helper owner number) = rule.language env :=
  meant.helpers number rule List.mem_cons_self

theorem tail (meant : Meant env meaning owner names ((number, rule) :: first)) :
    Meant env meaning owner names first :=
  ⟨meant.names, fun number rule mem => meant.helpers number rule (List.mem_cons_of_mem _ mem)⟩

theorem left (meant : Meant env meaning owner (names ++ more) (first ++ second)) :
    Meant env meaning owner names first :=
  ⟨fun name mem => meant.names name (List.mem_append_left _ mem),
    fun number rule mem => meant.helpers number rule (List.mem_append_left _ mem)⟩

theorem right (meant : Meant env meaning owner (names ++ more) (first ++ second)) :
    Meant env meaning owner more second :=
  ⟨fun name mem => meant.names name (List.mem_append_right _ mem),
    fun number rule mem => meant.helpers number rule (List.mem_append_right _ mem)⟩

end Meant

section

variable {lhs : Symbol} {symbols separator element : List Symbol} {one between : Language Symbol}

theorem repeated_sound (list : meaning lhs = one * between∗)
    (inner : meanings meaning symbols = between) :
    meanings meaning (lhs :: symbols) ≤ meaning lhs := by
  rw [meanings_cons, list, inner]
  exact mul_kstar_mul_le one between

theorem separated_sound (list : meaning lhs = one * (between * one)∗)
    (apart : meanings meaning separator = between) (inner : meanings meaning element = one) :
    Production.Sound meaning (separated lhs separator element) := by
  rw [separated, Production.sound_cons, Production.sound_cons]
  refine ⟨repeated_sound list ?_, ?_, Production.sound_nil⟩
  · rw [meanings_append, apart, inner]
  · rw [inner, list]
    exact le_mul_kstar one _

end

mutual

/-- A rule means the same after lowering, and the productions made for it are sound. -/
theorem lower_meant : ∀ (rule : Rule) (count : Nat),
    Meant env meaning owner rule.names (helpersOf owner count rule) →
    meanings meaning (lower owner count rule).symbols = rule.language env ∧
      Production.Sound meaning (lower owner count rule).productions
  | .symbol name, count, meant => by
    have named := meant.names name (by simp [Rule.names])
    rw [lower, meanings_singleton]
    exact ⟨named, Production.sound_nil⟩
  | .seq rules, count, meant => by
    rw [Rule.names, helpersOf] at meant
    rw [lower, Rule.language]
    exact lowerParts_meant rules count meant
  | .alternatives rules, count, meant => by
    rw [Rule.names, helpersOf] at meant
    have helper := meant.head
    rw [lower, meanings_singleton]
    refine ⟨helper, lowerChoices_meant _ rules (count + 1) meant.tail ?_⟩
    rw [helper, Rule.language]
  | .many rule, count, meant => by
    rw [Rule.names, helpersOf] at meant
    have helper := meant.head
    obtain ⟨inner, sound⟩ := lower_meant rule (count + 1) meant.tail
    rw [lower, meanings_singleton, Production.sound_append, Production.sound_cons,
      Production.sound_cons]
    have list := helper
    rw [Rule.language, ← one_mul (KStar.kstar _)] at list
    refine ⟨helper, sound, repeated_sound list inner, ?_, Production.sound_nil⟩
    rw [meanings_nil, list]
    exact le_mul_kstar 1 _
  | .many1 rule, count, meant => by
    rw [Rule.names, helpersOf] at meant
    have helper := meant.head
    obtain ⟨inner, sound⟩ := lower_meant rule (count + 1) meant.tail
    rw [lower, meanings_singleton, Production.sound_append, Production.sound_cons,
      Production.sound_cons]
    have list := helper
    rw [Rule.language] at list
    refine ⟨helper, sound, repeated_sound list inner, ?_, Production.sound_nil⟩
    rw [inner, list]
    exact le_mul_kstar _ _
  | .optional rule, count, meant => by
    rw [Rule.names, helpersOf] at meant
    have helper := meant.head
    obtain ⟨inner, sound⟩ := lower_meant rule (count + 1) meant.tail
    rw [lower, meanings_singleton, Production.sound_append, Production.sound_cons,
      Production.sound_cons, inner, meanings_nil, helper, Rule.language]
    exact ⟨rfl, sound, le_add_self, le_self_add, Production.sound_nil⟩
  | .sepBy separator rule, count, meant => by
    rw [Rule.names, helpersOf] at meant
    have helper := meant.head
    have list := meant.tail.head
    obtain ⟨between, sound_between⟩ := lower_meant separator (count + 2) meant.tail.tail.left
    obtain ⟨inner, sound⟩ := lower_meant rule _ meant.tail.tail.right
    rw [Rule.language] at list
    have separated := separated_sound list between inner
    rw [lower, meanings_singleton]
    simp only [Production.sound_append, Production.sound_cons, meanings_singleton, meanings_nil]
    rw [helper, list, Rule.language]
    exact ⟨rfl, ⟨⟨sound_between, sound⟩, separated⟩, le_add_self, le_self_add,
      Production.sound_nil⟩
  | .sepBy1 separator rule, count, meant => by
    rw [Rule.names, helpersOf] at meant
    have list := meant.head
    obtain ⟨between, sound_between⟩ := lower_meant separator (count + 1) meant.tail.left
    obtain ⟨inner, sound⟩ := lower_meant rule _ meant.tail.right
    rw [lower, meanings_singleton]
    simp only [Production.sound_append]
    refine ⟨list, ⟨sound_between, sound⟩, ?_⟩
    rw [Rule.language] at list
    exact separated_sound list between inner

theorem lowerParts_meant : ∀ (rules : List Rule) (count : Nat),
    Meant env meaning owner (Rule.namesOfAll rules) (helpersOfAll owner count rules) →
    meanings meaning (lowerParts owner count rules).symbols = Rule.sequence env rules ∧
      Production.Sound meaning (lowerParts owner count rules).productions
  | [], count, _ => by
    rw [lowerParts, Rule.sequence]
    exact ⟨meanings_nil, Production.sound_nil⟩
  | rule :: rules, count, meant => by
    rw [Rule.namesOfAll, helpersOfAll] at meant
    obtain ⟨first, sound⟩ := lower_meant rule count meant.left
    obtain ⟨rest, sound_rest⟩ := lowerParts_meant rules _ meant.right
    rw [lowerParts, Rule.sequence, meanings_append, first, rest, Production.sound_append]
    exact ⟨rfl, sound, sound_rest⟩

theorem lowerChoices_meant (lhs : Symbol) : ∀ (rules : List Rule) (count : Nat),
    Meant env meaning owner (Rule.namesOfAll rules) (helpersOfAll owner count rules) →
    Rule.union env rules ≤ meaning lhs →
    Production.Sound meaning (lowerChoices owner lhs count rules).productions
  | [], count, _, _ => by
    rw [lowerChoices]
    exact Production.sound_nil
  | rule :: rules, count, meant, le => by
    rw [Rule.namesOfAll, helpersOfAll] at meant
    rw [Rule.union] at le
    obtain ⟨first, sound⟩ := lower_meant rule count meant.left
    rw [lowerChoices, Production.sound_append, Production.sound_cons, first]
    exact ⟨sound, le_self_add.trans le,
      lowerChoices_meant lhs rules _ meant.right (le_add_self.trans le)⟩

end

end Lowering

end ShiftReduce
