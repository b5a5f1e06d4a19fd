import ShiftReduce.Lowering
import ShiftReduce.Proofs.Derivation
import ShiftReduce.Proofs.Language

/-!
Lowering loses no string: what a rule body stands for is among the expansions of the symbols it was
lowered to. A helper's productions close its expansions under what the combinator does.
-/
namespace ShiftReduce

open Computability

def expansions (productions : List Production) (symbols : List Symbol) : Language Symbol :=
  {w | Expands productions symbols w}

section

variable {productions : List Production} {production : Production} {u v w : List Symbol}

theorem mem_expansions : w ∈ expansions productions u ↔ Expands productions u w := Iff.rfl

theorem expansions_nil : expansions productions [] = 1 := by
  ext w
  rw [mem_expansions, Language.mem_one]
  constructor
  · intro expands
    cases expands
    rfl
  · rintro rfl
    exact .nil

theorem expansions_append :
    expansions productions (u ++ v) = expansions productions u * expansions productions v := by
  ext w
  rw [mem_expansions, Language.mem_mul]
  constructor
  · intro expands
    obtain ⟨left, right, rfl, first, second⟩ := expands.split
    exact ⟨left, first, right, second, rfl⟩
  · rintro ⟨left, first, right, second, rfl⟩
    exact Expands.append first second

theorem expansions_cons (symbol : Symbol) :
    expansions productions (symbol :: u)
      = expansions productions [symbol] * expansions productions u := expansions_append (u := [symbol])

theorem expansions_rhs_le (mem : production ∈ productions) :
    expansions productions production.rhs ≤ expansions productions [production.lhs] := by
  intro w expands
  have single : Expands productions [production.lhs] (w ++ []) := .nonterminal mem expands .nil
  rwa [List.append_nil] at single

theorem expansions_terminal {symbol : Symbol} (terminal : symbol.isTerminal = true) :
    {[symbol]} ≤ expansions productions [symbol] := by
  rintro w rfl
  exact .terminal terminal .nil

end

namespace Lowering

section

variable {productions : List Production} {lhs : Symbol} {symbols separator element : List Symbol}

theorem empty_le (empty : (⟨lhs, []⟩ : Production) ∈ productions) :
    1 ≤ expansions productions [lhs] := by
  rw [← expansions_nil]
  exact expansions_rhs_le empty

theorem repeated_le {first more : Language Symbol}
    (longer : (⟨lhs, lhs :: symbols⟩ : Production) ∈ productions)
    (start : first ≤ expansions productions [lhs]) (inner : more ≤ expansions productions symbols) :
    first * more∗ ≤ expansions productions [lhs] := by
  refine mul_kstar_le start ?_
  calc expansions productions [lhs] * more
      ≤ expansions productions [lhs] * expansions productions symbols := mul_le_mul_right inner _
    _ = expansions productions (lhs :: symbols) := (expansions_cons lhs).symm
    _ ≤ expansions productions [lhs] := expansions_rhs_le longer

theorem separated_le {apart one : Language Symbol}
    (subset : separated lhs separator element ⊆ productions)
    (between : apart ≤ expansions productions separator)
    (inner : one ≤ expansions productions element) :
    one * (apart * one)∗ ≤ expansions productions [lhs] := by
  simp only [separated, List.cons_subset] at subset
  refine repeated_le subset.1 (inner.trans (expansions_rhs_le subset.2.1)) ?_
  rw [expansions_append]
  exact mul_le_mul' between inner

end

variable {productions : List Production}

mutual

theorem language_le_lower (owner : String) : ∀ (rule : Rule) (count : Nat),
    (lower owner count rule).productions ⊆ productions →
    rule.language (fun name => expansions productions [⟨name⟩])
      ≤ expansions productions (lower owner count rule).symbols
  | .symbol name, count, _ => by
    rw [lower, Rule.language]
    split
    · exact expansions_terminal ‹_›
    · exact le_rfl
  | .seq rules, count, subset => by
    rw [lower] at subset ⊢
    rw [Rule.language]
    exact sequence_le_lowerParts owner rules count subset
  | .alternatives rules, count, subset => by
    rw [lower] at subset ⊢
    rw [Rule.language]
    exact union_le_lowerChoices owner _ rules (count + 1) subset
  | .many rule, count, subset => by
    rw [lower] at subset ⊢
    simp only [List.append_subset, List.cons_subset] at subset
    have inner := language_le_lower owner rule (count + 1) subset.1
    rw [Rule.language, ← one_mul (KStar.kstar _)]
    exact repeated_le subset.2.1 (empty_le subset.2.2.1) inner
  | .many1 rule, count, subset => by
    rw [lower] at subset ⊢
    simp only [List.append_subset, List.cons_subset] at subset
    have inner := language_le_lower owner rule (count + 1) subset.1
    rw [Rule.language]
    exact repeated_le subset.2.1 (inner.trans (expansions_rhs_le subset.2.2.1)) inner
  | .optional rule, count, subset => by
    rw [lower] at subset ⊢
    simp only [List.append_subset, List.cons_subset] at subset
    have inner := language_le_lower owner rule (count + 1) subset.1
    rw [Rule.language]
    exact sup_le (empty_le subset.2.2.1) (inner.trans (expansions_rhs_le subset.2.1))
  | .sepBy separator rule, count, subset => by
    rw [lower] at subset ⊢
    simp only [List.append_subset, List.cons_subset] at subset
    have between := language_le_lower owner separator (count + 2) subset.1.1.1
    have inner := language_le_lower owner rule _ subset.1.1.2
    rw [Rule.language]
    exact sup_le (empty_le subset.2.2.1)
      ((separated_le subset.1.2 between inner).trans (expansions_rhs_le subset.2.1))
  | .sepBy1 separator rule, count, subset => by
    rw [lower] at subset ⊢
    simp only [List.append_subset] at subset
    have between := language_le_lower owner separator (count + 1) subset.1.1
    have inner := language_le_lower owner rule _ subset.1.2
    rw [Rule.language]
    exact separated_le subset.2 between inner

theorem sequence_le_lowerParts (owner : String) : ∀ (rules : List Rule) (count : Nat),
    (lowerParts owner count rules).productions ⊆ productions →
    Rule.sequence (fun name => expansions productions [⟨name⟩]) rules
      ≤ expansions productions (lowerParts owner count rules).symbols
  | [], count, _ => by
    rw [lowerParts, Rule.sequence, expansions_nil]
  | rule :: rules, count, subset => by
    rw [lowerParts, List.append_subset] at subset
    rw [lowerParts, Rule.sequence, expansions_append]
    exact mul_le_mul' (language_le_lower owner rule count subset.1)
      (sequence_le_lowerParts owner rules _ subset.2)

theorem union_le_lowerChoices (owner : String) (lhs : Symbol) : ∀ (rules : List Rule) (count : Nat),
    (lowerChoices owner lhs count rules).productions ⊆ productions →
    Rule.union (fun name => expansions productions [⟨name⟩]) rules ≤ expansions productions [lhs]
  | [], count, _ => by
    rw [Rule.union]
    exact bot_le
  | rule :: rules, count, subset => by
    rw [lowerChoices, List.append_subset, List.cons_subset] at subset
    rw [Rule.union]
    have first := language_le_lower owner rule count subset.1
    exact sup_le (first.trans (expansions_rhs_le subset.2.1))
      (union_le_lowerChoices owner lhs rules _ subset.2.2)

end

end Lowering

end ShiftReduce
