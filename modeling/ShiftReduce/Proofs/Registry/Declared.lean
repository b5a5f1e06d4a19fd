import ShiftReduce.Proofs.Lowering.Combinators
import ShiftReduce.Proofs.Registry.Integrity
import ShiftReduce.Proofs.Registry.Nullable

/-!
Declarations are made for empty productions: by the author for those of the nonterminals chosen, and by
registration for those of helpers. Which helpers these are shows in the combinators. A helper that has only
longer productions may still derive the empty string, through symbols that all do, and is not declared then.
-/
namespace ShiftReduce

/-- The combinator lets its helper stand for nothing: it may be left out, or something it is made of is a
sequence without leaves. -/
def Rule.Skips : Rule → Prop
  | .symbol _ | .seq _ => False
  | .alternatives choices => ∃ choice ∈ choices, choice.Blank
  | .many _ | .optional _ | .sepBy _ _ => True
  | .many1 rule | .sepBy1 _ rule => rule.Blank

namespace Lowering

variable {owner : String} {lhs : Symbol} {count number : Nat} {rule combinator : Rule} {rules : List Rule}

theorem spell_eq_nil : spell owner count rule = [] ↔ rule.Blank := by
  rw [← symbols_lower, lower_symbols_eq_nil]

theorem empty_mem_spellChoices :
    (∃ production ∈ spellChoices owner lhs count rules, production.rhs = []) ↔
      ∃ choice ∈ rules, choice.Blank := by
  induction rules generalizing count with
  | nil => simp [spellChoices]
  | cons rule rules ih =>
    rw [spellChoices, List.exists_mem_cons_iff, List.exists_mem_cons_iff, ih, spell_eq_nil]

theorem empty_mem_own :
    (∃ production ∈ own owner number combinator, production.rhs = []) ↔ combinator.Skips := by
  cases combinator with
  | alternatives choices => exact empty_mem_spellChoices
  | many1 => simp [own, Rule.Skips, spell_eq_nil]
  | sepBy1 => simp [own, Rule.Skips, separated, spell_eq_nil]
  | symbol | seq | many | optional | sepBy => simp [own, Rule.Skips]

end Lowering

namespace Registry

open Lowering ShiftReduce.Symbol

variable {grammar : Grammar} {registry : Registry} {symbol : Symbol} {name : String} {number : Nat}
  {combinator : Rule}

theorem isDeclaredNullable_iff (accepted : Registry.ofGrammar grammar = .ok registry) :
    registry.isDeclaredNullable symbol = true ↔ symbol.name ∈ grammar.nullable ∨
      ∃ production ∈ registry.productions, production.lhs = symbol ∧ production.rhs = [] := by
  have empties := (Registry.passed accepted).empties
  rw [isDeclaredNullable, List.contains_iff_mem, Registration.mem_declareNullable empties,
    OrderedSet.mem_distinct, List.mem_map]
  refine or_congr_left ⟨?_, fun mem => ⟨symbol.name, mem, rfl⟩⟩
  rintro ⟨name, mem, rfl⟩
  exact mem

theorem Wellformed.isNullable_iff_production (wellformed : registry.Wellformed) :
    registry.isNullable symbol = true ↔ ∃ production ∈ registry.productions, production.lhs = symbol ∧
      ∀ part ∈ production.rhs, registry.isNullable part = true := by
  simp only [isNullable_iff]
  constructor
  · intro vanishes
    have nonterminal := wellformed.nonterminal_of_mem (wellformed.nonterminal_of_nullable vanishes)
    rw [wellformed.nullable_eq] at vanishes ⊢
    obtain ⟨production, mem, lhs, empty⟩ :=
      (Nullable.mem_solve_iff.mp vanishes).exists_production nonterminal
    exact ⟨production, mem, lhs, Nullable.mem_solve_of_expands empty⟩
  · rintro ⟨production, mem, rfl, vanishes⟩
    exact wellformed.lhs_vanishes mem vanishes

theorem isDeclaredNullable_iff_of_helper (accepted : Registry.ofGrammar grammar = .ok registry) :
    registry.isDeclaredNullable (helper name number) = true ↔
      ∃ production ∈ registry.productions, production.lhs = helper name number ∧ production.rhs = [] := by
  rw [isDeclaredNullable_iff accepted, or_iff_right]
  intro mem
  have permitted := (wellformed_of_accepted accepted).names _ (List.mem_append_right _ mem)
  exact helper_ne_chosen permitted.toChosen rfl

/-- A helper is declared nullable if one of its productions is empty, which its combinator tells, and then it
derives the empty string. It is nullable if it derives that string, by an empty production or by one of which
every symbol is nullable. -/
theorem isDeclaredNullable_helper (accepted : Registry.ofGrammar grammar = .ok registry)
    (occurrence : (name, number, combinator) ∈ grammar.occurrences) :
    (registry.isDeclaredNullable (helper name number) = true ↔ ∃ production ∈ registry.productions,
      production.lhs = helper name number ∧ production.rhs = []) ∧
    (registry.isDeclaredNullable (helper name number) = true ↔ combinator.Skips) ∧
    (registry.isDeclaredNullable (helper name number) = true →
      Derives registry.productions [helper name number] []) ∧
    (registry.isNullable (helper name number) = true ↔
      Derives registry.productions [helper name number] []) ∧
    (registry.isNullable (helper name number) = true ↔ ∃ production ∈ registry.productions,
      production.lhs = helper name number ∧
        ∀ symbol ∈ production.rhs, registry.isNullable symbol = true) := by
  have from_grammar := acceptedFrom accepted
  have wellformed := from_grammar.wellformed
  have declared := @isDeclaredNullable_iff_of_helper _ _ name number accepted
  have derived : registry.isNullable (helper name number) = true ↔
      Derives registry.productions [helper name number] [] := by
    rw [isNullable_iff, wellformed.mem_nullable_iff]
  refine ⟨declared, ?_, fun mem => ?_, derived, wellformed.isNullable_iff_production⟩
  · rw [declared, ← empty_mem_own, ← from_grammar.select_occurrence occurrence]
    simp only [mem_select, and_assoc]
  · obtain ⟨production, mem, lhs, empty⟩ := declared.mp mem
    refine derived.mp (wellformed.isNullable_iff_production.mpr ⟨production, mem, lhs, ?_⟩)
    simp [empty]

/-- Runs of marks, any of which may be empty. -/
def runs : Grammar where
  start := ["runs"]
  rules := [("runs", .many1 (.many (.symbol "Mark")))]
  nullable := []

theorem runs_accepted : (Registry.ofGrammar runs).toOption.isSome = true := by decide +kernel

def runsRegistry : Registry := (Registry.ofGrammar runs).toOption.get runs_accepted

/-- The inner helper is declared and makes the outer one nullable, which is not declared. -/
theorem isDeclaredNullable_runs :
    runsRegistry.isDeclaredNullable ⟨"runs~2"⟩ = true ∧
    Derives runsRegistry.productions [⟨"runs~2"⟩] [] ∧
    runsRegistry.isDeclaredNullable ⟨"runs~1"⟩ = false ∧
    Derives runsRegistry.productions [⟨"runs~1"⟩] [] := by
  have accepted : Registry.ofGrammar runs = .ok runsRegistry := eq_ok_of_isSome runs_accepted
  obtain ⟨-, shape, derives, -, -⟩ := @isDeclaredNullable_helper _ _ "runs" 2 (.many (.symbol "Mark"))
    accepted (Grammar.mem_occurrences.mpr ⟨_, 1, List.mem_cons_self, rfl, rfl⟩)
  obtain ⟨-, outer_shape, -, nullable, -⟩ :=
    @isDeclaredNullable_helper _ _ "runs" 1 (.many1 (.many (.symbol "Mark")))
      accepted (Grammar.mem_occurrences.mpr ⟨_, 0, List.mem_cons_self, rfl, rfl⟩)
  have declared := shape.mpr trivial
  refine ⟨declared, derives declared, ?_, ?_⟩
  · refine Bool.eq_false_iff.mpr fun mem => ?_
    cases outer_shape.mp mem
  · exact nullable.mp (by decide +kernel)

/-- A helper that derives the empty string need not be declared nullable. -/
theorem undeclared_runs : ∃ registry, Registry.ofGrammar runs = .ok registry ∧
    ("runs", 1, .many1 (.many (.symbol "Mark"))) ∈ runs.occurrences ∧
    Derives registry.productions [helper "runs" 1] [] ∧ registry.isNullable (helper "runs" 1) = true ∧
    registry.isDeclaredNullable (helper "runs" 1) = false := by
  have accepted : Registry.ofGrammar runs = .ok runsRegistry := eq_ok_of_isSome runs_accepted
  have computed : runsRegistry.isNullable (helper "runs" 1) = true ∧
      runsRegistry.isDeclaredNullable (helper "runs" 1) = false := by decide +kernel
  have derives := (acceptedFrom accepted).wellformed.mem_nullable_iff.mp (isNullable_iff.mp computed.1)
  exact ⟨runsRegistry, accepted, Grammar.mem_occurrences.mpr ⟨_, 0, List.mem_cons_self, rfl, rfl⟩,
    derives, computed⟩

end Registry

end ShiftReduce
