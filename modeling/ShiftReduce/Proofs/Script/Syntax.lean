import Mathlib.Data.List.Basic
import Mathlib.Data.List.Induction
import ShiftReduce.Proofs.Derivation
import ShiftReduce.Script

/-!
Syntax trees of the small language, one constructor for each alternative of its definition, and a
program a list of statements. Each tree spells a string of terminals and tells a rightmost derivation
of it, by the positions of the productions used. The derivation tells the tree.
-/
namespace ShiftReduce.Script

inductive Category where
  | stmt
  | expr
  | term
  | factor

def Category.symbol : Category → Symbol
  | .stmt => ⟨"stmt"⟩
  | .expr => ⟨"expr"⟩
  | .term => ⟨"term"⟩
  | .factor => ⟨"factor"⟩

inductive Tree : Category → Type where
  | assignment : Tree .expr → Tree .stmt
  | output : Tree .expr → Tree .stmt
  | evaluation : Tree .expr → Tree .stmt
  | sum : Tree .expr → Tree .term → Tree .expr
  | difference : Tree .expr → Tree .term → Tree .expr
  | ofTerm : Tree .term → Tree .expr
  | product : Tree .term → Tree .factor → Tree .term
  | quotient : Tree .term → Tree .factor → Tree .term
  | ofFactor : Tree .factor → Tree .term
  | number : Tree .factor
  | ident : Tree .factor
  | parens : Tree .expr → Tree .factor
  | negation : Tree .factor → Tree .factor

namespace Tree

variable {category : Category}

def symbols : {category : Category} → Tree category → List Symbol
  | _, assignment value => [⟨"Let"⟩, ⟨"Ident"⟩, ⟨"Assign"⟩] ++ (value.symbols ++ [⟨"Semi"⟩])
  | _, output value => [⟨"Print"⟩] ++ (value.symbols ++ [⟨"Semi"⟩])
  | _, evaluation value => value.symbols ++ [⟨"Semi"⟩]
  | _, sum left right => left.symbols ++ ([⟨"Plus"⟩] ++ right.symbols)
  | _, difference left right => left.symbols ++ ([⟨"Minus"⟩] ++ right.symbols)
  | _, ofTerm term => term.symbols
  | _, product left right => left.symbols ++ ([⟨"Star"⟩] ++ right.symbols)
  | _, quotient left right => left.symbols ++ ([⟨"Slash"⟩] ++ right.symbols)
  | _, ofFactor factor => factor.symbols
  | _, number => [⟨"Number"⟩]
  | _, ident => [⟨"Ident"⟩]
  | _, parens inner => [⟨"LParen"⟩] ++ (inner.symbols ++ [⟨"RParen"⟩])
  | _, negation factor => [⟨"Minus"⟩] ++ factor.symbols

/-- The productions of a rightmost derivation of the tree. -/
def derivation : {category : Category} → Tree category → List Nat
  | _, assignment value => 4 :: value.derivation
  | _, output value => 5 :: value.derivation
  | _, evaluation value => 6 :: value.derivation
  | _, sum left right => 7 :: (right.derivation ++ left.derivation)
  | _, difference left right => 8 :: (right.derivation ++ left.derivation)
  | _, ofTerm term => 9 :: term.derivation
  | _, product left right => 10 :: (right.derivation ++ left.derivation)
  | _, quotient left right => 11 :: (right.derivation ++ left.derivation)
  | _, ofFactor factor => 12 :: factor.derivation
  | _, number => [13]
  | _, ident => [14]
  | _, parens inner => 15 :: inner.derivation
  | _, negation factor => 16 :: factor.derivation

theorem symbols_terminals (tree : Tree category) : tree.symbols.all (·.isTerminal) = true := by
  induction tree with
  | ofTerm tree ih | ofFactor tree ih => exact ih
  | number | ident => decide
  | assignment tree ih | output tree ih | evaluation tree ih | parens tree ih | negation tree ih =>
    rw [symbols]
    simp only [List.all_append, ih]
    decide
  | sum left right left_ih right_ih | difference left right left_ih right_ih
    | product left right left_ih right_ih | quotient left right left_ih right_ih =>
    rw [symbols]
    simp only [List.all_append, left_ih, right_ih]
    decide

theorem eq_of_derivation_append {tree other : Tree category} {rest more : List Nat}
    (same : tree.derivation ++ rest = other.derivation ++ more) : tree = other ∧ rest = more := by
  induction tree generalizing rest more with
  | assignment tree ih | output tree ih | evaluation tree ih | ofTerm tree ih | ofFactor tree ih
    | parens tree ih | negation tree ih =>
    cases other <;> simp only [derivation, List.cons_append, List.cons.injEq, Nat.reduceEqDiff,
      false_and] at same
    obtain ⟨rfl, rfl⟩ := ih same.2
    exact ⟨rfl, rfl⟩
  | sum left right left_ih right_ih | difference left right left_ih right_ih
    | product left right left_ih right_ih | quotient left right left_ih right_ih =>
    cases other <;> simp only [derivation, List.cons_append, List.cons.injEq, List.append_assoc,
      Nat.reduceEqDiff, false_and] at same
    -- the right operand comes first in the derivation
    obtain ⟨rfl, left_same⟩ := right_ih same.2
    obtain ⟨rfl, rfl⟩ := left_ih left_same
    exact ⟨rfl, rfl⟩
  | number | ident =>
    cases other <;> simp only [derivation, List.cons_append, List.cons.injEq, Nat.reduceEqDiff,
      false_and] at same
    exact ⟨rfl, same.2⟩

theorem rightmost (tree : Tree category) :
    Rightmost (grammar.productions [⟨start⟩]) tree.derivation [category.symbol] tree.symbols := by
  induction tree with
  | assignment value ih =>
    exact .root rfl ((ih.append_terminals (by decide)).prepend [⟨"Let"⟩, ⟨"Ident"⟩, ⟨"Assign"⟩])
  | output value ih => exact .root rfl ((ih.append_terminals (by decide)).prepend [⟨"Print"⟩])
  | evaluation value ih => exact .root rfl (ih.append_terminals (by decide))
  | sum left right left_ih right_ih | difference left right left_ih right_ih
    | product left right left_ih right_ih | quotient left right left_ih right_ih =>
    refine .root rfl (left_ih.append (right_ih.prepend [_]) ?_)
    rw [List.all_append, right.symbols_terminals]
    decide
  | ofTerm tree ih | ofFactor tree ih => exact .root rfl ih
  | number | ident => exact .root rfl (.refl _)
  | parens inner ih => exact .root rfl ((ih.append_terminals (by decide)).prepend [⟨"LParen"⟩])
  | negation factor ih => exact .root rfl (ih.prepend [⟨"Minus"⟩])

end Tree

def symbolsOf (program : List (Tree .stmt)) : List Symbol := program.flatMap Tree.symbols

/-- The productions of a rightmost derivation of a program, which begins with the last statement. -/
def derivationOf (program : List (Tree .stmt)) : List Nat :=
  3 :: (program.reverse.flatMap (fun stmt => 1 :: stmt.derivation) ++ [2])

theorem symbolsOf_terminals (program : List (Tree .stmt)) :
    (symbolsOf program).all (·.isTerminal) = true := by
  rw [symbolsOf, List.all_flatMap, List.all_eq_true]
  exact fun stmt _ => stmt.symbols_terminals

theorem derivationOf_injective : Function.Injective derivationOf := by
  have reversed : ∀ stmts others : List (Tree .stmt),
      stmts.flatMap (fun stmt => 1 :: stmt.derivation) ++ [2] =
        others.flatMap (fun stmt => 1 :: stmt.derivation) ++ [2] → stmts = others := by
    intro stmts
    induction stmts with
    | nil =>
      intro others same
      cases others with
      | nil => rfl
      | cons => simp at same
    | cons stmt rest ih =>
      intro others same
      cases others with
      | nil => simp at same
      | cons other others =>
        simp only [List.flatMap_cons, List.cons_append, List.cons.injEq, List.append_assoc] at same
        obtain ⟨rfl, rest_same⟩ := Tree.eq_of_derivation_append same.2
        rw [ih others rest_same]
  intro program other same
  exact List.reverse_injective (reversed _ _ (List.cons.inj same).2)

theorem rightmost_statements (program : List (Tree .stmt)) :
    Rightmost (grammar.productions [⟨start⟩])
      (program.reverse.flatMap (fun stmt => 1 :: stmt.derivation) ++ [2])
      [.helper start 1] (symbolsOf program) := by
  induction program using List.reverseRecOn with
  | nil => exact .root rfl (.refl [])
  | append_singleton init last ih =>
    have longer := ih.append last.rightmost last.symbols_terminals
    have unfolded : symbolsOf (init ++ [last]) = symbolsOf init ++ last.symbols := by
      simp [symbolsOf]
    rw [unfolded, List.reverse_append, List.reverse_singleton, List.singleton_append,
      List.flatMap_cons, List.cons_append, List.cons_append, List.append_assoc]
    exact .root rfl longer

theorem rightmost_program (program : List (Tree .stmt)) :
    Rightmost (grammar.productions [⟨start⟩]) (derivationOf program) [⟨start⟩] (symbolsOf program) :=
  .root rfl (rightmost_statements program)

end ShiftReduce.Script
