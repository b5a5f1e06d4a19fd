import ShiftReduce.Grammar
import ShiftReduce.Production

/-!
Lowering of rule bodies to productions.

A sequence is spliced into the right-hand side it stands in. Every other combinator becomes a helper
nonterminal, numbered within the rule that owns it when it is met, before its own body is lowered.
Repetition is left-recursive. The productions of a body come before those of the helper around it,
and all helpers of an alternative before the alternative itself.
-/
namespace ShiftReduce

/-- What a piece of a rule body becomes. -/
structure Lowered where
  /-- The symbols that stand for the piece on a right-hand side. -/
  symbols : List Symbol
  /-- The productions of the helpers inside the piece, in registration order. -/
  productions : List Production
  /-- How many helpers the owner has after the piece. -/
  helpers : Nat

namespace Lowering

/-- `list` repeats `element`, separated by `separator`: a longer list first, a single element
second. -/
def separated (list : Symbol) (separator element : List Symbol) : List Production :=
  [⟨list, list :: (separator ++ element)⟩, ⟨list, element⟩]

mutual

def lower (owner : String) (count : Nat) : Rule → Lowered
  | .symbol name => ⟨[⟨name⟩], [], count⟩
  | .seq rules => lowerParts owner count rules
  | .alternatives rules =>
    let helper := Symbol.helper owner (count + 1)
    let body := lowerChoices owner helper (count + 1) rules
    ⟨[helper], body.productions, body.helpers⟩
  | .many rule =>
    let helper := Symbol.helper owner (count + 1)
    let body := lower owner (count + 1) rule
    ⟨[helper],
      body.productions ++ [⟨helper, helper :: body.symbols⟩, ⟨helper, []⟩],
      body.helpers⟩
  | .many1 rule =>
    let helper := Symbol.helper owner (count + 1)
    let body := lower owner (count + 1) rule
    ⟨[helper],
      body.productions ++ [⟨helper, helper :: body.symbols⟩, ⟨helper, body.symbols⟩],
      body.helpers⟩
  | .optional rule =>
    let helper := Symbol.helper owner (count + 1)
    let body := lower owner (count + 1) rule
    ⟨[helper],
      body.productions ++ [⟨helper, body.symbols⟩, ⟨helper, []⟩],
      body.helpers⟩
  | .sepBy1 separator rule =>
    let helper := Symbol.helper owner (count + 1)
    let between := lower owner (count + 1) separator
    let body := lower owner between.helpers rule
    ⟨[helper],
      between.productions ++ body.productions ++ separated helper between.symbols body.symbols,
      body.helpers⟩
  | .sepBy separator rule =>
    let helper := Symbol.helper owner (count + 1)
    let list := Symbol.helper owner (count + 2)
    let between := lower owner (count + 2) separator
    let body := lower owner between.helpers rule
    ⟨[helper],
      between.productions ++ body.productions ++ separated list between.symbols body.symbols
        ++ [⟨helper, [list]⟩, ⟨helper, []⟩],
      body.helpers⟩

def lowerParts (owner : String) (count : Nat) : List Rule → Lowered
  | [] => ⟨[], [], count⟩
  | rule :: rules =>
    let first := lower owner count rule
    let rest := lowerParts owner first.helpers rules
    ⟨first.symbols ++ rest.symbols, first.productions ++ rest.productions, rest.helpers⟩

def lowerChoices (owner : String) (lhs : Symbol) (count : Nat) : List Rule → Lowered
  | [] => ⟨[], [], count⟩
  | rule :: rules =>
    let first := lower owner count rule
    let rest := lowerChoices owner lhs first.helpers rules
    ⟨[], first.productions ++ ⟨lhs, first.symbols⟩ :: rest.productions, rest.helpers⟩

end

/-- The productions of a rule, each alternative at its top being one of `name`. -/
def lowerRule (name : String) (rule : Rule) : List Production :=
  (lowerChoices name ⟨name⟩ 0 rule.choices).productions

end Lowering

namespace Grammar

/-- All productions of a grammar: the augmented one of each start symbol, then rule by rule. -/
def productions (starts : List Symbol) (grammar : Grammar) : List Production :=
  starts.map (fun start => ⟨start.augmented, [start]⟩)
    ++ grammar.rules.flatMap fun (name, rule) => Lowering.lowerRule name rule

end Grammar

end ShiftReduce
