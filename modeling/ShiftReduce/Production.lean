import ShiftReduce.Symbol

/-!
Productions, the flat form that every rule is lowered to. The text of a production writes an empty
right-hand side as ε.
-/
namespace ShiftReduce

structure Production where
  lhs : Symbol
  rhs : List Symbol
deriving DecidableEq

namespace Production

def isEpsilon (production : Production) : Bool := production.rhs.isEmpty

def render (production : Production) : String :=
  let body := if production.isEpsilon then ["ε"] else production.rhs.map (·.name)
  " ".intercalate (production.lhs.name :: "->" :: body)

/-- Each nonterminal with its right-hand sides, in order. -/
def grouped (nonterminals : List Symbol) (productions : List Production) :
    List (Symbol × List (List Symbol)) :=
  nonterminals.map fun nonterminal =>
    (nonterminal, (productions.filter (·.lhs = nonterminal)).map (·.rhs))

end Production

end ShiftReduce
