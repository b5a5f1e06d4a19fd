import ShiftReduce.Analysis.Saturation
import ShiftReduce.Production

/-!
Which nonterminals derive the empty string: the owners of empty productions, and then whatever has a
right-hand side of such nonterminals only.
-/
namespace ShiftReduce.Nullable

def step (found : List Symbol) (production : Production) : List Symbol × Bool :=
  if !found.contains production.lhs && production.rhs.all (found.contains ·) then
    (found ++ [production.lhs], true)
  else (found, false)

def pass (productions : List Production) : List Symbol → List Symbol × Bool :=
  Analysis.sweep step productions

def solve (productions : List Production) : List Symbol :=
  Analysis.saturate (pass productions) (productions.length + 1) []

end ShiftReduce.Nullable
