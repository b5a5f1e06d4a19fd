import ShiftReduce.Rule

/-!
A grammar as its author gives it: start symbols, rules and the nonterminals declared nullable.
-/
namespace ShiftReduce

/-- Rules stand in their order of declaration. Productions are registered in that order, and the
earlier one wins where two actions compete. -/
structure Grammar where
  start : List String
  rules : List (String × Rule)
  nullable : List String

namespace Grammar

def names (grammar : Grammar) : List String := grammar.rules.flatMap fun (_, rule) => rule.names

end Grammar

end ShiftReduce
