/-!
Rule bodies as an author writes them. Alternatives are joined with `|||`, which keeps them in one
flat list whichever way a chain is parenthesised.
-/
namespace ShiftReduce

inductive Rule where
  | symbol (name : String)
  | seq (rules : List Rule)
  | alternatives (rules : List Rule)
  /-- Any number of repetitions, none included. -/
  | many (rule : Rule)
  /-- One or more repetitions. -/
  | many1 (rule : Rule)
  | optional (rule : Rule)
  /-- Any number of occurrences of `rule` with `separator` between two of them. -/
  | sepBy (separator rule : Rule)
  /-- As `sepBy`, with at least one occurrence. -/
  | sepBy1 (separator rule : Rule)

namespace Rule

/-- The empty sequence. Its owner has to be declared nullable. -/
def empty : Rule := .seq []

/-- The alternatives a rule offers at its top. -/
def choices : Rule → List Rule
  | .alternatives rules => rules
  | rule => [rule]

def or (left right : Rule) : Rule := .alternatives (left.choices ++ right.choices)

instance : OrOp Rule := ⟨or⟩

mutual

/-- The names in a rule from left to right, a separator before what it separates. -/
def names : Rule → List String
  | .symbol name => [name]
  | .seq rules => namesOfAll rules
  | .alternatives rules => namesOfAll rules
  | .many rule => rule.names
  | .many1 rule => rule.names
  | .optional rule => rule.names
  | .sepBy separator rule => separator.names ++ rule.names
  | .sepBy1 separator rule => separator.names ++ rule.names

def namesOfAll : List Rule → List String
  | [] => []
  | rule :: rules => rule.names ++ namesOfAll rules

end

end Rule

end ShiftReduce
