/-!
Least fixed points by repeated passes. A pass tells whether anything grew, and the first pass that
grows nothing is the last.
-/
namespace ShiftReduce.Analysis

variable {α β : Type}

/-- One step for each of `items`, and whether any of them grew the value. -/
def sweep (step : α → β → α × Bool) : List β → α → α × Bool
  | [], x => (x, false)
  | item :: items, x =>
    let (y, grew) := step x item
    let (z, more) := sweep step items y
    (z, grew || more)

/-- Repeats `pass` while it grows the value, at most `fuel` times. -/
def saturate (pass : α → α × Bool) : Nat → α → α
  | 0, x => x
  | fuel + 1, x =>
    let (y, grew) := pass x
    if grew then saturate pass fuel y else y

end ShiftReduce.Analysis
