import ShiftReduce.Machine

/-!
The watch that ends runs of reductions that would go on forever.

It remembers the states that were on top since the last shift. A visit stays comparable while the
stack below it is untouched. A state seen again at the depth of such a visit has the same stack
under it; a state seen again above a visit that is still on the stack starts the same growth once
more. Either way the reductions repeat without end.
-/
namespace ShiftReduce.Machine

structure Visit where
  state : Nat
  depth : Nat
  /-- The smallest depth the stack has been cut to since the visit. -/
  floor : Nat

namespace Visit

def fresh (config : Config) : Visit := ⟨config.top, config.depth, config.depth⟩

def lower (depth : Nat) (visit : Visit) : Visit := { visit with floor := min visit.floor depth }

/-- Whether the stack under the visit is untouched. -/
def isComparable (visit : Visit) : Bool := visit.depth ≤ visit.floor + 1

/-- Whether `config` is back in the state of the visit, at its depth or while the visit still stands
on the stack. -/
def isRepeatedBy (config : Config) (visit : Visit) : Bool :=
  visit.state == config.top && (visit.depth == config.depth || visit.depth ≤ visit.floor)

end Visit

/-- The machine together with the visits since its last shift. -/
structure Watched where
  config : Config
  visits : List Visit

namespace Watched

def start (config : Config) : Watched := ⟨config, [.fresh config]⟩

/-- The visits still comparable after a reduction that led to `config`, whose top was pushed on what
the reduction left of the stack. -/
def surviving (visits : List Visit) (config : Config) : List Visit :=
  (visits.map (.lower (config.depth - 1))).filter (·.isComparable)

end Watched

def runWatched (registry : Registry) (automaton : Automaton) :
    Nat → Watched → Config × Verdict
  | 0, watched => (watched.config, .unfinished)
  | fuel + 1, watched =>
    match step registry automaton watched.config with
    | .shifted next => runWatched registry automaton fuel (.start next)
    | .reduced next =>
      let visits := Watched.surviving watched.visits next
      if visits.any (·.isRepeatedBy next) then
        (next, .rejected (.reduceLoop next.lookahead next.top))
      else runWatched registry automaton fuel ⟨next, visits ++ [.fresh next]⟩
    | .halted last verdict => (last, verdict)

/-- A step budget for reading `tokens` tokens with `states` states. Between two shifts the visits at
each depth have distinct states, and so have the visits still on the stack; this bounds the growth of
the stack by `states` and the reductions at each low point by a power of `states`. -/
def budget (tokens states : Nat) : Nat :=
  (tokens + 2) * (tokens + 2) * Nat.pow (states + 2) (states + 4)

end ShiftReduce.Machine
