import ShiftReduce.Symbol
import ShiftReduce.TerminalSet

/-!
A set of terminals for each symbol of a grammar.
-/
namespace ShiftReduce

abbrev SymbolSets := List (Symbol × TerminalSet)

namespace SymbolSets

def get? (sets : SymbolSets) (symbol : Symbol) : Option TerminalSet := List.lookup symbol sets

/-- A symbol without an entry has no members. -/
def get (sets : SymbolSets) (symbol : Symbol) : TerminalSet :=
  (sets.get? symbol).getD (TerminalSet.empty 0)

/-- Adds `new` to the set of `symbol`, and tells whether that set grew. -/
def grow (symbol : Symbol) (new : TerminalSet) : SymbolSets → SymbolSets × Bool
  | [] => ([], false)
  | (other, set) :: rest =>
    if other = symbol then
      let (joined, grew) := set.unionWith new
      ((other, joined) :: rest, grew)
    else
      let (rest, grew) := grow symbol new rest
      ((other, set) :: rest, grew)

end SymbolSets

end ShiftReduce
