import ShiftReduce.Analysis.Saturation
import ShiftReduce.Analysis.SymbolSets
import ShiftReduce.Production

/-!
FOLLOW sets: the terminals that stand right after a nonterminal in some string the grammar derives.
An augmented start symbol is followed by the end marker, which has index 0.
-/
namespace ShiftReduce.Follow

/-- Reads a right-hand side from its end and adds to each symbol what can come after it there. The
first component is what can come at the front of the part read so far, where `trailer` comes after
the whole. -/
def scan (nullable : List Symbol) (first : SymbolSets) (trailer : TerminalSet) (sets : SymbolSets) :
    List Symbol → TerminalSet × SymbolSets × Bool
  | [] => (trailer, sets, false)
  | symbol :: rest =>
    let (after, sets, grew) := scan nullable first trailer sets rest
    let (sets, more) := sets.grow symbol after
    let front :=
      if nullable.contains symbol then (first.get symbol).union after else first.get symbol
    (front, sets, grew || more)

def step (nullable : List Symbol) (first : SymbolSets) (sets : SymbolSets)
    (production : Production) : SymbolSets × Bool :=
  (scan nullable first (sets.get production.lhs) sets production.rhs).2

def pass (nullable : List Symbol) (first : SymbolSets) (productions : List Production) :
    SymbolSets → SymbolSets × Bool :=
  Analysis.sweep (step nullable first) productions

def initial (count : Nat) (augmented nonterminals : List Symbol) : SymbolSets :=
  nonterminals.map fun nonterminal =>
    (nonterminal, if augmented.contains nonterminal then .singleton count 0 else .empty count)

def solve (count : Nat) (augmented nonterminals nullable : List Symbol) (first : SymbolSets)
    (productions : List Production) : SymbolSets :=
  Analysis.saturate (pass nullable first productions) (nonterminals.length * count + 1)
    (initial count augmented nonterminals)

end ShiftReduce.Follow
