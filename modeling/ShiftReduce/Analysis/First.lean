import ShiftReduce.Analysis.Saturation
import ShiftReduce.Analysis.SymbolSets
import ShiftReduce.Production

/-!
FIRST sets: the terminals that begin some string derived from a symbol. A terminal's own set holds
its index and nothing else.
-/
namespace ShiftReduce.First

/-- Adds to `buffer` what can begin a right-hand side, symbol by symbol up to the first that cannot
vanish. A symbol without an entry is passed over. -/
def gather (nullable : List Symbol) (sets : SymbolSets) (buffer : TerminalSet) :
    List Symbol → TerminalSet
  | [] => buffer
  | symbol :: rest =>
    match sets.get? symbol with
    | none => gather nullable sets buffer rest
    | some set =>
      let joined := buffer.union set
      if nullable.contains symbol then gather nullable sets joined rest else joined

def gatherAll (count : Nat) (nullable : List Symbol) (sets : SymbolSets)
    (bodies : List (List Symbol)) : TerminalSet :=
  bodies.foldl (gather nullable sets) (.empty count)

def step (count : Nat) (nullable : List Symbol) (sets : SymbolSets)
    (rule : Symbol × List (List Symbol)) : SymbolSets × Bool :=
  sets.grow rule.1 (gatherAll count nullable sets rule.2)

def pass (count : Nat) (nullable : List Symbol) (rules : List (Symbol × List (List Symbol))) :
    SymbolSets → SymbolSets × Bool :=
  Analysis.sweep (step count nullable) rules

/-- Terminals with their own index, nonterminals with nothing yet. -/
def initial (terminals nonterminals : List Symbol) : SymbolSets :=
  terminals.zipIdx.map (fun (terminal, i) => (terminal, .singleton terminals.length i))
    ++ nonterminals.map (fun nonterminal => (nonterminal, .empty terminals.length))

def solve (terminals nonterminals nullable : List Symbol) (productions : List Production) :
    SymbolSets :=
  Analysis.saturate (pass terminals.length nullable (Production.grouped nonterminals productions))
    (nonterminals.length * terminals.length + 1) (initial terminals nonterminals)

end ShiftReduce.First
