import ShiftReduce.Analysis.First
import ShiftReduce.Analysis.Follow
import ShiftReduce.Analysis.Nullable
import ShiftReduce.OrderedSet
import ShiftReduce.Ranking

/-!
The registry of an accepted grammar: its symbols and productions in registration order, with the
sets computed from them. A production is known by its position, and the augmented productions of the
start symbols stand in front, so the position of a start symbol is also that of its production.
-/
namespace ShiftReduce

structure Registry where
  starts : List Symbol
  productions : List Production
  /-- The end marker first, then every other terminal in order of first use. -/
  terminals : List Symbol
  /-- Declared by the author, or a helper with an empty production. -/
  declaredNullable : List Symbol
  nullable : List Symbol
  first : SymbolSets
  follow : SymbolSets

namespace Registry

def nonterminals (registry : Registry) : List Symbol :=
  OrderedSet.distinct (registry.productions.map (·.lhs))

def lhs? (registry : Registry) (id : Nat) : Option Symbol := registry.productions[id]?.map (·.lhs)

def productionsFor (registry : Registry) (symbol : Symbol) : List Nat :=
  registry.productions.zipIdx.filterMap fun (production, id) =>
    if production.lhs = symbol then some id else none

def isDefined (registry : Registry) (symbol : Symbol) : Bool :=
  registry.productions.any (·.lhs == symbol)

def startProduction (registry : Registry) (symbol : Symbol) : Option Nat :=
  registry.starts.idxOf? symbol

def isStartProduction (registry : Registry) (id : Nat) : Bool := id < registry.starts.length

def isNullable (registry : Registry) (symbol : Symbol) : Bool := registry.nullable.contains symbol

def isDeclaredNullable (registry : Registry) (symbol : Symbol) : Bool :=
  registry.declaredNullable.contains symbol

def symbolsOf (registry : Registry) (set : TerminalSet) : List Symbol :=
  Ranking.sort Symbol.precedes (set.toList.filterMap (registry.terminals[·]?))

/-- FIRST of a symbol. A terminal the grammar never uses still begins itself. -/
def firstOf (registry : Registry) (symbol : Symbol) : List Symbol :=
  match registry.first.get? symbol with
  | some set => registry.symbolsOf set
  | none => if symbol.isTerminal then [symbol] else []

def followOf (registry : Registry) (symbol : Symbol) : List Symbol :=
  registry.symbolsOf (registry.follow.get symbol)

def follows (registry : Registry) (symbol : Symbol) (t : Nat) : Bool :=
  (registry.follow.get symbol).contains t

/-- Why a symbol is no start symbol of this registry. -/
def startError (registry : Registry) (symbol : Symbol) : GrammarError :=
  if registry.isDefined symbol then .undeclaredStart symbol.name else .undefinedStart symbol.name

end Registry

end ShiftReduce
