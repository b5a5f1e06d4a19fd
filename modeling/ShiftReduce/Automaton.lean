import ShiftReduce.Automaton.Action
import ShiftReduce.Automaton.Collection

/-!
The automaton of a registry: its states with edges and actions, shared by the start symbols it was
built for. A state is known by its id, which is its position; printed numbers start at 1.
-/
namespace ShiftReduce

def stateNumber (id : Nat) : Nat := id + 1

structure State extends Node where
  edges : List (Symbol × Nat)
  row : List (Symbol × Cell)

namespace State

def actions (state : State) : List (Symbol × Action) :=
  state.row.map fun (terminal, cell) => (terminal, cell.chosen)

end State

inductive ConflictKind where
  | shiftReduce
  | reduceReduce
deriving DecidableEq

structure Conflict where
  state : Nat
  lookahead : Symbol
  kind : ConflictKind
  chosen : Action
  rejected : List Action
deriving DecidableEq

/-- The conflict recorded for a cell with more than one candidate. -/
def Conflict.ofCell? (state : Nat) (lookahead : Symbol) (cell : Cell) : Option Conflict :=
  if cell.hasConflict then
    let kind := if cell.hasShift then .shiftReduce else .reduceReduce
    some ⟨state, lookahead, kind, cell.chosen, cell.rejected⟩
  else none

structure Automaton where
  states : List State
  starts : List (Symbol × Nat)

namespace Automaton

/-- The automaton of the start symbols `symbols`, each given with its augmented production. -/
def ofProductions (registry : Registry) (lookahead : Lookahead) (symbols : List (Symbol × Nat)) :
    Automaton :=
  let collection := Collection.ofStarts registry (symbols.map (·.2))
  let states := collection.nodes.zipIdx.map fun (node, i) =>
    let edges := collection.rows.getD i []
    { node with edges, row := Cell.row registry lookahead node.items edges }
  ⟨states, (symbols.map (·.1)).zip collection.roots⟩

/-- The augmented productions of `symbols`, all of which have to be start symbols. -/
def startProductions (registry : Registry) :
    List Symbol → Except GrammarError (List (Symbol × Nat))
  | [] => .ok []
  | symbol :: rest =>
    match registry.startProduction symbol with
    | none => .error (registry.startError symbol)
    | some production => do
      let productions ← startProductions registry rest
      return (symbol, production) :: productions

def buildFor (registry : Registry) (lookahead : Lookahead) (symbols : List Symbol) :
    Except GrammarError Automaton := do
  let productions ← startProductions registry symbols
  return ofProductions registry lookahead productions

def buildAll (registry : Registry) (lookahead : Lookahead) : Except GrammarError Automaton :=
  buildFor registry lookahead registry.starts

def build (registry : Registry) (lookahead : Lookahead) (symbol : Symbol) :
    Except GrammarError Automaton :=
  buildFor registry lookahead [symbol]

def start? (automaton : Automaton) (symbol : Symbol) : Option Nat := automaton.starts.lookup symbol

/-- The start state of the first start symbol. -/
def root? (automaton : Automaton) : Option Nat := automaton.starts.head?.map (·.2)

def goto? (automaton : Automaton) (state : Nat) (symbol : Symbol) : Option Nat :=
  automaton.states[state]?.bind (·.edges.lookup symbol)

def action? (automaton : Automaton) (state : Nat) (lookahead : Symbol) : Option Action :=
  automaton.states[state]?.bind fun state => (state.row.lookup lookahead).map (·.chosen)

/-- The state on arrival and after each symbol of the path; nothing once an edge is missing. -/
def walkFrom (automaton : Automaton) (state : Option Nat) : List Symbol → List (Option Nat)
  | [] => [state]
  | symbol :: rest => state :: automaton.walkFrom (state.bind (automaton.goto? · symbol)) rest

def walk (automaton : Automaton) (symbol : Symbol) (path : List Symbol) : List (Option Nat) :=
  automaton.walkFrom (automaton.start? symbol) path

def conflicts (automaton : Automaton) : List Conflict :=
  automaton.states.flatMap fun state =>
    state.row.filterMap fun (lookahead, cell) => Conflict.ofCell? state.id lookahead cell

end Automaton

end ShiftReduce
