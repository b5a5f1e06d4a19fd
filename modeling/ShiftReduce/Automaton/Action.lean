import ShiftReduce.Item

/-!
Parse actions. A complete item asks to reduce, an edge on a terminal to shift; the candidate whose
production was registered first is chosen. A shift ranks by the earliest production among the items
it advances and wins an exact tie.
-/
namespace ShiftReduce

inductive Action where
  | shift (target : Nat)
  | reduce (production : Nat)
deriving DecidableEq

def Action.isShift : Action → Bool
  | .shift _ => true
  | .reduce _ => false

/-- The lookaheads on which a complete item reduces. -/
inductive Lookahead where
  /-- Every terminal. -/
  | lr0
  /-- The terminals in FOLLOW of the left-hand side. -/
  | slr
deriving DecidableEq

structure Candidate where
  rank : Nat
  action : Action

/-- What a state does on one lookahead: the action chosen and those it was preferred to. -/
structure Cell where
  chosen : Action
  rejected : List Action

namespace Cell

def hasConflict (cell : Cell) : Bool := !cell.rejected.isEmpty

def hasShift (cell : Cell) : Bool := (cell.chosen :: cell.rejected).any (·.isShift)

end Cell

namespace Candidate

def precedes (a b : Candidate) : Bool := a.rank ≤ b.rank

/-- The shift over an edge, ranked by the earliest of the items that have the terminal next. -/
def shifts (registry : Registry) (items : List Item) (edges : List (Symbol × Nat))
    (terminal : Symbol) : List Candidate :=
  match edges.lookup terminal with
  | none => []
  | some target =>
    let advanced := (registry.advance items terminal).map (·.production)
    advanced.min?.toList.map (⟨·, .shift target⟩)

/-- Whether `production` reduces before `terminal`, whose index is `t`. An augmented production does so at
the end of input only, whatever the mode. -/
def reducesOn (registry : Registry) (lookahead : Lookahead) (production t : Nat)
    (terminal : Symbol) : Bool :=
  if registry.isStartProduction production then terminal.isEof
  else
    match lookahead with
    | .lr0 => true
    | .slr => (registry.lhs? production).any (registry.follows · t)

def reduces (registry : Registry) (lookahead : Lookahead) (complete : List Item) (t : Nat)
    (terminal : Symbol) : List Candidate :=
  (complete.filter (reducesOn registry lookahead ·.production t terminal)).map
    fun item => ⟨item.production, .reduce item.production⟩

/-- All candidates for one terminal, best first. -/
def ranked (registry : Registry) (lookahead : Lookahead) (items complete : List Item)
    (edges : List (Symbol × Nat)) (t : Nat) (terminal : Symbol) : List Candidate :=
  Ranking.sort precedes
    (shifts registry items edges terminal ++ reduces registry lookahead complete t terminal)

end Candidate

def Cell.ofCandidates : List Candidate → Option Cell
  | [] => none
  | best :: others => some ⟨best.action, others.map (·.action)⟩

def Cell.row (registry : Registry) (lookahead : Lookahead) (items : List Item)
    (edges : List (Symbol × Nat)) : List (Symbol × Cell) :=
  let complete := items.filter registry.isComplete
  registry.terminals.zipIdx.filterMap fun (terminal, t) =>
    (Cell.ofCandidates (Candidate.ranked registry lookahead items complete edges t terminal)).map
      (terminal, ·)

end ShiftReduce
