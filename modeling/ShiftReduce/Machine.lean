import ShiftReduce.Automaton
import ShiftReduce.Token

/-!
The stack machine driven by an automaton. One step shifts the lookahead, reduces a production or
halts. Reducing an augmented production accepts, and a lookahead without an action is refused.

This machine may reduce forever on one lookahead; the watch kept over it is in
`ShiftReduce.Machine.Watch`.
-/
namespace ShiftReduce

inductive ParseError where
  | grammar (error : GrammarError)
  /-- Neither shift nor reduction exists for the token. -/
  | unrecognizedInput (token : Token) (state : Nat)
  /-- Reductions on the token would never consume it. -/
  | reduceLoop (token : Token) (state : Nat)
deriving DecidableEq

def ParseError.message : ParseError → String
  | grammar error => error.message
  | unrecognizedInput token state =>
    s!"unexpected {token.symbol.name} `{token.text}` in state {stateNumber state}"
  | reduceLoop token state =>
    s!"reductions on {token.symbol.name} `{token.text}` loop forever from state " ++
      toString (stateNumber state)

inductive Move where
  | shift (token : Token) (target : Nat)
  | reduce (production : Nat)
deriving DecidableEq

def Move.reduction? : Move → Option Nat
  | .shift _ _ => none
  | .reduce production => some production

inductive Verdict where
  | accepted
  | rejected (error : ParseError)
  /-- The action table names a production that the registry does not have. -/
  | corrupt (production : Nat)
  /-- The step budget was used up. -/
  | unfinished
deriving DecidableEq

namespace Machine

structure Config where
  /-- The state the run started in. -/
  root : Nat
  /-- The states on the stack, top first. -/
  stack : List Nat
  lookahead : Token
  source : TokenSource
  /-- What has been done so far, latest first. -/
  moves : List Move

namespace Config

/-- The state a run starts in, with the first token pulled. -/
def start (root : Nat) (source : TokenSource) : Config :=
  let (token, source) := source.next
  ⟨root, [root], token, source, []⟩

/-- The state on top. On an empty stack it is the root, which is reported in that case. -/
def top (config : Config) : Nat := config.stack.headD config.root

def depth (config : Config) : Nat := config.stack.length

def shift (config : Config) (target : Nat) : Config :=
  let (token, source) := config.source.next
  { config with
    stack := target :: config.stack
    lookahead := token
    source
    moves := .shift config.lookahead target :: config.moves }

end Config

inductive Step where
  | shifted (config : Config)
  | reduced (config : Config)
  | halted (config : Config) (verdict : Verdict)

/-- Takes a right-hand side off the stack, whose top is `top`, and goes on from the state uncovered. -/
def reduce (automaton : Automaton) (config : Config) (top id : Nat) (production : Production) : Step :=
  let config := { config with
    stack := config.stack.drop production.rhs.length
    moves := .reduce id :: config.moves }
  match config.stack.head?.bind (automaton.goto? · production.lhs) with
  | none => .halted config (.rejected (.unrecognizedInput config.lookahead top))
  | some target => .reduced { config with stack := target :: config.stack }

/-- Does what the table says in the state `top`, which is on top of the stack. -/
def act (registry : Registry) (automaton : Automaton) (config : Config) (top : Nat) : Step :=
  match automaton.action? top config.lookahead.symbol with
  | none => .halted config (.rejected (.unrecognizedInput config.lookahead top))
  | some (.shift target) => .shifted (config.shift target)
  | some (.reduce id) =>
    if registry.isStartProduction id then .halted config .accepted
    else
      match registry.productions[id]? with
      | none => .halted config (.corrupt id)
      | some production => reduce automaton config top id production

def step (registry : Registry) (automaton : Automaton) (config : Config) : Step :=
  match config.stack with
  | [] => .halted config (.rejected (.unrecognizedInput config.lookahead config.root))
  | top :: _ => act registry automaton config top

def run (registry : Registry) (automaton : Automaton) : Nat → Config → Config × Verdict
  | 0, config => (config, .unfinished)
  | fuel + 1, config =>
    match step registry automaton config with
    | .shifted next => run registry automaton fuel next
    | .reduced next => run registry automaton fuel next
    | .halted last verdict => (last, verdict)

end Machine

end ShiftReduce
