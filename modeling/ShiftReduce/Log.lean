import ShiftReduce.Parser

/-!
The log of a parser: what was registered, how each state was found, every conflict, and the moves of
each parse.
-/
namespace ShiftReduce.Log

inductive Level where
  | debug
  | trace

structure Entry where
  level : Level
  text : String

def Level.render : Level → String
  | debug => "DEBUG"
  | trace => "TRACE"

def Entry.render (entry : Entry) : String := entry.level.render ++ " " ++ entry.text

def renderProduction (registry : Registry) (id : Nat) : String :=
  match registry.productions[id]? with
  | none => ""
  | some production => production.render

def renderAction (registry : Registry) : Action → String
  | .shift target => s!"shift {stateNumber target}"
  | .reduce id => "reduce " ++ renderProduction registry id

def renderKind : ConflictKind → String
  | .shiftReduce => "ShiftReduce"
  | .reduceReduce => "ReduceReduce"

def renderLookahead : Lookahead → String
  | .lr0 => "Lr0"
  | .slr => "Slr"

def ofRegistry (registry : Registry) : Entry :=
  ⟨.debug,
    s!"registered {registry.productions.length} productions over " ++
      s!"{registry.nonterminals.length} nonterminals and {registry.terminals.length} terminals"⟩

/-- The discovery of a state, with the edge it was first reached by. -/
def ofState (state : State) : Entry :=
  let origin :=
    match state.origin with
    | none => "None"
    | some (source, symbol) => s!"Some((StateId({source}), {symbol.name}))"
  ⟨.trace, s!"state {stateNumber state.id} from " ++ origin⟩

def ofConflict (registry : Registry) (conflict : Conflict) : Entry :=
  let rejected := ", ".intercalate (conflict.rejected.map (renderAction registry))
  ⟨.debug,
    s!"{renderKind conflict.kind} conflict in state {stateNumber conflict.state} on " ++
      s!"{conflict.lookahead.name}: {renderAction registry conflict.chosen} over " ++ rejected⟩

def ofAutomaton (lookahead : Lookahead) (automaton : Automaton) : Entry :=
  let starts := ", ".intercalate (automaton.starts.map (·.1.name))
  ⟨.debug,
    s!"built {automaton.states.length} states for [{starts}] ({renderLookahead lookahead}), " ++
      s!"{automaton.conflicts.length} conflicts"⟩

def ofMove (registry : Registry) : Move → Entry
  | .shift token target =>
    ⟨.trace, s!"shift {token.symbol.name} `{token.text}` to {stateNumber target}"⟩
  | .reduce id => ⟨.trace, "reduce " ++ renderProduction registry id⟩

def ofParser (parser : Parser) : List Entry :=
  let { lookahead, registry, automaton } := parser
  [ofRegistry registry]
    ++ automaton.states.map ofState
    ++ automaton.conflicts.map (ofConflict registry)
    ++ [ofAutomaton lookahead automaton]

def ofParse (parser : Parser) (parse : Parse) : List Entry :=
  parse.moves.map (ofMove parser.registry)

end ShiftReduce.Log
