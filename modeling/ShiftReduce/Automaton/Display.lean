import ShiftReduce.Automaton

/-!
The listing of an automaton: each state with its items and edges.
-/
namespace ShiftReduce.Automaton

def renderState (registry : Registry) (state : State) : String :=
  let items := state.items.filterMap registry.renderItem
  let edges := state.edges.map fun (symbol, target) => s!"{symbol.name} => {stateNumber target}"
  "\n  ".intercalate (s!"state {stateNumber state.id}" :: (items ++ edges))

def render (registry : Registry) (automaton : Automaton) : String :=
  "\n".intercalate (automaton.states.map (renderState registry))

end ShiftReduce.Automaton
