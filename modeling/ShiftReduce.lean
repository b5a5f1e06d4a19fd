import ShiftReduce.Automaton.Display
import ShiftReduce.Derivation
import ShiftReduce.Inspect
import ShiftReduce.ItemPath
import ShiftReduce.Language
import ShiftReduce.Log
import ShiftReduce.Script
import ShiftReduce.Proofs.Lowering.Symbols
import ShiftReduce.Proofs.Registry.Accepted
import ShiftReduce.Proofs.Registry.Wellformed
import ShiftReduce.Proofs.Item.Closure
import ShiftReduce.Proofs.Item.Path
import ShiftReduce.Proofs.Automaton.Collection
import ShiftReduce.Proofs.Automaton.Realization
import ShiftReduce.Proofs.Automaton.Action
import ShiftReduce.Proofs.Derivation
import ShiftReduce.Proofs.Machine.Step
import ShiftReduce.Proofs.Machine.Stack
import ShiftReduce.Proofs.Machine.Input
import ShiftReduce.Proofs.Machine.Soundness
import ShiftReduce.Proofs.Machine.Termination
import ShiftReduce.Proofs.Analysis.Nullable
import ShiftReduce.Proofs.Machine.Replay
import ShiftReduce.Proofs.TerminalSet
import ShiftReduce.Proofs.Analysis.First
import ShiftReduce.Proofs.Analysis.Follow
import ShiftReduce.Proofs.Registry.Analysed
import ShiftReduce.Proofs.Machine.Completeness
import ShiftReduce.Proofs.Machine.Alarm
import ShiftReduce.Proofs.Machine.Safety
import ShiftReduce.Proofs.Language
import ShiftReduce.Proofs.Lowering.Expansion
import ShiftReduce.Proofs.Lowering.Meaning
import ShiftReduce.Proofs.Lowering.Language
import ShiftReduce.Proofs.Automaton.Determinization
import ShiftReduce.Proofs.Automaton.Lookahead
import ShiftReduce.Proofs.Machine.Refinement
import ShiftReduce.Proofs.Item.Prefix
import ShiftReduce.Proofs.Machine.Run
import ShiftReduce.Proofs.Machine.Prefix
import ShiftReduce.Proofs.Machine.Quiet
import ShiftReduce.Proofs.Automaton.Renaming
import ShiftReduce.Proofs.Automaton.Sharing
import ShiftReduce.Proofs.Machine.Sharing
import ShiftReduce.Proofs.Lowering.Combinators
import ShiftReduce.Proofs.Registry.Checks
import ShiftReduce.Proofs.Registry.Registration
import ShiftReduce.Proofs.Script.Syntax
import ShiftReduce.Proofs.Script.Generation
import ShiftReduce.Proofs.Script.Recognition
import ShiftReduce.Proofs.Automaton.Canonical
import ShiftReduce.Proofs.Registry.Follow
import ShiftReduce.Proofs.Checked.Parser
import ShiftReduce.Proofs.Automaton.Resolution
import ShiftReduce.Proofs.Registry.Nullable
import ShiftReduce.Proofs.Automaton.Exploration
import ShiftReduce.Proofs.Machine.Supply
import ShiftReduce.Proofs.Checked.Goto
import ShiftReduce.Proofs.Registry.Integrity
import ShiftReduce.Proofs.Registry.Declared
import ShiftReduce.Proofs.Lowering.Rewriting
import ShiftReduce.Proofs.Automaton.Discovery
import ShiftReduce.Proofs.TerminalSet.Refinement
