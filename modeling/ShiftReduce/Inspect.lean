import ShiftReduce.Grammar
import ShiftReduce.Registry
import ShiftReduce.Text.Quoted

/-!
One-line texts of a grammar and of the sets computed for it, for looking into them. Names are quoted
in a grammar and bare in the sets; terminals in a set are given by their index.
-/
namespace ShiftReduce.Inspect

def inBrackets (parts : List String) : String := "[" ++ ", ".intercalate parts ++ "]"

def inBraces (parts : List String) : String := "\x7b" ++ ", ".intercalate parts ++ "\x7d"

def record (name : String) (fields : List (String × String)) : String :=
  let parts := fields.map fun (field, value) => field ++ ": " ++ value
  name ++ " \x7b " ++ ", ".intercalate parts ++ " \x7d"

def wrap (name content : String) : String := name ++ "(" ++ content ++ ")"

mutual

def rule : Rule → String
  | .symbol name => wrap "Rule" (wrap "Sym" (Text.quote name))
  | .seq rules => wrap "Rule" (wrap "Seq" (inBrackets (allRules rules)))
  | .alternatives rules => wrap "Rule" (wrap "Or" (inBrackets (allRules rules)))
  | .many body => wrap "Rule" (wrap "Many" (rule body))
  | .many1 body => wrap "Rule" (wrap "Some" (rule body))
  | .optional body => wrap "Rule" (wrap "Option" (rule body))
  | .sepBy separator body =>
    wrap "Rule" (wrap "SepBy" (record "RuleSepBy" [("sep", rule separator), ("rule", rule body)]))
  | .sepBy1 separator body =>
    wrap "Rule" (wrap "SepBy1" (record "RuleSepBy" [("sep", rule separator), ("rule", rule body)]))

def allRules : List Rule → List String
  | [] => []
  | first :: rest => rule first :: allRules rest

end

def grammar (grammar : Grammar) : String :=
  record "Grammar" [
    ("start", inBrackets (grammar.start.map Text.quote)),
    ("rules", inBrackets (grammar.rules.map fun (name, body) =>
      "(" ++ Text.quote name ++ ", " ++ rule body ++ ")")),
    ("nullable", inBrackets (grammar.nullable.map Text.quote))]

def terminalSet (set : TerminalSet) : String := inBraces (set.toList.map toString)

/-- FIRST of each symbol with its right-hand sides, whose symbols are given by their place among the
entries. -/
def firstSets (registry : Registry) : String :=
  let symbols := registry.first.map (·.1)
  let entry (symbol : Symbol) (set : TerminalSet) : String :=
    let bodies := (registry.productionsFor symbol).filterMap (registry.productions[·]?)
    let places := bodies.map fun production =>
      inBrackets ((production.rhs.filterMap (symbols.idxOf? ·)).map toString)
    symbol.name ++ ": " ++ record "SymbolFirst" [
      ("rhs", inBrackets places),
      ("nullable", toString (registry.isNullable symbol)),
      ("first", terminalSet set)]
  record "FirstSets" [
    ("entries", inBraces (registry.first.map fun (symbol, set) => entry symbol set)),
    ("num_terminals", toString registry.terminals.length)]

def followSets (registry : Registry) : String :=
  record "FollowSets" [
    ("follow", inBraces (registry.follow.map fun (symbol, set) =>
      symbol.name ++ ": " ++ terminalSet set)),
    ("terminals", inBrackets (registry.terminals.map (·.name)))]

end ShiftReduce.Inspect
