/-!
Why a grammar is refused. Registration reports the first defect it meets and hands out nothing.
-/
namespace ShiftReduce

inductive GrammarError where
  | emptyName
  | ambiguousName (name : String)
  | reservedName (name : String)
  | terminalRule (name : String)
  | duplicateRule (name : String)
  /-- A start symbol that no rule defines. -/
  | undefinedStart (name : String)
  /-- A defined nonterminal that was never declared a start symbol. -/
  | undeclaredStart (name : String)
  | undefinedNonterminal (name referencedBy : String)
  | unknownNullable (name : String)
  | undeclaredNullable (name : String)
  | spuriousNullable (name : String)
deriving DecidableEq

namespace GrammarError

def message : GrammarError → String
  | emptyName => "symbol name must not be empty"
  | ambiguousName name => s!"symbol name `{name}` must start with an uppercase or lowercase letter"
  | reservedName name => s!"symbol name `{name}` is reserved"
  | terminalRule name => s!"`{name}` is a terminal and cannot have productions"
  | duplicateRule name => s!"nonterminal `{name}` is defined more than once"
  | undefinedStart name => s!"start symbol `{name}` has no productions"
  | undeclaredStart name => s!"`{name}` is not a declared start symbol"
  | undefinedNonterminal name referencedBy =>
    s!"nonterminal `{name}` is referenced by `{referencedBy}` but has no productions"
  | unknownNullable name => s!"nullable declaration names unknown nonterminal `{name}`"
  | undeclaredNullable name =>
    s!"nonterminal `{name}` has an empty production but is not declared nullable"
  | spuriousNullable name =>
    s!"nonterminal `{name}` is declared nullable but cannot derive the empty string"

end GrammarError

end ShiftReduce
