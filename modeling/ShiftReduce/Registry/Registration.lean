import ShiftReduce.Lowering
import ShiftReduce.Registry

/-!
Registration of a grammar. The checks run in a fixed order and the first defect is reported: rule
names, start symbols, the names in rule bodies, undefined nonterminals, the nullable declarations as
names, empty productions without a declaration, and declarations that do not hold.
-/
namespace ShiftReduce.Registration

/-- Each name is well formed, a nonterminal, and not among the names `seen` before it. -/
def checkRuleNames (seen : List String) : List String → Except GrammarError Unit
  | [] => .ok ()
  | name :: rest => do
    Symbol.checkName name
    if (⟨name⟩ : Symbol).isTerminal then .error (.terminalRule name)
    else if seen.contains name then .error (.duplicateRule name)
    else checkRuleNames (name :: seen) rest

def checkStarts (defined : List String) : List String → Except GrammarError Unit
  | [] => .ok ()
  | name :: rest => do
    Symbol.checkName name
    if defined.contains name then checkStarts defined rest else .error (.undefinedStart name)

def checkNames : List String → Except GrammarError Unit
  | [] => .ok ()
  | name :: rest => do
    Symbol.checkName name
    checkNames rest

def checkReferences (defined : List Symbol) : List Production → Except GrammarError Unit
  | [] => .ok ()
  | production :: rest =>
    match production.rhs.find? fun symbol => symbol.isNonterminal && !defined.contains symbol with
    | some symbol => .error (.undefinedNonterminal symbol.name production.lhs.name)
    | none => checkReferences defined rest

def checkNullableNames (defined : List String) : List String → Except GrammarError Unit
  | [] => .ok ()
  | name :: rest => do
    Symbol.checkName name
    if defined.contains name then checkNullableNames defined rest
    else .error (.unknownNullable name)

/-- Adds every helper with an empty production to the declared nonterminals. A nonterminal of the
author's own has to be there already. -/
def declareNullable (defined : List String) (declared : List Symbol) :
    List Production → Except GrammarError (List Symbol)
  | [] => .ok declared
  | production :: rest =>
    if !production.isEpsilon || declared.contains production.lhs then
      declareNullable defined declared rest
    else if defined.contains production.lhs.name then
      .error (.undeclaredNullable production.lhs.name)
    else declareNullable defined (declared ++ [production.lhs]) rest

def checkDeclarations (nullable : List Symbol) : List String → Except GrammarError Unit
  | [] => .ok ()
  | name :: rest =>
    if nullable.contains ⟨name⟩ then checkDeclarations nullable rest
    else .error (.spuriousNullable name)

end ShiftReduce.Registration

namespace ShiftReduce

open Registration in
def Registry.ofGrammar (grammar : Grammar) : Except GrammarError Registry := do
  let defined := grammar.rules.map (·.1)
  checkRuleNames [] defined
  checkStarts defined grammar.start
  checkNames grammar.names
  let starts := OrderedSet.distinct (grammar.start.map Symbol.mk)
  let productions := grammar.productions starts
  let nonterminals := OrderedSet.distinct (productions.map (·.lhs))
  checkReferences nonterminals productions
  checkNullableNames defined grammar.nullable
  let declaredNullable ←
    declareNullable defined (OrderedSet.distinct (grammar.nullable.map Symbol.mk)) productions
  let nullable := Nullable.solve productions
  checkDeclarations nullable grammar.nullable
  let terminals :=
    OrderedSet.distinct (Symbol.eof :: (grammar.names.map Symbol.mk).filter (·.isTerminal))
  let first := First.solve terminals nonterminals nullable productions
  let follow := Follow.solve terminals.length (starts.map Symbol.augmented) nonterminals nullable
    first productions
  return { starts, productions, terminals, declaredNullable, nullable, first, follow }

end ShiftReduce
