import ShiftReduce.Machine.Watch
import ShiftReduce.Registry.Registration

/-!
Parsers: a registry with the automaton of all its start symbols. A parse reports the productions it
reduced, in order, which read backwards are a rightmost derivation of the input.
-/
namespace ShiftReduce

structure Parser where
  lookahead : Lookahead
  registry : Registry
  automaton : Automaton

structure Parse where
  /-- Shifts and reductions in order. -/
  moves : List Move
  /-- How many tokens were pulled from the source. -/
  pulled : Nat
  verdict : Verdict

def Parse.reductions (parse : Parse) : List Nat := parse.moves.filterMap Move.reduction?

namespace Parser

def ofGrammar (grammar : Grammar) (lookahead : Lookahead) : Except GrammarError Parser := do
  let registry ← Registry.ofGrammar grammar
  let automaton ← Automaton.buildAll registry lookahead
  return { lookahead, registry, automaton }

/-- Runs the watched machine for at most `fuel` steps. An unknown start symbol is refused before any
token is pulled. -/
def parseSource (parser : Parser) (fuel : Nat) (start : Symbol) (source : TokenSource) : Parse :=
  match parser.automaton.start? start with
  | none => ⟨[], source.pulled, .rejected (.grammar (parser.registry.startError start))⟩
  | some root =>
    let (last, verdict) :=
      Machine.runWatched parser.registry parser.automaton fuel (.start (.start root source))
    ⟨last.moves.reverse, last.source.pulled, verdict⟩

def parse (parser : Parser) (start : Symbol) (tokens : List Token) : Parse :=
  parser.parseSource (Machine.budget tokens.length parser.automaton.states.length) start
    (.ofList tokens)

end Parser

end ShiftReduce
