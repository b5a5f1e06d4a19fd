import ShiftReduce.Parser

/-!
A small language of statements over arithmetic expressions, and its parser.

    program = stmt*
    stmt    = Let Ident Assign expr Semi | Print expr Semi | expr Semi
    expr    = expr (Plus | Minus) term | term
    term    = term (Star | Slash) factor | factor
    factor  = Number | Ident | LParen expr RParen | Minus factor
-/
namespace ShiftReduce.Script

def start : String := "program"

def phrase (names : List String) : Rule := .seq (names.map .symbol)

def grammar : Grammar where
  start := [start]
  rules := [
    ("program", .many (.symbol "stmt")),
    ("stmt",
      phrase ["Let", "Ident", "Assign", "expr", "Semi"]
      ||| phrase ["Print", "expr", "Semi"]
      ||| phrase ["expr", "Semi"]),
    ("expr",
      phrase ["expr", "Plus", "term"]
      ||| phrase ["expr", "Minus", "term"]
      ||| .symbol "term"),
    ("term",
      phrase ["term", "Star", "factor"]
      ||| phrase ["term", "Slash", "factor"]
      ||| .symbol "factor"),
    ("factor",
      .symbol "Number"
      ||| .symbol "Ident"
      ||| phrase ["LParen", "expr", "RParen"]
      ||| phrase ["Minus", "factor"])]
  nullable := ["program"]

def parser : Except GrammarError Parser := Parser.ofGrammar grammar .slr

end ShiftReduce.Script
