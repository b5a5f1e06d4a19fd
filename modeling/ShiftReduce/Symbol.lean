import ShiftReduce.Error
import ShiftReduce.Text.LetterCase

/-!
Grammar symbols. A symbol is its name, and its first character alone makes it a terminal or a
nonterminal. Apostrophe and tilde are kept out of the names an author may choose, so the names
built here for augmented starts and for helpers meet no other name.
-/
namespace ShiftReduce

structure Symbol where
  name : String
deriving DecidableEq

namespace Symbol

def eof : Symbol := ⟨"Eof"⟩

def isTerminal (symbol : Symbol) : Bool :=
  match symbol.name.toList with
  | [] => false
  | c :: _ => Text.isUppercase c

def isNonterminal (symbol : Symbol) : Bool := !symbol.isTerminal

def isEof (symbol : Symbol) : Bool := symbol.name == "Eof"

theorem isEof_iff {symbol : Symbol} : symbol.isEof = true ↔ symbol = eof := by
  cases symbol
  simp [isEof, eof]

/-- Marks kept for generated names. -/
def reservedMarks : List Char := "'~".toList

/-- The nonterminal over a start symbol, on which parsing accepts. -/
def augmented (start : Symbol) : Symbol := ⟨start.name ++ "'"⟩

/-- The `number`-th nonterminal generated for the rule named `owner`. -/
def helper (owner : String) (number : Nat) : Symbol := ⟨owner ++ "~" ++ toString number⟩

def ofName (name : String) : Except GrammarError Symbol :=
  if name.isEmpty then .error .emptyName else .ok ⟨name⟩

def checkName (name : String) : Except GrammarError Unit :=
  match name.toList with
  | [] => .error .emptyName
  | c :: rest =>
    if !Text.isUppercase c && !Text.isLowercase c then .error (.ambiguousName name)
    else if name == "Eof" || (c :: rest).any (reservedMarks.contains ·) then
      .error (.reservedName name)
    else .ok ()

def precedes (a b : Symbol) : Bool := !decide (b.name < a.name)

end Symbol

end ShiftReduce
