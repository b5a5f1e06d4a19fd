import ShiftReduce.Symbol

/-!
Tokens and the supply a parser pulls them from. A source never runs dry: past its last token it
gives the end marker for as long as it is asked.
-/
namespace ShiftReduce

structure Token where
  symbol : Symbol
  text : String
deriving DecidableEq

def Token.eof : Token := ⟨Symbol.eof, ""⟩

structure TokenSource where
  tokenAt : Nat → Token
  /-- How many tokens have been taken. -/
  pulled : Nat

namespace TokenSource

def ofList (tokens : List Token) : TokenSource := ⟨fun i => tokens.getD i Token.eof, 0⟩

def next (source : TokenSource) : Token × TokenSource :=
  (source.tokenAt source.pulled, { source with pulled := source.pulled + 1 })

def take (source : TokenSource) : Nat → List Token
  | 0 => []
  | count + 1 =>
    let (token, rest) := source.next
    token :: rest.take count

end TokenSource

end ShiftReduce
