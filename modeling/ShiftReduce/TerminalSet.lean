/-!
Sets of terminals, each terminal given by its index in the registry. A set is a row of 64-bit words,
as many as its universe needs, and the member `t` is bit `t % 64` of word `t / 64`.
-/
namespace ShiftReduce

structure TerminalSet where
  words : List UInt64
deriving DecidableEq

namespace TerminalSet

def wordBits : Nat := 64

def mask (t : Nat) : UInt64 := 1 <<< UInt64.ofNat (t % wordBits)

def empty (count : Nat) : TerminalSet :=
  ⟨List.replicate ((count + wordBits - 1) / wordBits) 0⟩

def clear (set : TerminalSet) : TerminalSet := ⟨set.words.map fun _ => 0⟩

def insert (set : TerminalSet) (t : Nat) : TerminalSet :=
  ⟨set.words.modify (t / wordBits) (· ||| mask t)⟩

def singleton (count t : Nat) : TerminalSet := (empty count).insert t

def contains (set : TerminalSet) (t : Nat) : Bool :=
  match set.words[t / wordBits]? with
  | none => false
  | some word => word &&& mask t != 0

def unionWords : List UInt64 → List UInt64 → List UInt64
  | [], _ => []
  | words, [] => words
  | x :: xs, y :: ys => (x ||| y) :: unionWords xs ys

/-- Union within the universe of the first set. -/
def union (set other : TerminalSet) : TerminalSet := ⟨unionWords set.words other.words⟩

/-- The union, and whether it has more members than `set`. -/
def unionWith (set other : TerminalSet) : TerminalSet × Bool :=
  let joined := set.union other
  (joined, joined != set)

/-- The bits set in a word whose first bit stands for `base`. -/
def membersOfWord (base : Nat) (word : UInt64) : List Nat :=
  (List.range wordBits).filterMap fun bit =>
    if word &&& mask bit != 0 then some (base + bit) else none

def membersFrom (base : Nat) : List UInt64 → List Nat
  | [] => []
  | word :: words => membersOfWord base word ++ membersFrom (base + wordBits) words

def toList (set : TerminalSet) : List Nat := membersFrom 0 set.words

end TerminalSet

end ShiftReduce
