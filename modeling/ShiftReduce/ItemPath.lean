import ShiftReduce.Item

/-!
The item machine of a production: its states are items, it reads a symbol by moving a dot over it,
and moves silently from a nonterminal after a dot to the beginnings of that nonterminal's productions.
-/
namespace ShiftReduce

/-- `ItemPath registry start read item`: reading the symbols `read` leads from the beginning of the
production `start` to `item`. -/
inductive ItemPath (registry : Registry) (start : Nat) : List Symbol → Item → Prop where
  | here : ItemPath registry start [] ⟨start, 0⟩
  | past {read : List Symbol} {item : Item} {symbol : Symbol} :
      ItemPath registry start read item → registry.next? item = some symbol →
      ItemPath registry start (read ++ [symbol]) item.forward
  | into {read : List Symbol} {item : Item} {symbol : Symbol} {id : Nat} {production : Production} :
      ItemPath registry start read item → registry.next? item = some symbol →
      registry.productions[id]? = some production → production.lhs = symbol →
      ItemPath registry start read ⟨id, 0⟩

end ShiftReduce
