import ShiftReduce.Registry

/-!
Items: a production with a dot in front of the part still to be matched. Closure adds what an item
expects; goto moves the dot over one symbol and closes again.
-/
namespace ShiftReduce

structure Item where
  production : Nat
  dot : Nat
deriving DecidableEq

namespace Item

def forward (item : Item) : Item := { item with dot := item.dot + 1 }

/-- Dots are 32-bit words; the largest one cannot move. -/
def forward? (item : Item) : Option Item :=
  if item.dot + 1 < UInt32.size then some item.forward else none

def precedes (a b : Item) : Bool :=
  a.production < b.production || (a.production == b.production && a.dot ≤ b.dot)

end Item

namespace Registry

def next? (registry : Registry) (item : Item) : Option Symbol :=
  registry.productions[item.production]?.bind (·.rhs[item.dot]?)

def isKnown (registry : Registry) (item : Item) : Bool :=
  item.production < registry.productions.length

/-- Whether the dot is at the end of a registered production, or past it. -/
def isComplete (registry : Registry) (item : Item) : Bool :=
  match registry.productions[item.production]? with
  | none => false
  | some production => production.rhs.length ≤ item.dot

def predicted (registry : Registry) (item : Item) : List Item :=
  match registry.next? item with
  | none => []
  | some symbol => (registry.productionsFor symbol).map (⟨·, 0⟩)

/-- Scans a growing list of items from position `i` and appends what each one predicts. -/
def closeFrom (registry : Registry) : Nat → Nat → List Item → List Item
  | 0, _, items => items
  | fuel + 1, i, items =>
    match items[i]? with
    | none => items
    | some item =>
      closeFrom registry fuel (i + 1) (OrderedSet.insertAll items (registry.predicted item))

/-- The kernel in its order, then what it predicts. Besides the kernel only one item for each
production can arrive, which bounds the scan. -/
def close (registry : Registry) (kernel : List Item) : List Item :=
  closeFrom registry (kernel.length + registry.productions.length) 0 (OrderedSet.distinct kernel)

def outgoing (registry : Registry) (items : List Item) : List (Symbol × Item) :=
  items.filterMap fun item => (registry.next? item).map (·, item.forward)

def advance (registry : Registry) (items : List Item) (symbol : Symbol) : List Item :=
  ((registry.outgoing items).filter (·.1 = symbol)).map (·.2)

def goto (registry : Registry) (items : List Item) (symbol : Symbol) : List Item :=
  registry.close (registry.advance items symbol)

/-- The advanced items grouped by symbol, in order of the symbols' first appearance. -/
def kernels (registry : Registry) (items : List Item) : List (Symbol × List Item) :=
  let outgoing := registry.outgoing items
  (OrderedSet.distinct (outgoing.map (·.1))).map fun symbol =>
    (symbol, (outgoing.filter (·.1 = symbol)).map (·.2))

/-- Closure of items from outside, which may name no production of this registry. -/
def close? (registry : Registry) (kernel : List Item) : Option (List Item) :=
  if kernel.all registry.isKnown then some (registry.close kernel) else none

def goto? (registry : Registry) (items : List Item) (symbol : Symbol) : Option (List Item) :=
  if items.all registry.isKnown then some (registry.goto items symbol) else none

/-- The text of an item, a lone dot marking the place reached. -/
def renderItem (registry : Registry) (item : Item) : Option String :=
  registry.productions[item.production]?.map fun production =>
    let names := production.rhs.map (·.name)
    " ".intercalate
      (production.lhs.name :: "->" :: (names.take item.dot ++ "." :: names.drop item.dot))

def itemCount (registry : Registry) : Nat :=
  registry.productions.foldr (fun production count => production.rhs.length + 1 + count) 0

end Registry

end ShiftReduce
