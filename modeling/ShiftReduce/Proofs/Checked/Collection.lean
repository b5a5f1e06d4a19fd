import ShiftReduce.Proofs.Automaton.Kernel
import ShiftReduce.Proofs.Automaton.Realization
import ShiftReduce.Proofs.Checked.Registry

/-!
The search for the states with its preconditions. The production of every item met is looked up by its
number, a node that is expanded or gets an edge is there, and so is the node behind each edge.

All items descend from those of start productions by closure and by moving dots, and neither leads out
of the registry.
-/
namespace ShiftReduce.Checked

variable {registry : Registry} {items kernel : List Item} {item : Item}

def Known (registry : Registry) (items : List Item) : Prop :=
  ∀ item ∈ items, item.production < registry.productions.length

def next (registry : Registry) (item : Item) : Option (Option Symbol) :=
  registry.productions[item.production]?.map (·.rhs[item.dot]?)

def isComplete (registry : Registry) (item : Item) : Option Bool :=
  registry.productions[item.production]?.map fun production =>
    decide (production.rhs.length ≤ item.dot)

/-- The productions of a symbol are looked up by the numbers filed under it. -/
def productionsFor (registry : Registry) (symbol : Symbol) : Option (List Nat) := do
  let _ ← filed registry.productions symbol
  return registry.productionsFor symbol

def predicted (registry : Registry) (item : Item) : Option (List Item) := do
  match ← next registry item with
  | none => return []
  | some symbol =>
    let ids ← productionsFor registry symbol
    return ids.map (⟨·, 0⟩)

def closeFrom (registry : Registry) : Nat → Nat → List Item → Option (List Item)
  | 0, _, items => some items
  | fuel + 1, i, items =>
    match items[i]? with
    | none => some items
    | some item => do
      let new ← predicted registry item
      closeFrom registry fuel (i + 1) (OrderedSet.insertAll items new)

def close (registry : Registry) (kernel : List Item) : Option (List Item) :=
  closeFrom registry (kernel.length + registry.productions.length) 0 (OrderedSet.distinct kernel)

def outgoing (registry : Registry) (items : List Item) : Option (List (Symbol × Item)) :=
  filterMap (fun item => (next registry item).map (·.map (·, item.forward))) items

def kernels (registry : Registry) (items : List Item) : Option (List (Symbol × List Item)) := do
  let outgoing ← outgoing registry items
  return (OrderedSet.distinct (outgoing.map (·.1))).map fun symbol =>
    (symbol, (outgoing.filter (·.1 = symbol)).map (·.2))

section

theorem next_eq (known : item.production < registry.productions.length) :
    next registry item = some (registry.next? item) := by
  simp [next, Registry.next?, known]

theorem isComplete_eq (known : item.production < registry.productions.length) :
    isComplete registry item = some (registry.isComplete item) := by
  simp [isComplete, Registry.isComplete, known]

theorem productionsFor_eq (registry : Registry) (symbol : Symbol) :
    productionsFor registry symbol = some (registry.productionsFor symbol) := by
  obtain ⟨found, filed⟩ := filed_isSome registry.productions symbol
  rw [productionsFor, filed]
  rfl

theorem predicted_eq (known : item.production < registry.productions.length) :
    predicted registry item = some (registry.predicted item) := by
  rw [predicted, next_eq known, Registry.predicted]
  cases registry.next? item with
  | none => rfl
  | some symbol => simp [productionsFor_eq]

theorem known_predicted (item : Item) : Known registry (registry.predicted item) := by
  intro new mem
  obtain ⟨-, id, production, -, found, -, rfl⟩ := Registry.mem_predicted.mp mem
  exact (List.getElem?_eq_some_iff.mp found).1

theorem known_insertAll {more : List Item} (known : Known registry items)
    (new : Known registry more) : Known registry (OrderedSet.insertAll items more) :=
  fun item mem => (OrderedSet.mem_insertAll.mp mem).elim (known item) (new item)

theorem known_distinct (known : Known registry kernel) :
    Known registry (OrderedSet.distinct kernel) :=
  fun item mem => known item (OrderedSet.mem_distinct.mp mem)

theorem closeFrom_eq (fuel i : Nat) (known : Known registry items) :
    closeFrom registry fuel i items = some (registry.closeFrom fuel i items) := by
  induction fuel generalizing i items with
  | zero => rfl
  | succ fuel ih =>
    unfold closeFrom Registry.closeFrom
    cases found : items[i]? with
    | none => rfl
    | some item =>
      dsimp only
      rw [predicted_eq (known item (List.mem_of_getElem? found))]
      exact ih (i + 1) (known_insertAll known (known_predicted item))

theorem close_eq (known : Known registry kernel) :
    close registry kernel = some (registry.close kernel) :=
  closeFrom_eq _ 0 (known_distinct known)

theorem known_close (known : Known registry kernel) : Known registry (registry.close kernel) := by
  intro item mem
  cases Registry.mem_close.mp mem with
  | kernel mem => exact known item mem
  | predicted _ new => exact known_predicted _ item new

theorem outgoing_eq (known : Known registry items) :
    outgoing registry items = some (registry.outgoing items) := by
  refine filterMap_eq fun item mem => ?_
  rw [next_eq (known item mem)]
  rfl

theorem kernels_eq (known : Known registry items) :
    kernels registry items = some (registry.kernels items) := by
  rw [kernels, outgoing_eq known]
  rfl

theorem known_advance (known : Known registry items) (symbol : Symbol) :
    Known registry (registry.advance items symbol) := by
  intro moved mem
  obtain ⟨item, item_mem, -, rfl⟩ := Registry.mem_advance.mp mem
  exact known item item_mem

theorem known_kernels (known : Known registry items) :
    ∀ group ∈ registry.kernels items, Known registry group.2 := by
  rintro ⟨symbol, kernel⟩ mem
  rw [(Registry.mem_kernels.mp mem).2]
  exact known_advance known symbol

end

/-- The closure is taken before it is known whether the node is new. -/
def intern (registry : Registry) (origin : Option (Nat × Symbol)) (nodes : List Node)
    (kernel : List Item) : Option (Nat × List Node) := do
  let items ← close registry kernel
  return match Collection.indexOf? nodes kernel with
    | some i => (i, nodes)
    | none => (nodes.length, nodes ++ [⟨nodes.length, kernel, items, origin⟩])

/-- An edge is stored with the node it leaves, and the node behind it is there. -/
def follow (registry : Registry) (i : Nat) (found : List Node × List (Symbol × Nat))
    (group : Symbol × List Item) : Option (List Node × List (Symbol × Nat)) := do
  let (target, nodes) ← intern registry (some (i, group.1)) found.1 group.2
  let _ ← nodes[i]?
  let _ ← nodes[target]?
  return (nodes, found.2 ++ [(group.1, target)])

def expand (registry : Registry) (i : Nat) (nodes : List Node) :
    Option (List Node × List (Symbol × Nat)) := do
  let node ← nodes[i]?
  let groups ← kernels registry node.items
  groups.foldlM (follow registry i) (nodes, [])

def exploreFrom (registry : Registry) : Nat → Collection → Option Collection
  | 0, collection => some collection
  | fuel + 1, collection =>
    if collection.rows.length < collection.nodes.length then do
      let (nodes, row) ← expand registry collection.rows.length collection.nodes
      exploreFrom registry fuel { collection with nodes, rows := collection.rows ++ [row] }
    else some collection

def explore (registry : Registry) (collection : Collection) (production : Nat) : Option Collection := do
  let (root, nodes) ← intern registry none collection.nodes [⟨production, 0⟩]
  exploreFrom registry (Nat.pow 2 registry.itemCount)
    { collection with nodes, roots := collection.roots ++ [root] }

def ofStarts (registry : Registry) (productions : List Nat) : Option Collection :=
  productions.foldlM (explore registry) ⟨[], [], []⟩

section

variable {nodes : List Node} {node : Node} {i : Nat}

def KnownNodes (registry : Registry) (nodes : List Node) : Prop :=
  ∀ node ∈ nodes, Known registry node.items

theorem intern_eq (origin : Option (Nat × Symbol)) (nodes : List Node)
    (known : Known registry kernel) :
    intern registry origin nodes kernel = some (Collection.intern registry origin nodes kernel) := by
  rw [intern, close_eq known]
  rfl

theorem knownNodes_intern {origin : Option (Nat × Symbol)} (known : KnownNodes registry nodes)
    (new : Known registry kernel) :
    KnownNodes registry (Collection.intern registry origin nodes kernel).2 :=
  Collection.forall_intern known fun _ => known_close new

theorem follow_eq {found : List Node × List (Symbol × Nat)} {group : Symbol × List Item}
    (inside : i < found.1.length) (known : Known registry group.2) :
    follow registry i found group = some (Collection.follow registry i found group) := by
  have kept := inside.trans_le
    (@Collection.prefix_intern registry (some (i, group.1)) found.1 group.2).length_le
  obtain ⟨target, at_target, -⟩ := Collection.exists_of_indexOf?
    (Collection.indexOf?_intern registry (some (i, group.1)) found.1 group.2)
  rw [follow, intern_eq _ _ known]
  simp [kept, at_target, Collection.follow]

theorem expand_eq (at_i : nodes[i]? = some node) (known : KnownNodes registry nodes) :
    expand registry i nodes = some (Collection.expand registry i node nodes) := by
  have inside := (List.getElem?_eq_some_iff.mp at_i).1
  have items := known node (List.mem_of_getElem? at_i)
  rw [expand, at_i, Option.bind_eq_bind, Option.bind_some, kernels_eq items, Option.bind_eq_bind,
    Option.bind_some]
  refine (foldlM_eq (fun found => i < found.1.length) ?_ ?_ inside).1
  · exact fun found inside group mem => follow_eq inside (known_kernels items group mem)
  · exact fun found inside group _ =>
      inside.trans_le (Collection.prefix_intern (some (i, group.1)) found.1 group.2).length_le

theorem knownNodes_expand (at_i : nodes[i]? = some node) (known : KnownNodes registry nodes) :
    KnownNodes registry (Collection.expand registry i node nodes).1 :=
  Collection.forall_followAll i known fun group mem _ =>
    known_close (known_kernels (known node (List.mem_of_getElem? at_i)) group mem)

theorem exploreFrom_eq (fuel : Nat) {collection : Collection}
    (known : KnownNodes registry collection.nodes) :
    exploreFrom registry fuel collection = some (Collection.exploreFrom registry fuel collection) ∧
      KnownNodes registry (Collection.exploreFrom registry fuel collection).nodes := by
  induction fuel generalizing collection with
  | zero => exact ⟨rfl, known⟩
  | succ fuel ih =>
    unfold exploreFrom Collection.exploreFrom
    cases at_i : collection.nodes[collection.rows.length]? with
    | none =>
      rw [if_neg (Nat.not_lt.mpr (List.getElem?_eq_none_iff.mp at_i))]
      exact ⟨rfl, known⟩
    | some node =>
      rw [if_pos (List.getElem?_eq_some_iff.mp at_i).1, expand_eq at_i known]
      exact ih (knownNodes_expand at_i known)

theorem ofStarts_eq {productions : List Nat}
    (known : ∀ production ∈ productions, production < registry.productions.length) :
    ofStarts registry productions = some (Collection.ofStarts registry productions) ∧
      KnownNodes registry (Collection.ofStarts registry productions).nodes := by
  have beginning : ∀ production ∈ productions, Known registry [⟨production, 0⟩] := by
    intro production mem item inside
    rw [List.mem_singleton.mp inside]
    exact known production mem
  have explored : ∀ collection : Collection, KnownNodes registry collection.nodes →
      ∀ production ∈ productions,
        explore registry collection production = some (Collection.explore registry collection production) ∧
          KnownNodes registry (Collection.explore registry collection production).nodes := by
    intro collection found production mem
    rw [explore, intern_eq _ _ (beginning production mem)]
    exact exploreFrom_eq _ (knownNodes_intern found (beginning production mem))
  refine foldlM_eq (fun collection => KnownNodes registry collection.nodes)
    (fun collection found production mem => (explored collection found production mem).1)
    (fun collection found production mem => (explored collection found production mem).2) ?_
  simp [KnownNodes]

end

end ShiftReduce.Checked
