import ShiftReduce.Proofs.Automaton.Collection

/-!
What the items of a node tell of its kernel. Closure adds beginnings of productions that are not
augmented, and a kernel holds none of those: it has moved dots only, or the beginning of an augmented
production. So nodes that differ in their kernels differ in their items.
-/
namespace ShiftReduce

namespace Registry

variable {registry : Registry} {item : Item}

/-- An item that closure never adds. -/
def Essential (registry : Registry) (item : Item) : Prop :=
  0 < item.dot ∨ registry.isStartProduction item.production = true

theorem not_essential_of_predicted (wellformed : registry.Wellformed) {new : Item}
    (predicted : new ∈ registry.predicted item) : ¬registry.Essential new := by
  obtain ⟨symbol, id, production, next, found, rfl, rfl⟩ := mem_predicted.mp predicted
  have not_start := ItemPath.isStartProduction_of_expected wellformed found next
  simp [Essential, not_start]

theorem Closes.mem_kernel (wellformed : registry.Wellformed) {kernel : List Item}
    (closes : registry.Closes kernel item) (essential : registry.Essential item) :
    item ∈ kernel := by
  cases closes with
  | kernel mem => exact mem
  | predicted _ new => exact absurd essential (not_essential_of_predicted wellformed new)

/-- Kernels of essential items are the same set exactly if their closures are. -/
theorem mem_close_congr (wellformed : registry.Wellformed) {kernel other : List Item}
    (essential : ∀ item ∈ kernel, registry.Essential item)
    (other_essential : ∀ item ∈ other, registry.Essential item) :
    (∀ item, item ∈ registry.close kernel ↔ item ∈ registry.close other) ↔
      ∀ item, item ∈ kernel ↔ item ∈ other := by
  simp only [mem_close]
  refine ⟨fun same item => ?_, fun same item => closes_congr same⟩
  exact ⟨fun mem => ((same item).mp (.kernel mem)).mem_kernel wellformed (essential item mem),
    fun mem => ((same item).mpr (.kernel mem)).mem_kernel wellformed (other_essential item mem)⟩

end Registry

namespace Collection

variable {registry : Registry} {productions : List Nat}

section

variable {property : Node → Prop}

theorem forall_intern {nodes : List Node} {kernel : List Item} {origin : Option (Nat × Symbol)}
    (known : ∀ node ∈ nodes, property node)
    (new : ∀ id, property (.ofKernel registry id kernel origin)) :
    ∀ node ∈ (intern registry origin nodes kernel).2, property node := by
  obtain ⟨i, -, made⟩ | ⟨-, made⟩ := intern_cases registry origin nodes kernel
  · rwa [made]
  · rw [made, List.forall_mem_append, List.forall_mem_singleton]
    exact ⟨known, new _⟩

theorem forall_followAll (i : Nat) {groups : List (Symbol × List Item)} {nodes : List Node}
    {row : List (Symbol × Nat)} (known : ∀ node ∈ nodes, property node)
    (new : ∀ group ∈ groups, ∀ id, property (.ofKernel registry id group.2 (some (i, group.1)))) :
    ∀ node ∈ (groups.foldl (follow registry i) (nodes, row)).1, property node := by
  induction groups generalizing nodes row with
  | nil => exact known
  | cons group rest ih =>
    rw [List.forall_mem_cons] at new
    exact ih (forall_intern known new.1) new.2

variable (edge : ∀ i node, property node → ∀ group ∈ registry.kernels node.items, ∀ id,
  property (.ofKernel registry id group.2 (some (i, group.1))))

include edge

theorem forall_explore {collection : Collection} {production : Nat}
    (known : ∀ node ∈ collection.nodes, property node)
    (start : ∀ id, property (.ofKernel registry id [⟨production, 0⟩] none)) :
    ∀ node ∈ (explore registry collection production).nodes, property node := by
  refine exploreFrom_keeps (fun later => ∀ node ∈ later.nodes, property node) ?_ _
    (forall_intern known start)
  intro later node found known
  exact forall_followAll _ known (edge _ node (known node (List.mem_of_getElem? found)))

theorem forall_ofStarts
    (start : ∀ production ∈ productions, ∀ id, property (.ofKernel registry id [⟨production, 0⟩] none)) :
    ∀ node ∈ (ofStarts registry productions).nodes, property node := by
  induction productions using List.reverseRecOn with
  | nil => simp [ofStarts]
  | append_singleton front production ih =>
    rw [List.forall_mem_append, List.forall_mem_singleton] at start
    rw [ofStarts_concat]
    exact forall_explore edge (ih start.1) start.2

end

theorem kernel_of_ofStarts : ∀ node ∈ (ofStarts registry productions).nodes,
    ∀ item ∈ node.kernel, 0 < item.dot ∨ item.production ∈ productions := by
  refine forall_ofStarts ?_ ?_
  · intro i node _ group mem id item inside
    obtain ⟨symbol, kernel⟩ := group
    rw [Node.ofKernel, (Registry.mem_kernels.mp mem).2] at inside
    obtain ⟨earlier, -, -, rfl⟩ := Registry.mem_advance.mp inside
    exact .inl (Nat.succ_pos _)
  · intro production mem id item inside
    rw [List.mem_singleton.mp inside]
    exact .inr mem

theorem essential_of_ofStarts
    (starts : ∀ production ∈ productions, registry.isStartProduction production = true) :
    ∀ node ∈ (ofStarts registry productions).nodes, ∀ item ∈ node.kernel, registry.Essential item :=
  fun node mem item inside => (kernel_of_ofStarts node mem item inside).imp_right (starts _)

theorem Sound.index_eq {nodes : List Node} (sound : Sound registry nodes) {i j : Nat}
    {node other : Node} (at_i : nodes[i]? = some node) (at_j : nodes[j]? = some other)
    (same : ∀ item, item ∈ node.kernel ↔ item ∈ other.kernel) : i = j := by
  obtain ⟨inside_i, rfl⟩ := List.getElem?_eq_some_iff.mp at_i
  obtain ⟨inside_j, rfl⟩ := List.getElem?_eq_some_iff.mp at_j
  have apart := List.pairwise_iff_getElem.mp sound.distinct
  obtain before | equal | after := Nat.lt_trichotomy i j
  · exact absurd (hasKernel_iff.mpr same) (apart i j inside_i inside_j before)
  · exact equal
  · exact absurd (hasKernel_iff.mpr fun item => (same item).symm)
      (apart j i inside_j inside_i after)

theorem index_unique (wellformed : registry.Wellformed)
    (starts : ∀ production ∈ productions, registry.isStartProduction production = true)
    {i j : Nat} {node other : Node} (at_i : (ofStarts registry productions).nodes[i]? = some node)
    (at_j : (ofStarts registry productions).nodes[j]? = some other)
    (same : ∀ item, item ∈ node.items ↔ item ∈ other.items) : i = j := by
  have complete := ofStarts_complete fun production mem =>
    wellformed.production_lt (starts production mem)
  have essential := essential_of_ofStarts starts
  have mem := List.mem_of_getElem? at_i
  have other_mem := List.mem_of_getElem? at_j
  rw [complete.items_eq node mem, complete.items_eq other other_mem] at same
  exact complete.index_eq at_i at_j
    ((Registry.mem_close_congr wellformed (essential node mem) (essential other other_mem)).mp same)

end Collection

end ShiftReduce
