import Mathlib.Data.Finset.Powerset
import ShiftReduce.Automaton.Collection
import ShiftReduce.Proofs.Item.Path

/-!
The collection is complete: the breadth-first scan expands every node it finds. Its nodes have kernels
that differ as sets and hold only items of the registry, so there are at most as many as there are
sets of items, which is the number of steps the scan is given.
-/
namespace ShiftReduce

namespace Registry

variable {registry : Registry}

/-- The dot stands inside a registered production or at its end. -/
def Valid (registry : Registry) (item : Item) : Prop :=
  ∃ production, registry.productions[item.production]? = some production ∧
    item.dot ≤ production.rhs.length

def allItems (registry : Registry) : List Item :=
  registry.productions.zipIdx.flatMap fun (production, id) =>
    (List.range (production.rhs.length + 1)).map (⟨id, ·⟩)

theorem length_allItems (registry : Registry) : registry.allItems.length = registry.itemCount := by
  have sizes : (fun entry : Production × Nat =>
      ((List.range (entry.1.rhs.length + 1)).map (Item.mk entry.2)).length)
      = (fun production : Production => production.rhs.length + 1) ∘ Prod.fst := by
    funext entry
    simp
  rw [allItems, List.length_flatMap, sizes, ← List.map_map, List.zipIdx_map_fst, List.sum,
    List.foldr_map, itemCount]

theorem mem_allItems {item : Item} : item ∈ registry.allItems ↔ registry.Valid item := by
  simp only [allItems, List.mem_flatMap, Prod.exists, List.mk_mem_zipIdx_iff_getElem?,
    List.mem_map, List.mem_range, Valid]
  constructor
  · rintro ⟨production, id, found, dot, inside, rfl⟩
    exact ⟨production, found, Nat.le_of_lt_succ inside⟩
  · rintro ⟨production, found, inside⟩
    exact ⟨production, item.production, found, item.dot, by omega, rfl⟩

theorem valid_beginning {production : Nat} (known : production < registry.productions.length) :
    registry.Valid ⟨production, 0⟩ :=
  ⟨_, List.getElem?_eq_getElem known, Nat.zero_le _⟩

theorem valid_forward {item : Item} {symbol : Symbol}
    (next : registry.next? item = some symbol) : registry.Valid item.forward := by
  obtain ⟨production, found, inside⟩ := next?_eq_some.mp next
  exact ⟨production, found, (List.getElem?_eq_some_iff.mp inside).1⟩

theorem valid_advance {items : List Item} {symbol : Symbol} :
    ∀ item ∈ registry.advance items symbol, registry.Valid item := by
  intro item mem
  obtain ⟨before, -, next, rfl⟩ := mem_advance.mp mem
  exact valid_forward next

theorem mem_kernels {items : List Item} {symbol : Symbol} {kernel : List Item} :
    (symbol, kernel) ∈ registry.kernels items ↔
      (∃ item ∈ items, registry.next? item = some symbol) ∧
        kernel = registry.advance items symbol := by
  simp only [kernels, List.mem_map, OrderedSet.mem_distinct, Prod.mk.injEq, Prod.exists]
  constructor
  · rintro ⟨_, ⟨_, moved, mem, rfl⟩, rfl, rfl⟩
    obtain ⟨item, mem, next, -⟩ := mem_outgoing.mp mem
    exact ⟨⟨item, mem, next⟩, rfl⟩
  · rintro ⟨⟨item, mem, next⟩, rfl⟩
    exact ⟨symbol, ⟨symbol, item.forward, mem_outgoing.mpr ⟨item, mem, next, rfl⟩, rfl⟩, rfl, rfl⟩

theorem nodup_kernels (registry : Registry) (items : List Item) :
    ((registry.kernels items).map (·.1)).Nodup := by
  rw [kernels, List.map_map]
  exact (List.map_id _).symm ▸ OrderedSet.nodup_distinct _

def itemSets (registry : Registry) : Finset (Finset Item) := registry.allItems.toFinset.powerset

theorem mem_itemSets {items : List Item} :
    items.toFinset ∈ registry.itemSets ↔ ∀ item ∈ items, registry.Valid item := by
  simp [itemSets, Finset.subset_iff, mem_allItems]

theorem card_itemSets_le (registry : Registry) :
    registry.itemSets.card ≤ 2 ^ registry.itemCount := by
  rw [itemSets, Finset.card_powerset, ← length_allItems]
  exact Nat.pow_le_pow_right (by omega) (List.toFinset_card_le _)

theorem length_le_card_itemSets {sets : List (Finset Item)} (nodup : sets.Nodup)
    (inside : ∀ set ∈ sets, set ∈ registry.itemSets) : sets.length ≤ registry.itemSets.card := by
  rw [← List.toFinset_card_of_nodup nodup]
  exact Finset.card_le_card fun set mem => inside set (List.mem_toFinset.mp mem)

end Registry

namespace Collection

variable {registry : Registry} {nodes more : List Node} {node : Node} {kernel : List Item} {i : Nat}

theorem hasKernel_iff : node.hasKernel kernel = true ↔ ∀ item, item ∈ node.kernel ↔ item ∈ kernel :=
  OrderedSet.sameMembers_iff

theorem exists_of_indexOf? (found : indexOf? nodes kernel = some i) :
    ∃ node, nodes[i]? = some node ∧ node.hasKernel kernel := by
  obtain ⟨inside, same, -⟩ := List.findIdx?_eq_some_iff_getElem.mp found
  exact ⟨nodes[i], List.getElem?_eq_getElem inside, same⟩

theorem indexOf?_isSome (known : ∃ node ∈ nodes, node.hasKernel kernel) :
    ∃ i, indexOf? nodes kernel = some i := by
  rw [← Option.isSome_iff_exists, indexOf?, List.findIdx?_isSome, List.any_eq_true]
  exact known

theorem indexOf?_of_grown (grown : nodes <+: more) (found : indexOf? nodes kernel = some i) :
    indexOf? more kernel = some i := by
  obtain ⟨new, rfl⟩ := grown
  rw [indexOf?] at found ⊢
  rw [List.findIdx?_append, found]
  rfl

theorem intern_cases (registry : Registry) (origin : Option (Nat × Symbol)) (nodes : List Node)
    (kernel : List Item) :
    (∃ i, indexOf? nodes kernel = some i ∧ intern registry origin nodes kernel = (i, nodes)) ∨
      indexOf? nodes kernel = none ∧ intern registry origin nodes kernel =
        (nodes.length, nodes ++ [.ofKernel registry nodes.length kernel origin]) := by
  unfold intern
  cases found : indexOf? nodes kernel with
  | some i => exact .inl ⟨i, rfl, rfl⟩
  | none => exact .inr ⟨rfl, rfl⟩

theorem prefix_intern (origin : Option (Nat × Symbol)) (nodes : List Node) (kernel : List Item) :
    nodes <+: (intern registry origin nodes kernel).2 := by
  obtain ⟨i, -, made⟩ | ⟨-, made⟩ := intern_cases registry origin nodes kernel
  · rw [made]
  · rw [made]
    exact List.prefix_append _ _

theorem indexOf?_intern (registry : Registry) (origin : Option (Nat × Symbol)) (nodes : List Node)
    (kernel : List Item) : indexOf? (intern registry origin nodes kernel).2 kernel =
      some (intern registry origin nodes kernel).1 := by
  obtain ⟨i, found, made⟩ | ⟨missing, made⟩ := intern_cases registry origin nodes kernel <;> rw [made]
  · exact found
  · have same : (Node.ofKernel registry nodes.length kernel origin).hasKernel kernel = true :=
      hasKernel_iff.mpr fun _ => Iff.rfl
    rw [indexOf?] at missing ⊢
    rw [List.findIdx?_append, missing, List.findIdx?_singleton, if_pos same]
    simp

/-- Every node one symbol away from `node` is there. -/
def Covers (registry : Registry) (nodes : List Node) (node : Node) : Prop :=
  ∀ symbol kernel, (symbol, kernel) ∈ registry.kernels node.items →
    ∃ target ∈ nodes, target.hasKernel kernel

theorem Covers.mono (covers : Covers registry nodes node) (grown : nodes <+: more) :
    Covers registry more node := by
  intro symbol kernel mem
  obtain ⟨target, target_mem, same⟩ := covers symbol kernel mem
  exact ⟨target, grown.subset target_mem, same⟩

def edges (registry : Registry) (nodes : List Node) (node : Node) : List (Symbol × Nat) :=
  (registry.kernels node.items).filterMap fun (symbol, kernel) =>
    (indexOf? nodes kernel).map (symbol, ·)

theorem edges_of_grown (covers : Covers registry nodes node) (grown : nodes <+: more) :
    edges registry more node = edges registry nodes node := by
  refine List.filterMap_congr fun (symbol, kernel) mem => ?_
  obtain ⟨target, found⟩ := indexOf?_isSome (covers symbol kernel mem)
  dsimp only
  rw [found, indexOf?_of_grown grown found]

section

variable (i : Nat) (groups : List (Symbol × List Item)) (found : List Node × List (Symbol × Nat))

theorem prefix_followAll : found.1 <+: (groups.foldl (follow registry i) found).1 := by
  induction groups generalizing found with
  | nil => exact List.prefix_rfl
  | cons group rest ih =>
    exact (prefix_intern _ found.1 group.2).trans (ih (follow registry i found group))

theorem hasKernel_followAll {symbol : Symbol} (mem : (symbol, kernel) ∈ groups) :
    ∃ node ∈ (groups.foldl (follow registry i) found).1, node.hasKernel kernel := by
  induction groups generalizing found with
  | nil => cases mem
  | cons group rest ih =>
    obtain rfl | mem := List.mem_cons.mp mem
    · obtain ⟨node, at_target, same⟩ :=
        exists_of_indexOf? (indexOf?_intern registry (some (i, symbol)) found.1 kernel)
      exact ⟨node, (prefix_followAll i rest _).subset (List.mem_of_getElem? at_target), same⟩
    · exact ih _ mem

theorem edges_followAll (grown : (groups.foldl (follow registry i) found).1 <+: more) :
    (groups.foldl (follow registry i) found).2 = found.2 ++ groups.filterMap fun (symbol, kernel) =>
      (indexOf? more kernel).map (symbol, ·) := by
  induction groups generalizing found with
  | nil => simp
  | cons group rest ih =>
    obtain ⟨symbol, kernel⟩ := group
    have interned := indexOf?_intern registry (some (i, symbol)) found.1 kernel
    have kept := indexOf?_of_grown
      ((prefix_followAll i rest (follow registry i found (symbol, kernel))).trans grown) interned
    rw [List.foldl_cons, ih _ grown]
    simp [follow, kept]

end

theorem prefix_expand (registry : Registry) (i : Nat) (node : Node) (nodes : List Node) :
    nodes <+: (expand registry i node nodes).1 :=
  prefix_followAll i _ (nodes, [])

theorem covers_expand (i : Nat) (node : Node) (nodes : List Node) :
    Covers registry (expand registry i node nodes).1 node :=
  fun _ _ mem => hasKernel_followAll i _ (nodes, []) mem

theorem edges_expand (i : Nat) (node : Node) (nodes : List Node) :
    (expand registry i node nodes).2 = edges registry (expand registry i node nodes).1 node :=
  edges_followAll i _ (nodes, []) List.prefix_rfl

/-- What holds of the nodes at every moment of the search. -/
structure Sound (registry : Registry) (nodes : List Node) : Prop where
  id_eq : ∀ (i : Nat) (node : Node), nodes[i]? = some node → node.id = i
  items_eq : ∀ node ∈ nodes, node.items = registry.close node.kernel
  valid : ∀ node ∈ nodes, ∀ item ∈ node.kernel, registry.Valid item
  distinct : nodes.Pairwise fun earlier later => ¬earlier.hasKernel later.kernel

namespace Sound

theorem nil : Sound registry [] := ⟨by simp, by simp, by simp, .nil⟩

theorem length_le (sound : Sound registry nodes) : nodes.length ≤ 2 ^ registry.itemCount := by
  let kernels := nodes.map fun node => node.kernel.toFinset
  have nodup : kernels.Nodup := by
    refine List.pairwise_map.mpr (sound.distinct.imp fun apart same => apart ?_)
    rw [hasKernel_iff]
    intro item
    rw [← List.mem_toFinset, same, List.mem_toFinset]
  have inside : ∀ kernel ∈ kernels, kernel ∈ registry.itemSets := by
    intro kernel mem
    obtain ⟨node, node_mem, rfl⟩ := List.mem_map.mp mem
    exact Registry.mem_itemSets.mpr (sound.valid node node_mem)
  calc
    nodes.length = kernels.length := (List.length_map _).symm
    _ ≤ registry.itemSets.card := Registry.length_le_card_itemSets nodup inside
    _ ≤ 2 ^ registry.itemCount := registry.card_itemSets_le

theorem intern (sound : Sound registry nodes) (origin : Option (Nat × Symbol))
    (valid : ∀ item ∈ kernel, registry.Valid item) :
    Sound registry (intern registry origin nodes kernel).2 := by
  obtain ⟨i, -, made⟩ | ⟨missing, made⟩ := intern_cases registry origin nodes kernel <;> rw [made]
  · exact sound
  · refine ⟨?_, ?_, ?_, List.pairwise_append.mpr ⟨sound.distinct, List.pairwise_singleton _ _, ?_⟩⟩
    · intro i node at_i
      rw [List.getElem?_append] at at_i
      split at at_i
      · exact sound.id_eq i node at_i
      · have last := (List.getElem?_eq_some_iff.mp at_i).1
        rw [List.mem_singleton.mp (List.mem_of_getElem? at_i)]
        change nodes.length = i
        rw [List.length_singleton] at last
        omega
    · exact List.forall_mem_append.mpr ⟨sound.items_eq, List.forall_mem_singleton.mpr rfl⟩
    · exact List.forall_mem_append.mpr ⟨sound.valid, List.forall_mem_singleton.mpr valid⟩
    · intro earlier mem later last same
      rw [List.mem_singleton.mp last] at same
      obtain ⟨i, found⟩ := indexOf?_isSome ⟨earlier, mem, same⟩
      cases missing.symm.trans found

theorem followAll (sound : Sound registry nodes) (i : Nat) (row : List (Symbol × Nat))
    {groups : List (Symbol × List Item)}
    (valid : ∀ group ∈ groups, ∀ item ∈ group.2, registry.Valid item) :
    Sound registry (groups.foldl (follow registry i) (nodes, row)).1 := by
  induction groups generalizing nodes row with
  | nil => exact sound
  | cons group rest ih =>
    exact ih (sound.intern _ (valid group List.mem_cons_self)) _
      fun group mem => valid group (List.mem_cons_of_mem _ mem)

theorem expand (sound : Sound registry nodes) (i : Nat) (node : Node) :
    Sound registry (expand registry i node nodes).1 := by
  refine sound.followAll i [] ?_
  rintro ⟨symbol, kernel⟩ mem
  rw [(Registry.mem_kernels.mp mem).2]
  exact Registry.valid_advance

end Sound

/-- The edges recorded are those that can be looked up, and what they lead to is there. -/
structure Recorded (registry : Registry) (collection : Collection) : Prop
    extends Sound registry collection.nodes where
  within : collection.rows.length ≤ collection.nodes.length
  covers : ∀ i < collection.rows.length, ∀ node, collection.nodes[i]? = some node →
    Covers registry collection.nodes node
  rows_eq : ∀ i < collection.rows.length, ∀ node, collection.nodes[i]? = some node →
    collection.rows[i]? = some (edges registry collection.nodes node)

theorem getElem?_of_grown {α : Type} {xs ys : List α} {x : α} (grown : xs <+: ys)
    (found : xs[i]? = some x) : ys[i]? = some x := by
  obtain ⟨inside, rfl⟩ := List.getElem?_eq_some_iff.mp found
  exact List.prefix_iff_getElem?.mp grown i inside

namespace Recorded

variable {collection : Collection} (recorded : Recorded registry collection)

include recorded

theorem grow (grown : collection.nodes <+: more) (sound : Sound registry more) (roots : List Nat) :
    Recorded registry { collection with nodes := more, roots } := by
  have old : ∀ i < collection.rows.length, ∀ node, more[i]? = some node →
      collection.nodes[i]? = some node := by
    intro i before node at_i
    have inside := List.getElem?_eq_getElem (Nat.lt_of_lt_of_le before recorded.within)
    rw [← at_i, inside, getElem?_of_grown grown inside]
  refine ⟨sound, recorded.within.trans grown.length_le, fun i before node at_i => ?_,
    fun i before node at_i => ?_⟩
  · exact (recorded.covers i before node (old i before node at_i)).mono grown
  · rw [edges_of_grown (recorded.covers i before node (old i before node at_i)) grown]
    exact recorded.rows_eq i before node (old i before node at_i)

theorem advance (found : collection.nodes[collection.rows.length]? = some node) :
    Recorded registry (collection.advance registry node) := by
  have grown := prefix_expand registry collection.rows.length node collection.nodes
  have kept := recorded.grow grown (recorded.toSound.expand _ node) collection.roots
  have before := (List.getElem?_eq_some_iff.mp found).1
  have last : (expand registry collection.rows.length node collection.nodes).1[collection.rows.length]? =
      some node := getElem?_of_grown grown found
  -- the last row is that of the node expanded, and the others stay right as nodes are added
  have earlier_or_last : ∀ i, i < (collection.advance registry node).rows.length →
      i < collection.rows.length ∨ i = collection.rows.length := by
    intro i inside
    exact Nat.lt_or_eq_of_le (Nat.le_of_lt_succ (by simpa [Collection.advance] using inside))
  refine ⟨kept.toSound, ?_, fun i inside other at_i => ?_, fun i inside other at_i => ?_⟩
  · have longer := grown.length_le
    simp only [Collection.advance, List.length_append, List.length_singleton]
    omega
  · obtain earlier | rfl := earlier_or_last i inside
    · exact kept.covers i earlier other at_i
    · cases last.symm.trans at_i
      exact covers_expand _ node _
  · obtain earlier | rfl := earlier_or_last i inside
    · exact (List.getElem?_append_left earlier).trans (kept.rows_eq i earlier other at_i)
    · cases last.symm.trans at_i
      exact List.getElem?_concat_length.trans (congrArg some (edges_expand _ node _))

end Recorded

theorem exploreFrom_keeps (property : Collection → Prop) {collection : Collection}
    (keeps : ∀ (collection : Collection) (node : Node),
      collection.nodes[collection.rows.length]? = some node → property collection →
        property (collection.advance registry node)) (fuel : Nat) (holds : property collection) :
    property (exploreFrom registry fuel collection) := by
  induction fuel generalizing collection with
  | zero => exact holds
  | succ fuel ih =>
    unfold exploreFrom
    cases found : collection.nodes[collection.rows.length]? with
    | none => exact holds
    | some node => exact ih (keeps collection node found holds)

theorem prefix_exploreFrom (fuel : Nat) (collection : Collection) :
    collection.nodes <+: (exploreFrom registry fuel collection).nodes :=
  exploreFrom_keeps (fun later => collection.nodes <+: later.nodes)
    (fun later node _ grown => grown.trans (prefix_expand registry later.rows.length node later.nodes))
    fuel List.prefix_rfl

theorem roots_exploreFrom (fuel : Nat) (collection : Collection) :
    (exploreFrom registry fuel collection).roots = collection.roots :=
  exploreFrom_keeps (fun later => later.roots = collection.roots)
    (fun _ _ _ same => same) fuel rfl

structure Whole (registry : Registry) (collection : Collection) : Prop
    extends Recorded registry collection where
  length_eq : collection.rows.length = collection.nodes.length

theorem Recorded.exploreFrom {collection : Collection} (recorded : Recorded registry collection)
    (fuel : Nat) (enough : 2 ^ registry.itemCount ≤ fuel + collection.rows.length) :
    Whole registry (exploreFrom registry fuel collection) := by
  induction fuel generalizing collection with
  | zero =>
    have few := recorded.length_le
    have within := recorded.within
    exact ⟨recorded, by rw [Collection.exploreFrom]; omega⟩
  | succ fuel ih =>
    unfold Collection.exploreFrom
    cases found : collection.nodes[collection.rows.length]? with
    | none =>
      exact ⟨recorded, Nat.le_antisymm recorded.within (List.getElem?_eq_none_iff.mp found)⟩
    | some node =>
      refine ih (recorded.advance found) ?_
      simp only [Collection.advance, List.length_append, List.length_singleton]
      omega

section

variable {collection : Collection} {production : Nat} {productions : List Nat}

theorem prefix_explore (collection : Collection) (production : Nat) :
    collection.nodes <+: (explore registry collection production).nodes :=
  (prefix_intern none collection.nodes _).trans (prefix_exploreFrom _ ⟨_, _, _⟩)

theorem explore_whole (whole : Whole registry collection)
    (known : production < registry.productions.length) :
    Whole registry (explore registry collection production) := by
  have valid : ∀ item ∈ [(⟨production, 0⟩ : Item)], registry.Valid item :=
    List.forall_mem_singleton.mpr (Registry.valid_beginning known)
  exact (whole.grow (prefix_intern none _ _) (whole.toSound.intern none valid) _).exploreFrom _
    (Nat.le_add_right _ _)

theorem roots_explore (registry : Registry) (collection : Collection) (production : Nat) :
    ∃ root, indexOf? (explore registry collection production).nodes [⟨production, 0⟩] = some root ∧
      (explore registry collection production).roots = collection.roots ++ [root] :=
  ⟨_, indexOf?_of_grown (prefix_exploreFrom _ _)
    (indexOf?_intern registry none collection.nodes [⟨production, 0⟩]), roots_exploreFrom _ _⟩

theorem ofStarts_concat (productions : List Nat) (production : Nat) :
    ofStarts registry (productions ++ [production]) =
      explore registry (ofStarts registry productions) production :=
  List.foldl_concat ..

theorem ofStarts_whole (known : ∀ production ∈ productions, production < registry.productions.length) :
    Whole registry (ofStarts registry productions) := by
  induction productions using List.reverseRecOn with
  | nil => exact ⟨⟨.nil, Nat.le_refl 0, by simp [ofStarts], by simp [ofStarts]⟩, rfl⟩
  | append_singleton front production ih =>
    rw [List.forall_mem_append, List.forall_mem_singleton] at known
    rw [ofStarts_concat]
    exact explore_whole (ih known.1) known.2

theorem exists_of_forall₂ {α β : Type} {relation : α → β → Prop} {xs : List α} {ys : List β} {x : α}
    (related : List.Forall₂ relation xs ys) (mem : x ∈ xs) : ∃ y, relation x y := by
  induction related with
  | nil => cases mem
  | cons first _ ih =>
    obtain rfl | mem := List.mem_cons.mp mem
    · exact ⟨_, first⟩
    · exact ih mem

theorem roots_ofStarts (registry : Registry) (productions : List Nat) :
    List.Forall₂ (fun production root =>
      indexOf? (ofStarts registry productions).nodes [⟨production, 0⟩] = some root)
        productions (ofStarts registry productions).roots := by
  induction productions using List.reverseRecOn with
  | nil => exact .nil
  | append_singleton front production ih =>
    obtain ⟨root, found, roots⟩ := roots_explore registry (ofStarts registry front) production
    rw [ofStarts_concat, roots]
    exact List.rel_append (ih.imp fun _ _ => indexOf?_of_grown (prefix_explore _ _))
      (.cons found .nil)

end

structure Complete (registry : Registry) (nodes : List Node) : Prop extends Sound registry nodes where
  covers : ∀ node ∈ nodes, Covers registry nodes node

variable {productions : List Nat}
  (known : ∀ production ∈ productions, production < registry.productions.length)

include known

theorem ofStarts_complete : Complete registry (ofStarts registry productions).nodes := by
  have whole := ofStarts_whole known
  refine ⟨whole.toSound, fun node mem => ?_⟩
  obtain ⟨i, at_i⟩ := List.mem_iff_getElem?.mp mem
  have inside := (List.getElem?_eq_some_iff.mp at_i).1
  exact whole.covers i (whole.length_eq ▸ inside) node at_i

theorem rows_ofStarts (at_i : (ofStarts registry productions).nodes[i]? = some node) :
    (ofStarts registry productions).rows[i]? =
      some (edges registry (ofStarts registry productions).nodes node) := by
  have whole := ofStarts_whole known
  have inside := (List.getElem?_eq_some_iff.mp at_i).1
  exact whole.rows_eq i (whole.length_eq ▸ inside) node at_i

omit known in
theorem hasKernel_ofStarts (registry : Registry) {production : Nat} (mem : production ∈ productions) :
    ∃ node ∈ (ofStarts registry productions).nodes, node.hasKernel [⟨production, 0⟩] := by
  obtain ⟨root, found⟩ := exists_of_forall₂ (roots_ofStarts registry productions) mem
  obtain ⟨node, at_root, same⟩ := exists_of_indexOf? found
  exact ⟨node, List.mem_of_getElem? at_root, same⟩

end Collection

end ShiftReduce
