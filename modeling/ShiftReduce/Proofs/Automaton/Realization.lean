import ShiftReduce.Automaton
import ShiftReduce.Proofs.Automaton.Collection

/-!
What an automaton built from a registry does, without how it was built: the items of its start states,
where an edge leads, which edges there are, and the rows of actions.
-/
namespace ShiftReduce

theorem lookup_filterMap {α β : Type} [DecidableEq α] {value : α → Option β} {keys : List α}
    {key : α} {entry : β} :
    (keys.filterMap fun k => (value k).map (k, ·)).lookup key = some entry ↔
      key ∈ keys ∧ value key = some entry := by
  induction keys with
  | nil => simp
  | cons first rest ih =>
    by_cases same : key = first
    · subst same
      cases found : value key with
      | none => simp [found, ih]
      | some v => simp [found]
    · cases found : value first with
      | none => simp [found, ih, same]
      | some v => simp [found, ih, same, List.lookup_cons, beq_false_of_ne same]

namespace Collection

variable {nodes : List Node}

theorem lookup_edges {registry : Registry} {node : Node} {symbol : Symbol} {target : Nat} :
    (edges registry nodes node).lookup symbol = some target ↔
      (∃ item ∈ node.items, registry.next? item = some symbol) ∧
        indexOf? nodes (registry.advance node.items symbol) = some target := by
  have table : edges registry nodes node =
      (OrderedSet.distinct ((registry.outgoing node.items).map (·.1))).filterMap fun symbol =>
        (indexOf? nodes (registry.advance node.items symbol)).map (symbol, ·) := by
    rw [edges, Registry.kernels, List.filterMap_map]
    rfl
  have keys : symbol ∈ OrderedSet.distinct ((registry.outgoing node.items).map (·.1)) ↔
      ∃ item ∈ node.items, registry.next? item = some symbol := by
    simp [OrderedSet.mem_distinct, Registry.mem_outgoing]
  rw [table, lookup_filterMap, keys]

end Collection

namespace Automaton

structure Realizes (registry : Registry) (lookahead : Lookahead) (automaton : Automaton) : Prop where
  start_items : ∀ {symbol : Symbol} {root : Nat}, automaton.start? symbol = some root →
    ∃ production state, registry.startProduction symbol = some production ∧
      automaton.states[root]? = some state ∧
      ∀ item, item ∈ state.items ↔ registry.Closes [⟨production, 0⟩] item
  goto_items : ∀ {q target : Nat} {symbol : Symbol} {state : State},
    automaton.states[q]? = some state → automaton.goto? q symbol = some target →
    (∃ item ∈ state.items, registry.next? item = some symbol) ∧
      ∃ next, automaton.states[target]? = some next ∧
        ∀ item, item ∈ next.items ↔ registry.Closes (registry.advance state.items symbol) item
  goto_exists : ∀ {q : Nat} {item : Item} {symbol : Symbol} {state : State},
    automaton.states[q]? = some state → item ∈ state.items → registry.next? item = some symbol →
    ∃ target, automaton.goto? q symbol = some target
  row_eq : ∀ {q : Nat} {state : State}, automaton.states[q]? = some state →
    state.row = Cell.row registry lookahead state.items state.edges
  id_eq : ∀ {q : Nat} {state : State}, automaton.states[q]? = some state → state.id = q
  terminals_nodup : registry.terminals.Nodup

variable {registry : Registry} {lookahead : Lookahead} {symbols : List Symbol}

namespace Realizes

variable {automaton : Automaton} {q production : Nat} {state : State} {symbol : Symbol}
  {read : List Symbol} (realizes : Realizes registry lookahead automaton)

include realizes

theorem start_paths {root : Nat} (at_root : automaton.start? symbol = some root)
    (declared : registry.startProduction symbol = some production) :
    ∃ state, automaton.states[root]? = some state ∧
      ∀ item, item ∈ state.items ↔ ItemPath registry production [] item := by
  obtain ⟨_, state, found, at_state, items⟩ := realizes.start_items at_root
  cases declared.symm.trans found
  exact ⟨state, at_state, fun item => (items item).trans ItemPath.nil_iff.symm⟩

theorem goto_paths {target : Nat} (at_q : automaton.states[q]? = some state)
    (items : ∀ item, item ∈ state.items ↔ ItemPath registry production read item)
    (edge : automaton.goto? q symbol = some target) :
    ∃ next, automaton.states[target]? = some next ∧
      ∀ item, item ∈ next.items ↔ ItemPath registry production (read ++ [symbol]) item := by
  obtain ⟨-, next, at_next, next_items⟩ := realizes.goto_items at_q edge
  exact ⟨next, at_next, fun item => (next_items item).trans (ItemPath.snoc_iff items).symm⟩

end Realizes

theorem startProductions_eq {pairs : List (Symbol × Nat)}
    (built : startProductions registry symbols = .ok pairs) :
    pairs.map (·.1) = symbols ∧ ∀ pair ∈ pairs, registry.startProduction pair.1 = some pair.2 := by
  induction symbols generalizing pairs with
  | nil =>
    cases built
    simp
  | cons symbol rest ih =>
    unfold startProductions at built
    split at built
    · cases built
    · rename_i production found
      obtain ⟨others, rest_built, last⟩ := bind_eq_ok.mp built
      cases last
      obtain ⟨names, productions⟩ := ih rest_built
      exact ⟨congrArg (symbol :: ·) names, List.forall_mem_cons.mpr ⟨found, productions⟩⟩

theorem startProductions_of_declared (declared : symbols ⊆ registry.starts) :
    ∃ pairs, startProductions registry symbols = .ok pairs := by
  induction symbols with
  | nil => exact ⟨[], rfl⟩
  | cons symbol rest ih =>
    rw [List.cons_subset] at declared
    obtain ⟨pairs, paired⟩ := ih declared.2
    obtain ⟨production, found⟩ := Registry.exists_startProduction declared.1
    refine ⟨(symbol, production) :: pairs, ?_⟩
    rw [startProductions, found]
    exact bind_eq_ok.mpr ⟨pairs, paired, rfl⟩

theorem buildAll_eq_ok (registry : Registry) (lookahead : Lookahead) :
    ∃ automaton, buildAll registry lookahead = .ok automaton := by
  obtain ⟨pairs, paired⟩ := startProductions_of_declared (List.Subset.refl registry.starts)
  exact ⟨_, bind_eq_ok.mpr ⟨pairs, paired, rfl⟩⟩

theorem isStartProduction_of_startProduction {symbol : Symbol} {production : Nat}
    (found : registry.startProduction symbol = some production) :
    registry.isStartProduction production = true :=
  decide_eq_true (List.getElem?_eq_some_iff.mp (Registry.getElem?_of_startProduction found)).1

section

variable {pairs : List (Symbol × Nat)}

theorem isStartProduction_of_paired
    (paired : ∀ pair ∈ pairs, registry.startProduction pair.1 = some pair.2) :
    ∀ production ∈ pairs.map (·.2), registry.isStartProduction production = true := by
  intro production mem
  obtain ⟨pair, pair_mem, rfl⟩ := List.mem_map.mp mem
  exact isStartProduction_of_startProduction (paired pair pair_mem)

theorem production_lt_of_paired (wellformed : registry.Wellformed)
    (paired : ∀ pair ∈ pairs, registry.startProduction pair.1 = some pair.2) :
    ∀ production ∈ pairs.map (·.2), production < registry.productions.length :=
  fun production mem => wellformed.production_lt (isStartProduction_of_paired paired production mem)

theorem getElem?_states
    (known : ∀ production ∈ pairs.map (·.2), production < registry.productions.length)
    (lookahead : Lookahead) (q : Nat) :
    (ofProductions registry lookahead pairs).states[q]? =
      (Collection.ofStarts registry (pairs.map (·.2))).nodes[q]?.map fun node =>
        let edges := Collection.edges registry (Collection.ofStarts registry (pairs.map (·.2))).nodes node
        { node with edges, row := Cell.row registry lookahead node.items edges } := by
  simp only [ofProductions, List.getElem?_map, List.getElem?_zipIdx, Option.map_map]
  refine Option.map_congr fun node at_q => ?_
  have row := Collection.rows_ofStarts known at_q
  simp [row]

theorem starts_ofProductions (registry : Registry) (lookahead : Lookahead) (pairs : List (Symbol × Nat)) :
    (ofProductions registry lookahead pairs).starts = pairs.filterMap fun (symbol, production) =>
      (Collection.indexOf? (Collection.ofStarts registry (pairs.map (·.2))).nodes [⟨production, 0⟩]).map
        (symbol, ·) := by
  have recorded := Collection.roots_ofStarts registry (pairs.map (·.2))
  rw [ofProductions]
  dsimp only
  generalize (Collection.ofStarts registry (pairs.map (·.2))).roots = roots at recorded ⊢
  generalize (Collection.ofStarts registry (pairs.map (·.2))).nodes = nodes at recorded ⊢
  induction pairs generalizing roots with
  | nil => rfl
  | cons pair rest ih =>
    rw [List.map_cons] at recorded
    cases recorded with
    | cons first others => simp [first, ih _ others]

theorem start?_ofProductions
    (paired : ∀ pair ∈ pairs, registry.startProduction pair.1 = some pair.2) {symbol : Symbol}
    {root : Nat} :
    (ofProductions registry lookahead pairs).start? symbol = some root ↔
      symbol ∈ pairs.map (·.1) ∧ ∃ production, registry.startProduction symbol = some production ∧
        Collection.indexOf? (Collection.ofStarts registry (pairs.map (·.2))).nodes [⟨production, 0⟩]
          = some root := by
  have table : (ofProductions registry lookahead pairs).starts =
      (pairs.map (·.1)).filterMap fun symbol =>
        ((registry.startProduction symbol).bind fun production =>
          Collection.indexOf? (Collection.ofStarts registry (pairs.map (·.2))).nodes
            [⟨production, 0⟩]).map (symbol, ·) := by
    rw [List.filterMap_map, starts_ofProductions]
    refine List.filterMap_congr fun pair mem => ?_
    simp [paired pair mem]
  rw [start?, table, lookup_filterMap, Option.bind_eq_some_iff]

theorem goto?_ofProductions
    (known : ∀ production ∈ pairs.map (·.2), production < registry.productions.length)
    {q target : Nat} {symbol : Symbol} :
    (ofProductions registry lookahead pairs).goto? q symbol = some target ↔
      ∃ node, (Collection.ofStarts registry (pairs.map (·.2))).nodes[q]? = some node ∧
        (∃ item ∈ node.items, registry.next? item = some symbol) ∧
        Collection.indexOf? (Collection.ofStarts registry (pairs.map (·.2))).nodes
          (registry.advance node.items symbol) = some target := by
  rw [goto?, getElem?_states known, Option.bind_map, Option.bind_eq_some_iff]
  exact exists_congr fun node => and_congr_right fun _ => Collection.lookup_edges

theorem state_of_indexOf? (wellformed : registry.Wellformed)
    (paired : ∀ pair ∈ pairs, registry.startProduction pair.1 = some pair.2) (lookahead : Lookahead)
    {q : Nat} {kernel : List Item}
    (found : Collection.indexOf? (Collection.ofStarts registry (pairs.map (·.2))).nodes kernel = some q) :
    ∃ state, (ofProductions registry lookahead pairs).states[q]? = some state ∧
      ∀ item, item ∈ state.items ↔ registry.Closes kernel item := by
  have known := production_lt_of_paired wellformed paired
  obtain ⟨node, at_q, same⟩ := Collection.exists_of_indexOf? found
  refine ⟨_, by rw [getElem?_states known, at_q]; rfl, fun item => ?_⟩
  have items := (Collection.ofStarts_complete known).items_eq node (List.mem_of_getElem? at_q)
  change item ∈ node.items ↔ _
  rw [items, Registry.mem_close]
  exact Registry.closes_congr (Collection.hasKernel_iff.mp same)

theorem realizes_ofProductions (wellformed : registry.Wellformed)
    (paired : ∀ pair ∈ pairs, registry.startProduction pair.1 = some pair.2) :
    Realizes registry lookahead (ofProductions registry lookahead pairs) := by
  have known := production_lt_of_paired wellformed paired
  have complete := Collection.ofStarts_complete known
  exact {
    start_items := by
      intro symbol root found
      obtain ⟨-, production, declared, at_root⟩ := (start?_ofProductions paired).mp found
      obtain ⟨state, at_state, items⟩ := state_of_indexOf? wellformed paired lookahead at_root
      exact ⟨production, state, declared, at_state, items⟩
    goto_items := by
      intro q target symbol state at_q edge
      obtain ⟨node, at_node, expected, index⟩ := (goto?_ofProductions known).mp edge
      rw [getElem?_states known, at_node] at at_q
      cases at_q
      exact ⟨expected, state_of_indexOf? wellformed paired lookahead index⟩
    goto_exists := by
      intro q item symbol state at_q mem next
      rw [getElem?_states known] at at_q
      obtain ⟨node, at_node, rfl⟩ := Option.map_eq_some_iff.mp at_q
      have kernel := Registry.mem_kernels.mpr ⟨⟨item, mem, next⟩, rfl⟩
      obtain ⟨target, index⟩ := Collection.indexOf?_isSome
        (complete.covers node (List.mem_of_getElem? at_node) _ _ kernel)
      exact ⟨target, (goto?_ofProductions known).mpr ⟨node, at_node, ⟨item, mem, next⟩, index⟩⟩
    row_eq := by
      intro q state at_q
      rw [getElem?_states known] at at_q
      obtain ⟨node, -, rfl⟩ := Option.map_eq_some_iff.mp at_q
      rfl
    id_eq := by
      intro q state at_q
      rw [getElem?_states known] at at_q
      obtain ⟨node, at_node, rfl⟩ := Option.map_eq_some_iff.mp at_q
      exact complete.id_eq q node at_node
    terminals_nodup := wellformed.terminals_nodup }

end

theorem ofProductions_of_buildFor {automaton : Automaton}
    (built : buildFor registry lookahead symbols = .ok automaton) :
    ∃ pairs, pairs.map (·.1) = symbols ∧
      (∀ pair ∈ pairs, registry.startProduction pair.1 = some pair.2) ∧
      automaton = ofProductions registry lookahead pairs := by
  obtain ⟨pairs, listed, made⟩ := bind_eq_ok.mp built
  obtain ⟨names, paired⟩ := startProductions_eq listed
  cases made
  exact ⟨pairs, names, paired, rfl⟩

theorem realizes_of_buildFor (wellformed : registry.Wellformed) {automaton : Automaton}
    (built : buildFor registry lookahead symbols = .ok automaton) :
    Realizes registry lookahead automaton := by
  obtain ⟨pairs, -, paired, rfl⟩ := ofProductions_of_buildFor built
  exact realizes_ofProductions wellformed paired

theorem start?_of_buildFor {automaton : Automaton}
    (built : buildFor registry lookahead symbols = .ok automaton) {symbol : Symbol}
    (mem : symbol ∈ symbols) : ∃ root, automaton.start? symbol = some root := by
  obtain ⟨pairs, names, productions, rfl⟩ := ofProductions_of_buildFor built
  rw [← names, List.mem_map] at mem
  obtain ⟨pair, pair_mem, rfl⟩ := mem
  obtain ⟨root, index⟩ := Collection.indexOf?_isSome
    (Collection.hasKernel_ofStarts registry (List.mem_map_of_mem pair_mem))
  exact ⟨root, (start?_ofProductions productions).mpr
    ⟨List.mem_map_of_mem pair_mem, pair.2, productions pair pair_mem, index⟩⟩

end Automaton

end ShiftReduce
