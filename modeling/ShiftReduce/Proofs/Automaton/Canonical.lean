import ShiftReduce.Proofs.Automaton.Determinization
import ShiftReduce.Proofs.Item.Goto

/-!
The states of an automaton are the canonical collection of item sets. Every node of the search is the
start node of a production or was made by moving the dots of another one over a symbol, and so there is
a string along which it is reached. What edges come into a state follows from its kernel: an edge leaves
behind the symbol that it moved all the dots of the kernel over.
-/
namespace ShiftReduce

theorem ItemPath.valid {start : Nat} {read : List Symbol} {item : Item} {registry : Registry}
    (known : start < registry.productions.length) (path : ItemPath registry start read item) :
    registry.Valid item := by
  cases path with
  | here => exact Registry.valid_beginning known
  | past _ next => exact Registry.valid_forward next
  | into _ _ found _ => exact ⟨_, found, Nat.zero_le _⟩

namespace Collection

variable {registry : Registry} {productions : List Nat} {nodes : List Node} {node : Node}

/-- How a node came to be: as the start node of one of the productions, or by moving dots over a symbol
that some items had next. Reading some string from one of the productions leads to its items. -/
structure Arisen (registry : Registry) (productions : List Nat) (node : Node) : Prop where
  items_eq : node.items = registry.close node.kernel
  kernel_nodup : node.kernel.Nodup
  kernel_cases : (∃ production ∈ productions, node.kernel = [⟨production, 0⟩]) ∨
    ∃ items symbol, node.kernel ≠ [] ∧ node.kernel = registry.advance items symbol
  read : ∃ production ∈ productions, ∃ path, ∀ item,
    item ∈ node.items ↔ ItemPath registry production path item

theorem arisen_of_ofStarts :
    ∀ node ∈ (ofStarts registry productions).nodes, Arisen registry productions node := by
  refine forall_ofStarts ?_ ?_
  · intro i node arisen group mem id
    obtain ⟨symbol, kernel⟩ := group
    obtain ⟨⟨item, item_mem, next⟩, rfl⟩ := Registry.mem_kernels.mp mem
    have nodup : node.items.Nodup := arisen.items_eq ▸ Registry.nodup_close node.kernel
    refine ⟨rfl, Registry.nodup_advance nodup, .inr ⟨node.items, symbol, ?_, rfl⟩, ?_⟩
    · exact List.ne_nil_of_mem (Registry.mem_advance.mpr ⟨item, item_mem, next, rfl⟩)
    · obtain ⟨production, known, path, items⟩ := arisen.read
      refine ⟨production, known, path ++ [symbol], fun item => ?_⟩
      exact Registry.mem_close.trans (ItemPath.snoc_iff items).symm
  · intro production mem id
    refine ⟨rfl, List.nodup_singleton _, .inl ⟨production, mem, rfl⟩, production, mem, [], ?_⟩
    exact fun item => Registry.mem_close.trans ItemPath.nil_iff.symm

namespace Arisen

variable (arisen : Arisen registry productions node)

include arisen

theorem exists_mem_kernel : ∃ item, item ∈ node.kernel := by
  obtain ⟨production, -, start⟩ | ⟨-, -, some, -⟩ := arisen.kernel_cases
  · exact ⟨_, start ▸ List.mem_cons_self⟩
  · exact List.exists_mem_of_ne_nil _ some

theorem mem_items {item : Item} (mem : item ∈ node.kernel) : item ∈ node.items := by
  rw [arisen.items_eq, Registry.mem_close]
  exact .kernel mem

theorem kernel_eq_singleton {item : Item} (only : ∀ other, other ∈ node.kernel ↔ other = item) :
    node.kernel = [item] :=
  OrderedSet.eq_singleton_of_nodup arisen.kernel_nodup only

end Arisen

theorem Sound.indexOf?_eq (sound : Sound registry nodes) {kernel : List Item} {i : Nat}
    (at_i : nodes[i]? = some node) (same : node.hasKernel kernel) : indexOf? nodes kernel = some i := by
  obtain ⟨j, found⟩ := indexOf?_isSome ⟨node, List.mem_of_getElem? at_i, same⟩
  obtain ⟨other, at_j, also⟩ := exists_of_indexOf? found
  rw [found, sound.index_eq at_i at_j fun item =>
    (hasKernel_iff.mp same item).trans (hasKernel_iff.mp also item).symm]

theorem mem_edges {symbol : Symbol} {target : Nat} :
    (symbol, target) ∈ edges registry nodes node ↔
      (∃ item ∈ node.items, registry.next? item = some symbol) ∧
        indexOf? nodes (registry.advance node.items symbol) = some target := by
  simp only [edges, List.mem_filterMap, Prod.exists, Registry.mem_kernels, Option.map_eq_some_iff,
    Prod.mk.injEq]
  constructor
  · rintro ⟨_, _, ⟨expected, rfl⟩, _, found, rfl, rfl⟩
    exact ⟨expected, found⟩
  · rintro ⟨expected, found⟩
    exact ⟨symbol, _, ⟨expected, rfl⟩, target, found, rfl, rfl⟩

theorem nodup_edges : ((edges registry nodes node).map (·.1)).Nodup := by
  refine (registry.nodup_kernels node.items).sublist ?_
  rw [edges]
  generalize registry.kernels node.items = groups
  induction groups with
  | nil => exact .slnil
  | cons group rest ih =>
    cases found : indexOf? nodes group.2 with
    | none => simpa [found] using ih.cons _
    | some target => simpa [found] using ih

end Collection

namespace Automaton

def IsStart (automaton : Automaton) (q : Nat) : Prop :=
  ∃ symbol, automaton.start? symbol = some q

/-- What holds of the state numbered `q` in the canonical collection of item sets. -/
structure CanonicalState (registry : Registry) (automaton : Automaton) (q : Nat) (state : State) :
    Prop where
  id_eq : state.id = q
  nodup : state.items.Nodup
  valid : ∀ item ∈ state.items, registry.Valid item
  closed : state.items = registry.close state.kernel
  kernel_first : state.kernel <+: state.items
  start_kernel : ∀ symbol, automaton.start? symbol = some q → ∃ production,
    registry.startProduction symbol = some production ∧ state.kernel = [⟨production, 0⟩]
  kernel_iff : ¬automaton.IsStart q →
    ∀ item, item ∈ state.kernel ↔ item ∈ state.items ∧ 0 < item.dot
  edges_nodup : (state.edges.map (·.1)).Nodup
  edge_symbol : ∀ symbol,
    symbol ∈ state.edges.map (·.1) ↔ ∃ item ∈ state.items, registry.next? item = some symbol
  edge_target : ∀ symbol target, (symbol, target) ∈ state.edges →
    automaton.goto? q symbol = some target ∧ ∃ next, automaton.states[target]? = some next ∧
      ∀ item, item ∈ next.items ↔ item ∈ registry.goto state.items symbol
  no_edge : ∀ symbol, symbol ∉ state.edges.map (·.1) →
    automaton.goto? q symbol = none ∧ registry.goto state.items symbol = []

/-- What holds of the canonical collection of item sets for some start symbols. -/
structure Canonical (registry : Registry) (symbols : List Symbol) (automaton : Automaton) : Prop where
  started : ∀ symbol, symbol ∈ symbols ↔ ∃ q, automaton.start? symbol = some q ∧
    q < automaton.states.length
  state : ∀ (q : Nat) (state : State), automaton.states[q]? = some state →
    CanonicalState registry automaton q state
  distinct : ∀ (q r : Nat) (state other : State), automaton.states[q]? = some state →
    automaton.states[r]? = some other → (∀ item, item ∈ state.items ↔ item ∈ other.items) → q = r
  not_entered : ∀ q, automaton.IsStart q → ∀ p symbol, automaton.goto? p symbol ≠ some q
  entered : ∀ q, q < automaton.states.length → ¬automaton.IsStart q →
    ∃ symbol, (∃ p, automaton.goto? p symbol = some q) ∧
      ∀ p other, automaton.goto? p other = some q → other = symbol
  reached : ∀ q, q < automaton.states.length →
    ∃ start ∈ symbols, ∃ path, automaton.walkEnd start path = some q

variable {registry : Registry} {lookahead : Lookahead}

section

variable {pairs : List (Symbol × Nat)} (wellformed : registry.Wellformed)
  (paired : ∀ pair ∈ pairs, registry.startProduction pair.1 = some pair.2)

include wellformed paired

/-- Behind an edge is a state whose kernel was moved over the symbol of the edge. -/
theorem kernel_of_goto? {p q : Nat} {symbol : Symbol}
    (edge : (ofProductions registry lookahead pairs).goto? p symbol = some q) :
    ∃ state items, (ofProductions registry lookahead pairs).states[q]? = some state ∧
      (∃ item, item ∈ state.kernel) ∧
      ∀ item ∈ state.kernel, item ∈ registry.advance items symbol := by
  have known := production_lt_of_paired wellformed paired
  obtain ⟨origin, -, -, index⟩ := (goto?_ofProductions known).mp edge
  obtain ⟨node, at_q, same⟩ := Collection.exists_of_indexOf? index
  have arisen := Collection.arisen_of_ofStarts node (List.mem_of_getElem? at_q)
  refine ⟨_, origin.items, by rw [getElem?_states known, at_q]; rfl, arisen.exists_mem_kernel, ?_⟩
  exact fun item mem => (Collection.hasKernel_iff.mp same item).mp mem

variable {q : Nat} {state : State}
  (at_q : (ofProductions registry lookahead pairs).states[q]? = some state)

include at_q

theorem node_of_getElem? :
    (Collection.ofStarts registry (pairs.map (·.2))).nodes[q]? = some state.toNode ∧
      state.edges =
        Collection.edges registry (Collection.ofStarts registry (pairs.map (·.2))).nodes state.toNode := by
  rw [getElem?_states (production_lt_of_paired wellformed paired)] at at_q
  obtain ⟨node, at_node, rfl⟩ := Option.map_eq_some_iff.mp at_q
  exact ⟨at_node, rfl⟩

theorem mem_edges_iff {target : Nat} {symbol : Symbol} : (symbol, target) ∈ state.edges ↔
    (ofProductions registry lookahead pairs).goto? q symbol = some target := by
  rw [goto?, at_q, Option.bind_some, (node_of_getElem? wellformed paired at_q).2]
  exact Collection.mem_edges.trans Collection.lookup_edges.symm

theorem arisen_of_getElem? : Collection.Arisen registry (pairs.map (·.2)) state.toNode :=
  Collection.arisen_of_ofStarts _ (List.mem_of_getElem? (node_of_getElem? wellformed paired at_q).1)

theorem kernel_of_start? {symbol : Symbol}
    (started : (ofProductions registry lookahead pairs).start? symbol = some q) :
    ∃ production ∈ pairs.map (·.2),
      registry.startProduction symbol = some production ∧ state.kernel = [⟨production, 0⟩] := by
  obtain ⟨declared, production, found, index⟩ := (start?_ofProductions paired).mp started
  obtain ⟨pair, mem, rfl⟩ := List.mem_map.mp declared
  cases (paired pair mem).symm.trans found
  have arisen := arisen_of_getElem? wellformed paired at_q
  refine ⟨pair.2, List.mem_map_of_mem mem, found, arisen.kernel_eq_singleton ?_⟩
  obtain ⟨node, at_node, same⟩ := Collection.exists_of_indexOf? index
  cases (node_of_getElem? wellformed paired at_q).1.symm.trans at_node
  exact fun item => (Collection.hasKernel_iff.mp same item).trans List.mem_singleton

theorem isStart_iff : (ofProductions registry lookahead pairs).IsStart q ↔
    ∃ production ∈ pairs.map (·.2), state.kernel = [⟨production, 0⟩] := by
  constructor
  · rintro ⟨symbol, started⟩
    obtain ⟨production, mem, -, kernel⟩ := kernel_of_start? wellformed paired at_q started
    exact ⟨production, mem, kernel⟩
  · rintro ⟨production, mem, kernel⟩
    obtain ⟨pair, pair_mem, rfl⟩ := List.mem_map.mp mem
    have at_node := (node_of_getElem? wellformed paired at_q).1
    have complete := Collection.ofStarts_complete (production_lt_of_paired wellformed paired)
    refine ⟨pair.1, (start?_ofProductions paired).mpr
      ⟨List.mem_map_of_mem pair_mem, pair.2, paired pair pair_mem, ?_⟩⟩
    refine complete.toSound.indexOf?_eq at_node (Collection.hasKernel_iff.mpr fun item => ?_)
    rw [← kernel]

theorem kernel_eq_advance (other : ¬(ofProductions registry lookahead pairs).IsStart q) :
    ∃ items symbol, state.kernel ≠ [] ∧ state.kernel = registry.advance items symbol := by
  obtain ⟨production, mem, kernel⟩ | moved := (arisen_of_getElem? wellformed paired at_q).kernel_cases
  · exact absurd ((isStart_iff wellformed paired at_q).mpr ⟨production, mem, kernel⟩) other
  · exact moved

theorem valid_of_getElem? : ∀ item ∈ state.items, registry.Valid item := by
  obtain ⟨production, mem, path, items⟩ := (arisen_of_getElem? wellformed paired at_q).read
  have known := production_lt_of_paired wellformed paired production mem
  exact fun item inside => ((items item).mp inside).valid known

theorem mem_kernel_iff (other : ¬(ofProductions registry lookahead pairs).IsStart q) {item : Item} :
    item ∈ state.kernel ↔ item ∈ state.items ∧ 0 < item.dot := by
  have arisen := arisen_of_getElem? wellformed paired at_q
  obtain ⟨items, symbol, -, moved⟩ := kernel_eq_advance wellformed paired at_q other
  constructor
  · exact fun mem => ⟨arisen.mem_items mem, Registry.dot_pos_of_advanced (moved ▸ mem)⟩
  · rintro ⟨mem, advanced⟩
    rw [arisen.items_eq, Registry.mem_close] at mem
    exact mem.mem_kernel wellformed (.inl advanced)

theorem edge_symbol_iff {symbol : Symbol} : symbol ∈ state.edges.map (·.1) ↔
    ∃ item ∈ state.items, registry.next? item = some symbol := by
  have realizes : Realizes registry lookahead (ofProductions registry lookahead pairs) :=
    realizes_ofProductions wellformed paired
  constructor
  · intro listed
    obtain ⟨⟨_, target⟩, edge, rfl⟩ := List.mem_map.mp listed
    exact (realizes.goto_items at_q ((mem_edges_iff wellformed paired at_q).mp edge)).1
  · rintro ⟨item, mem, next⟩
    obtain ⟨target, edge⟩ := realizes.goto_exists at_q mem next
    exact List.mem_map.mpr ⟨_, (mem_edges_iff wellformed paired at_q).mpr edge, rfl⟩

theorem canonicalState :
    CanonicalState registry (ofProductions registry lookahead pairs) q state := by
  have arisen := arisen_of_getElem? wellformed paired at_q
  have realizes : Realizes registry lookahead (ofProductions registry lookahead pairs) :=
    realizes_ofProductions wellformed paired
  have edges := @mem_edges_iff registry lookahead pairs wellformed paired q state at_q
  have moving := @edge_symbol_iff registry lookahead pairs wellformed paired q state at_q
  exact {
    id_eq := realizes.id_eq at_q
    nodup := arisen.items_eq ▸ Registry.nodup_close _
    valid := valid_of_getElem? wellformed paired at_q
    closed := arisen.items_eq
    kernel_first := arisen.items_eq ▸ Registry.prefix_close arisen.kernel_nodup
    start_kernel := by
      intro symbol started
      obtain ⟨production, -, declared, kernel⟩ := kernel_of_start? wellformed paired at_q started
      exact ⟨production, declared, kernel⟩
    kernel_iff := fun other _ => mem_kernel_iff wellformed paired at_q other
    edges_nodup := (node_of_getElem? wellformed paired at_q).2 ▸ Collection.nodup_edges
    edge_symbol := fun _ => moving
    edge_target := by
      intro symbol target edge
      obtain ⟨-, next, at_next, items⟩ := realizes.goto_items at_q (edges.mp edge)
      exact ⟨edges.mp edge, next, at_next, fun item => (items item).trans Registry.mem_close.symm⟩
    no_edge := by
      intro symbol missing
      constructor
      · exact Option.eq_none_iff_forall_ne_some.mpr fun target edge =>
          missing (List.mem_map_of_mem (edges.mpr edge))
      · exact Registry.goto_eq_nil_iff.mpr fun item mem next => missing (moving.mpr ⟨item, mem, next⟩) }

end

section

variable {symbols : List Symbol} {automaton : Automaton} {q : Nat} (wellformed : registry.Wellformed)
  (built : buildFor registry lookahead symbols = .ok automaton)

include wellformed built

theorem canonicalState_of_buildFor {state : State} (at_q : automaton.states[q]? = some state) :
    CanonicalState registry automaton q state := by
  obtain ⟨pairs, -, paired, rfl⟩ := ofProductions_of_buildFor built
  exact canonicalState wellformed paired at_q

theorem started_of_buildFor (symbol : Symbol) : symbol ∈ symbols ↔
    ∃ q, automaton.start? symbol = some q ∧ q < automaton.states.length := by
  constructor
  · intro mem
    obtain ⟨root, started⟩ := start?_of_buildFor built mem
    obtain ⟨-, state, -, at_root, -⟩ := (realizes_of_buildFor wellformed built).start_items started
    exact ⟨root, started, (List.getElem?_eq_some_iff.mp at_root).1⟩
  · rintro ⟨q, started, -⟩
    obtain ⟨pairs, names, paired, rfl⟩ := ofProductions_of_buildFor built
    exact names ▸ ((start?_ofProductions paired).mp started).1

theorem reached_of_buildFor (inside : q < automaton.states.length) :
    ∃ start ∈ symbols, ∃ path, automaton.walkEnd start path = some q := by
  have realizes := realizes_of_buildFor wellformed built
  have at_q := List.getElem?_eq_getElem inside
  have read : ∃ start ∈ symbols, ∃ production path,
      registry.startProduction start = some production ∧ (∃ item, item ∈ automaton.states[q].items) ∧
        ∀ item, item ∈ automaton.states[q].items ↔ ItemPath registry production path item := by
    obtain ⟨pairs, rfl, paired, rfl⟩ := ofProductions_of_buildFor built
    have arisen := arisen_of_getElem? wellformed paired at_q
    obtain ⟨production, mem, path, items⟩ := arisen.read
    obtain ⟨pair, pair_mem, rfl⟩ := List.mem_map.mp mem
    obtain ⟨item, in_kernel⟩ := arisen.exists_mem_kernel
    exact ⟨pair.1, List.mem_map_of_mem pair_mem, pair.2, path, paired pair pair_mem,
      ⟨item, arisen.mem_items in_kernel⟩, items⟩
  obtain ⟨start, mem, production, path, declared, ⟨item, inside⟩, items⟩ := read
  obtain ⟨root, started⟩ := start?_of_buildFor built mem
  obtain ⟨r, walked⟩ := realizes.walkEnd_of_path started declared ((items item).mp inside)
  obtain ⟨-, last, at_r, last_items⟩ := realizes.items_of_walkEnd declared walked
  have same : q = r := state_unique wellformed built at_q at_r fun item =>
    (items item).trans (last_items item).symm
  exact ⟨start, mem, path, same ▸ walked⟩

end

/-- The states of an automaton are the canonical collection of item sets. -/
theorem canonical_of_buildFor {grammar : Grammar} {symbols : List Symbol} {automaton : Automaton}
    (accepted : Registry.ofGrammar grammar = .ok registry)
    (built : buildFor registry lookahead symbols = .ok automaton) :
    Canonical registry symbols automaton := by
  have wellformed := (Registry.acceptedFrom accepted).wellformed
  have started := started_of_buildFor wellformed built
  have unique : ∀ (q r : Nat) (state other : State), automaton.states[q]? = some state →
      automaton.states[r]? = some other → (∀ item, item ∈ state.items ↔ item ∈ other.items) → q = r :=
    fun _ _ _ _ => state_unique wellformed built
  have reached : ∀ q, q < automaton.states.length →
      ∃ start ∈ symbols, ∃ path, automaton.walkEnd start path = some q :=
    fun _ => reached_of_buildFor wellformed built
  obtain ⟨pairs, -, paired, rfl⟩ := ofProductions_of_buildFor built
  refine ⟨started, ?_, unique, ?_, ?_, reached⟩
  · exact fun q state at_q => canonicalState wellformed paired at_q
  · intro q start p symbol edge
    obtain ⟨state, items, at_q, -, moved⟩ := kernel_of_goto? wellformed paired edge
    obtain ⟨production, -, kernel⟩ := (isStart_iff wellformed paired at_q).mp start
    exact absurd (Registry.dot_pos_of_advanced (moved ⟨production, 0⟩ (by simp [kernel])))
      (Nat.lt_irrefl 0)
  · intro q inside other
    obtain ⟨start, -, path, walked⟩ := reached q inside
    obtain rfl | ⟨front, symbol, rfl⟩ := List.eq_nil_or_concat path
    · exact absurd ⟨start, walked⟩ other
    · rw [List.concat_eq_append, walkEnd_snoc, Option.bind_eq_some_iff] at walked
      obtain ⟨before, -, edge⟩ := walked
      refine ⟨symbol, ⟨before, edge⟩, fun p another into => ?_⟩
      obtain ⟨state, items, at_q, ⟨item, mem⟩, moved⟩ := kernel_of_goto? wellformed paired edge
      obtain ⟨_, more, again, -, also⟩ := kernel_of_goto? wellformed paired into
      cases at_q.symm.trans again
      exact Registry.symbol_of_advanced (also item mem) (moved item mem)

/-- Only an opening parenthesis leads to the state behind one, and its kernel has one item. -/
theorem canonical_parens :
    Canonical parensRegistry parensRegistry.starts parensAutomaton ∧
      (∀ p symbol, parensAutomaton.goto? p symbol = some 3 → symbol = ⟨"LParen"⟩) ∧
      parensAutomaton.states[3]?.map (·.kernel) = some [⟨4, 1⟩] := by
  have accepted : Registry.ofGrammar parens = .ok parensRegistry := eq_ok_of_isSome parens_accepted
  have built : buildFor parensRegistry .lr0 parensRegistry.starts = .ok parensAutomaton :=
    eq_ok_of_isSome parens_built
  have canonical := canonical_of_buildFor accepted built
  have computed : 3 < parensAutomaton.states.length ∧
      parensAutomaton.goto? 0 ⟨"LParen"⟩ = some 3 ∧
      parensAutomaton.states[3]?.map (·.kernel) = some [⟨4, 1⟩] := by decide +kernel
  obtain ⟨inside, opening, kernel⟩ := computed
  refine ⟨canonical, fun p symbol edge => ?_, kernel⟩
  obtain ⟨only, -, labelled⟩ := canonical.entered 3 inside fun start =>
    canonical.not_entered 3 start 0 ⟨"LParen"⟩ opening
  rw [labelled p symbol edge, labelled 0 _ opening]

end Automaton

end ShiftReduce
