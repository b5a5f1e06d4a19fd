import ShiftReduce.Proofs.Automaton.Canonical

/-!
The construction of an automaton ends. Here it is run with nothing to limit it, as a queue of the nodes
still to be expanded: one is taken from its front in each step, and the new ones found join it at its
end. A node is new if no other one has the same items. The queue always holds the nodes behind those
that were expanded, and nodes are different sets of items, so it runs empty with each node expanded once.
-/
namespace ShiftReduce

open StateTransition

structure Search where
  nodes : List Node
  /-- The edges recorded so far, for each of the nodes. -/
  edges : List (List (Symbol × Nat))
  /-- The start nodes, in the order in which they were asked for. -/
  roots : List Nat
  queue : List Nat
  /-- The start productions that have no node yet. -/
  pending : List Nat
  /-- The nodes that were expanded, in this order. -/
  expanded : List Nat

namespace Search

def initial (productions : List Nat) : Search := ⟨[], [], [], [], productions, []⟩

/-- The place of the node with the items of `node`, or where it goes if there is none. -/
def place (nodes : List Node) (node : Node) : Nat :=
  nodes.findIdx fun known => OrderedSet.sameMembers known.items node.items

def intern (search : Search) (node : Node) : Nat × Search :=
  let target := place search.nodes node
  if target < search.nodes.length then (target, search)
  else (target, { search with
    nodes := search.nodes ++ [node]
    edges := search.edges ++ [[]]
    queue := search.queue ++ [target] })

/-- A start node is queued whether it is new or not. -/
def enter (registry : Registry) (production : Nat) (search : Search) : Search :=
  let (root, search) := search.intern (.ofKernel registry search.nodes.length [⟨production, 0⟩] none)
  { search with roots := search.roots ++ [root], queue := [root] }

/-- Files an edge under its symbol, where the edge filed there before gives way to it. -/
def file (edge : Symbol × Nat) (row : List (Symbol × Nat)) : List (Symbol × Nat) :=
  if row.any (·.1 = edge.1) then row.map fun old => if old.1 = edge.1 then edge else old
  else row ++ [edge]

def record (search : Search) (i : Nat) (edge : Symbol × Nat) : Search :=
  { search with edges := search.edges.modify i (file edge) }

def discover (registry : Registry) (i : Nat) (search : Search) (group : Symbol × List Item) : Search :=
  let (target, search) :=
    search.intern (.ofKernel registry search.nodes.length group.2 (some (i, group.1)))
  search.record i (group.1, target)

def step? (registry : Registry) (search : Search) : Option Search :=
  match search.queue, search.pending with
  | i :: queue, _ => search.nodes[i]?.map fun node =>
      (registry.kernels node.items).foldl (discover registry i)
        { search with queue, expanded := search.expanded ++ [i] }
  | [], production :: pending => some (enter registry production { search with pending })
  | [], [] => none

/-- The run from the start productions comes to an end, and there is nothing left to do: each node has
been expanded, and only once. -/
structure EndsIn (registry : Registry) (productions : List Nat) (last : Search) : Prop where
  halts : last ∈ eval (step? registry) (.initial productions)
  queue_eq : last.queue = []
  pending_eq : last.pending = []
  expanded_eq : last.expanded = List.range last.nodes.length

/-- The search with the nodes that have a row expanded and all others in the queue. -/
def upTo (collection : Collection) (pending : List Nat) : Search where
  nodes := collection.nodes
  edges := collection.rows ++ List.replicate (collection.nodes.length - collection.rows.length) []
  roots := collection.roots
  queue := List.range' collection.rows.length (collection.nodes.length - collection.rows.length)
  pending := pending
  expanded := List.range collection.rows.length

@[simp] theorem nodes_upTo (collection : Collection) (pending : List Nat) :
    (upTo collection pending).nodes = collection.nodes := rfl

structure Keyed (registry : Registry) (nodes : List Node) : Prop
    extends Collection.Sound registry nodes where
  essential : ∀ node ∈ nodes, ∀ item ∈ node.kernel, registry.Essential item

variable {registry : Registry} {nodes : List Node} {kernel : List Item} {collection : Collection}

theorem Keyed.intern (keyed : Keyed registry nodes) (origin : Option (Nat × Symbol))
    (valid : ∀ item ∈ kernel, registry.Valid item)
    (essential : ∀ item ∈ kernel, registry.Essential item) :
    Keyed registry (Collection.intern registry origin nodes kernel).2 :=
  ⟨keyed.toSound.intern origin valid, Collection.forall_intern keyed.essential fun _ => essential⟩

theorem findIdx_congr {α : Type} {xs : List α} {p q : α → Bool} (same : ∀ x ∈ xs, p x = q x) :
    xs.findIdx p = xs.findIdx q := by
  induction xs with
  | nil => rfl
  | cons x rest ih =>
    rw [List.forall_mem_cons] at same
    rw [List.findIdx_cons, List.findIdx_cons, same.1, ih same.2]

section

variable (wellformed : registry.Wellformed)

include wellformed

theorem place_eq_findIdx (keyed : Keyed registry nodes)
    (essential : ∀ item ∈ kernel, registry.Essential item) (id : Nat) (origin : Option (Nat × Symbol)) :
    place nodes (.ofKernel registry id kernel origin) = nodes.findIdx (·.hasKernel kernel) := by
  refine findIdx_congr fun node mem => Bool.eq_iff_iff.mpr ?_
  rw [OrderedSet.sameMembers_iff, Collection.hasKernel_iff, keyed.items_eq node mem]
  exact Registry.mem_close_congr wellformed (keyed.essential node mem) essential

theorem intern_upTo (collection : Collection) (keyed : Keyed registry collection.nodes)
    (within : collection.rows.length ≤ collection.nodes.length)
    (essential : ∀ item ∈ kernel, registry.Essential item) (origin : Option (Nat × Symbol))
    (pending : List Nat) :
    (upTo collection pending).intern (.ofKernel registry collection.nodes.length kernel origin) =
      ((Collection.intern registry origin collection.nodes kernel).1,
        upTo { collection with nodes := (Collection.intern registry origin collection.nodes kernel).2 }
          pending) := by
  rw [intern, upTo, place_eq_findIdx wellformed keyed essential]
  obtain ⟨i, found, made⟩ | ⟨missing, made⟩ :=
    Collection.intern_cases registry origin collection.nodes kernel <;> rw [made]
  · obtain ⟨inside, place⟩ := List.findIdx?_eq_some_iff_findIdx_eq.mp found
    rw [place, if_pos inside]
    rfl
  · have longer : collection.nodes.length + 1 - collection.rows.length =
        collection.nodes.length - collection.rows.length + 1 := Nat.sub_add_comm within
    have last : collection.rows.length + (collection.nodes.length - collection.rows.length) =
        collection.nodes.length := Nat.add_sub_cancel' within
    rw [List.findIdx?_eq_none_iff_findIdx_eq.mp missing, if_neg (Nat.lt_irrefl _)]
    simp [upTo, longer, List.replicate_succ', List.range'_concat, last]

end

theorem file_of_new {symbol : Symbol} {row : List (Symbol × Nat)} (new : symbol ∉ row.map (·.1))
    (target : Nat) : file (symbol, target) row = row ++ [(symbol, target)] := by
  have absent : ¬row.any (·.1 = symbol) = true := by
    rw [List.any_eq_true]
    rintro ⟨edge, mem, same⟩
    exact new (List.mem_map.mpr ⟨edge, mem, of_decide_eq_true same⟩)
  exact if_neg absent

theorem modify_middle {α : Type} (front rest : List α) (x : α) (f : α → α) :
    (front ++ x :: rest).modify front.length f = front ++ f x :: rest := by
  induction front with
  | nil => rfl
  | cons _ _ ih => exact congrArg _ ih

theorem record_upTo (nodes : List Node) (rows : List (List (Symbol × Nat))) (row : List (Symbol × Nat))
    (roots pending : List Nat) (edge : Symbol × Nat) :
    (upTo ⟨nodes, rows ++ [row], roots⟩ pending).record rows.length edge =
      upTo ⟨nodes, rows ++ [file edge row], roots⟩ pending := by
  simp [record, upTo, modify_middle]

theorem expanding_upTo (more : collection.rows.length < collection.nodes.length) (pending : List Nat) :
    { upTo collection pending with
      queue := List.range' (collection.rows.length + 1)
        (collection.nodes.length - (collection.rows.length + 1))
      expanded := List.range collection.rows.length ++ [collection.rows.length] } =
      upTo { collection with rows := collection.rows ++ [[]] } pending := by
  have shorter : collection.nodes.length - collection.rows.length =
      collection.nodes.length - (collection.rows.length + 1) + 1 := by omega
  simp [upTo, shorter, List.replicate_succ, List.range_succ]

section

variable (wellformed : registry.Wellformed) {rows : List (List (Symbol × Nat))} (roots pending : List Nat)

include wellformed

theorem discover_upTo (keyed : Keyed registry nodes) {symbol : Symbol} {row : List (Symbol × Nat)}
    (within : rows.length < nodes.length) (new : symbol ∉ row.map (·.1))
    (essential : ∀ item ∈ kernel, registry.Essential item) :
    discover registry rows.length (upTo ⟨nodes, rows ++ [row], roots⟩ pending) (symbol, kernel) =
      upTo ⟨(Collection.follow registry rows.length (nodes, row) (symbol, kernel)).1,
        rows ++ [(Collection.follow registry rows.length (nodes, row) (symbol, kernel)).2], roots⟩
        pending := by
  have interned := intern_upTo wellformed ⟨nodes, rows ++ [row], roots⟩ keyed
    (by simpa using Nat.succ_le_of_lt within) essential (some (rows.length, symbol)) pending
  simp only [discover, nodes_upTo, interned, record_upTo, file_of_new new]
  rfl

theorem foldl_discover (keyed : Keyed registry nodes) {groups : List (Symbol × List Item)}
    {items : List Item} (row : List (Symbol × Nat)) (within : rows.length < nodes.length)
    (moved : ∀ group ∈ groups, group.2 = registry.advance items group.1)
    (nodup : (row.map (·.1) ++ groups.map (·.1)).Nodup) :
    groups.foldl (discover registry rows.length) (upTo ⟨nodes, rows ++ [row], roots⟩ pending) =
      upTo ⟨(groups.foldl (Collection.follow registry rows.length) (nodes, row)).1,
        rows ++ [(groups.foldl (Collection.follow registry rows.length) (nodes, row)).2], roots⟩ pending ∧
      Keyed registry (groups.foldl (Collection.follow registry rows.length) (nodes, row)).1 := by
  induction groups generalizing nodes row with
  | nil => exact ⟨rfl, keyed⟩
  | cons group rest ih =>
    obtain ⟨symbol, kernel⟩ := group
    obtain ⟨same, rest_moved⟩ := List.forall_mem_cons.mp moved
    dsimp only at same
    subst same
    have essential : ∀ item ∈ registry.advance items symbol, registry.Essential item :=
      fun item mem => .inl (Registry.dot_pos_of_advanced mem)
    -- the groups have different symbols, so no edge gives way to another
    have new : symbol ∉ row.map (·.1) := fun mem =>
      (List.nodup_append.mp nodup).2.2 symbol mem symbol List.mem_cons_self rfl
    have longer := (@Collection.prefix_intern registry (some (rows.length, symbol)) nodes
      (registry.advance items symbol)).length_le
    rw [List.foldl_cons, List.foldl_cons, discover_upTo wellformed _ _ keyed within new essential]
    refine ih (keyed.intern _ Registry.valid_advance essential) _ (within.trans_le longer) rest_moved ?_
    rw [List.map_cons, List.append_cons] at nodup
    simpa [Collection.follow] using nodup

/-- One step takes the first node from the queue and expands it. -/
theorem step_upTo {node : Node} (keyed : Keyed registry collection.nodes)
    (found : collection.nodes[collection.rows.length]? = some node) :
    step? registry (upTo collection pending) = some (upTo (collection.advance registry node) pending) ∧
      Keyed registry (collection.advance registry node).nodes := by
  have before := (List.getElem?_eq_some_iff.mp found).1
  have queue : List.range' collection.rows.length (collection.nodes.length - collection.rows.length) =
      collection.rows.length :: List.range' (collection.rows.length + 1)
        (collection.nodes.length - (collection.rows.length + 1)) := by
    rw [← List.range'_succ]
    congr 1
    omega
  have moved : ∀ group ∈ registry.kernels node.items,
      group.2 = registry.advance node.items group.1 :=
    fun _ mem => (Registry.mem_kernels.mp mem).2
  obtain ⟨grown, still⟩ := foldl_discover wellformed collection.roots pending keyed [] before
    moved (registry.nodup_kernels node.items)
  refine ⟨?_, still⟩
  have expanding := expanding_upTo before pending
  simp only [step?, upTo, queue, found, Option.map_some] at expanding grown ⊢
  rw [expanding, grown]
  rfl

theorem reaches_exploreFrom (keyed : Keyed registry collection.nodes) (fuel : Nat) :
    Reaches (step? registry) (upTo collection pending)
      (upTo (Collection.exploreFrom registry fuel collection) pending) := by
  induction fuel generalizing collection with
  | zero => exact .refl
  | succ fuel ih =>
    unfold Collection.exploreFrom
    cases found : collection.nodes[collection.rows.length]? with
    | none => exact .refl
    | some node =>
      obtain ⟨step, still⟩ := step_upTo wellformed pending keyed found
      exact .head step (ih still)

theorem reaches_explore {production : Nat} (keyed : Keyed registry collection.nodes)
    (whole : collection.rows.length = collection.nodes.length)
    (start : registry.isStartProduction production = true)
    (new : Collection.indexOf? collection.nodes [⟨production, 0⟩] = none) :
    Reaches (step? registry) (upTo collection (production :: pending))
      (upTo (Collection.explore registry collection production) pending) := by
  have essential : ∀ item ∈ [(⟨production, 0⟩ : Item)], registry.Essential item :=
    List.forall_mem_singleton.mpr (.inr start)
  have valid : ∀ item ∈ [(⟨production, 0⟩ : Item)], registry.Valid item :=
    List.forall_mem_singleton.mpr (Registry.valid_beginning (wellformed.production_lt start))
  have idle : step? registry (upTo collection (production :: pending)) =
      some (enter registry production (upTo collection pending)) := by
    simp [step?, upTo, whole]
  have interned := intern_upTo wellformed collection keyed whole.le essential none pending
  refine .head (idle.trans (congrArg some ?_))
    (reaches_exploreFrom wellformed pending (keyed.intern none valid essential) _)
  simp only [enter, nodes_upTo, interned]
  simp [upTo, Collection.intern, new, whole]

end

variable {productions : List Nat}

theorem keyed_ofStarts (wellformed : registry.Wellformed)
    (starts : ∀ production ∈ productions, registry.isStartProduction production = true) :
    Keyed registry (Collection.ofStarts registry productions).nodes where
  toSound := (Collection.ofStarts_complete fun production mem =>
    wellformed.production_lt (starts production mem)).toSound
  essential := Collection.essential_of_ofStarts starts

theorem indexOf?_of_notMem {production : Nat} (other : production ∉ productions) :
    Collection.indexOf? (Collection.ofStarts registry productions).nodes [⟨production, 0⟩] = none := by
  refine List.findIdx?_eq_none_iff.mpr fun node mem => Bool.eq_false_iff.mpr fun same => ?_
  have inside := (Collection.hasKernel_iff.mp same ⟨production, 0⟩).mpr (List.mem_singleton_self _)
  exact (Collection.kernel_of_ofStarts node mem _ inside).elim (Nat.lt_irrefl 0) other

theorem reaches_ofStarts (wellformed : registry.Wellformed) (front rest : List Nat)
    (starts : ∀ production ∈ front ++ rest, registry.isStartProduction production = true)
    (nodup : (front ++ rest).Nodup) :
    Reaches (step? registry) (upTo (Collection.ofStarts registry front) rest)
      (upTo (Collection.ofStarts registry (front ++ rest)) []) := by
  induction rest generalizing front with
  | nil =>
    rw [List.append_nil]
    exact .refl
  | cons production rest ih =>
    have before := (List.forall_mem_append.mp starts).1
    have start := starts production (by simp)
    have other : production ∉ front := fun mem =>
      (List.nodup_append.mp nodup).2.2 production mem production List.mem_cons_self rfl
    have whole := Collection.ofStarts_whole fun production mem =>
      wellformed.production_lt (before production mem)
    -- the queue has run empty, so the next start node is alone in it
    have explored := reaches_explore wellformed rest (keyed_ofStarts wellformed before) whole.length_eq
      start (indexOf?_of_notMem other)
    rw [List.append_cons] at starts nodup ⊢
    rw [← Collection.ofStarts_concat] at explored
    exact explored.trans (ih _ starts nodup)

theorem endsIn_ofStarts (wellformed : registry.Wellformed)
    (starts : ∀ production ∈ productions, registry.isStartProduction production = true)
    (nodup : productions.Nodup) :
    EndsIn registry productions (upTo (Collection.ofStarts registry productions) []) := by
  have whole := Collection.ofStarts_whole fun production mem =>
    wellformed.production_lt (starts production mem)
  have queue : (upTo (Collection.ofStarts registry productions) []).queue = [] := by
    rw [upTo, whole.length_eq, Nat.sub_self, List.range'_zero]
  refine ⟨mem_eval.mpr ⟨reaches_ofStarts wellformed [] productions starts nodup, ?_⟩, queue, rfl, ?_⟩
  · rw [step?, queue]
    rfl
  · exact congrArg List.range whole.length_eq

end Search

namespace Automaton

variable {registry : Registry} {lookahead : Lookahead} {symbols : List Symbol}

theorem nodup_of_paired {pairs : List (Symbol × Nat)}
    (paired : ∀ pair ∈ pairs, registry.startProduction pair.1 = some pair.2)
    (nodup : (pairs.map (·.1)).Nodup) : (pairs.map (·.2)).Nodup := by
  refine List.Nodup.map_on ?_ nodup.of_map
  intro pair mem other other_mem same
  have first := Registry.getElem?_of_startProduction (paired pair mem)
  have second := Registry.getElem?_of_startProduction (paired other other_mem)
  rw [same, second] at first
  exact Prod.ext (Option.some.inj first).symm same

theorem nodes_ofProductions {pairs : List (Symbol × Nat)} :
    (ofProductions registry lookahead pairs).states.map (·.toNode) =
      (Collection.ofStarts registry (pairs.map (·.2))).nodes := by
  simp [ofProductions, Function.comp_def]

theorem edges_ofProductions {pairs : List (Symbol × Nat)}
    (known : ∀ production ∈ pairs.map (·.2), production < registry.productions.length) :
    (ofProductions registry lookahead pairs).states.map (·.edges) =
      (Collection.ofStarts registry (pairs.map (·.2))).rows := by
  have whole := Collection.ofStarts_whole known
  refine List.ext_getElem (by simp [ofProductions, whole.length_eq]) fun q _ inside => ?_
  simp [ofProductions, inside]

theorem itemSets_nodup {automaton : Automaton} (wellformed : registry.Wellformed)
    (built : buildFor registry lookahead symbols = .ok automaton) :
    (automaton.states.map (·.items.toFinset)).Nodup := by
  refine List.pairwise_map.mpr (List.pairwise_iff_getElem.mpr fun q r inside other before same => ?_)
  refine absurd (state_unique wellformed built (List.getElem?_eq_getElem inside)
    (List.getElem?_eq_getElem other) fun item => ?_) (Nat.ne_of_lt before)
  rw [← List.mem_toFinset, same, List.mem_toFinset]

theorem mem_itemSets_of_buildFor {automaton : Automaton} (wellformed : registry.Wellformed)
    (built : buildFor registry lookahead symbols = .ok automaton) :
    ∀ state ∈ automaton.states, state.items.toFinset ∈ registry.itemSets := by
  intro state mem
  obtain ⟨q, at_q⟩ := List.mem_iff_getElem?.mp mem
  exact Registry.mem_itemSets.mpr (canonicalState_of_buildFor wellformed built at_q).valid

/-- The construction for different declared start symbols ends. The queue runs empty with each node
expanded once, the nodes with their edges are the states of the automaton, and these are different sets of
items, so there are no more of them than there are such sets. The scan for each closure ends as well. -/
theorem construction_ends {grammar : Grammar} (accepted : Registry.ofGrammar grammar = .ok registry)
    (declared : symbols ⊆ registry.starts) (nodup : symbols.Nodup) :
    (∃ automaton productions last,
      buildFor registry lookahead symbols = .ok automaton ∧
      symbols.map registry.startProduction = productions.map some ∧
      Search.EndsIn registry productions last ∧ last.nodes = automaton.states.map (·.toNode) ∧
      last.edges = automaton.states.map (·.edges) ∧ automaton.starts = symbols.zip last.roots ∧
      (automaton.states.map (·.items.toFinset)).Nodup ∧
      (∀ state ∈ automaton.states, state.items.toFinset ∈ registry.itemSets) ∧
      automaton.states.length ≤ registry.itemSets.card) ∧
    ∀ kernel, (registry.close kernel, (registry.close kernel).length) ∈
      eval registry.scan? (OrderedSet.distinct kernel, 0) := by
  have wellformed := (Registry.acceptedFrom accepted).wellformed
  refine ⟨?_, registry.eval_scan_close⟩
  obtain ⟨pairs, listed⟩ := startProductions_of_declared declared
  obtain ⟨rfl, paired⟩ := startProductions_eq listed
  have built : buildFor registry lookahead (pairs.map (·.1)) =
      .ok (ofProductions registry lookahead pairs) := bind_eq_ok.mpr ⟨pairs, listed, rfl⟩
  have ends := Search.endsIn_ofStarts wellformed (isStartProduction_of_paired paired)
    (nodup_of_paired paired nodup)
  have apart := itemSets_nodup wellformed built
  have inside := mem_itemSets_of_buildFor wellformed built
  have known := production_lt_of_paired wellformed paired
  have edges : (Search.upTo (Collection.ofStarts registry (pairs.map (·.2))) []).edges =
      (Collection.ofStarts registry (pairs.map (·.2))).rows := by
    rw [Search.upTo, (Collection.ofStarts_whole known).length_eq, Nat.sub_self]
    exact List.append_nil _
  refine ⟨_, _, _, built, ?_, ends, nodes_ofProductions.symm, edges.trans (edges_ofProductions known).symm,
    rfl, apart, inside, ?_⟩
  · rw [List.map_map, List.map_map]
    exact List.map_congr_left paired
  · rw [← List.length_map (·.items.toFinset)]
    exact Registry.length_le_card_itemSets apart (List.forall_mem_map.mpr inside)

/-- Nine states belong to terms, and sums add two: their start state and the one behind a sum. -/
theorem construction_ends_parens : ∃ last, Search.EndsIn parensRegistry [1, 0] last ∧
    last.nodes.length = 11 ∧ last.expanded = List.range 11 := by
  have accepted : Registry.ofGrammar parens = .ok parensRegistry := eq_ok_of_isSome parens_accepted
  have declared : [(⟨"t"⟩ : Symbol), ⟨"s"⟩] ⊆ parensRegistry.starts := by decide +kernel
  have computed : [(⟨"t"⟩ : Symbol), ⟨"s"⟩].map parensRegistry.startProduction = [1, 0].map some ∧
      (buildFor parensRegistry .lr0 [⟨"t"⟩, ⟨"s"⟩]).toOption.map (·.states.length) = some 11 := by
    decide +kernel
  obtain ⟨starts, count⟩ := computed
  obtain ⟨⟨automaton, productions, last, built, listed, ends, nodes, -⟩, -⟩ :=
    @construction_ends _ .lr0 _ _ accepted declared (by decide)
  have same : productions = [1, 0] :=
    List.map_injective_iff.mpr (Option.some_injective _) (listed.symm.trans starts)
  have size : last.nodes.length = 11 := by
    rw [built] at count
    rw [nodes, List.length_map]
    exact Option.some.inj count
  exact ⟨last, same ▸ ends, size, size ▸ ends.expanded_eq⟩

end Automaton

end ShiftReduce
