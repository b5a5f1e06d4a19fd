import ShiftReduce.Proofs.Automaton.Determinization
import ShiftReduce.Proofs.Automaton.Renaming

/-!
States shared between start symbols. An automaton built for more start symbols has a state for each
state of one built for fewer, with the same items, found in another order perhaps. Since items tell
states apart, edges lead from twin to twin, and rows do not depend on the order of items.
-/
namespace ShiftReduce

namespace Collection

variable {registry : Registry} {productions more : List Nat}

theorem exists_twin (known : ∀ production ∈ more, production < registry.productions.length)
    (subset : productions ⊆ more) :
    ∀ node ∈ (ofStarts registry productions).nodes, ∃ twin ∈ (ofStarts registry more).nodes,
      ∀ item, item ∈ twin.items ↔ item ∈ node.items := by
  have complete := ofStarts_complete known
  have same_items : ∀ (twin : Node) (id : Nat) (kernel : List Item) (origin : Option (Nat × Symbol)),
      twin ∈ (ofStarts registry more).nodes → twin.hasKernel kernel = true →
      ∀ item, item ∈ twin.items ↔ item ∈ (Node.ofKernel registry id kernel origin).items := by
    intro twin id kernel origin mem same item
    rw [complete.items_eq twin mem, Node.ofKernel, Registry.mem_close, Registry.mem_close]
    exact Registry.closes_congr (hasKernel_iff.mp same)
  refine forall_ofStarts ?_ ?_
  · intro i node has_twin group mem id
    obtain ⟨twin, twin_mem, same⟩ := has_twin
    obtain ⟨symbol, kernel⟩ := group
    obtain ⟨⟨item, item_mem, next⟩, rfl⟩ := Registry.mem_kernels.mp mem
    -- the twin has the same symbols after dots, and what they lead to has a twin in turn
    have expected := Registry.mem_kernels.mpr ⟨⟨item, (same item).mpr item_mem, next⟩, rfl⟩
    obtain ⟨target, target_mem, found⟩ := complete.covers twin twin_mem symbol _ expected
    refine ⟨target, target_mem, same_items target id _ _ target_mem (hasKernel_iff.mpr fun moved => ?_)⟩
    exact (hasKernel_iff.mp found moved).trans (Registry.mem_advance_congr same moved)
  · intro production mem id
    obtain ⟨twin, twin_mem, found⟩ := hasKernel_ofStarts registry (subset mem)
    exact ⟨twin, twin_mem, same_items twin id _ _ twin_mem found⟩

end Collection

namespace Automaton

/-- The states of `single` are among those of `shared` under other numbers, given by `f`. They have
the same items, and start states, edges, actions and conflicts are those of `single`, renumbered. -/
structure Embeds (symbols : List Symbol) (f : Nat → Nat) (single shared : Automaton) : Prop where
  injective : Function.Injective f
  start : ∀ symbol ∈ symbols, ∃ root,
    single.start? symbol = some root ∧ shared.start? symbol = some (f root)
  items : ∀ {q : Nat} {state : State}, single.states[q]? = some state →
    ∃ twin, shared.states[f q]? = some twin ∧ ∀ item, item ∈ twin.items ↔ item ∈ state.items
  goto : ∀ q symbol, shared.goto? (f q) symbol = (single.goto? q symbol).map f
  action : ∀ q terminal,
    shared.action? (f q) terminal = (single.action? q terminal).map (Action.rename f)
  conflicts : ∀ q, shared.conflicts.filter (·.state = f q) =
    (single.conflicts.filter (·.state = q)).map (Conflict.rename f)

/-- The state of `shared` with the items of state `q`. Numbers that are no states of `single` are kept
apart from those of `shared`. -/
def twin (single shared : Automaton) (q : Nat) : Nat :=
  match single.states[q]? with
  | none => shared.states.length + q
  | some state => shared.states.findIdx fun twin => OrderedSet.sameMembers twin.items state.items

variable {registry : Registry} {lookahead : Lookahead} {symbols more : List Symbol}
  {single shared : Automaton} {q : Nat} {state : State}

theorem nodup_items (built : buildFor registry lookahead symbols = .ok single)
    (wellformed : registry.Wellformed) (at_q : single.states[q]? = some state) :
    state.items.Nodup := by
  obtain ⟨pairs, -, paired, rfl⟩ := ofProductions_of_buildFor built
  have known := production_lt_of_paired wellformed paired
  rw [getElem?_states known, Option.map_eq_some_iff] at at_q
  obtain ⟨node, at_node, rfl⟩ := at_q
  have complete := Collection.ofStarts_complete known
  change node.items.Nodup
  rw [complete.items_eq node (List.mem_of_getElem? at_node)]
  exact Registry.nodup_close _

theorem Realizes.row_rename {other_state : State} {r : Nat} {f : Nat → Nat}
    (realizes : Realizes registry lookahead single)
    (realizes_shared : Realizes registry lookahead shared)
    (at_q : single.states[q]? = some state) (at_r : shared.states[r]? = some other_state)
    (same : ∀ item, item ∈ other_state.items ↔ item ∈ state.items)
    (nodup : state.items.Nodup) (other_nodup : other_state.items.Nodup)
    (goto : ∀ symbol, shared.goto? r symbol = (single.goto? q symbol).map f) :
    other_state.row = state.row.map fun (terminal, cell) => (terminal, cell.rename f) := by
  rw [realizes.row_eq at_q, realizes_shared.row_eq at_r]
  refine Cell.row_rename same nodup other_nodup fun symbol => ?_
  rw [← Realizes.goto?_eq at_q, ← Realizes.goto?_eq at_r]
  exact goto symbol

theorem twin_of_state_none (missing : single.states[q]? = none) :
    twin single shared q = shared.states.length + q := by
  rw [twin, missing]

theorem state_twin_of_none (missing : single.states[q]? = none) :
    shared.states[twin single shared q]? = none := by
  rw [twin_of_state_none missing, List.getElem?_eq_none_iff]
  exact Nat.le_add_right _ _

section

variable (wellformed : registry.Wellformed)
  (built : buildFor registry lookahead symbols = .ok single)
  (shared_built : buildFor registry lookahead more = .ok shared) (subset : symbols ⊆ more)

include wellformed shared_built

theorem twin_eq {r : Nat} {other : State} (at_q : single.states[q]? = some state)
    (at_r : shared.states[r]? = some other) (same : ∀ item, item ∈ other.items ↔ item ∈ state.items) :
    twin single shared q = r := by
  have found : ∃ other ∈ shared.states, OrderedSet.sameMembers other.items state.items = true :=
    ⟨other, List.mem_of_getElem? at_r, OrderedSet.sameMembers_iff.mpr same⟩
  have inside := List.findIdx_lt_length_of_exists found
  have first := List.findIdx_getElem (w := inside)
  rw [twin, at_q]
  refine state_unique wellformed shared_built (List.getElem?_eq_getElem inside) at_r fun item => ?_
  rw [OrderedSet.sameMembers_iff.mp first, same]

include built subset

theorem twin_items (at_q : single.states[q]? = some state) :
    ∃ other, shared.states[twin single shared q]? = some other ∧
      ∀ item, item ∈ other.items ↔ item ∈ state.items := by
  obtain ⟨pairs, names, productions, rfl⟩ := ofProductions_of_buildFor built
  obtain ⟨more_pairs, more_names, more_productions, rfl⟩ := ofProductions_of_buildFor shared_built
  have fewer : pairs.map (·.2) ⊆ more_pairs.map (·.2) := by
    intro production mem
    obtain ⟨pair, pair_mem, rfl⟩ := List.mem_map.mp mem
    have listed : pair.1 ∈ more_pairs.map (·.1) :=
      more_names ▸ subset (names ▸ List.mem_map_of_mem pair_mem)
    obtain ⟨other, other_mem, same⟩ := List.mem_map.mp listed
    have found := more_productions other other_mem
    rw [same, productions pair pair_mem] at found
    rw [Option.some.inj found]
    exact List.mem_map_of_mem other_mem
  have known := production_lt_of_paired wellformed productions
  have more_known := production_lt_of_paired wellformed more_productions
  rw [getElem?_states known, Option.map_eq_some_iff] at at_q
  obtain ⟨node, at_node, rfl⟩ := at_q
  obtain ⟨other, mem, same⟩ :=
    Collection.exists_twin more_known fewer node (List.mem_of_getElem? at_node)
  obtain ⟨r, at_r⟩ := List.mem_iff_getElem?.mp mem
  have at_shared := getElem?_states more_known lookahead r
  rw [at_r] at at_shared
  have at_single := getElem?_states known lookahead q
  rw [at_node] at at_single
  rw [twin_eq wellformed shared_built at_single at_shared same]
  exact ⟨_, at_shared, same⟩

theorem twin_lt (at_q : single.states[q]? = some state) :
    twin single shared q < shared.states.length := by
  obtain ⟨other, at_twin, -⟩ := twin_items wellformed built shared_built subset at_q
  exact (List.getElem?_eq_some_iff.mp at_twin).1

theorem twin_injective : Function.Injective (twin single shared) := by
  intro q r same
  cases at_q : single.states[q]? with
  | none =>
    rw [twin_of_state_none at_q] at same
    cases at_r : single.states[r]? with
    | none =>
      rw [twin_of_state_none at_r] at same
      exact Nat.add_left_cancel same
    | some other =>
      have within := twin_lt wellformed built shared_built subset at_r
      omega
  | some state =>
    cases at_r : single.states[r]? with
    | none =>
      have within := twin_lt wellformed built shared_built subset at_q
      rw [twin_of_state_none at_r] at same
      omega
    | some other =>
      obtain ⟨shared_state, at_twin, items⟩ := twin_items wellformed built shared_built subset at_q
      obtain ⟨shared_other, at_other, other_items⟩ :=
        twin_items wellformed built shared_built subset at_r
      rw [same] at at_twin
      cases at_twin.symm.trans at_other
      exact state_unique wellformed built at_q at_r
        fun item => (items item).symm.trans (other_items item)

theorem goto?_twin (at_q : single.states[q]? = some state) (symbol : Symbol) :
    shared.goto? (twin single shared q) symbol =
      (single.goto? q symbol).map (twin single shared) := by
  have realizes := realizes_of_buildFor wellformed built
  have realizes_shared := realizes_of_buildFor wellformed shared_built
  obtain ⟨other, at_twin, same⟩ := twin_items wellformed built shared_built subset at_q
  cases edge : single.goto? q symbol with
  | none =>
    cases shared_edge : shared.goto? (twin single shared q) symbol with
    | none => rfl
    | some target =>
      obtain ⟨⟨item, mem, next⟩, -⟩ := realizes_shared.goto_items at_twin shared_edge
      obtain ⟨target, present⟩ := realizes.goto_exists at_q ((same item).mp mem) next
      rw [edge] at present
      cases present
  | some target =>
    obtain ⟨⟨item, mem, next⟩, reached, at_target, items⟩ := realizes.goto_items at_q edge
    obtain ⟨shared_target, shared_edge⟩ :=
      realizes_shared.goto_exists at_twin ((same item).mpr mem) next
    obtain ⟨-, shared_reached, at_shared, shared_items⟩ :=
      realizes_shared.goto_items at_twin shared_edge
    rw [shared_edge, Option.map_some, twin_eq wellformed shared_built at_target at_shared]
    intro item
    rw [items, shared_items]
    exact Registry.closes_congr (Registry.mem_advance_congr same)

theorem start?_twin {symbol : Symbol} (mem : symbol ∈ symbols) :
    ∃ root, single.start? symbol = some root ∧
      shared.start? symbol = some (twin single shared root) := by
  obtain ⟨root, at_root⟩ := start?_of_buildFor built mem
  obtain ⟨shared_root, at_shared⟩ := start?_of_buildFor shared_built (subset mem)
  obtain ⟨production, state, declared, at_state, items⟩ :=
    (realizes_of_buildFor wellformed built).start_items at_root
  obtain ⟨_, shared_state, again, at_shared_state, shared_items⟩ :=
    (realizes_of_buildFor wellformed shared_built).start_items at_shared
  cases declared.symm.trans again
  refine ⟨root, at_root, at_shared.trans (congrArg some (Eq.symm ?_))⟩
  exact twin_eq wellformed shared_built at_state at_shared_state
    fun item => (shared_items item).trans (items item).symm

theorem row_twin (at_q : single.states[q]? = some state) :
    ∃ other, shared.states[twin single shared q]? = some other ∧
      other.row = state.row.map fun (terminal, cell) => (terminal, cell.rename (twin single shared)) := by
  obtain ⟨other, at_twin, same⟩ := twin_items wellformed built shared_built subset at_q
  refine ⟨other, at_twin, ?_⟩
  exact (realizes_of_buildFor wellformed built).row_rename (realizes_of_buildFor wellformed shared_built)
    at_q at_twin same (nodup_items built wellformed at_q) (nodup_items shared_built wellformed at_twin)
    (goto?_twin wellformed built shared_built subset at_q)

theorem action?_twin (at_q : single.states[q]? = some state) (terminal : Symbol) :
    shared.action? (twin single shared q) terminal =
      (single.action? q terminal).map (Action.rename (twin single shared)) := by
  obtain ⟨other, at_twin, row⟩ := row_twin wellformed built shared_built subset at_q
  simp only [action?, at_q, at_twin, Option.bind_some, row, Cell.lookup_rename, Option.map_map]
  rfl

theorem conflicts_twin (q : Nat) : shared.conflicts.filter (·.state = twin single shared q) =
    (single.conflicts.filter (·.state = q)).map (Conflict.rename (twin single shared)) := by
  rw [conflicts_of_state (realizes_of_buildFor wellformed built),
    conflicts_of_state (realizes_of_buildFor wellformed shared_built)]
  cases at_q : single.states[q]? with
  | none =>
    rw [state_twin_of_none at_q]
    rfl
  | some state =>
    obtain ⟨other, at_twin, row⟩ := row_twin wellformed built shared_built subset at_q
    simp only [at_twin, Option.elim_some, row, List.filterMap_map, List.map_filterMap]
    exact List.filterMap_congr fun entry _ => Conflict.ofCell?_rename q entry.1 entry.2

/-- More start symbols change nothing about the states there were. -/
theorem embeds_of_buildFor : Embeds symbols (twin single shared) single shared where
  injective := twin_injective wellformed built shared_built subset
  start _ := start?_twin wellformed built shared_built subset
  items := twin_items wellformed built shared_built subset
  goto q symbol := by
    cases at_q : single.states[q]? with
    | none =>
      rw [goto?_of_state_none at_q, goto?_of_state_none (state_twin_of_none at_q)]
      rfl
    | some state => exact goto?_twin wellformed built shared_built subset at_q symbol
  action q terminal := by
    cases at_q : single.states[q]? with
    | none =>
      rw [action?_of_state_none at_q, action?_of_state_none (state_twin_of_none at_q)]
      rfl
    | some state => exact action?_twin wellformed built shared_built subset at_q terminal
  conflicts := conflicts_twin wellformed built shared_built subset

end

end Automaton

end ShiftReduce
