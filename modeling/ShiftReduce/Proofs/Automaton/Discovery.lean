import Mathlib.Order.Bounds.Defs
import ShiftReduce.Proofs.Automaton.Canonical

/-!
How states were found. A node keeps the edge it was first reached by. As the nodes are expanded in the
order in which they were found, the nodes those edges come from never go back, and no other edge into a
node comes from an earlier one. So the edges kept lead back to start states, and from a single start state
they are a tree of shortest strings.
-/
namespace ShiftReduce

namespace Collection

variable {registry : Registry} {productions : List Nat} {nodes : List Node} {node : Node} {i : Nat}

/-- What is known of the origins of nodes when those before `i` have been expanded. -/
structure Found (registry : Registry) (i : Nat) (nodes : List Node) : Prop where
  edge : ∀ (q : Nat) (node : Node), nodes[q]? = some node → ∀ p symbol, node.origin = some (p, symbol) →
    p < q ∧ ∃ source : Node, nodes[p]? = some source ∧
      (symbol, node.kernel) ∈ registry.kernels source.items
  before : ∀ node ∈ nodes, ∀ source ∈ node.origin, source.1 < i
  ordered : nodes.Pairwise fun earlier later =>
    ∀ source ∈ earlier.origin, ∀ other ∈ later.origin, source.1 ≤ other.1

/-- Moreover, an edge of an expanded node leads to one that was found by then. -/
structure Breadth (registry : Registry) (i : Nat) (nodes : List Node) : Prop
    extends Found registry i nodes where
  covers : ∀ j < i, ∀ node : Node, nodes[j]? = some node → ∀ symbol kernel,
    (symbol, kernel) ∈ registry.kernels node.items →
    ∃ target ∈ nodes, target.hasKernel kernel ∧ ∀ source ∈ target.origin, source.1 ≤ j

namespace Found

theorem mono {j : Nat} (found : Found registry i nodes) (le : i ≤ j) : Found registry j nodes where
  edge := found.edge
  before node mem source origin := (found.before node mem source origin).trans_le le
  ordered := found.ordered

theorem append (found : Found registry i nodes)
    (edge : ∀ p symbol, node.origin = some (p, symbol) → p + 1 = i ∧ ∃ source : Node,
      nodes[p]? = some source ∧ (symbol, node.kernel) ∈ registry.kernels source.items) :
    Found registry i (nodes ++ [node]) where
  edge q other at_q p symbol origin := by
    obtain ⟨before, source, at_p, group⟩ : p < q ∧ ∃ source : Node, nodes[p]? = some source ∧
        (symbol, other.kernel) ∈ registry.kernels source.items := by
      rw [List.getElem?_append] at at_q
      split at at_q
      · exact found.edge q other at_q p symbol origin
      · obtain rfl := List.mem_singleton.mp (List.mem_of_getElem? at_q)
        obtain ⟨-, source, at_p, group⟩ := edge p symbol origin
        have inside := (List.getElem?_eq_some_iff.mp at_p).1
        exact ⟨by omega, source, at_p, group⟩
    exact ⟨before, source, getElem?_of_grown (List.prefix_append _ _) at_p, group⟩
  before := by
    rw [List.forall_mem_append, List.forall_mem_singleton]
    refine ⟨found.before, fun source origin => ?_⟩
    have last := (edge source.1 source.2 origin).1
    omega
  ordered := by
    refine List.pairwise_append.mpr ⟨found.ordered, List.pairwise_singleton _ _, ?_⟩
    intro earlier mem later new source origin other last
    obtain rfl := List.mem_singleton.mp new
    have before := found.before earlier mem source origin
    have next := (edge other.1 other.2 last).1
    omega

theorem intern (found : Found registry i nodes) {origin : Option (Nat × Symbol)} {kernel : List Item}
    (edge : ∀ p symbol, origin = some (p, symbol) → p + 1 = i ∧ ∃ source : Node,
      nodes[p]? = some source ∧ (symbol, kernel) ∈ registry.kernels source.items) :
    Found registry i (Collection.intern registry origin nodes kernel).2 := by
  obtain ⟨target, -, made⟩ | ⟨-, made⟩ := intern_cases registry origin nodes kernel <;> rw [made]
  · exact found
  · exact found.append edge

theorem followAll {groups : List (Symbol × List Item)} {row : List (Symbol × Nat)}
    (found : Found registry (i + 1) nodes) (at_i : nodes[i]? = some node)
    (subset : groups ⊆ registry.kernels node.items) :
    Found registry (i + 1) (groups.foldl (follow registry i) (nodes, row)).1 := by
  induction groups generalizing nodes row with
  | nil => exact found
  | cons group rest ih =>
    obtain ⟨first, others⟩ := List.cons_subset.mp subset
    refine ih (found.intern ?_) (getElem?_of_grown (prefix_intern _ _ _) at_i) others
    intro p symbol origin
    cases origin
    exact ⟨rfl, node, at_i, first⟩

theorem origin_eq_none (found : Found registry i nodes) {production q : Nat} (at_q : nodes[q]? = some node)
    (start : node.kernel = [⟨production, 0⟩]) : node.origin = none := by
  cases origin : node.origin with
  | none => rfl
  | some source =>
    obtain ⟨-, before, -, group⟩ := found.edge q node at_q source.1 source.2 origin
    have moved := List.mem_singleton_self (⟨production, 0⟩ : Item)
    rw [← start, (Registry.mem_kernels.mp group).2] at moved
    exact absurd (Registry.dot_pos_of_advanced moved) (Nat.lt_irrefl 0)

end Found

namespace Breadth

variable (breadth : Breadth registry i nodes)

include breadth

theorem covers_of_prefix {more : List Node} (within : i ≤ nodes.length) (grown : nodes <+: more) :
    ∀ j < i, ∀ node : Node, more[j]? = some node → ∀ symbol kernel,
      (symbol, kernel) ∈ registry.kernels node.items →
      ∃ target ∈ more, target.hasKernel kernel ∧ ∀ source ∈ target.origin, source.1 ≤ j := by
  intro j before node at_j symbol kernel group
  have inside : j < nodes.length := by omega
  have known := getElem?_of_grown grown (List.getElem?_eq_getElem inside)
  cases at_j.symm.trans known
  obtain ⟨target, mem, same⟩ :=
    breadth.covers j before _ (List.getElem?_eq_getElem inside) symbol kernel group
  exact ⟨target, grown.subset mem, same⟩

theorem intern_start (within : i ≤ nodes.length) (kernel : List Item) :
    Breadth registry i (Collection.intern registry none nodes kernel).2 where
  toFound := breadth.toFound.intern fun _ _ origin => by cases origin
  covers := breadth.covers_of_prefix within (prefix_intern _ _ _)

theorem expand (at_i : nodes[i]? = some node) :
    Breadth registry (i + 1) (Collection.expand registry i node nodes).1 := by
  have grown := prefix_expand registry i node nodes
  have found : Found registry (i + 1) (Collection.expand registry i node nodes).1 :=
    (breadth.toFound.mono (Nat.le_succ i)).followAll at_i (List.Subset.refl _)
  refine ⟨found, fun j before other at_j symbol kernel group => ?_⟩
  obtain earlier | rfl := Nat.lt_succ_iff_lt_or_eq.mp before
  · have within := Nat.le_of_lt (List.getElem?_eq_some_iff.mp at_i).1
    exact breadth.covers_of_prefix within grown j earlier other at_j symbol kernel group
  · cases at_j.symm.trans (getElem?_of_grown grown at_i)
    obtain ⟨target, mem, same⟩ := covers_expand j node nodes symbol kernel group
    exact ⟨target, mem, same, fun source origin =>
      Nat.le_of_lt_succ (found.before target mem source origin)⟩

end Breadth

theorem breadth_exploreFrom {collection : Collection} (fuel : Nat)
    (breadth : Breadth registry collection.rows.length collection.nodes) :
    Breadth registry (exploreFrom registry fuel collection).rows.length
      (exploreFrom registry fuel collection).nodes := by
  refine exploreFrom_keeps (fun later => Breadth registry later.rows.length later.nodes)
    (fun later node found breadth => ?_) fuel breadth
  rw [advance, List.length_append, List.length_singleton]
  exact breadth.expand found

theorem breadth_ofStarts (known : ∀ production ∈ productions, production < registry.productions.length) :
    Breadth registry (ofStarts registry productions).rows.length (ofStarts registry productions).nodes := by
  induction productions using List.reverseRecOn with
  | nil => exact ⟨⟨by simp [ofStarts], by simp [ofStarts], .nil⟩, by simp [ofStarts]⟩
  | append_singleton front production ih =>
    rw [List.forall_mem_append, List.forall_mem_singleton] at known
    rw [ofStarts_concat]
    exact breadth_exploreFrom _ ((ih known.1).intern_start (ofStarts_whole known.1).within _)

theorem start_of_origin_none : ∀ node ∈ (ofStarts registry productions).nodes, node.origin = none →
    ∃ production ∈ productions, node.kernel = [⟨production, 0⟩] := by
  refine forall_ofStarts ?_ fun production mem _ _ => ⟨production, mem, rfl⟩
  intro i node _ group _ _ origin
  cases origin

end Collection

namespace Automaton

/-- The state and symbol that a state was first reached from. -/
def origin? (automaton : Automaton) (q : Nat) : Option (Nat × Symbol) :=
  automaton.states[q]?.bind (·.origin)

/-- `automaton.TracesTo q path root`: the origins, followed back from `q`, end at `root`, which has none,
and their symbols spell `path` from there. -/
inductive TracesTo (automaton : Automaton) : Nat → List Symbol → Nat → Prop where
  | here {root : Nat} : root < automaton.states.length → automaton.origin? root = none →
      TracesTo automaton root [] root
  | back {q p root : Nat} {symbol : Symbol} {path : List Symbol} :
      automaton.origin? q = some (p, symbol) → TracesTo automaton p path root →
      TracesTo automaton q (path ++ [symbol]) root

/-- Start states have no origin, and another state has an edge from a state before it. Origins do not go back
from one state to the next, and no edge into a state comes from one before its origin. -/
structure FoundInBreadth (automaton : Automaton) : Prop where
  none_iff : ∀ q < automaton.states.length, automaton.origin? q = none ↔ automaton.IsStart q
  edge : ∀ {q p : Nat} {symbol : Symbol}, automaton.origin? q = some (p, symbol) →
    p < q ∧ automaton.goto? p symbol = some q
  ordered : ∀ {q r p s : Nat} {symbol other : Symbol}, q ≤ r → automaton.origin? q = some (p, symbol) →
    automaton.origin? r = some (s, other) → p ≤ s
  earliest : ∀ {q p s : Nat} {symbol other : Symbol}, automaton.goto? s other = some q →
    automaton.origin? q = some (p, symbol) → p ≤ s

variable {registry : Registry} {lookahead : Lookahead} {automaton : Automaton} {symbols : List Symbol}
  {q r root top : Nat} {path way : List Symbol}

theorem origin?_eq_some {source : Nat × Symbol} : automaton.origin? q = some source ↔
    ∃ state, automaton.states[q]? = some state ∧ state.origin = some source := Option.bind_eq_some_iff

theorem lt_of_origin? {source : Nat × Symbol} (origin : automaton.origin? q = some source) :
    q < automaton.states.length := by
  obtain ⟨_, at_q, -⟩ := origin?_eq_some.mp origin
  exact (List.getElem?_eq_some_iff.mp at_q).1

theorem origin?_ofProductions {pairs : List (Symbol × Nat)}
    (known : ∀ production ∈ pairs.map (·.2), production < registry.productions.length)
    {source : Nat × Symbol} : (ofProductions registry lookahead pairs).origin? q = some source ↔
      ∃ node : Node, (Collection.ofStarts registry (pairs.map (·.2))).nodes[q]? = some node ∧
        node.origin = some source := by
  rw [origin?, getElem?_states known, Option.bind_map, Option.bind_eq_some_iff]
  rfl

theorem lt_of_goto? {symbol : Symbol} (edge : automaton.goto? q symbol = some r) :
    q < automaton.states.length := by
  obtain ⟨_, at_q, -⟩ := Option.bind_eq_some_iff.mp edge
  exact (List.getElem?_eq_some_iff.mp at_q).1

theorem root?_of_build {start : Symbol} (built : build registry lookahead start = .ok automaton) :
    automaton.root? = automaton.start? start := by
  obtain ⟨pairs, names, -, rfl⟩ := ofProductions_of_buildFor built
  obtain ⟨⟨symbol, production⟩, rfl, rfl⟩ := List.map_eq_singleton_iff.mp names
  rw [root?, start?, starts_ofProductions]
  cases found : Collection.indexOf? (Collection.ofStarts registry [production]).nodes [⟨production, 0⟩] <;>
    simp [found]

theorem start?_of_isStart {start : Symbol} (built : build registry lookahead start = .ok automaton)
    (is_start : automaton.IsStart q) : automaton.start? start = some q := by
  obtain ⟨symbol, started⟩ := is_start
  obtain ⟨pairs, names, paired, rfl⟩ := ofProductions_of_buildFor built
  have only := ((start?_ofProductions paired).mp started).1
  rw [names, List.mem_singleton] at only
  exact only ▸ started

theorem foundInBreadth_of_buildFor (wellformed : registry.Wellformed)
    (built : buildFor registry lookahead symbols = .ok automaton) : automaton.FoundInBreadth := by
  obtain ⟨pairs, -, paired, rfl⟩ := ofProductions_of_buildFor built
  have known := production_lt_of_paired wellformed paired
  have breadth := Collection.breadth_ofStarts known
  have whole := Collection.ofStarts_whole known
  have sound := whole.toSound
  exact {
    none_iff := by
      intro q inside
      have at_q := List.getElem?_eq_getElem inside
      rw [isStart_iff wellformed paired at_q, origin?, at_q, Option.bind_some]
      have at_node := (node_of_getElem? wellformed paired at_q).1
      refine ⟨Collection.start_of_origin_none _ (List.mem_of_getElem? at_node), ?_⟩
      rintro ⟨production, -, kernel⟩
      exact breadth.origin_eq_none at_node kernel
    edge := by
      intro q p symbol origin
      obtain ⟨node, at_q, origin⟩ := (origin?_ofProductions known).mp origin
      obtain ⟨before, source, at_p, group⟩ := breadth.edge q node at_q p symbol origin
      obtain ⟨expected, kernel⟩ := Registry.mem_kernels.mp group
      refine ⟨before, (goto?_ofProductions known).mpr ⟨source, at_p, expected, ?_⟩⟩
      refine sound.indexOf?_eq at_q (Collection.hasKernel_iff.mpr fun item => ?_)
      rw [kernel]
    ordered := by
      intro q r p s symbol other le origin other_origin
      obtain ⟨node, at_q, origin⟩ := (origin?_ofProductions known).mp origin
      obtain ⟨node', at_r, other_origin⟩ := (origin?_ofProductions known).mp other_origin
      obtain before | rfl := Nat.lt_or_eq_of_le le
      · obtain ⟨inside, rfl⟩ := List.getElem?_eq_some_iff.mp at_q
        obtain ⟨inside', rfl⟩ := List.getElem?_eq_some_iff.mp at_r
        exact List.pairwise_iff_getElem.mp breadth.ordered q r inside inside' before _ origin _ other_origin
      · cases at_q.symm.trans at_r
        cases origin.symm.trans other_origin
        exact Nat.le_refl p
    earliest := by
      intro q p s symbol other edge origin
      obtain ⟨node, at_q, origin⟩ := (origin?_ofProductions known).mp origin
      obtain ⟨source, at_s, expected, index⟩ := (goto?_ofProductions known).mp edge
      have expanded := (List.getElem?_eq_some_iff.mp at_s).1
      rw [← whole.length_eq] at expanded
      obtain ⟨target, mem, same, first⟩ := breadth.covers s expanded source at_s other _
        (Registry.mem_kernels.mpr ⟨expected, rfl⟩)
      obtain ⟨i, at_i⟩ := List.mem_iff_getElem?.mp mem
      rw [sound.indexOf?_eq at_i same] at index
      cases index
      cases at_i.symm.trans at_q
      exact first _ origin }

namespace FoundInBreadth

variable (found : automaton.FoundInBreadth)

include found

theorem exists_tracesTo (inside : q < automaton.states.length) :
    ∃ path root, automaton.TracesTo q path root := by
  induction q using Nat.strongRecOn with
  | ind q ih =>
    cases origin : automaton.origin? q with
    | none => exact ⟨[], q, .here inside origin⟩
    | some source =>
      have before := (found.edge origin).1
      obtain ⟨path, root, traces⟩ := ih source.1 before (before.trans inside)
      exact ⟨path ++ [source.2], root, .back origin traces⟩

end FoundInBreadth

namespace TracesTo

variable (traces : automaton.TracesTo q path root) (found : automaton.FoundInBreadth)

include traces found

theorem isStart : automaton.IsStart root := by
  induction traces with
  | here inside none => exact (found.none_iff _ inside).mp none
  | back _ _ ih => exact ih

theorem root_le : root ≤ q := by
  induction traces with
  | here => exact Nat.le_refl _
  | back origin _ ih => exact ih.trans (Nat.le_of_lt (found.edge origin).1)

theorem walkEnd_eq {start : Symbol} (at_root : automaton.start? start = some root) :
    automaton.walkEnd start path = some q := by
  induction traces with
  | here => exact walkEnd_nil.trans at_root
  | back origin _ ih =>
    rw [walkEnd_snoc, ih at_root]
    exact (found.edge origin).2

variable (single : ∀ q r, automaton.IsStart q → automaton.IsStart r → q = r)

include single

theorem length_le (le : q ≤ r) (other : automaton.TracesTo r way top) : path.length ≤ way.length := by
  induction other generalizing q path with
  | @here r inside none =>
    have same : root = r := single _ _ (traces.isStart found) ((found.none_iff r inside).mp none)
    have last : q = r := Nat.le_antisymm le (same ▸ traces.root_le found)
    cases traces with
    | here => exact Nat.le_refl _
    | back origin => cases (last ▸ origin).symm.trans none
  | back other_origin rest ih =>
    cases traces with
    | here => exact Nat.zero_le _
    | back origin traces =>
      have shorter := ih traces (found.ordered le origin other_origin)
      simpa using shorter

/-- No string that leads to a state is shorter than the one its origins spell. -/
theorem length_le_of_walkEnd {start : Symbol} (walked : automaton.walkEnd start way = some q) :
    path.length ≤ way.length := by
  induction way using List.reverseRecOn generalizing q path root with
  | nil =>
    have start_state : automaton.IsStart q := ⟨start, walked⟩
    cases traces with
    | here => exact Nat.le_refl _
    | back origin =>
      rw [(found.none_iff q (lt_of_origin? origin)).mpr start_state] at origin
      cases origin
  | append_singleton front symbol ih =>
    cases traces with
    | here => exact Nat.zero_le _
    | back origin traces =>
      rw [walkEnd_snoc, Option.bind_eq_some_iff] at walked
      obtain ⟨s, walked, edge⟩ := walked
      obtain ⟨before, top, other⟩ := found.exists_tracesTo (lt_of_goto? edge)
      have earlier := traces.length_le found single (found.earliest edge origin) other
      simpa using earlier.trans (ih other walked)

end TracesTo

/-- In an automaton of an accepted grammar the start states are those without an origin, and the origin of
any other state is an edge into it from a state before it, so that origins lead back to a start state. If
there is one start symbol, they spell a shortest string to each state, and states further on are no closer
to the start. -/
theorem origins_breadth_first {grammar : Grammar} (accepted : Registry.ofGrammar grammar = .ok registry) :
    (∀ symbols automaton, buildFor registry lookahead symbols = .ok automaton →
      (∀ q < automaton.states.length, automaton.origin? q = none ↔ automaton.IsStart q) ∧
      (∀ q p symbol, automaton.origin? q = some (p, symbol) →
        p < q ∧ automaton.goto? p symbol = some q) ∧
      ∀ q < automaton.states.length, ∃ path root, automaton.TracesTo q path root ∧
        automaton.IsStart root) ∧
    ∀ start automaton, build registry lookahead start = .ok automaton →
      (∀ q path root, automaton.TracesTo q path root → automaton.root? = some root ∧
        automaton.walkEnd start path = some q ∧
        IsLeast {length | ∃ way, automaton.walkEnd start way = some q ∧ way.length = length} path.length) ∧
      ∀ p q way, p ≤ q → automaton.walkEnd start way = some q →
        ∃ path, automaton.walkEnd start path = some p ∧ path.length ≤ way.length := by
  have wellformed := (Registry.acceptedFrom accepted).wellformed
  refine ⟨fun symbols automaton built => ?_, fun start automaton built => ?_⟩
  · have found := foundInBreadth_of_buildFor wellformed built
    refine ⟨found.none_iff, fun q p symbol => found.edge, fun q inside => ?_⟩
    obtain ⟨path, root, traces⟩ := found.exists_tracesTo inside
    exact ⟨path, root, traces, traces.isStart found⟩
  · have found := foundInBreadth_of_buildFor wellformed built
    have single : ∀ q r, automaton.IsStart q → automaton.IsStart r → q = r := fun q r first second =>
      Option.some.inj ((start?_of_isStart built first).symm.trans (start?_of_isStart built second))
    refine ⟨fun q path root traces => ?_, fun p q way le walked => ?_⟩
    · have at_root := start?_of_isStart built (traces.isStart found)
      have leads := traces.walkEnd_eq found at_root
      refine ⟨(root?_of_build built).trans at_root, leads, ⟨path, leads, rfl⟩, ?_⟩
      rintro _ ⟨way, walked, rfl⟩
      exact traces.length_le_of_walkEnd found single walked
    · have realizes := realizes_of_buildFor wellformed built
      obtain ⟨root, at_root⟩ := start?_of_buildFor built (List.mem_singleton_self start)
      obtain ⟨production, -, declared, -⟩ := realizes.start_items at_root
      obtain ⟨-, state, at_q, -⟩ := realizes.items_of_walkEnd declared walked
      have inside := (List.getElem?_eq_some_iff.mp at_q).1
      obtain ⟨path, root, traces⟩ := found.exists_tracesTo (Nat.lt_of_le_of_lt le inside)
      obtain ⟨shortest, top, other⟩ := found.exists_tracesTo inside
      refine ⟨path, traces.walkEnd_eq found (start?_of_isStart built (traces.isStart found)), ?_⟩
      calc
        path.length ≤ shortest.length := traces.length_le found single le other
        _ ≤ way.length := other.length_le_of_walkEnd found single walked

theorem term_built : (build parensRegistry .lr0 ⟨"t"⟩).toOption.isSome = true := by decide +kernel

def termAutomaton : Automaton := (build parensRegistry .lr0 ⟨"t"⟩).toOption.get term_built

/-- Sums and terms together have two start states, the second behind all states that the first leads to. With
terms alone, three symbols are the least that lead behind a closing parenthesis. -/
theorem origins_parens :
    (parensAutomaton.IsStart 9 ∧ parensAutomaton.goto? 9 ⟨"t"⟩ = some 10) ∧
    termAutomaton.root? = some 0 ∧ termAutomaton.walkEnd ⟨"t"⟩ [⟨"LParen"⟩, ⟨"s"⟩, ⟨"RParen"⟩] = some 6 ∧
    (∀ way, termAutomaton.walkEnd ⟨"t"⟩ way = some 6 → 3 ≤ way.length) ∧
    ∃ path, termAutomaton.walkEnd ⟨"t"⟩ path = some 5 ∧ path.length ≤ 3 := by
  have accepted : Registry.ofGrammar parens = .ok parensRegistry := eq_ok_of_isSome parens_accepted
  have built : buildFor parensRegistry .lr0 parensRegistry.starts = .ok parensAutomaton :=
    eq_ok_of_isSome parens_built
  have built_term : build parensRegistry .lr0 ⟨"t"⟩ = .ok termAutomaton := eq_ok_of_isSome term_built
  obtain ⟨any, one⟩ := @origins_breadth_first _ .lr0 _ accepted
  obtain ⟨none_iff, edge, -⟩ := any _ _ built
  obtain ⟨shortest, no_closer⟩ := one _ _ built_term
  have together : 9 < parensAutomaton.states.length ∧ parensAutomaton.origin? 9 = none ∧
      parensAutomaton.origin? 10 = some (9, ⟨"t"⟩) := by decide +kernel
  have alone : 0 < termAutomaton.states.length ∧ termAutomaton.origin? 0 = none ∧
      termAutomaton.origin? 2 = some (0, ⟨"LParen"⟩) ∧ termAutomaton.origin? 4 = some (2, ⟨"s"⟩) ∧
      termAutomaton.origin? 6 = some (4, ⟨"RParen"⟩) := by decide +kernel
  obtain ⟨inside, start, reached⟩ := together
  obtain ⟨some_states, root, opening, sum, closing⟩ := alone
  have traces : termAutomaton.TracesTo 6 [⟨"LParen"⟩, ⟨"s"⟩, ⟨"RParen"⟩] 0 :=
    .back closing (.back sum (.back opening (.here some_states root)))
  obtain ⟨at_root, leads, -, least⟩ := shortest 6 _ 0 traces
  refine ⟨⟨(none_iff 9 inside).mp start, (edge 10 9 _ reached).2⟩, at_root, leads,
    fun way walked => least ⟨way, walked, rfl⟩, no_closer 5 6 _ (by decide) leads⟩

end Automaton

end ShiftReduce
