import ShiftReduce.Log
import ShiftReduce.Proofs.Automaton.Action
import ShiftReduce.Proofs.Checked.Collection
import ShiftReduce.Proofs.Checked.Registry
import ShiftReduce.Proofs.Machine.Termination

/-!
Building a parser and running it with all preconditions: none of them ever fails, for any grammar and
any input. The rows of actions look up the productions of complete items, and of the reductions in a
conflict, which is logged; the machine looks up the production it reduces.
-/
namespace ShiftReduce.Checked

variable {registry : Registry} {lookahead : Lookahead} {items : List Item} {terminal : Symbol}

def shifts (registry : Registry) (items : List Item) (edges : List (Symbol × Nat))
    (terminal : Symbol) : Option (List Candidate) :=
  match edges.lookup terminal with
  | none => some []
  | some target => do
    let outgoing ← outgoing registry items
    let advanced := ((outgoing.filter (·.1 = terminal)).map (·.2)).map (·.production)
    return advanced.min?.toList.map (⟨·, .shift target⟩)

def reducesOn (registry : Registry) (lookahead : Lookahead) (production t : Nat)
    (terminal : Symbol) : Option Bool :=
  if registry.isStartProduction production then some terminal.isEof
  else
    match lookahead with
    | .lr0 => some true
    | .slr => registry.productions[production]?.map (registry.follows ·.lhs t)

def reduces (registry : Registry) (lookahead : Lookahead) (complete : List Item) (t : Nat)
    (terminal : Symbol) : Option (List Candidate) := do
  let asking ← filter (reducesOn registry lookahead ·.production t terminal) complete
  return asking.map fun item => ⟨item.production, .reduce item.production⟩

def ranked (registry : Registry) (lookahead : Lookahead) (items complete : List Item)
    (edges : List (Symbol × Nat)) (t : Nat) (terminal : Symbol) : Option (List Candidate) := do
  let shifts ← shifts registry items edges terminal
  let reduces ← reduces registry lookahead complete t terminal
  return Ranking.sort Candidate.precedes (shifts ++ reduces)

def describe (registry : Registry) : Action → Option String
  | .shift target => some (Log.renderAction registry (.shift target))
  | .reduce id => registry.productions[id]?.map ("reduce " ++ ·.render)

/-- The cell for some candidates. All of them are described if there is a conflict. -/
def cell (registry : Registry) : List Candidate → Option (Option Cell)
  | [] => some none
  | best :: others => do
    if !others.isEmpty then
      let _ ← (best :: others).mapM (describe registry ·.action)
    return some ⟨best.action, others.map (·.action)⟩

def row (registry : Registry) (lookahead : Lookahead) (items : List Item)
    (edges : List (Symbol × Nat)) : Option (List (Symbol × Cell)) := do
  let complete ← filter (isComplete registry) items
  filterMap (fun (terminal, t) => do
    let candidates ← ranked registry lookahead items complete edges t terminal
    let cell ← cell registry candidates
    return cell.map (terminal, ·)) registry.terminals.zipIdx

section

theorem shifts_eq (known : Known registry items) (edges : List (Symbol × Nat)) (terminal : Symbol) :
    shifts registry items edges terminal = some (Candidate.shifts registry items edges terminal) := by
  unfold shifts Candidate.shifts
  cases edges.lookup terminal with
  | none => rfl
  | some target =>
    dsimp only
    rw [outgoing_eq known]
    rfl

theorem reducesOn_eq {production t : Nat} (known : production < registry.productions.length) :
    reducesOn registry lookahead production t terminal =
      some (Candidate.reducesOn registry lookahead production t terminal) := by
  unfold reducesOn Candidate.reducesOn
  split
  · rfl
  · cases lookahead with
    | lr0 => rfl
    | slr => simp [Registry.lhs?, known]

theorem ranked_eq {complete : List Item} (known : Known registry items) (subset : complete ⊆ items)
    (edges : List (Symbol × Nat)) (t : Nat) (terminal : Symbol) :
    ranked registry lookahead items complete edges t terminal =
      some (Candidate.ranked registry lookahead items complete edges t terminal) := by
  have asking : filter (reducesOn registry lookahead ·.production t terminal) complete =
      some (complete.filter (Candidate.reducesOn registry lookahead ·.production t terminal)) :=
    filter_eq fun item mem => reducesOn_eq (known item (subset mem))
  rw [ranked, shifts_eq known, reduces, asking]
  rfl

theorem known_of_ranked {complete : List Item} (known : Known registry items)
    (subset : complete ⊆ items) {edges : List (Symbol × Nat)} {t id : Nat} {candidate : Candidate}
    (mem : candidate ∈ Candidate.ranked registry lookahead items complete edges t terminal)
    (action : candidate.action = .reduce id) : id < registry.productions.length := by
  rw [Candidate.ranked, Ranking.mem_sort, List.mem_append] at mem
  obtain shift | reduce := mem
  · unfold Candidate.shifts at shift
    split at shift
    · cases shift
    · obtain ⟨rank, -, rfl⟩ := List.mem_map.mp shift
      cases action
  · obtain ⟨item, mem, rfl⟩ := List.mem_map.mp reduce
    cases action
    exact known item (subset (List.mem_filter.mp mem).1)

theorem describe_eq {action : Action}
    (known : ∀ id, action = .reduce id → id < registry.productions.length) :
    describe registry action = some (Log.renderAction registry action) := by
  cases action with
  | shift target => rfl
  | reduce id => simp [describe, Log.renderAction, Log.renderProduction, known id rfl]

theorem cell_eq {candidates : List Candidate} (known : ∀ candidate ∈ candidates, ∀ id,
    candidate.action = .reduce id → id < registry.productions.length) :
    cell registry candidates = some (Cell.ofCandidates candidates) := by
  cases candidates with
  | nil => rfl
  | cons best others =>
    have described : (best :: others).mapM (describe registry ·.action) =
        some ((best :: others).map (Log.renderAction registry ·.action)) :=
      mapM_eq_map fun candidate mem => describe_eq (known candidate mem)
    rw [cell, described]
    cases others <;> rfl

theorem row_eq (known : Known registry items) (edges : List (Symbol × Nat)) :
    row registry lookahead items edges = some (Cell.row registry lookahead items edges) := by
  have complete : filter (isComplete registry) items = some (items.filter registry.isComplete) :=
    filter_eq fun item mem => isComplete_eq (known item mem)
  rw [row, complete]
  refine filterMap_eq fun (terminal, t) _ => ?_
  have subset : items.filter registry.isComplete ⊆ items := List.filter_subset_self items
  dsimp only
  rw [ranked_eq known subset]
  simp [cell_eq fun candidate mem id => known_of_ranked known subset mem]

end

def ofProductions (registry : Registry) (lookahead : Lookahead) (symbols : List (Symbol × Nat)) :
    Option Automaton := do
  let collection ← ofStarts registry (symbols.map (·.2))
  let states ← collection.nodes.zipIdx.mapM fun (node, i) => do
    let edges ← collection.rows[i]?
    let row ← row registry lookahead node.items edges
    return ({ node with edges, row } : State)
  let _ ← collection.roots.mapM (states[·]?)
  return ⟨states, (symbols.map (·.1)).zip collection.roots⟩

def buildFor (registry : Registry) (lookahead : Lookahead) (symbols : List Symbol) :
    Checked Automaton := do
  let productions ← ofExcept (Automaton.startProductions registry symbols)
  ofProductions registry lookahead productions

def parserOfGrammar (grammar : Grammar) (lookahead : Lookahead) : Checked Parser := do
  let registry ← ofGrammar grammar
  let automaton ← buildFor registry lookahead registry.starts
  return { lookahead, registry, automaton }

section

theorem ofProductions_eq (wellformed : registry.Wellformed) {pairs : List (Symbol × Nat)}
    (paired : ∀ pair ∈ pairs, registry.startProduction pair.1 = some pair.2) :
    ofProductions registry lookahead pairs =
      some (Automaton.ofProductions registry lookahead pairs) := by
  have inside := Automaton.production_lt_of_paired wellformed paired
  have whole := Collection.ofStarts_whole inside
  obtain ⟨collection, known⟩ := ofStarts_eq inside
  have states : ((Collection.ofStarts registry (pairs.map (·.2))).nodes.zipIdx.mapM fun (node, i) => do
      let edges ← (Collection.ofStarts registry (pairs.map (·.2))).rows[i]?
      let row ← row registry lookahead node.items edges
      return ({ node with edges, row } : State)) =
        some (Automaton.ofProductions registry lookahead pairs).states := by
    refine mapM_eq_map fun (node, i) mem => ?_
    have at_i := List.mk_mem_zipIdx_iff_getElem?.mp mem
    have recorded := Collection.rows_ofStarts inside at_i
    dsimp only
    rw [recorded, Option.bind_eq_bind, Option.bind_some, row_eq (known node (List.mem_of_getElem? at_i))]
    simp [recorded]
  have starts : (Collection.ofStarts registry (pairs.map (·.2))).roots.mapM
      ((Automaton.ofProductions registry lookahead pairs).states[·]?) =
        some ((Collection.ofStarts registry (pairs.map (·.2))).roots.filterMap
          ((Automaton.ofProductions registry lookahead pairs).states[·]?)) := by
    refine mapM_eq_filterMap fun root mem => ?_
    obtain ⟨_, index⟩ := Collection.exists_of_forall₂
      (Collection.roots_ofStarts registry (pairs.map (·.2))).flip mem
    obtain ⟨node, at_root, -⟩ := Collection.exists_of_indexOf? index
    rw [Automaton.getElem?_states inside, at_root]
    exact ⟨_, rfl⟩
  rw [ofProductions, collection, Option.bind_eq_bind, Option.bind_some, states, Option.bind_eq_bind,
    Option.bind_some, starts]
  rfl

theorem run_buildFor (wellformed : registry.Wellformed) (symbols : List Symbol) :
    (buildFor registry lookahead symbols).run =
      some (Automaton.buildFor registry lookahead symbols) := by
  refine run_bind rfl fun pairs listed => ?_
  have made : ofProductions registry lookahead pairs =
      some (Automaton.ofProductions registry lookahead pairs) :=
    ofProductions_eq wellformed (Automaton.startProductions_eq listed).2
  rw [made]
  rfl

theorem run_parserOfGrammar (grammar : Grammar) (lookahead : Lookahead) :
    (parserOfGrammar grammar lookahead).run = some (Parser.ofGrammar grammar lookahead) := by
  refine run_bind (run_ofGrammar grammar) fun registry accepted => ?_
  exact run_bind (run_buildFor (Registry.acceptedFrom accepted).wellformed registry.starts)
    fun _ _ => rfl

end

def act (registry : Registry) (automaton : Automaton) (config : Machine.Config) (top : Nat) :
    Option Machine.Step :=
  match automaton.action? top config.lookahead.symbol with
  | none => some (.halted config (.rejected (.unrecognizedInput config.lookahead top)))
  | some (.shift target) => some (.shifted (config.shift target))
  | some (.reduce id) =>
    if registry.isStartProduction id then some (.halted config .accepted)
    else do
      let production ← registry.productions[id]?
      return Machine.reduce automaton config top id production

def step (registry : Registry) (automaton : Automaton) (config : Machine.Config) :
    Option Machine.Step :=
  match config.stack with
  | [] => some (.halted config (.rejected (.unrecognizedInput config.lookahead config.root)))
  | top :: _ => act registry automaton config top

def runWatched (registry : Registry) (automaton : Automaton) :
    Nat → Machine.Watched → Option (Machine.Config × Verdict)
  | 0, watched => some (watched.config, .unfinished)
  | fuel + 1, watched => do
    match ← step registry automaton watched.config with
    | .shifted next => runWatched registry automaton fuel (.start next)
    | .reduced next =>
      let visits := Machine.Watched.surviving watched.visits next
      if visits.any (·.isRepeatedBy next) then
        return (next, .rejected (.reduceLoop next.lookahead next.top))
      else runWatched registry automaton fuel ⟨next, visits ++ [.fresh next]⟩
    | .halted last verdict => return (last, verdict)

def parse (parser : Parser) (start : Symbol) (tokens : List Token) : Option Parse :=
  match parser.automaton.start? start with
  | none => some ⟨[], 0, .rejected (.grammar (parser.registry.startError start))⟩
  | some root => do
    let (last, verdict) ← runWatched parser.registry parser.automaton
      (Machine.budget tokens.length parser.automaton.states.length)
      (.start (.start root (.ofList tokens)))
    return ⟨last.moves.reverse, last.source.pulled, verdict⟩

section

variable {automaton : Automaton} (realizes : automaton.Realizes registry lookahead)

include realizes

theorem act_eq (config : Machine.Config) (top : Nat) :
    act registry automaton config top = some (Machine.act registry automaton config top) := by
  unfold act Machine.act
  cases chosen : automaton.action? top config.lookahead.symbol with
  | none => rfl
  | some action =>
    cases action with
    | shift target => rfl
    | reduce id =>
      dsimp only
      split
      · rfl
      · cases (realizes.asks_of_action? chosen).2 with
        | reduce _ _ complete _ =>
          obtain ⟨production, found, -⟩ := Registry.isComplete_iff.mp complete
          rw [found]
          rfl

theorem step_eq (config : Machine.Config) :
    step registry automaton config = some (Machine.step registry automaton config) := by
  unfold step Machine.step
  cases config.stack with
  | nil => rfl
  | cons top below => exact act_eq realizes config top

theorem runWatched_eq (fuel : Nat) (watched : Machine.Watched) :
    runWatched registry automaton fuel watched =
      some (Machine.runWatched registry automaton fuel watched) := by
  induction fuel generalizing watched with
  | zero => rfl
  | succ fuel ih =>
    rw [runWatched, step_eq realizes, Machine.runWatched]
    cases Machine.step registry automaton watched.config with
    | shifted next => exact ih _
    | reduced next =>
      dsimp only [Option.bind_eq_bind, Option.bind_some]
      split
      · rfl
      · exact ih _
    | halted last verdict => rfl

end

theorem parse_eq {parser : Parser} (realizes : parser.automaton.Realizes parser.registry lookahead)
    (start : Symbol) (tokens : List Token) :
    parse parser start tokens = some (parser.parse start tokens) := by
  unfold parse Parser.parse Parser.parseSource
  cases parser.automaton.start? start with
  | none => rfl
  | some root =>
    dsimp only
    rw [runWatched_eq realizes]
    rfl

/-- For every grammar a parser is built or a grammar error is returned, which only registration does,
and with every parser built, each parse from any symbol accepts or refuses its tokens. No precondition
fails on the way. -/
theorem preconditions_hold (grammar : Grammar) (lookahead : Lookahead) :
    (parserOfGrammar grammar lookahead).run = some (Parser.ofGrammar grammar lookahead) ∧
      (∀ error, Parser.ofGrammar grammar lookahead = .error error ↔
        Registry.ofGrammar grammar = .error error) ∧
      ∀ parser, Parser.ofGrammar grammar lookahead = .ok parser →
        ∀ start tokens, parse parser start tokens = some (parser.parse start tokens) ∧
          (parser.parse start tokens).verdict.IsFinal := by
  refine ⟨run_parserOfGrammar grammar lookahead, fun _ => Parser.ofGrammar_eq_error, ?_⟩
  intro parser built start tokens
  exact ⟨parse_eq (Parser.realizes built) start tokens, Parser.parse_final built start tokens⟩

/-- The grammar `growing`, which has a conflict and loops, and one with an empty name. -/
theorem preconditions_hold_growing :
    (parserOfGrammar Parser.growing .lr0).run = some (.ok Parser.growingParser) ∧
      (parse Parser.growingParser ⟨"s"⟩ (Parser.tokensOf ["X"])).map (·.verdict) =
        some (.rejected (.reduceLoop ⟨⟨"X"⟩, "X"⟩ 2)) ∧
      (Parser.growingParser.parse ⟨"s"⟩ (Parser.tokensOf ["X"])).verdict.IsFinal ∧
      (parserOfGrammar { Parser.growing with start := ["s", ""] } .slr).run =
        some (.error .emptyName) := by
  have built : Parser.ofGrammar Parser.growing .lr0 = .ok Parser.growingParser := eq_ok_of_isSome _
  have looped : (Parser.growingParser.parse ⟨"s"⟩ (Parser.tokensOf ["X"])).verdict =
      .rejected (.reduceLoop ⟨⟨"X"⟩, "X"⟩ 2) := by decide +kernel
  have refused : Registry.ofGrammar { Parser.growing with start := ["s", ""] } =
      .error .emptyName := by rfl
  obtain ⟨builds, -, parses⟩ := preconditions_hold Parser.growing .lr0
  obtain ⟨refuses, errors, -⟩ := preconditions_hold { Parser.growing with start := ["s", ""] } .slr
  obtain ⟨parsed, final⟩ := parses _ built ⟨"s"⟩ (Parser.tokensOf ["X"])
  rw [built] at builds
  rw [(errors _).mpr refused] at refuses
  exact ⟨builds, by rw [parsed, Option.map_some, looped], final, refuses⟩

end ShiftReduce.Checked
