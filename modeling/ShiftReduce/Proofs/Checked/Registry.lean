import ShiftReduce.Proofs.Checked.Lowering
import ShiftReduce.Proofs.Registry.Analysed
import ShiftReduce.Proofs.Registry.Ledger

/-!
Registration with its preconditions. The productions are looked up by their numbers, every symbol of
a right-hand side has an entry among the FIRST sets, and the bits set are those of registered terminals.
The checks on references come before the sets are computed, which is why each symbol has its entry.
-/
namespace ShiftReduce.Checked

open TerminalSet

section

variable {α β : Type}

def sweep (step : α → β → Option (α × Bool)) : List β → α → Option (α × Bool)
  | [], x => some (x, false)
  | item :: items, x => do
    let (y, grew) ← step x item
    let (z, more) ← sweep step items y
    return (z, grew || more)

def saturate (pass : α → Option (α × Bool)) : Nat → α → Option α
  | 0, x => some x
  | fuel + 1, x => do
    let (y, grew) ← pass x
    if grew then saturate pass fuel y else return y

variable {step : α → β → α × Bool} {checked : α → β → Option (α × Bool)} {items : List β}
  {invariant : α → Prop} {measure : α → Nat} {bound : Nat} {x : α}

theorem sweep_eq (climbs : Analysis.Climbs step items invariant measure bound)
    (agrees : ∀ x, invariant x → ∀ item ∈ items, checked x item = some (step x item))
    (holds : invariant x) : sweep checked items x = some (Analysis.sweep step items x) := by
  induction items generalizing x with
  | nil => rfl
  | cons item rest ih =>
    have later := climbs.keeps x holds item List.mem_cons_self
    have others : ∀ x, invariant x → ∀ item ∈ rest, checked x item = some (step x item) :=
      fun x holds item mem => agrees x holds item (List.mem_cons_of_mem _ mem)
    simp [sweep, Analysis.sweep, agrees x holds item List.mem_cons_self,
      ih (climbs.mono (List.subset_cons_self item rest)) others later]

theorem saturate_eq {fuel : Nat} (climbs : Analysis.Climbs step items invariant measure bound)
    (agrees : ∀ x, invariant x → ∀ item ∈ items, checked x item = some (step x item))
    (holds : invariant x) :
    saturate (sweep checked items) fuel x =
      some (Analysis.saturate (Analysis.sweep step items) fuel x) := by
  induction fuel generalizing x with
  | zero => rfl
  | succ fuel ih =>
    have kept := (climbs.sweep holds).1
    rw [saturate, sweep_eq climbs agrees holds, Analysis.saturate]
    generalize Analysis.sweep step items x = passed at kept ⊢
    obtain ⟨y, grew⟩ := passed
    cases grew with
    | false => rfl
    | true => exact ih kept

end

/-- A bit is set in a word that the set has. -/
def insert (set : TerminalSet) (t : Nat) : Option TerminalSet :=
  if t / wordBits < set.words.length then some (set.insert t) else none

def singleton (count t : Nat) : Option TerminalSet := insert (.empty count) t

theorem singleton_eq {count t : Nat} (lt : t < count) :
    singleton count t = some (.singleton count t) :=
  if_pos ((Fits.empty count).inside lt)

/-- The productions of a symbol, looked up by the numbers that the ledger has filed under it. -/
def filed (productions : List Production) (symbol : Symbol) : Option (List Production) :=
  (((Ledger.ofProductions productions).index.lookup symbol).getD []).mapM fun id => productions[id.toNat]?

theorem filed_isSome (productions : List Production) (symbol : Symbol) :
    ∃ found, filed productions symbol = some found := by
  have inside : ∀ id ∈ ((Ledger.ofProductions productions).index.lookup symbol).getD [],
      ∃ production, productions[id.toNat]? = some production := by
    intro id mem
    cases found : (Ledger.ofProductions productions).index.lookup symbol with
    | none => simp [found] at mem
    | some ids =>
      rw [found, Option.getD_some] at mem
      exact ⟨_, List.getElem?_eq_getElem (Ledger.toNat_lt_of_lookup found mem)⟩
  exact ⟨_, mapM_eq_filterMap inside⟩

def grouped (nonterminals : List Symbol) (productions : List Production) :
    Option (List (Symbol × List (List Symbol))) := do
  let _ ← nonterminals.mapM (filed productions)
  return Production.grouped nonterminals productions

theorem grouped_eq (nonterminals : List Symbol) (productions : List Production) :
    grouped nonterminals productions = some (Production.grouped nonterminals productions) := by
  rw [grouped, mapM_eq_filterMap fun symbol _ => filed_isSome productions symbol]
  rfl

/-- What can begin a right-hand side, all of whose symbols have entries. -/
def gather (nullable : List Symbol) (sets : SymbolSets) (buffer : TerminalSet) :
    List Symbol → Option TerminalSet
  | [] => some buffer
  | symbol :: rest => do
    let set ← sets.get? symbol
    let joined := buffer.union set
    if nullable.contains symbol then gather nullable sets joined rest else return joined

def firstStep (count : Nat) (nullable : List Symbol) (sets : SymbolSets)
    (rule : Symbol × List (List Symbol)) : Option (SymbolSets × Bool) := do
  let new ← rule.2.foldlM (gather nullable sets) (.empty count)
  let _ ← sets.get? rule.1
  return sets.grow rule.1 new

def firstInitial (terminals nonterminals : List Symbol) : Option SymbolSets := do
  let own ← terminals.zipIdx.mapM fun (terminal, i) =>
    (singleton terminals.length i).map (terminal, ·)
  return own ++ nonterminals.map (fun nonterminal => (nonterminal, .empty terminals.length))

def firstSolve (terminals nonterminals nullable : List Symbol) (productions : List Production) :
    Option SymbolSets := do
  let rules ← grouped nonterminals productions
  let initial ← firstInitial terminals nonterminals
  saturate (sweep (firstStep terminals.length nullable) rules)
    (nonterminals.length * terminals.length + 1) initial

def followInitial (count : Nat) (augmented nonterminals : List Symbol) : Option SymbolSets :=
  nonterminals.mapM fun nonterminal =>
    if augmented.contains nonterminal then (singleton count 0).map (nonterminal, ·)
    else some (nonterminal, .empty count)

/-- A symbol without an entry is passed over by a FOLLOW pass, so only the end marker is at stake. -/
def followSolve (count : Nat) (augmented nonterminals nullable : List Symbol) (first : SymbolSets)
    (productions : List Production) : Option SymbolSets := do
  let initial ← followInitial count augmented nonterminals
  return Analysis.saturate (Follow.pass nullable first productions) (nonterminals.length * count + 1)
    initial

section

variable {terminals nonterminals nullable : List Symbol} {productions : List Production}
  {sets : SymbolSets} {count : Nat}

theorem gather_eq {string : List Symbol} {buffer : TerminalSet}
    (entered : First.Entered count sets string) :
    gather nullable sets buffer string = some (First.gather nullable sets buffer string) := by
  induction string generalizing buffer with
  | nil => rfl
  | cons symbol rest ih =>
    obtain ⟨⟨set, entry, -⟩, others⟩ := List.forall_mem_cons.mp entered
    simp only [gather, entry, Option.bind_eq_bind, Option.bind_some, ih others, First.gather]
    split <;> rfl

theorem firstStep_eq {rule : Symbol × List (List Symbol)}
    (entered : ∀ body ∈ rule.2, First.Entered count sets body)
    (known : rule.1 ∈ SymbolSets.keys sets) :
    firstStep count nullable sets rule = some (First.step count nullable sets rule) := by
  have gathered : rule.2.foldlM (gather nullable sets) (.empty count) =
      some (First.gatherAll count nullable sets rule.2) :=
    (foldlM_eq (fun _ => True) (fun _ _ body mem => gather_eq (entered body mem))
      (fun _ _ _ _ => trivial) trivial).1
  rw [firstStep, gathered, Option.bind_eq_bind, Option.bind_some, SymbolSets.get?_eq known]
  rfl

theorem firstInitial_eq (terminals nonterminals : List Symbol) :
    firstInitial terminals nonterminals = some (First.initial terminals nonterminals) := by
  have own : (terminals.zipIdx.mapM fun (terminal, i) =>
      (singleton terminals.length i).map (terminal, ·)) =
        some (terminals.zipIdx.map fun (terminal, i) => (terminal, .singleton terminals.length i)) := by
    refine mapM_eq_map fun (terminal, i) mem => ?_
    have inside := (List.getElem?_eq_some_iff.mp (List.mk_mem_zipIdx_iff_getElem?.mp mem)).1
    dsimp only
    rw [singleton_eq inside]
    rfl
  rw [firstInitial, own]
  rfl

theorem firstSolve_eq (nullable : List Symbol)
    (covered : Production.Covered terminals nonterminals productions) :
    firstSolve terminals nonterminals nullable productions =
      some (First.solve terminals nonterminals nullable productions) := by
  have agrees : ∀ sets, SymbolSets.Grown terminals.length (First.initial terminals nonterminals) sets →
      ∀ rule ∈ Production.grouped nonterminals productions,
        firstStep terminals.length nullable sets rule =
          some (First.step terminals.length nullable sets rule) := by
    intro sets grown rule mem
    refine firstStep_eq (First.entered_of_grown covered grown mem) ?_
    rw [grown.keys_eq, First.keys_initial, List.mem_append]
    exact .inr (Production.mem_grouped.mp mem).1
  rw [firstSolve, grouped_eq, firstInitial_eq]
  exact saturate_eq (First.climbs nullable covered) agrees (.refl First.fits_initial)

theorem followSolve_eq (positive : 0 < count) (augmented nonterminals nullable : List Symbol)
    (first : SymbolSets) (productions : List Production) :
    followSolve count augmented nonterminals nullable first productions =
      some (Follow.solve count augmented nonterminals nullable first productions) := by
  have initial : followInitial count augmented nonterminals =
      some (Follow.initial count augmented nonterminals) := by
    refine mapM_eq_map fun nonterminal _ => ?_
    rw [singleton_eq positive]
    split <;> rfl
  rw [followSolve, initial]
  rfl

end

/-- The left-hand sides of the augmented productions, which the start symbols name by number. -/
def augmentedOf (starts : List Symbol) (productions : List Production) : Option (List Symbol) :=
  starts.zipIdx.mapM fun (_, id) => productions[id]?.map (·.lhs)

theorem augmentedOf_eq {registry : Registry} (wellformed : registry.Wellformed) :
    augmentedOf registry.starts registry.productions = some (registry.starts.map Symbol.augmented) := by
  have each : ∀ entry ∈ registry.starts.zipIdx,
      registry.productions[entry.2]?.map (·.lhs) = some (Symbol.augmented entry.1) := by
    intro entry mem
    rw [wellformed.augmented_at (List.mem_zipIdx_iff_getElem?.mp mem)]
    rfl
  have starts : registry.starts.zipIdx.map (fun entry => Symbol.augmented entry.1) =
      (registry.starts.zipIdx.map Prod.fst).map Symbol.augmented := by
    rw [List.map_map]
    rfl
  rw [augmentedOf, mapM_eq_map each, starts, List.zipIdx_map_fst]

def ofGrammar (grammar : Grammar) : Checked Registry := do
  let defined := grammar.rules.map (·.1)
  checkRuleNames [] defined
  checkStarts defined grammar.start
  checkNames grammar.names
  let starts := OrderedSet.distinct (grammar.start.map Symbol.mk)
  let productions ← productions starts grammar
  let nonterminals := OrderedSet.distinct (productions.map (·.lhs))
  ofExcept (Registration.checkReferences nonterminals productions)
  checkNullableNames defined grammar.nullable
  let declaredNullable ← ofExcept (Registration.declareNullable defined
    (OrderedSet.distinct (grammar.nullable.map Symbol.mk)) productions)
  let nullable := Nullable.solve productions
  checkDeclarations nullable grammar.nullable
  let terminals :=
    OrderedSet.distinct (Symbol.eof :: (grammar.names.map Symbol.mk).filter (·.isTerminal))
  let first ← firstSolve terminals nonterminals nullable productions
  let augmented ← augmentedOf starts productions
  let follow ← followSolve terminals.length augmented nonterminals nullable first productions
  return { starts, productions, terminals, declaredNullable, nullable, first, follow }

open Registration in
/-- Registration never fails a precondition, whatever the names in a grammar are. -/
theorem run_ofGrammar (grammar : Grammar) :
    (ofGrammar grammar).run = some (Registry.ofGrammar grammar) := by
  refine run_bind run_checkRuleNames fun _ rules => ?_
  refine run_bind run_checkStarts fun _ starts => ?_
  refine run_bind run_checkNames fun _ names => ?_
  have owners : ∀ name ∈ grammar.rules.map (·.1), name.toList ≠ [] :=
    fun name mem => ((checkRuleNames_ok rules).1 name mem).1.nonempty
  rw [run_lift (productions_eq _ owners fun name mem => (checkNames_ok names name mem).nonempty)]
  refine run_bind rfl fun _ references => ?_
  refine run_bind run_checkNullableNames fun _ known => ?_
  refine run_bind rfl fun declared declares => ?_
  have nonempty : ∀ name ∈ grammar.nullable, name.toList ≠ [] :=
    fun name mem => owners name (checkNullableNames_ok known name mem)
  refine run_bind (run_checkDeclarations nonempty) fun _ declarations => ?_
  have accepted : Registry.ofGrammar grammar = .ok _ :=
    bind_eq_ok.mpr ⟨_, rules, bind_eq_ok.mpr ⟨_, starts, bind_eq_ok.mpr ⟨_, names,
      bind_eq_ok.mpr ⟨_, references, bind_eq_ok.mpr ⟨_, known, bind_eq_ok.mpr ⟨_, declares,
        bind_eq_ok.mpr ⟨_, declarations, rfl⟩⟩⟩⟩⟩⟩⟩
  have wellformed := (Registry.acceptedFrom accepted).wellformed
  refine (run_lift (firstSolve_eq _ wellformed.covered)).trans ?_
  refine (run_lift (augmentedOf_eq wellformed)).trans ?_
  exact run_lift (followSolve_eq wellformed.terminals_pos _ _ _ _ _)

end ShiftReduce.Checked
