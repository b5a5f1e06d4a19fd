import ShiftReduce.Proofs.Registry.Checks

/-!
Evaluation with the preconditions of its operations. Where a symbol is made of an empty name, an index
lies outside a list or a bit outside a set, a checked evaluation gives nothing, while the definitions it
follows go on with some default. That both agree says that no default is ever taken.

Here are the name checks of registration and lowering, which are what makes symbols.
-/
namespace ShiftReduce

/-- An evaluation that may be stopped by a grammar error, and gives nothing at a failed precondition. -/
abbrev Checked := ExceptT GrammarError Option

namespace Checked

section

variable {α β : Type}

def ofExcept (x : Except GrammarError α) : Checked α := ExceptT.mk (some x)

/-- What is learned from a first part that went well can be used for the rest. -/
theorem run_bind {x : Checked α} {y : Except GrammarError α} {f : α → Checked β}
    {g : α → Except GrammarError β} (first : x.run = some y)
    (rest : ∀ a, y = .ok a → (f a).run = some (g a)) : (x >>= f).run = some (y >>= g) := by
  rw [ExceptT.run_bind, first]
  cases y with
  | error e => rfl
  | ok a => exact rest a rfl

theorem run_lift {x : Option α} {a : α} {f : α → Checked β} (found : x = some a) :
    ((liftM x : Checked α) >>= f).run = (f a).run := by
  subst found
  rfl

section

variable {xs : List α}

theorem mapM_eq_map {f : α → Option β} {g : α → β} (each : ∀ x ∈ xs, f x = some (g x)) :
    xs.mapM f = some (xs.map g) := by
  induction xs with
  | nil => rfl
  | cons x rest ih =>
    rw [List.forall_mem_cons] at each
    simp [List.mapM_cons, each.1, ih each.2]

theorem mapM_eq_filterMap {f : α → Option β} (each : ∀ x ∈ xs, ∃ y, f x = some y) :
    xs.mapM f = some (xs.filterMap f) := by
  induction xs with
  | nil => rfl
  | cons x rest ih =>
    rw [List.forall_mem_cons] at each
    obtain ⟨⟨y, found⟩, others⟩ := each
    simp [List.mapM_cons, found, ih others]

def filterMap (f : α → Option (Option β)) (xs : List α) : Option (List β) := do
  let found ← xs.mapM f
  return found.filterMap id

theorem filterMap_eq {f : α → Option (Option β)} {g : α → Option β}
    (each : ∀ x ∈ xs, f x = some (g x)) : filterMap f xs = some (xs.filterMap g) := by
  rw [filterMap, mapM_eq_map each]
  simp [List.filterMap_map]

def filter (p : α → Option Bool) : List α → Option (List α)
  | [] => some []
  | x :: rest => do
    let keep ← p x
    let others ← filter p rest
    return if keep then x :: others else others

theorem filter_eq {p : α → Option Bool} {q : α → Bool} (each : ∀ x ∈ xs, p x = some (q x)) :
    filter p xs = some (xs.filter q) := by
  induction xs with
  | nil => rfl
  | cons x rest ih =>
    rw [List.forall_mem_cons] at each
    simp [filter, each.1, ih each.2, List.filter_cons]

theorem foldlM_eq {f : β → α → Option β} {g : β → α → β} {b : β} (invariant : β → Prop)
    (agrees : ∀ b, invariant b → ∀ x ∈ xs, f b x = some (g b x))
    (keeps : ∀ b, invariant b → ∀ x ∈ xs, invariant (g b x)) (holds : invariant b) :
    xs.foldlM f b = some (xs.foldl g b) ∧ invariant (xs.foldl g b) := by
  induction xs generalizing b with
  | nil => exact ⟨rfl, holds⟩
  | cons x rest ih =>
    have next := keeps b holds x List.mem_cons_self
    simp only [List.foldlM_cons, agrees b holds x List.mem_cons_self, Option.bind_eq_bind,
      Option.bind_some, List.foldl_cons]
    exact ih (fun b holds x mem => agrees b holds x (List.mem_cons_of_mem _ mem))
      (fun b holds x mem => keeps b holds x (List.mem_cons_of_mem _ mem)) next

end

end

/-- A symbol is made of a name that is not empty. -/
def symbol (name : String) : Option Symbol := (Symbol.ofName name).toOption

theorem symbol_eq {name : String} (nonempty : name.toList ≠ []) : symbol name = some ⟨name⟩ := by
  have filled : name.isEmpty = false := by simpa using nonempty
  simp [symbol, Symbol.ofName, filled]
  rfl

example : symbol "" = none := rfl

section

variable {names seen defined : List String} {symbols : List Symbol}

def named (name : String) : Checked Symbol := do
  ofExcept (Symbol.checkName name)
  symbol name

def checkRuleNames (seen : List String) : List String → Checked Unit
  | [] => pure ()
  | name :: rest => do
    let lhs ← named name
    if lhs.isTerminal then throw (.terminalRule name)
    else if seen.contains name then throw (.duplicateRule name)
    else checkRuleNames (name :: seen) rest

def checkStarts (defined : List String) : List String → Checked Unit
  | [] => pure ()
  | name :: rest => do
    let _ ← named name
    if defined.contains name then checkStarts defined rest else throw (.undefinedStart name)

def checkNames : List String → Checked Unit
  | [] => pure ()
  | name :: rest => do
    let _ ← named name
    checkNames rest

def checkNullableNames (defined : List String) : List String → Checked Unit
  | [] => pure ()
  | name :: rest => do
    let _ ← named name
    if defined.contains name then checkNullableNames defined rest else throw (.unknownNullable name)

/-- The names are made symbols once more, without another check. -/
def checkDeclarations (nullable : List Symbol) : List String → Checked Unit
  | [] => pure ()
  | name :: rest => do
    let declared ← symbol name
    if nullable.contains declared then checkDeclarations nullable rest
    else throw (.spuriousNullable name)

theorem run_named {α : Type} {name : String} {f : Symbol → Checked α} {g : Unit → Except GrammarError α}
    (rest : Symbol.checkName name = .ok () → (f ⟨name⟩).run = some (g ())) :
    (named name >>= f).run = some (Symbol.checkName name >>= g) := by
  rw [named, bind_assoc]
  refine run_bind rfl fun _ checked => ?_
  rw [run_lift (symbol_eq (Symbol.permitted_of_checkName checked).nonempty)]
  exact rest checked

theorem run_checkRuleNames :
    (checkRuleNames seen names).run = some (Registration.checkRuleNames seen names) := by
  induction names generalizing seen with
  | nil => rfl
  | cons name rest ih =>
    refine run_named fun _ => ?_
    split
    · rfl
    · split
      · rfl
      · exact ih

theorem run_checkStarts :
    (checkStarts defined names).run = some (Registration.checkStarts defined names) := by
  induction names with
  | nil => rfl
  | cons name rest ih =>
    refine run_named fun _ => ?_
    split
    · exact ih
    · rfl

theorem run_checkNames : (checkNames names).run = some (Registration.checkNames names) := by
  induction names with
  | nil => rfl
  | cons name rest ih => exact run_named fun _ => ih

theorem run_checkNullableNames :
    (checkNullableNames defined names).run = some (Registration.checkNullableNames defined names) := by
  induction names with
  | nil => rfl
  | cons name rest ih =>
    refine run_named fun _ => ?_
    split
    · exact ih
    · rfl

theorem run_checkDeclarations (nonempty : ∀ name ∈ names, name.toList ≠ []) :
    (checkDeclarations symbols names).run = some (Registration.checkDeclarations symbols names) := by
  induction names with
  | nil => rfl
  | cons name rest ih =>
    rw [List.forall_mem_cons] at nonempty
    rw [checkDeclarations, run_lift (symbol_eq nonempty.1), Registration.checkDeclarations]
    split
    · exact ih nonempty.2
    · rfl

end

def augmented (start : Symbol) : Option Symbol := symbol (start.name ++ "'")

def helper (owner : String) (number : Nat) : Option Symbol :=
  symbol (owner ++ "~" ++ toString number)

theorem augmented_eq (start : Symbol) : augmented start = some start.augmented :=
  symbol_eq (by simp)

theorem helper_eq (owner : String) (number : Nat) :
    helper owner number = some (.helper owner number) :=
  symbol_eq (by simp)

mutual

def lower (owner : String) (count : Nat) : Rule → Option Lowered
  | .symbol name => do
    let symbol ← symbol name
    return ⟨[symbol], [], count⟩
  | .seq rules => lowerParts owner count rules
  | .alternatives rules => do
    let helper ← helper owner (count + 1)
    let body ← lowerChoices owner helper (count + 1) rules
    return ⟨[helper], body.productions, body.helpers⟩
  | .many rule => do
    let helper ← helper owner (count + 1)
    let body ← lower owner (count + 1) rule
    return ⟨[helper],
      body.productions ++ [⟨helper, helper :: body.symbols⟩, ⟨helper, []⟩],
      body.helpers⟩
  | .many1 rule => do
    let helper ← helper owner (count + 1)
    let body ← lower owner (count + 1) rule
    return ⟨[helper],
      body.productions ++ [⟨helper, helper :: body.symbols⟩, ⟨helper, body.symbols⟩],
      body.helpers⟩
  | .optional rule => do
    let helper ← helper owner (count + 1)
    let body ← lower owner (count + 1) rule
    return ⟨[helper],
      body.productions ++ [⟨helper, body.symbols⟩, ⟨helper, []⟩],
      body.helpers⟩
  | .sepBy1 separator rule => do
    let helper ← helper owner (count + 1)
    let between ← lower owner (count + 1) separator
    let body ← lower owner between.helpers rule
    return ⟨[helper],
      between.productions ++ body.productions
        ++ Lowering.separated helper between.symbols body.symbols,
      body.helpers⟩
  | .sepBy separator rule => do
    let outer ← helper owner (count + 1)
    let list ← helper owner (count + 2)
    let between ← lower owner (count + 2) separator
    let body ← lower owner between.helpers rule
    return ⟨[outer],
      between.productions ++ body.productions
        ++ Lowering.separated list between.symbols body.symbols
        ++ [⟨outer, [list]⟩, ⟨outer, []⟩],
      body.helpers⟩

def lowerParts (owner : String) (count : Nat) : List Rule → Option Lowered
  | [] => some ⟨[], [], count⟩
  | rule :: rules => do
    let first ← lower owner count rule
    let rest ← lowerParts owner first.helpers rules
    return ⟨first.symbols ++ rest.symbols, first.productions ++ rest.productions, rest.helpers⟩

def lowerChoices (owner : String) (lhs : Symbol) (count : Nat) : List Rule → Option Lowered
  | [] => some ⟨[], [], count⟩
  | rule :: rules => do
    let first ← lower owner count rule
    let rest ← lowerChoices owner lhs first.helpers rules
    return ⟨[], first.productions ++ ⟨lhs, first.symbols⟩ :: rest.productions, rest.helpers⟩

end

def lowerRule (name : String) (rule : Rule) : Option (List Production) := do
  let lhs ← symbol name
  let lowered ← lowerChoices name lhs 0 rule.choices
  return lowered.productions

def productions (starts : List Symbol) (grammar : Grammar) : Option (List Production) := do
  let front ← starts.mapM fun start => do
    let lhs ← augmented start
    return (⟨lhs, [start]⟩ : Production)
  let rules ← grammar.rules.mapM fun (name, rule) => lowerRule name rule
  return front ++ rules.flatten

section

mutual

theorem lower_eq (owner : String) (count : Nat) : (rule : Rule) →
    (∀ name ∈ rule.names, name.toList ≠ []) →
      lower owner count rule = some (Lowering.lower owner count rule)
  | .symbol name, nonempty => by
    rw [lower, symbol_eq (nonempty name (by simp [Rule.names])), Lowering.lower]
    rfl
  | .seq rules, nonempty => by
    rw [lower, lowerParts_eq owner count rules nonempty, Lowering.lower]
  | .alternatives rules, nonempty => by
    simp [lower, helper_eq, Lowering.lower,
      lowerChoices_eq owner (.helper owner (count + 1)) (count + 1) rules nonempty]
  | .many rule, nonempty => by
    simp [lower, helper_eq, Lowering.lower, lower_eq owner (count + 1) rule nonempty]
  | .many1 rule, nonempty => by
    simp [lower, helper_eq, Lowering.lower, lower_eq owner (count + 1) rule nonempty]
  | .optional rule, nonempty => by
    simp [lower, helper_eq, Lowering.lower, lower_eq owner (count + 1) rule nonempty]
  | .sepBy1 separator rule, nonempty => by
    rw [Rule.names, List.forall_mem_append] at nonempty
    simp [lower, helper_eq, Lowering.lower, lower_eq owner (count + 1) separator nonempty.1,
      lower_eq owner _ rule nonempty.2]
  | .sepBy separator rule, nonempty => by
    rw [Rule.names, List.forall_mem_append] at nonempty
    simp [lower, helper_eq, Lowering.lower, lower_eq owner (count + 2) separator nonempty.1,
      lower_eq owner _ rule nonempty.2]

theorem lowerParts_eq (owner : String) (count : Nat) : (rules : List Rule) →
    (∀ name ∈ Rule.namesOfAll rules, name.toList ≠ []) →
      lowerParts owner count rules = some (Lowering.lowerParts owner count rules)
  | [], _ => by rw [lowerParts, Lowering.lowerParts]
  | rule :: rules, nonempty => by
    rw [Rule.namesOfAll, List.forall_mem_append] at nonempty
    simp [lowerParts, Lowering.lowerParts, lower_eq owner count rule nonempty.1,
      lowerParts_eq owner _ rules nonempty.2]

theorem lowerChoices_eq (owner : String) (lhs : Symbol) (count : Nat) : (rules : List Rule) →
    (∀ name ∈ Rule.namesOfAll rules, name.toList ≠ []) →
      lowerChoices owner lhs count rules = some (Lowering.lowerChoices owner lhs count rules)
  | [], _ => by rw [lowerChoices, Lowering.lowerChoices]
  | rule :: rules, nonempty => by
    rw [Rule.namesOfAll, List.forall_mem_append] at nonempty
    simp [lowerChoices, Lowering.lowerChoices, lower_eq owner count rule nonempty.1,
      lowerChoices_eq owner lhs _ rules nonempty.2]

end

theorem productions_eq {grammar : Grammar} (starts : List Symbol)
    (owners : ∀ name ∈ grammar.rules.map (·.1), name.toList ≠ [])
    (nonempty : ∀ name ∈ grammar.names, name.toList ≠ []) :
    productions starts grammar = some (grammar.productions starts) := by
  have front : (starts.mapM fun start => do
      let lhs ← augmented start
      return (⟨lhs, [start]⟩ : Production)) =
        some (starts.map fun start => ⟨start.augmented, [start]⟩) :=
    mapM_eq_map fun start _ => by simp [augmented_eq]
  have rules : (grammar.rules.mapM fun (name, rule) => lowerRule name rule) =
      some (grammar.rules.map fun (name, rule) => Lowering.lowerRule name rule) := by
    refine mapM_eq_map fun (name, rule) mem => ?_
    have inside : ∀ written ∈ Rule.namesOfAll rule.choices, written.toList ≠ [] := by
      rw [Lowering.namesOfAll_choices]
      exact fun written used => nonempty written (List.mem_flatMap.mpr ⟨_, mem, used⟩)
    simp [lowerRule, symbol_eq (owners name (List.mem_map_of_mem mem)),
      lowerChoices_eq _ _ _ _ inside, Lowering.lowerRule]
  rw [productions, front, Option.bind_eq_bind, Option.bind_some, rules, Grammar.productions,
    List.flatMap_def]
  rfl

end

end Checked

end ShiftReduce
