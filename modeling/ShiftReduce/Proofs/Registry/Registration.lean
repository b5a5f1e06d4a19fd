import ShiftReduce.Proofs.Analysis.Nullable
import ShiftReduce.Proofs.Lowering.Combinators
import ShiftReduce.Proofs.Lowering.Language
import ShiftReduce.Proofs.Registry.Checks

/-!
Registration accepts the well-formed grammars and no others. Well-formedness speaks of the rules as
they are written; the checks on references and empty productions are made on the lowered form, and say
the same because lowering uses every name, gives every helper productions and leaves a right-hand side
empty only for a sequence without leaves. The error reported is a defect of the rules as written too.
-/
namespace ShiftReduce

namespace Grammar

def ruleNames (grammar : Grammar) : List String := grammar.rules.map (·.1)

structure Wellformed (grammar : Grammar) : Prop where
  names : ∀ name ∈ grammar.ruleNames ++ grammar.start ++ grammar.names ++ grammar.nullable,
    Symbol.Permitted name
  rules_nonterminal : ∀ name ∈ grammar.ruleNames, (⟨name⟩ : Symbol).isTerminal = false
  rules_nodup : grammar.ruleNames.Nodup
  starts_defined : ∀ name ∈ grammar.start, name ∈ grammar.ruleNames
  references_defined : ∀ name ∈ grammar.names, (⟨name⟩ : Symbol).isTerminal = false →
    name ∈ grammar.ruleNames
  nullable_matches : ∀ name ∈ grammar.nullable,
    ∃ body, (name, body) ∈ grammar.rules ∧ Rule.Matches grammar.rules body []
  blank_declared : ∀ name body, (name, body) ∈ grammar.rules →
    (∃ choice ∈ body.choices, choice.Blank) → name ∈ grammar.nullable

/-- The defects that errors stand for. A reference to an undefined nonterminal is reported with the
left-hand side of a production it is used in, which is the owner of the rule or one of its helpers. -/
inductive Defect (grammar : Grammar) : GrammarError → Prop where
  | name {name : String} {error : GrammarError} :
      name ∈ grammar.ruleNames ++ grammar.start ++ grammar.names ++ grammar.nullable →
      Symbol.NameDefect name error → Defect grammar error
  | terminalRule {name : String} : name ∈ grammar.ruleNames →
      (⟨name⟩ : Symbol).isTerminal = true → Defect grammar (.terminalRule name)
  | duplicateRule {name : String} : 1 < grammar.ruleNames.count name →
      Defect grammar (.duplicateRule name)
  | undefinedStart {name : String} : name ∈ grammar.start → name ∉ grammar.ruleNames →
      Defect grammar (.undefinedStart name)
  | undefinedNonterminal {owner name : String} {body : Rule} {production : Production} :
      (owner, body) ∈ grammar.rules → name ∈ body.names → (⟨name⟩ : Symbol).isTerminal = false →
      name ∉ grammar.ruleNames → production ∈ Lowering.lowerRule owner body →
      ⟨name⟩ ∈ production.rhs →
      production.lhs = ⟨owner⟩ ∨ Lowering.IsHelper owner production.lhs →
      Defect grammar (.undefinedNonterminal name production.lhs.name)
  | unknownNullable {name : String} : name ∈ grammar.nullable → name ∉ grammar.ruleNames →
      Defect grammar (.unknownNullable name)
  | undeclaredNullable {name : String} {body choice : Rule} : (name, body) ∈ grammar.rules →
      choice ∈ body.choices → choice.Blank → name ∉ grammar.nullable →
      Defect grammar (.undeclaredNullable name)
  | spuriousNullable {name : String} : name ∈ grammar.nullable →
      (∀ body, (name, body) ∈ grammar.rules → ¬ Rule.Matches grammar.rules body []) →
      Defect grammar (.spuriousNullable name)

variable {grammar : Grammar} {starts : List Symbol} {name : String} {body : Rule}

theorem Defect.not_wellformed {error : GrammarError} (defect : grammar.Defect error) :
    ¬ grammar.Wellformed := by
  intro wellformed
  cases defect with
  | name mem defect => exact defect.not_permitted (wellformed.names _ mem)
  | terminalRule mem terminal =>
    rw [wellformed.rules_nonterminal _ mem] at terminal
    cases terminal
  | @duplicateRule name repeated =>
    have once := List.nodup_iff_count_le_one.mp wellformed.rules_nodup name
    omega
  | undefinedStart mem undefined => exact undefined (wellformed.starts_defined _ mem)
  | undefinedNonterminal rule mem nonterminal undefined =>
    refine undefined (wellformed.references_defined _ ?_ nonterminal)
    exact List.mem_flatMap.mpr ⟨_, rule, mem⟩
  | unknownNullable mem undefined =>
    obtain ⟨body, rule, -⟩ := wellformed.nullable_matches _ mem
    exact undefined (List.mem_map_of_mem rule)
  | undeclaredNullable rule mem blank undeclared =>
    exact undeclared (wellformed.blank_declared _ _ rule ⟨_, mem, blank⟩)
  | spuriousNullable mem spurious =>
    obtain ⟨body, rule, empty⟩ := wellformed.nullable_matches _ mem
    exact spurious body rule empty

theorem exists_rule_of_mem (mem : name ∈ grammar.ruleNames) : ∃ body, (name, body) ∈ grammar.rules := by
  obtain ⟨⟨_, body⟩, rule, rfl⟩ := List.mem_map.mp mem
  exact ⟨body, rule⟩

section Lowered

theorem lowerRule_subset (rule : (name, body) ∈ grammar.rules) :
    Lowering.lowerRule name body ⊆ grammar.productions starts :=
  fun _ lowered => mem_productions.mpr (.inr ⟨name, body, rule, lowered⟩)

theorem empty_mem_productions (rule : (name, body) ∈ grammar.rules) {choice : Rule}
    (mem : choice ∈ body.choices) (blank : choice.Blank) :
    ⟨⟨name⟩, []⟩ ∈ grammar.productions starts := by
  obtain ⟨count, lowered⟩ := Lowering.exists_of_choice name ⟨name⟩ mem 0
  rw [(Lowering.lower_symbols_eq_nil name choice count).mpr blank] at lowered
  exact lowerRule_subset rule lowered

theorem matches_iff_mem_language (nonterminal : (⟨name⟩ : Symbol).isTerminal = false)
    {w : List Symbol} :
    (∃ body, (name, body) ∈ grammar.rules ∧ Rule.Matches grammar.rules body w) ↔
      w ∈ grammar.language name := by
  rw [mem_language_iff nonterminal]
  constructor
  · rintro ⟨body, rule, inside⟩
    exact .nonterminal nonterminal rule inside
  · intro generated
    cases generated with
    | terminal terminal =>
      rw [nonterminal] at terminal
      cases terminal
    | nonterminal _ rule inside => exact ⟨_, rule, inside⟩

end Lowered

section Defects

open ShiftReduce.Symbol

variable (built : ∀ name body, (name, body) ∈ grammar.rules → body.Built)

include built

theorem exists_production (mem : name ∈ grammar.ruleNames) :
    ∃ production ∈ grammar.productions starts, production.lhs = ⟨name⟩ := by
  obtain ⟨body, rule⟩ := exists_rule_of_mem mem
  obtain ⟨some, choices⟩ := (built name body rule).choices
  exact (Lowering.lowerChoices_closed name ⟨name⟩ body.choices 0 choices
    (lowerRule_subset rule)).2 some

theorem defect_of_undefined {production : Production} {symbol : Symbol}
    (starts_defined : ∀ start ∈ starts, start.name ∈ grammar.ruleNames)
    (mem : production ∈ grammar.productions starts) (inside : symbol ∈ production.rhs)
    (nonterminal : symbol.isTerminal = false)
    (undefined : ¬ ∃ defining ∈ grammar.productions starts, defining.lhs = symbol) :
    grammar.Defect (.undefinedNonterminal symbol.name production.lhs.name) := by
  obtain ⟨start, start_mem, rfl⟩ | ⟨owner, body, rule, lowered⟩ := mem_productions.mp mem
  · obtain rfl := List.mem_singleton.mp inside
    exact absurd (exists_production built (starts_defined _ start_mem)) undefined
  · obtain ⟨-, choices⟩ := (built owner body rule).choices
    have registered : Lowering.lowerRule owner body ⊆ grammar.productions starts :=
      lowerRule_subset rule
    have closed := Lowering.lowerChoices_closed owner ⟨owner⟩ body.choices 0 choices registered
    obtain ⟨name, named, rfl⟩ | defined := closed.1 production lowered symbol inside
    · rw [Lowering.namesOfAll_choices] at named
      exact .undefinedNonterminal rule named nonterminal
        (fun known => undefined (exists_production built known)) lowered inside
        ((Lowering.lowerRule_within owner body).lhs production lowered)
    · exact absurd defined undefined

omit built in
theorem defect_of_empty {production : Production}
    (permitted : ∀ name ∈ grammar.ruleNames, Permitted name)
    (mem : production ∈ grammar.productions starts) (empty : production.rhs = [])
    (own : production.lhs.name ∈ grammar.ruleNames) (undeclared : production.lhs.name ∉ grammar.nullable) :
    grammar.Defect (.undeclaredNullable production.lhs.name) := by
  obtain ⟨start, -, rfl⟩ | ⟨owner, body, rule, lowered⟩ := mem_productions.mp mem
  · cases empty
  · obtain ⟨choice, choice_mem, count, rfl⟩ | ⟨number, helper⟩ := Lowering.choice_of_mem lowered
    · exact .undeclaredNullable rule choice_mem
        ((Lowering.lower_symbols_eq_nil owner choice count).mp empty) undeclared
    · exact absurd helper.symm (helper_ne_chosen (permitted _ own).toChosen)

end Defects

end Grammar

namespace Registry

open Registration ShiftReduce.Symbol

variable {grammar : Grammar}

theorem AcceptedFrom.exists_use {registry : Registry} (accepted : registry.AcceptedFrom grammar)
    {name : String} (mem : name ∈ grammar.names) :
    ∃ production ∈ registry.productions, ⟨name⟩ ∈ production.rhs := by
  obtain ⟨⟨owner, body⟩, rule, written⟩ := List.mem_flatMap.mp mem
  have named : name ∈ Rule.namesOfAll body.choices := by
    rw [Lowering.namesOfAll_choices]
    exact written
  obtain ⟨production, lowered, inside⟩ :=
    Lowering.lowerChoices_mentions owner ⟨owner⟩ body.choices 0 name named
  exact ⟨production, accepted.mem_productions.mpr (.inr ⟨owner, body, rule, lowered⟩), inside⟩

theorem AcceptedFrom.references_defined {registry : Registry}
    (accepted : registry.AcceptedFrom grammar) :
    ∀ name ∈ grammar.names, (⟨name⟩ : Symbol).isTerminal = false → name ∈ grammar.ruleNames := by
  intro name mem nonterminal
  have chosen := accepted.names_chosen name mem
  obtain ⟨production, registered, inside⟩ := accepted.exists_use mem
  obtain ⟨defining, defining_mem, lhs⟩ :=
    accepted.references production registered ⟨name⟩ inside nonterminal
  obtain ⟨start, -, rfl⟩ | ⟨other, known, own | ⟨number, helper⟩⟩ := accepted.lhs_cases defining_mem
  · exact absurd lhs (augmented_ne_chosen chosen)
  · rw [own, Symbol.mk.injEq] at lhs
    exact lhs ▸ known
  · exact absurd (helper.symm.trans lhs) (helper_ne_chosen chosen)

theorem wellformed_of_accepted {registry : Registry}
    (accepted : Registry.ofGrammar grammar = .ok registry) : grammar.Wellformed := by
  have from_grammar := acceptedFrom accepted
  have passed := Registry.passed accepted
  obtain ⟨rules_checked, nodup⟩ := checkRuleNames_ok passed.ruleNames
  have permitted : ∀ name ∈ grammar.ruleNames, Permitted name :=
    fun name mem => (rules_checked name mem).1
  have nonterminal : ∀ name ∈ grammar.ruleNames, (⟨name⟩ : Symbol).isTerminal = false :=
    fun name mem => (rules_checked name mem).2.1
  have nullable_defined := checkNullableNames_ok passed.nullableNames
  have starts_defined := checkStarts_ok passed.starts
  refine ⟨?_, nonterminal, nodup, starts_defined, from_grammar.references_defined, ?_, ?_⟩
  · simp only [List.forall_mem_append]
    exact ⟨⟨⟨permitted, fun name mem => permitted name (starts_defined name mem)⟩,
      checkNames_ok passed.names⟩, fun name mem => permitted name (nullable_defined name mem)⟩
  · intro name mem
    have defined := nullable_defined name mem
    have found := checkDeclarations_ok passed.declarations name mem
    rw [from_grammar.nullable_eq] at found
    rw [Grammar.matches_iff_mem_language (nonterminal name defined)]
    exact from_grammar.mem_language_of_expands defined (Nullable.mem_solve_iff.mp found)
  · rintro name body rule ⟨choice, mem, blank⟩
    have registered : ⟨⟨name⟩, []⟩ ∈ registry.productions :=
      from_grammar.productions_eq ▸ Grammar.empty_mem_productions rule mem blank
    have declared := declareNullable_ok passed.empties _ registered rfl (List.mem_map_of_mem rule)
    rw [OrderedSet.mem_distinct, List.mem_map] at declared
    obtain ⟨other, other_mem, same⟩ := declared
    rw [Symbol.mk.injEq] at same
    exact same ▸ other_mem

theorem defect_of_refused (built : ∀ name body, (name, body) ∈ grammar.rules → body.Built)
    {error : GrammarError} (refused : Registry.ofGrammar grammar = .error error) :
    grammar.Defect error := by
  -- one check after the other: it fails, or it is passed and later ones may rely on it
  obtain rules | ⟨_, rules, refused⟩ := bind_eq_error.mp refused
  · obtain ⟨name, mem, defect⟩ | ⟨name, mem, terminal, rfl⟩ | ⟨name, repeated, rfl⟩ :=
      checkRuleNames_error rules
    · exact .name (by simp [Grammar.ruleNames, mem]) defect
    · exact .terminalRule mem terminal
    · rw [List.nil_append] at repeated
      exact .duplicateRule repeated
  obtain ⟨rules_checked, -⟩ := checkRuleNames_ok rules
  obtain starts | ⟨_, starts, refused⟩ := bind_eq_error.mp refused
  · obtain ⟨name, mem, defect⟩ | ⟨name, mem, undefined, rfl⟩ := checkStarts_error starts
    · exact .name (by simp [mem]) defect
    · exact .undefinedStart mem undefined
  obtain names | ⟨_, names, refused⟩ := bind_eq_error.mp refused
  · obtain ⟨name, mem, defect⟩ := checkNames_error names
    exact .name (by simp [mem]) defect
  obtain references | ⟨_, _, refused⟩ := bind_eq_error.mp refused
  · obtain ⟨production, mem, symbol, inside, nonterminal, undefined, rfl⟩ :=
      checkReferences_error references
    rw [OrderedSet.mem_distinct, List.mem_map] at undefined
    refine Grammar.defect_of_undefined built ?_ mem inside nonterminal undefined
    intro start start_mem
    obtain ⟨name, declared, rfl⟩ := List.mem_map.mp (OrderedSet.mem_distinct.mp start_mem)
    exact checkStarts_ok starts name declared
  obtain nullable | ⟨_, _, refused⟩ := bind_eq_error.mp refused
  · obtain ⟨name, mem, defect⟩ | ⟨name, mem, undefined, rfl⟩ := checkNullableNames_error nullable
    · exact .name (by simp [mem]) defect
    · exact .unknownNullable mem undefined
  obtain empties | ⟨_, _, refused⟩ := bind_eq_error.mp refused
  · obtain ⟨production, mem, empty, undeclared, own, rfl⟩ := declareNullable_error empties
    refine Grammar.defect_of_empty (fun name known => (rules_checked name known).1) mem empty own ?_
    rw [OrderedSet.mem_distinct] at undeclared
    exact fun declared => undeclared (List.mem_map.mpr ⟨_, declared, rfl⟩)
  obtain declarations | ⟨_, _, refused⟩ := bind_eq_error.mp refused
  · obtain ⟨name, mem, missing, rfl⟩ := checkDeclarations_error declarations
    refine .spuriousNullable mem fun body rule empty => missing (Nullable.mem_solve_iff.mpr ?_)
    have nonterminal := (rules_checked name (List.mem_map_of_mem rule)).2.1
    exact Grammar.expands_of_mem_language _
      ((Grammar.matches_iff_mem_language nonterminal).mp ⟨body, rule, empty⟩)
  · cases refused

/-- Registration hands out a registry for the well-formed grammars and for no others, and what it
reports of another grammar is a defect of it. -/
theorem ofGrammar_accepts_iff_wellformed
    (built : ∀ name body, (name, body) ∈ grammar.rules → body.Built) :
    ((∃ registry, Registry.ofGrammar grammar = .ok registry) ↔ grammar.Wellformed) ∧
      ∀ error, Registry.ofGrammar grammar = .error error → grammar.Defect error := by
  refine ⟨⟨fun ⟨registry, accepted⟩ => wellformed_of_accepted accepted, fun wellformed => ?_⟩,
    fun error => defect_of_refused built⟩
  cases outcome : Registry.ofGrammar grammar with
  | ok registry => exact ⟨registry, rfl⟩
  | error error => exact absurd wellformed (defect_of_refused built outcome).not_wellformed

def openRows : Grammar where
  start := ["rows"]
  rules := [("rows", .sepBy1 (.symbol "Comma") (.many (.symbol "place")))]
  nullable := []

/-- Without a rule for places the rows are refused, as a helper inside them refers to it. -/
theorem ofGrammar_accepts_iff_wellformed_rows :
    rows.Wellformed ∧
      Registry.ofGrammar openRows = .error (.undefinedNonterminal "place" "rows~2") ∧
      openRows.Defect (.undefinedNonterminal "place" "rows~2") := by
  have rows_built : (Rule.sepBy1 (.symbol "Comma") (.many (.symbol "place"))).Built :=
    .sepBy1 (.symbol "Comma") (.many (.symbol "place"))
  have built : ∀ name body, (name, body) ∈ rows.rules → body.Built := by
    intro name body mem
    simp only [rows, List.mem_cons, Prod.mk.injEq, List.not_mem_nil, or_false] at mem
    obtain ⟨-, rfl⟩ | ⟨-, rfl⟩ := mem
    · exact rows_built
    · exact .optional (.symbol "Id")
  have open_built : ∀ name body, (name, body) ∈ openRows.rules → body.Built := by
    intro name body mem
    simp only [openRows, List.mem_singleton, Prod.mk.injEq] at mem
    rw [mem.2]
    exact rows_built
  have refused : Registry.ofGrammar openRows = .error (.undefinedNonterminal "place" "rows~2") := rfl
  exact ⟨(ofGrammar_accepts_iff_wellformed built).1.mp ⟨_, eq_ok_of_isSome rows_accepted⟩, refused,
    (ofGrammar_accepts_iff_wellformed open_built).2 _ refused⟩

end Registry

end ShiftReduce
