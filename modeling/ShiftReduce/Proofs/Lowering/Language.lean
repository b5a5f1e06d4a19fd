import ShiftReduce.Proofs.Lowering.Expansion
import ShiftReduce.Proofs.Lowering.Meaning

/-!
Lowering keeps the language of every rule. A generated symbol stands for one rule only, so the symbols
of an accepted grammar have meanings by which all productions are sound; and the productions expand
each symbol to all that it means.
-/
namespace ShiftReduce

/-- The rule that a generated symbol stands for. -/
inductive Grammar.StandsFor (grammar : Grammar) (starts : List Symbol) : Symbol → Rule → Prop where
  | augmented {start : Symbol} : start ∈ starts →
      StandsFor grammar starts start.augmented (.symbol start.name)
  | helper {name : String} {body rule : Rule} {number : Nat} : (name, body) ∈ grammar.rules →
      (number, rule) ∈ Lowering.helpersOfAll name 0 body.choices →
      StandsFor grammar starts (.helper name number) rule

open Classical in
/-- The language of a symbol: that of the rule it stands for, or its own. -/
noncomputable def Grammar.meaning (grammar : Grammar) (starts : List Symbol) (symbol : Symbol) :
    Language Symbol :=
  if generated : ∃ rule, grammar.StandsFor starts symbol rule then
    generated.choose.language grammar.language
  else (Rule.symbol symbol.name).language grammar.language

namespace Registry.AcceptedFrom

open ShiftReduce.Symbol

variable {grammar : Grammar} {registry : Registry} {symbol other : Symbol} {rule another : Rule}

theorem standsFor_unique (accepted : registry.AcceptedFrom grammar)
    (stands : grammar.StandsFor registry.starts symbol rule)
    (stands_other : grammar.StandsFor registry.starts other another) (same : symbol = other) :
    rule = another := by
  cases stands with
  | @augmented start declared =>
    have chosen := (accepted.rules_chosen _ (accepted.start_mem declared)).1
    cases stands_other with
    | augmented => rw [augmented_injective same]
    | helper => exact absurd same.symm (helper_ne_augmented chosen)
  | @helper name body _ number mem inside =>
    have chosen := (accepted.rules_chosen name (List.mem_map_of_mem mem)).1
    cases stands_other with
    | @augmented start declared =>
      have start_chosen := (accepted.rules_chosen _ (accepted.start_mem declared)).1
      exact absurd same (helper_ne_augmented start_chosen)
    | @helper other_name other_body _ other_number other_mem other_inside =>
      have other_chosen := (accepted.rules_chosen other_name (List.mem_map_of_mem other_mem)).1
      obtain ⟨rfl, rfl⟩ := helper_injective chosen other_chosen same
      have bodies := List.inj_on_of_nodup_map accepted.rules_nodup mem other_mem rfl
      obtain rfl : body = other_body := (Prod.mk.inj bodies).2
      exact (Lowering.numbered_helpersOfAll name body.choices 0).rule_eq inside other_inside

theorem not_standsFor_chosen (chosen : Chosen symbol.name) :
    ¬ grammar.StandsFor registry.starts symbol rule := by
  intro stands
  cases stands with
  | augmented => exact augmented_ne_chosen chosen rfl
  | helper => exact helper_ne_chosen chosen rfl

theorem standsFor_nonterminal (accepted : registry.AcceptedFrom grammar)
    (stands : grammar.StandsFor registry.starts symbol rule) : symbol.isTerminal = false := by
  cases stands with
  | augmented declared =>
    obtain ⟨chosen, nonterminal⟩ := accepted.rules_chosen _ (accepted.start_mem declared)
    exact (isTerminal_augmented chosen).trans nonterminal
  | helper mem =>
    obtain ⟨chosen, nonterminal⟩ := accepted.rules_chosen _ (List.mem_map_of_mem mem)
    exact (isTerminal_helper chosen _).trans nonterminal

theorem meaning_of_standsFor (accepted : registry.AcceptedFrom grammar)
    (stands : grammar.StandsFor registry.starts symbol rule) :
    grammar.meaning registry.starts symbol = rule.language grammar.language := by
  have generated : ∃ rule, grammar.StandsFor registry.starts symbol rule := ⟨rule, stands⟩
  rw [Grammar.meaning, dif_pos generated,
    accepted.standsFor_unique generated.choose_spec stands rfl]

theorem meaning_of_chosen {name : String} (chosen : Chosen name) :
    grammar.meaning registry.starts ⟨name⟩ = (Rule.symbol name).language grammar.language := by
  rw [Grammar.meaning, dif_neg]
  rintro ⟨rule, stands⟩
  exact not_standsFor_chosen chosen stands

theorem meaning_of_terminal (accepted : registry.AcceptedFrom grammar)
    (terminal : symbol.isTerminal = true) : [symbol] ∈ grammar.meaning registry.starts symbol := by
  rw [Grammar.meaning, dif_neg, Rule.language, if_pos terminal]
  · rfl
  · rintro ⟨rule, stands⟩
    rw [accepted.standsFor_nonterminal stands] at terminal
    cases terminal

theorem meaning_of_rule (accepted : registry.AcceptedFrom grammar) {name : String}
    (defined : name ∈ grammar.rules.map (·.1)) :
    grammar.meaning registry.starts ⟨name⟩ = grammar.language name := by
  obtain ⟨chosen, nonterminal⟩ := accepted.rules_chosen name defined
  rw [meaning_of_chosen chosen, Rule.language, nonterminal, if_neg (by simp)]

theorem sound (accepted : registry.AcceptedFrom grammar) :
    Production.Sound (grammar.meaning registry.starts) registry.productions := by
  intro production mem
  obtain ⟨start, declared, rfl⟩ | ⟨name, body, rule_mem, lowered⟩ :=
    accepted.mem_productions.mp mem
  · have stands : grammar.StandsFor registry.starts start.augmented (.symbol start.name) :=
      .augmented declared
    have chosen := (accepted.rules_chosen _ (accepted.start_mem declared)).1
    rw [meanings_singleton, accepted.meaning_of_standsFor stands, ← meaning_of_chosen chosen]
  · have defined : name ∈ grammar.rules.map (·.1) := List.mem_map_of_mem rule_mem
    have meant : Lowering.Meant grammar.language (grammar.meaning registry.starts) name
        (Rule.namesOfAll body.choices) (Lowering.helpersOfAll name 0 body.choices) := by
      refine ⟨fun written used => ?_, fun number rule inside => ?_⟩
      · rw [Lowering.namesOfAll_choices] at used
        have named : written ∈ grammar.names :=
          List.mem_flatMap.mpr ⟨(name, body), rule_mem, used⟩
        exact meaning_of_chosen (accepted.names_chosen written named)
      · exact accepted.meaning_of_standsFor (.helper rule_mem inside)
    refine Lowering.lowerChoices_meant ⟨name⟩ body.choices 0 meant ?_ production lowered
    rw [Rule.union_choices, accepted.meaning_of_rule defined]
    exact Grammar.language_le_of_rule rule_mem

theorem mem_language_of_expands (accepted : registry.AcceptedFrom grammar) {name : String}
    (defined : name ∈ grammar.rules.map (·.1)) {w : List Symbol}
    (expands : Expands registry.productions [⟨name⟩] w) : w ∈ grammar.language name := by
  have within := expands.mem_meanings accepted.sound
    fun symbol terminal => accepted.meaning_of_terminal terminal
  rwa [meanings_singleton, accepted.meaning_of_rule defined] at within

end Registry.AcceptedFrom

theorem Grammar.expands_of_mem_language {grammar : Grammar} {name : String} {w : List Symbol}
    (starts : List Symbol) (mem : w ∈ grammar.language name) :
    Expands (grammar.productions starts) [⟨name⟩] w := by
  have solves : ∀ name body, (name, body) ∈ grammar.rules →
      body.language (fun name => expansions (grammar.productions starts) [⟨name⟩])
        ≤ expansions (grammar.productions starts) [⟨name⟩] := by
    intro name body rule
    rw [← Rule.union_choices]
    refine Lowering.union_le_lowerChoices name ⟨name⟩ body.choices 0 fun production lowered => ?_
    exact Grammar.mem_productions.mpr (.inr ⟨name, body, rule, lowered⟩)
  exact Grammar.language_le solves name mem

/-- A nonterminal of the author's derives a sentence if and only if it is in the language of the
nonterminal's rule. -/
theorem Registry.derives_iff_mem_language {grammar : Grammar} {registry : Registry}
    (accepted : Registry.ofGrammar grammar = .ok registry) {name : String}
    (defined : name ∈ grammar.rules.map (·.1)) {w : List Symbol}
    (terminals : w.all (·.isTerminal) = true) :
    Derives registry.productions [⟨name⟩] w ↔ w ∈ grammar.language name := by
  have from_grammar := Registry.acceptedFrom accepted
  constructor
  · intro derivation
    have expands := Expands.of_derives derivation terminals
    have within := expands.mem_meanings from_grammar.sound
      fun symbol terminal => from_grammar.meaning_of_terminal terminal
    rwa [meanings_singleton, from_grammar.meaning_of_rule defined] at within
  · intro mem
    have solves : ∀ name body, (name, body) ∈ grammar.rules →
        body.language (fun name => expansions registry.productions [⟨name⟩])
          ≤ expansions registry.productions [⟨name⟩] := by
      intro name body rule
      rw [← Rule.union_choices]
      refine Lowering.union_le_lowerChoices name ⟨name⟩ body.choices 0 fun production lowered => ?_
      exact from_grammar.mem_productions.mpr (.inr ⟨name, body, rule, lowered⟩)
    have expands : Expands registry.productions [⟨name⟩] w := Grammar.language_le solves name mem
    exact expands.derives

/-- Rows between commas, each with any number of places that may be left empty. -/
def rows : Grammar where
  start := ["rows"]
  rules := [
    ("rows", .sepBy1 (.symbol "Comma") (.many (.symbol "place"))),
    ("place", .optional (.symbol "Id"))]
  nullable := ["place"]

theorem rows_accepted : (Registry.ofGrammar rows).toOption.isSome = true := by decide +kernel

/-- A row of one place and an empty one. -/
theorem Registry.derives_iff_mem_language_rows :
    [⟨"Id"⟩, ⟨"Comma"⟩] ∈ rows.language "rows" ∧
      Derives ((Registry.ofGrammar rows).toOption.get rows_accepted).productions [⟨"rows"⟩]
        [⟨"Id"⟩, ⟨"Comma"⟩] := by
  have place : rows.Generates "place" [⟨"Id"⟩] :=
    .nonterminal (by decide) (.tail _ (.head _)) (.optionalSome (.terminal (by decide)))
  have generated : rows.Generates "rows" [⟨"Id"⟩, ⟨"Comma"⟩] :=
    .nonterminal (by decide) (.head _)
      (.sepBy1More (.sepBy1One (.manyMore .manyNone place)) (.terminal (by decide)) .manyNone)
  have mem := (Grammar.mem_language_iff (by decide)).mpr generated
  have terminals : [(⟨"Id"⟩ : Symbol), ⟨"Comma"⟩].all (·.isTerminal) = true := by decide
  have same :=
    derives_iff_mem_language (eq_ok_of_isSome rows_accepted) List.mem_cons_self terminals
  exact ⟨mem, same.mpr mem⟩

end ShiftReduce
