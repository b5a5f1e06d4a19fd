import ShiftReduce.Proofs.Lowering.Language
import ShiftReduce.Proofs.Script.Syntax

/-!
The syntax trees of the small language spell all that its rules match: they satisfy every rule, and the
language of the grammar is the least that does.
-/
namespace ShiftReduce.Script

open Computability

def words (name : String) : Language Symbol :=
  {w | (name = start ∧ ∃ program, symbolsOf program = w) ∨
    ∃ (category : Category) (tree : Tree category), category.symbol = ⟨name⟩ ∧ tree.symbols = w}

theorem Category.symbol_injective : Function.Injective Category.symbol := by
  intro category other same
  cases category <;> cases other <;> first | rfl | simp [symbol] at same

theorem Category.name_ne_start (category : Category) : category.symbol.name ≠ start := by
  cases category <;> decide

theorem mem_words_category {category : Category} {w : List Symbol} :
    w ∈ words category.symbol.name ↔ ∃ tree : Tree category, tree.symbols = w := by
  constructor
  · rintro (⟨program, -⟩ | ⟨other, tree, same, rfl⟩)
    · exact absurd program category.name_ne_start
    · obtain rfl := Category.symbol_injective same
      exact ⟨tree, rfl⟩
  · rintro ⟨tree, rfl⟩
    exact .inr ⟨category, tree, rfl, rfl⟩

theorem mem_words_start {w : List Symbol} : w ∈ words start ↔ ∃ program, symbolsOf program = w := by
  constructor
  · rintro (⟨-, program⟩ | ⟨category, tree, same, -⟩)
    · exact program
    · exact absurd (congrArg Symbol.name same) category.name_ne_start
  · exact fun program => .inl ⟨rfl, program⟩

section Membership

variable {rule : Rule} {rules : List Rule} {names : List String} {w : List Symbol}

theorem mem_union_nil : w ∈ Rule.union words [] ↔ False := by
  rw [Rule.union, iff_false]
  exact Language.notMem_zero w

theorem mem_union_cons :
    w ∈ Rule.union words (rule :: rules) ↔ w ∈ rule.language words ∨ w ∈ Rule.union words rules := by
  rw [Rule.union, Language.mem_add]

theorem mem_phrase_nil : w ∈ (phrase []).language words ↔ w = [] := by
  rw [phrase, Rule.language]
  exact Language.mem_one w

theorem mem_phrase_cons {name : String} : w ∈ (phrase (name :: names)).language words ↔
    ∃ front ∈ (Rule.symbol name).language words, ∃ rest ∈ (phrase names).language words,
      front ++ rest = w := by
  rw [phrase, Rule.language, phrase, Rule.language]
  exact Language.mem_mul

theorem mem_terminal {name : String} (terminal : (⟨name⟩ : Symbol).isTerminal = true) :
    w ∈ (Rule.symbol name).language words ↔ w = [⟨name⟩] := by
  rw [Rule.language, if_pos terminal]
  rfl

theorem mem_category (category : Category) :
    w ∈ (Rule.symbol category.symbol.name).language words ↔
      ∃ tree : Tree category, tree.symbols = w := by
  have nonterminal : ¬ (⟨category.symbol.name⟩ : Symbol).isTerminal = true := by
    cases category <;> decide
  rw [Rule.language, if_neg nonterminal, mem_words_category]

theorem mem_stmt :
    w ∈ (Rule.symbol "stmt").language words ↔ ∃ tree : Tree .stmt, tree.symbols = w :=
  mem_category .stmt

theorem mem_expr :
    w ∈ (Rule.symbol "expr").language words ↔ ∃ tree : Tree .expr, tree.symbols = w :=
  mem_category .expr

theorem mem_term :
    w ∈ (Rule.symbol "term").language words ↔ ∃ tree : Tree .term, tree.symbols = w :=
  mem_category .term

theorem mem_factor :
    w ∈ (Rule.symbol "factor").language words ↔ ∃ tree : Tree .factor, tree.symbols = w :=
  mem_category .factor

end Membership

theorem mem_words_stmt_of_union : ∀ w ∈ Rule.union words
    [phrase ["Let", "Ident", "Assign", "expr", "Semi"], phrase ["Print", "expr", "Semi"],
      phrase ["expr", "Semi"]], w ∈ words "stmt" := by
  intro w mem
  simp (disch := decide) only [mem_union_cons, mem_union_nil, or_false, mem_phrase_cons,
    mem_phrase_nil, mem_terminal, mem_expr, exists_eq_left, exists_eq_left', exists_exists_eq_and,
    List.append_nil] at mem
  obtain ⟨value, rfl⟩ | ⟨value, rfl⟩ | ⟨value, rfl⟩ := mem
  · exact mem_words_category.mpr ⟨.assignment value, rfl⟩
  · exact mem_words_category.mpr ⟨.output value, rfl⟩
  · exact mem_words_category.mpr ⟨.evaluation value, rfl⟩

theorem mem_words_expr_of_union : ∀ w ∈ Rule.union words
    [phrase ["expr", "Plus", "term"], phrase ["expr", "Minus", "term"], .symbol "term"],
      w ∈ words "expr" := by
  intro w mem
  simp (disch := decide) only [mem_union_cons, mem_union_nil, or_false, mem_phrase_cons,
    mem_phrase_nil, mem_terminal, mem_expr, mem_term, exists_eq_left, exists_exists_eq_and,
    List.append_nil] at mem
  obtain ⟨left, right, rfl⟩ | ⟨left, right, rfl⟩ | ⟨term, rfl⟩ := mem
  · exact mem_words_category.mpr ⟨.sum left right, rfl⟩
  · exact mem_words_category.mpr ⟨.difference left right, rfl⟩
  · exact mem_words_category.mpr ⟨.ofTerm term, rfl⟩

theorem mem_words_term_of_union : ∀ w ∈ Rule.union words
    [phrase ["term", "Star", "factor"], phrase ["term", "Slash", "factor"], .symbol "factor"],
      w ∈ words "term" := by
  intro w mem
  simp (disch := decide) only [mem_union_cons, mem_union_nil, or_false, mem_phrase_cons,
    mem_phrase_nil, mem_terminal, mem_term, mem_factor, exists_eq_left, exists_exists_eq_and,
    List.append_nil] at mem
  obtain ⟨left, right, rfl⟩ | ⟨left, right, rfl⟩ | ⟨factor, rfl⟩ := mem
  · exact mem_words_category.mpr ⟨.product left right, rfl⟩
  · exact mem_words_category.mpr ⟨.quotient left right, rfl⟩
  · exact mem_words_category.mpr ⟨.ofFactor factor, rfl⟩

theorem mem_words_factor_of_union : ∀ w ∈ Rule.union words
    [.symbol "Number", .symbol "Ident", phrase ["LParen", "expr", "RParen"],
      phrase ["Minus", "factor"]], w ∈ words "factor" := by
  intro w mem
  simp (disch := decide) only [mem_union_cons, mem_union_nil, or_false, mem_phrase_cons,
    mem_phrase_nil, mem_terminal, mem_expr, mem_factor, exists_eq_left, exists_eq_left',
    exists_exists_eq_and, List.append_nil] at mem
  obtain rfl | rfl | ⟨inner, rfl⟩ | ⟨factor, rfl⟩ := mem
  · exact mem_words_category.mpr ⟨.number, rfl⟩
  · exact mem_words_category.mpr ⟨.ident, rfl⟩
  · exact mem_words_category.mpr ⟨.parens inner, rfl⟩
  · exact mem_words_category.mpr ⟨.negation factor, rfl⟩

theorem mem_words_program_of_union :
    ∀ w ∈ Rule.union words [.many (.symbol "stmt")], w ∈ words "program" := by
  intro w mem
  rw [mem_union_cons, mem_union_nil, or_false, Rule.language, Language.mem_kstar] at mem
  obtain ⟨parts, rfl, each⟩ := mem
  obtain ⟨program, rfl⟩ : parts ∈ Set.range (List.map Tree.symbols) := by
    rw [Set.range_list_map]
    exact fun part inside => mem_stmt.mp (each part inside)
  exact mem_words_start.mpr ⟨program, rfl⟩

theorem words_solve : ∀ name body, (name, body) ∈ grammar.rules →
    body.language words ≤ words name := by
  intro name body rule
  rw [← Rule.union_choices]
  simp only [grammar, List.mem_cons, Prod.mk.injEq, List.not_mem_nil, or_false] at rule
  obtain ⟨rfl, rfl⟩ | ⟨rfl, rfl⟩ | ⟨rfl, rfl⟩ | ⟨rfl, rfl⟩ | ⟨rfl, rfl⟩ := rule
  · exact mem_words_program_of_union
  · exact mem_words_stmt_of_union
  · exact mem_words_expr_of_union
  · exact mem_words_term_of_union
  · exact mem_words_factor_of_union

theorem exists_program_of_generates {w : List Symbol} (generated : grammar.Generates start w) :
    ∃ program, symbolsOf program = w := by
  have mem := (Grammar.mem_language_iff (by decide)).mpr generated
  exact mem_words_start.mp (Grammar.language_le words_solve start mem)

end ShiftReduce.Script
