import Mathlib.Logic.Relation
import ShiftReduce.Proofs.Lowering.Symbols
import ShiftReduce.Registry.Registration

/-!
Ways of writing a rule that make no difference. A chain of alternatives may be parenthesised in any way, a
sequence in a sequence spliced into it, and a list that may be empty written as an optional list. Wherever
in a grammar this is done, registration ends with the same defect or the same registry.
-/
namespace ShiftReduce

namespace Rule

/-- One replacement of a part of a rule by another way of writing it. -/
inductive Rewrites : Rule → Rule → Prop where
  | reparenthesise (first second third : Rule) :
      Rewrites (first ||| second ||| third) (first ||| (second ||| third))
  | splice (before inner after : List Rule) :
      Rewrites (.seq (before ++ .seq inner :: after)) (.seq (before ++ inner ++ after))
  | sepBy (separator rule : Rule) :
      Rewrites (.sepBy separator rule) (.optional (.sepBy1 separator rule))
  | inSeq (before after : List Rule) {part other : Rule} : Rewrites part other →
      Rewrites (.seq (before ++ part :: after)) (.seq (before ++ other :: after))
  | inChoice (before after : List Rule) {choice other : Rule} : Rewrites choice other →
      Rewrites (.alternatives (before ++ choice :: after)) (.alternatives (before ++ other :: after))
  | inLeft {left other : Rule} (right : Rule) : Rewrites left other →
      Rewrites (left ||| right) (other ||| right)
  | inRight (left : Rule) {right other : Rule} : Rewrites right other →
      Rewrites (left ||| right) (left ||| other)
  | inMany {rule other : Rule} : Rewrites rule other → Rewrites (.many rule) (.many other)
  | inMany1 {rule other : Rule} : Rewrites rule other → Rewrites (.many1 rule) (.many1 other)
  | inOptional {rule other : Rule} : Rewrites rule other → Rewrites (.optional rule) (.optional other)
  | inSepBy (separator : Rule) {rule other : Rule} : Rewrites rule other →
      Rewrites (.sepBy separator rule) (.sepBy separator other)
  | inSeparator {separator other : Rule} (rule : Rule) : Rewrites separator other →
      Rewrites (.sepBy separator rule) (.sepBy other rule)
  | inSepBy1 (separator : Rule) {rule other : Rule} : Rewrites rule other →
      Rewrites (.sepBy1 separator rule) (.sepBy1 separator other)
  | inSeparator1 {separator other : Rule} (rule : Rule) : Rewrites separator other →
      Rewrites (.sepBy1 separator rule) (.sepBy1 other rule)

theorem namesOfAll_append (rules more : List Rule) :
    namesOfAll (rules ++ more) = namesOfAll rules ++ namesOfAll more := by
  induction rules with
  | nil => rfl
  | cons rule rules ih => rw [List.cons_append, namesOfAll, namesOfAll, ih, List.append_assoc]

theorem or_assoc (first second third : Rule) :
    first ||| second ||| third = first ||| (second ||| third) :=
  congrArg alternatives (List.append_assoc first.choices second.choices third.choices)

end Rule

namespace Lowering

variable {owner : String} {lhs : Symbol} {count : Nat} {rule other : Rule} {rules more : List Rule}

theorem lowerParts_append : lowerParts owner count (rules ++ more) =
    ⟨(lowerParts owner count rules).symbols
        ++ (lowerParts owner (lowerParts owner count rules).helpers more).symbols,
      (lowerParts owner count rules).productions
        ++ (lowerParts owner (lowerParts owner count rules).helpers more).productions,
      (lowerParts owner (lowerParts owner count rules).helpers more).helpers⟩ := by
  induction rules generalizing count with
  | nil => rfl
  | cons rule rules ih => simp [lowerParts, ih]

theorem lowerChoices_append : lowerChoices owner lhs count (rules ++ more) =
    ⟨[], (lowerChoices owner lhs count rules).productions
        ++ (lowerChoices owner lhs (lowerChoices owner lhs count rules).helpers more).productions,
      (lowerChoices owner lhs (lowerChoices owner lhs count rules).helpers more).helpers⟩ := by
  induction rules generalizing count with
  | nil => cases more <;> rfl
  | cons rule rules ih => simp [lowerChoices, ih]

/-- Rules that are lowered alike wherever they stand, as a part or as the whole of a rule's body. -/
structure Alike (rule other : Rule) : Prop where
  names : rule.names = other.names
  lower : ∀ owner count, lower owner count rule = lower owner count other
  choices : ∀ owner lhs count,
    lowerChoices owner lhs count rule.choices = lowerChoices owner lhs count other.choices

namespace Alike

theorem equivalence : Equivalence Alike where
  refl _ := ⟨rfl, fun _ _ => rfl, fun _ _ _ => rfl⟩
  symm alike := ⟨alike.names.symm, fun owner count => (alike.lower owner count).symm,
    fun owner lhs count => (alike.choices owner lhs count).symm⟩
  trans first second := ⟨first.names.trans second.names,
    fun owner count => (first.lower owner count).trans (second.lower owner count),
    fun owner lhs count => (first.choices owner lhs count).trans (second.choices owner lhs count)⟩

theorem of_lower (single : rule.choices = [rule]) (other_single : other.choices = [other])
    (names : rule.names = other.names)
    (lower : ∀ owner count, Lowering.lower owner count rule = Lowering.lower owner count other) :
    Alike rule other := by
  refine ⟨names, lower, fun owner lhs count => ?_⟩
  simp only [single, other_single, lowerChoices, lower]

theorem of_choices {rules more : List Rule} (names : Rule.namesOfAll rules = Rule.namesOfAll more)
    (choices : ∀ owner lhs count, lowerChoices owner lhs count rules = lowerChoices owner lhs count more) :
    Alike (.alternatives rules) (.alternatives more) := by
  refine ⟨names, fun owner count => ?_, choices⟩
  rw [Lowering.lower, Lowering.lower, choices]

variable (alike : Alike rule other)

include alike

theorem inSeq (before after : List Rule) :
    Alike (.seq (before ++ rule :: after)) (.seq (before ++ other :: after)) := by
  refine .of_lower rfl rfl ?_ fun owner count => ?_
  · simp only [Rule.names, Rule.namesOfAll_append, Rule.namesOfAll, alike.names]
  · simp only [Lowering.lower, lowerParts_append, lowerParts, alike.lower]

theorem inChoice (before after : List Rule) :
    Alike (.alternatives (before ++ rule :: after)) (.alternatives (before ++ other :: after)) := by
  refine .of_choices ?_ fun owner lhs count => ?_
  · simp only [Rule.namesOfAll_append, Rule.namesOfAll, alike.names]
  · simp only [lowerChoices_append, lowerChoices, alike.lower]

theorem inLeft (right : Rule) : Alike (rule ||| right) (other ||| right) := by
  refine .of_choices ?_ fun owner lhs count => ?_
  · simp only [Rule.namesOfAll_append, namesOfAll_choices, alike.names]
  · simp only [lowerChoices_append, alike.choices]

theorem inRight (left : Rule) : Alike (left ||| rule) (left ||| other) := by
  refine .of_choices ?_ fun owner lhs count => ?_
  · simp only [Rule.namesOfAll_append, namesOfAll_choices, alike.names]
  · simp only [lowerChoices_append, alike.choices]

end Alike

theorem alike_splice (before inner after : List Rule) :
    Alike (.seq (before ++ .seq inner :: after)) (.seq (before ++ inner ++ after)) := by
  refine .of_lower rfl rfl ?_ fun owner count => ?_
  · simp [Rule.names, Rule.namesOfAll_append, Rule.namesOfAll]
  · simp [lower, lowerParts_append, lowerParts]

theorem alike_sepBy (separator rule : Rule) :
    Alike (.sepBy separator rule) (.optional (.sepBy1 separator rule)) :=
  .of_lower rfl rfl rfl fun owner count => by simp [lower]

/-- A replacement anywhere in a rule changes nothing of what it is lowered to. -/
theorem alike_of_rewrites (rewrites : Rule.Rewrites rule other) : Alike rule other := by
  induction rewrites with
  | reparenthesise first second third => exact Rule.or_assoc first second third ▸ Alike.equivalence.refl _
  | splice before inner after => exact alike_splice before inner after
  | sepBy separator rule => exact alike_sepBy separator rule
  | inSeq before after _ ih => exact ih.inSeq before after
  | inChoice before after _ ih => exact ih.inChoice before after
  | inLeft right _ ih => exact ih.inLeft right
  | inRight left _ ih => exact ih.inRight left
  | inMany _ ih | inMany1 _ ih | inOptional _ ih =>
    exact .of_lower rfl rfl ih.names fun owner count => by simp only [lower, ih.lower]
  | inSepBy _ _ ih | inSeparator _ _ ih | inSepBy1 _ _ ih | inSeparator1 _ _ ih =>
    refine .of_lower rfl rfl ?_ fun owner count => ?_
    · simp only [Rule.names, ih.names]
    · simp only [lower, ih.lower]

end Lowering

namespace Grammar

/-- One replacement in the body of one rule. -/
inductive Rewrites : Grammar → Grammar → Prop where
  | inRule (start : List String) (before after : List (String × Rule)) (name : String)
      (nullable : List String) {body other : Rule} : body.Rewrites other →
      Rewrites ⟨start, before ++ (name, body) :: after, nullable⟩
        ⟨start, before ++ (name, other) :: after, nullable⟩

variable {grammar other : Grammar}

theorem ofGrammar_congr (start : grammar.start = other.start)
    (owners : grammar.rules.map (·.1) = other.rules.map (·.1)) (names : grammar.names = other.names)
    (productions : ∀ starts, grammar.productions starts = other.productions starts)
    (nullable : grammar.nullable = other.nullable) :
    Registry.ofGrammar grammar = Registry.ofGrammar other := by
  unfold Registry.ofGrammar
  rw [start, owners, names, nullable]
  simp only [productions]

theorem ofGrammar_of_rewrites (rewrites : grammar.Rewrites other) :
    Registry.ofGrammar grammar = Registry.ofGrammar other := by
  obtain ⟨start, before, after, name, nullable, within⟩ := rewrites
  have alike := Lowering.alike_of_rewrites within
  refine ofGrammar_congr rfl ?_ ?_ (fun starts => ?_) rfl
  · simp only [List.map_append, List.map_cons]
  · simp only [names, List.flatMap_append, List.flatMap_cons, alike.names]
  · simp only [productions, List.flatMap_append, List.flatMap_cons, Lowering.lowerRule, alike.choices]

/-- Any number of replacements in the bodies of rules, whichever way each of them is read, leave what
registration ends with as it was: the same defect is reported, or the same registry is handed out. -/
theorem ofGrammar_of_rewritten (rewritten : Relation.EqvGen Rewrites grammar other) :
    Registry.ofGrammar grammar = Registry.ofGrammar other := by
  induction rewritten with
  | rel _ _ rewrites => exact ofGrammar_of_rewrites rewrites
  | refl => rfl
  | symm _ _ _ ih => exact ih.symm
  | trans _ _ _ _ _ first second => exact first.trans second

def brackets : Grammar where
  start := ["list"]
  rules := [("list", .seq [.symbol "Open", .seq [.sepBy (.symbol "Comma")
    (.symbol "Id" ||| .symbol "Number" ||| .symbol "list"), .symbol "Close"]])]
  nullable := []

/-- The same lists, with another way of writing at each place where there is one. -/
def plainBrackets : Grammar where
  start := ["list"]
  rules := [("list", .seq [.symbol "Open", .optional (.sepBy1 (.symbol "Comma")
    (.symbol "Id" ||| (.symbol "Number" ||| .symbol "list"))), .symbol "Close"])]
  nullable := []

theorem ofGrammar_brackets : Relation.EqvGen Rewrites brackets plainBrackets ∧
    Registry.ofGrammar brackets = Registry.ofGrammar plainBrackets ∧
    (Registry.ofGrammar plainBrackets).toOption.isSome = true := by
  let items : Rule := .symbol "Id" ||| .symbol "Number" ||| .symbol "list"
  let within (body other : Rule) : body.Rewrites other →
      Relation.EqvGen Rewrites ⟨["list"], [("list", body)], []⟩ ⟨["list"], [("list", other)], []⟩ :=
    fun rewrites => .rel _ _ (.inRule ["list"] [] [] "list" [] rewrites)
  have spliced := within _ _ (.splice [.symbol "Open"] [.sepBy (.symbol "Comma") items, .symbol "Close"] [])
  have optional := within _ _ (.inSeq [.symbol "Open"] [.symbol "Close"] (.sepBy (.symbol "Comma") items))
  have parenthesised := within _ _ (.inSeq [.symbol "Open"] [.symbol "Close"]
    (.inOptional (.inSepBy1 (.symbol "Comma")
      (.reparenthesise (.symbol "Id") (.symbol "Number") (.symbol "list")))))
  have rewritten : Relation.EqvGen Rewrites brackets plainBrackets :=
    (spliced.trans _ _ _ optional).trans _ _ _ parenthesised
  exact ⟨rewritten, ofGrammar_of_rewritten rewritten, by decide +kernel⟩

end Grammar

end ShiftReduce
