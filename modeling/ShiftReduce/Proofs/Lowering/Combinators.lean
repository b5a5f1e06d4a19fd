import ShiftReduce.Proofs.Lowering.Symbols

/-!
What lowering makes of rules put together by the combinators: every name in a rule is used in a
production, every helper that is used has productions of its own, and an alternative leaves its
right-hand side empty only if it is made of sequences without leaves.
-/
namespace ShiftReduce

namespace Rule

/-- Rules put together by the combinators, which leave no choice without alternatives. -/
inductive Built : Rule → Prop where
  | symbol (name : String) : Built (.symbol name)
  | seq {parts : List Rule} : (∀ part ∈ parts, Built part) → Built (.seq parts)
  | or {left right : Rule} : Built left → Built right → Built (left ||| right)
  | many {rule : Rule} : Built rule → Built (.many rule)
  | many1 {rule : Rule} : Built rule → Built (.many1 rule)
  | optional {rule : Rule} : Built rule → Built (.optional rule)
  | sepBy {separator rule : Rule} : Built separator → Built rule → Built (.sepBy separator rule)
  | sepBy1 {separator rule : Rule} : Built separator → Built rule → Built (.sepBy1 separator rule)

inductive Blank : Rule → Prop where
  | seq {parts : List Rule} : (∀ part ∈ parts, Blank part) → Blank (.seq parts)

theorem Built.choices {rule : Rule} (built : Built rule) :
    rule.choices ≠ [] ∧ ∀ choice ∈ rule.choices, Built choice := by
  have alone : ∀ {rule : Rule}, Built rule → [rule] ≠ [] ∧ ∀ choice ∈ [rule], Built choice := by
    intro rule built
    exact ⟨by simp, by simpa using built⟩
  induction built with
  | symbol name => exact alone (.symbol name)
  | seq parts _ => exact alone (.seq parts)
  | @or left right _ _ left_choices right_choices =>
    have joined : (left ||| right).choices = left.choices ++ right.choices := rfl
    rw [joined, List.forall_mem_append]
    refine ⟨?_, left_choices.2, right_choices.2⟩
    simp [left_choices.1]
  | many inner _ => exact alone (.many inner)
  | many1 inner _ => exact alone (.many1 inner)
  | optional inner _ => exact alone (.optional inner)
  | sepBy between inner _ _ => exact alone (.sepBy between inner)
  | sepBy1 between inner _ _ => exact alone (.sepBy1 between inner)

end Rule

namespace Lowering

/-- A symbol that is one of `names` or has productions. -/
def Resolved (productions : List Production) (names : List String) (symbol : Symbol) : Prop :=
  (∃ name ∈ names, symbol = ⟨name⟩) ∨ ∃ production ∈ productions, production.lhs = symbol

variable {owner : String} {names more : List String} {productions own : List Production}
  {lowered first second : Lowered} {symbol : Symbol}

theorem Resolved.mono (resolved : Resolved productions names symbol) (subset : names ⊆ more) :
    Resolved productions more symbol := by
  obtain ⟨name, mem, rfl⟩ | defined := resolved
  · exact .inl ⟨name, subset mem, rfl⟩
  · exact .inr defined

structure Closed (productions : List Production) (names : List String) (lowered : Lowered) :
    Prop where
  symbols : ∀ symbol ∈ lowered.symbols, Resolved productions names symbol
  rhs : ∀ production ∈ lowered.productions, ∀ symbol ∈ production.rhs,
    Resolved productions names symbol

namespace Closed

theorem append (before : Closed productions names first) (after : Closed productions more second)
    (count : Nat) :
    Closed productions (names ++ more)
      ⟨first.symbols ++ second.symbols, first.productions ++ second.productions, count⟩ := by
  have inLeft := List.subset_append_left names more
  have inRight := List.subset_append_right names more
  constructor
  · rw [List.forall_mem_append]
    exact ⟨fun symbol mem => (before.symbols symbol mem).mono inLeft,
      fun symbol mem => (after.symbols symbol mem).mono inRight⟩
  · rw [List.forall_mem_append]
    exact ⟨fun production mem symbol inside => (before.rhs production mem symbol inside).mono inLeft,
      fun production mem symbol inside => (after.rhs production mem symbol inside).mono inRight⟩

theorem wrap (body : Closed productions names lowered) (subset : own ⊆ productions)
    (rhs : ∀ production ∈ own, ∀ symbol ∈ production.rhs,
      symbol ∈ lowered.symbols ∨ symbol ∈ own.map (·.lhs)) {helper : Symbol}
    (defined : helper ∈ own.map (·.lhs)) (count : Nat) :
    Closed productions names ⟨[helper], lowered.productions ++ own, count⟩ := by
  have resolved : ∀ symbol ∈ own.map (·.lhs), Resolved productions names symbol := by
    intro symbol mem
    obtain ⟨production, production_mem, rfl⟩ := List.mem_map.mp mem
    exact .inr ⟨production, subset production_mem, rfl⟩
  constructor
  · rw [List.forall_mem_singleton]
    exact resolved helper defined
  · rw [List.forall_mem_append]
    refine ⟨body.rhs, fun production mem symbol inside => ?_⟩
    obtain used | defined := rhs production mem symbol inside
    · exact body.symbols symbol used
    · exact resolved symbol defined

end Closed

mutual

theorem lower_closed (owner : String) : ∀ (rule : Rule) (count : Nat), rule.Built →
    (lower owner count rule).productions ⊆ productions →
    Closed productions rule.names (lower owner count rule)
  | .symbol name, count, _, _ => by
    constructor <;> simp [lower, Rule.names, Resolved]
  | .seq rules, count, .seq parts, subset => by
    rw [lower] at subset ⊢
    exact lowerParts_closed owner rules count parts subset
  | .alternatives rules, count, built, subset => by
    obtain ⟨some, choices⟩ := built.choices
    rw [lower] at subset ⊢
    obtain ⟨rhs, defined⟩ := lowerChoices_closed owner (.helper owner (count + 1)) rules (count + 1)
      choices subset
    refine ⟨?_, rhs⟩
    rw [List.forall_mem_singleton]
    exact .inr (defined some)
  | .many rule, count, .many built, subset => by
    rw [lower] at subset ⊢
    rw [List.append_subset] at subset
    exact (lower_closed owner rule (count + 1) built subset.1).wrap subset.2
      (by simp +contextual [or_imp]) (by simp) _
  | .many1 rule, count, .many1 built, subset => by
    rw [lower] at subset ⊢
    rw [List.append_subset] at subset
    exact (lower_closed owner rule (count + 1) built subset.1).wrap subset.2
      (by simp +contextual [or_imp]) (by simp) _
  | .optional rule, count, .optional built, subset => by
    rw [lower] at subset ⊢
    rw [List.append_subset] at subset
    exact (lower_closed owner rule (count + 1) built subset.1).wrap subset.2
      (by simp +contextual [or_imp]) (by simp) _
  | .sepBy separator rule, count, .sepBy apart built, subset => by
    rw [lower] at subset ⊢
    rw [List.append_assoc _ (separated _ _ _) _, List.append_subset, List.append_subset] at subset
    rw [List.append_assoc _ (separated _ _ _) _]
    have between := lower_closed owner separator (count + 2) apart subset.1.1
    have body := lower_closed owner rule _ built subset.1.2
    exact (between.append body 0).wrap subset.2
      (by simp +contextual [separated, or_imp]) (by simp) _
  | .sepBy1 separator rule, count, .sepBy1 apart built, subset => by
    rw [lower] at subset ⊢
    rw [List.append_subset, List.append_subset] at subset
    have between := lower_closed owner separator (count + 1) apart subset.1.1
    have body := lower_closed owner rule _ built subset.1.2
    exact (between.append body 0).wrap subset.2
      (by simp +contextual [separated, or_imp]) (by simp [separated]) _

theorem lowerParts_closed (owner : String) : ∀ (rules : List Rule) (count : Nat),
    (∀ rule ∈ rules, rule.Built) → (lowerParts owner count rules).productions ⊆ productions →
    Closed productions (Rule.namesOfAll rules) (lowerParts owner count rules)
  | [], count, _, _ => by
    constructor <;> simp [lowerParts]
  | rule :: rules, count, built, subset => by
    rw [List.forall_mem_cons] at built
    rw [lowerParts] at subset ⊢
    rw [List.append_subset] at subset
    exact (lower_closed owner rule count built.1 subset.1).append
      (lowerParts_closed owner rules _ built.2 subset.2) _

theorem lowerChoices_closed (owner : String) (lhs : Symbol) : ∀ (rules : List Rule) (count : Nat),
    (∀ rule ∈ rules, rule.Built) → (lowerChoices owner lhs count rules).productions ⊆ productions →
    (∀ production ∈ (lowerChoices owner lhs count rules).productions, ∀ symbol ∈ production.rhs,
      Resolved productions (Rule.namesOfAll rules) symbol) ∧
      (rules ≠ [] → ∃ production ∈ productions, production.lhs = lhs)
  | [], count, _, _ => by
    simp [lowerChoices]
  | rule :: rules, count, built, subset => by
    rw [List.forall_mem_cons] at built
    rw [lowerChoices] at subset ⊢
    rw [List.append_subset, List.cons_subset] at subset
    have first := lower_closed owner rule count built.1 subset.1
    obtain ⟨rest, -⟩ := lowerChoices_closed owner lhs rules _ built.2 subset.2.2
    have inFirst : rule.names ⊆ Rule.namesOfAll (rule :: rules) := List.subset_append_left _ _
    have inRest : Rule.namesOfAll rules ⊆ Rule.namesOfAll (rule :: rules) :=
      List.subset_append_right _ _
    refine ⟨?_, fun _ => ⟨_, subset.2.1, rfl⟩⟩
    rw [List.forall_mem_append, List.forall_mem_cons]
    refine ⟨?_, ?_, ?_⟩
    · exact fun production mem symbol inside => (first.rhs production mem symbol inside).mono inFirst
    · exact fun symbol inside => (first.symbols symbol inside).mono inFirst
    · exact fun production mem symbol inside => (rest production mem symbol inside).mono inRest

end

def Mentions (lowered : Lowered) (symbol : Symbol) : Prop :=
  symbol ∈ lowered.symbols ∨ ∃ production ∈ lowered.productions, symbol ∈ production.rhs

namespace Mentions

theorem left (mentions : Mentions first symbol) (second : Lowered) (count : Nat) :
    Mentions ⟨first.symbols ++ second.symbols, first.productions ++ second.productions, count⟩
      symbol := by
  obtain mem | ⟨production, mem, inside⟩ := mentions
  · exact .inl (List.mem_append_left _ mem)
  · exact .inr ⟨production, List.mem_append_left _ mem, inside⟩

theorem right (mentions : Mentions second symbol) (first : Lowered) (count : Nat) :
    Mentions ⟨first.symbols ++ second.symbols, first.productions ++ second.productions, count⟩
      symbol := by
  obtain mem | ⟨production, mem, inside⟩ := mentions
  · exact .inl (List.mem_append_right _ mem)
  · exact .inr ⟨production, List.mem_append_right _ mem, inside⟩

theorem wrap (mentions : Mentions lowered symbol)
    (whole : ∃ production ∈ own, lowered.symbols ⊆ production.rhs) (helper : Symbol) (count : Nat) :
    Mentions ⟨[helper], lowered.productions ++ own, count⟩ symbol := by
  obtain mem | ⟨production, mem, inside⟩ := mentions
  · obtain ⟨production, own_mem, subset⟩ := whole
    exact .inr ⟨production, List.mem_append_right _ own_mem, subset mem⟩
  · exact .inr ⟨production, List.mem_append_left _ mem, inside⟩

end Mentions

mutual

theorem lower_mentions (owner : String) : ∀ (rule : Rule) (count : Nat), ∀ name ∈ rule.names,
    Mentions (lower owner count rule) ⟨name⟩
  | .symbol name, count, written, mem => by
    rw [Rule.names, List.mem_singleton] at mem
    rw [lower, mem]
    exact .inl List.mem_cons_self
  | .seq rules, count, written, mem => by
    rw [Rule.names] at mem
    rw [lower]
    exact lowerParts_mentions owner rules count written mem
  | .alternatives rules, count, written, mem => by
    rw [Rule.names] at mem
    rw [lower]
    exact .inr (lowerChoices_mentions owner _ rules (count + 1) written mem)
  | .many rule, count, written, mem => by
    rw [Rule.names] at mem
    rw [lower]
    exact (lower_mentions owner rule (count + 1) written mem).wrap (by simp) _ _
  | .many1 rule, count, written, mem => by
    rw [Rule.names] at mem
    rw [lower]
    exact (lower_mentions owner rule (count + 1) written mem).wrap (by simp) _ _
  | .optional rule, count, written, mem => by
    rw [Rule.names] at mem
    rw [lower]
    exact (lower_mentions owner rule (count + 1) written mem).wrap (by simp) _ _
  | .sepBy separator rule, count, written, mem => by
    rw [Rule.names, List.mem_append] at mem
    rw [lower, List.append_assoc _ (separated _ _ _) _]
    have both : Mentions ⟨(lower owner (count + 2) separator).symbols ++
        (lower owner (lower owner (count + 2) separator).helpers rule).symbols,
        (lower owner (count + 2) separator).productions ++
        (lower owner (lower owner (count + 2) separator).helpers rule).productions, 0⟩ ⟨written⟩ := by
      obtain mem | mem := mem
      · exact (lower_mentions owner separator (count + 2) written mem).left _ 0
      · exact (lower_mentions owner rule _ written mem).right _ 0
    exact both.wrap (by simp [separated]) _ _
  | .sepBy1 separator rule, count, written, mem => by
    rw [Rule.names, List.mem_append] at mem
    rw [lower]
    have both : Mentions ⟨(lower owner (count + 1) separator).symbols ++
        (lower owner (lower owner (count + 1) separator).helpers rule).symbols,
        (lower owner (count + 1) separator).productions ++
        (lower owner (lower owner (count + 1) separator).helpers rule).productions, 0⟩ ⟨written⟩ := by
      obtain mem | mem := mem
      · exact (lower_mentions owner separator (count + 1) written mem).left _ 0
      · exact (lower_mentions owner rule _ written mem).right _ 0
    exact both.wrap (by simp [separated]) _ _

theorem lowerParts_mentions (owner : String) : ∀ (rules : List Rule) (count : Nat),
    ∀ name ∈ Rule.namesOfAll rules, Mentions (lowerParts owner count rules) ⟨name⟩
  | [], count, written, mem => by
    rw [Rule.namesOfAll] at mem
    cases mem
  | rule :: rules, count, written, mem => by
    rw [Rule.namesOfAll, List.mem_append] at mem
    rw [lowerParts]
    obtain mem | mem := mem
    · exact (lower_mentions owner rule count written mem).left _ _
    · exact (lowerParts_mentions owner rules _ written mem).right _ _

theorem lowerChoices_mentions (owner : String) (lhs : Symbol) : ∀ (rules : List Rule) (count : Nat),
    ∀ name ∈ Rule.namesOfAll rules,
      ∃ production ∈ (lowerChoices owner lhs count rules).productions, ⟨name⟩ ∈ production.rhs
  | [], count, written, mem => by
    rw [Rule.namesOfAll] at mem
    cases mem
  | rule :: rules, count, written, mem => by
    rw [Rule.namesOfAll, List.mem_append] at mem
    rw [lowerChoices]
    obtain mem | mem := mem
    · obtain mem | ⟨production, production_mem, inside⟩ := lower_mentions owner rule count written mem
      · exact ⟨_, List.mem_append_right _ List.mem_cons_self, mem⟩
      · exact ⟨production, List.mem_append_left _ production_mem, inside⟩
    · obtain ⟨production, production_mem, inside⟩ := lowerChoices_mentions owner lhs rules _ written mem
      exact ⟨production, List.mem_append_right _ (List.mem_cons_of_mem _ production_mem), inside⟩

end

mutual

theorem lower_symbols_eq_nil (owner : String) : ∀ (rule : Rule) (count : Nat),
    (lower owner count rule).symbols = [] ↔ rule.Blank
  | .symbol name, count => by
    rw [lower]
    exact ⟨nofun, nofun⟩
  | .seq rules, count => by
    rw [lower, lowerParts_symbols_eq_nil owner rules count]
    exact ⟨.seq, fun | .seq parts => parts⟩
  | .alternatives rules, count => by
    rw [lower]
    exact ⟨nofun, nofun⟩
  | .many rule, count => by
    rw [lower]
    exact ⟨nofun, nofun⟩
  | .many1 rule, count => by
    rw [lower]
    exact ⟨nofun, nofun⟩
  | .optional rule, count => by
    rw [lower]
    exact ⟨nofun, nofun⟩
  | .sepBy separator rule, count => by
    rw [lower]
    exact ⟨nofun, nofun⟩
  | .sepBy1 separator rule, count => by
    rw [lower]
    exact ⟨nofun, nofun⟩

theorem lowerParts_symbols_eq_nil (owner : String) : ∀ (rules : List Rule) (count : Nat),
    (lowerParts owner count rules).symbols = [] ↔ ∀ rule ∈ rules, rule.Blank
  | [], count => by
    simp [lowerParts]
  | rule :: rules, count => by
    rw [lowerParts, List.append_eq_nil_iff, List.forall_mem_cons, lower_symbols_eq_nil owner rule,
      lowerParts_symbols_eq_nil owner rules]

end

theorem exists_of_choice (owner : String) (lhs : Symbol) {rules : List Rule} {rule : Rule}
    (mem : rule ∈ rules) (count : Nat) :
    ∃ start, ⟨lhs, (lower owner start rule).symbols⟩ ∈
      (lowerChoices owner lhs count rules).productions := by
  induction rules generalizing count with
  | nil => cases mem
  | cons first rest ih =>
    rw [lowerChoices]
    obtain rfl | mem := List.mem_cons.mp mem
    · exact ⟨count, List.mem_append_right _ List.mem_cons_self⟩
    · obtain ⟨start, found⟩ := ih mem _
      exact ⟨start, List.mem_append_right _ (List.mem_cons_of_mem _ found)⟩

theorem choice_of_mem {lhs : Symbol} {rules : List Rule} {count : Nat} {production : Production}
    (mem : production ∈ (lowerChoices owner lhs count rules).productions) :
    (∃ rule ∈ rules, ∃ start, production = ⟨lhs, (lower owner start rule).symbols⟩) ∨
      IsHelper owner production.lhs := by
  induction rules generalizing count with
  | nil =>
    rw [lowerChoices] at mem
    cases mem
  | cons first rest ih =>
    rw [lowerChoices, List.mem_append, List.mem_cons] at mem
    obtain inner | rfl | later := mem
    · exact .inr ((lower_within owner count first).lhs production inner)
    · exact .inl ⟨first, List.mem_cons_self, count, rfl⟩
    · obtain ⟨rule, rule_mem, start, same⟩ | helper := ih later
      · exact .inl ⟨rule, List.mem_cons_of_mem _ rule_mem, start, same⟩
      · exact .inr helper

end Lowering

end ShiftReduce
