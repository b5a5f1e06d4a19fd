import ShiftReduce.Proofs.Lowering.Language
import ShiftReduce.Proofs.Lowering.Order
import ShiftReduce.Proofs.Registry.Wellformed

/-!
The order of registration, on which the choice between competing actions depends. Augmented productions
stand in front, and each rule has a block of its own, in which helpers come before what uses them.
-/
namespace ShiftReduce.Registry

open Lowering ShiftReduce.Symbol

variable {grammar : Grammar} {registry : Registry} {name owner : String} {body : Rule}
  {production earlier later : Production} {number : Nat}

namespace AcceptedFrom

variable (accepted : registry.AcceptedFrom grammar)

include accepted

theorem owner_chosen (mem : owner ∈ grammar.rules.map (·.1)) : Chosen owner :=
  (accepted.rules_chosen owner mem).1

theorem start_chosen {start : Symbol} (declared : start ∈ registry.starts) : Chosen start.name :=
  accepted.owner_chosen (accepted.start_mem declared)

theorem written_chosen (rule : (name, body) ∈ grammar.rules) : ∀ written ∈ body.names, Chosen written :=
  fun written mem => accepted.names_chosen written (List.mem_flatMap.mpr ⟨(name, body), rule, mem⟩)

theorem lhs_ne_helper (rule : (name, body) ∈ grammar.rules) (other : owner ∈ grammar.rules.map (·.1))
    (different : name ≠ owner) (lowered : production ∈ lowerRule name body) :
    production.lhs ≠ helper owner number := by
  have chosen := accepted.owner_chosen (List.mem_map_of_mem rule)
  intro same
  obtain lhs | ⟨own, lhs⟩ := (lowerRule_within name body).lhs production lowered
  · exact helper_ne_chosen chosen (same.symm.trans lhs)
  · exact different (helper_injective chosen (accepted.owner_chosen other) (lhs.symm.trans same)).1

theorem rhs_ne_helper (rule : (name, body) ∈ grammar.rules) (other : owner ∈ grammar.rules.map (·.1))
    (different : name ≠ owner) (lowered : production ∈ lowerRule name body) :
    helper owner number ∉ production.rhs := by
  have chosen := accepted.owner_chosen (List.mem_map_of_mem rule)
  intro inside
  obtain ⟨written, mem, same⟩ | ⟨own, same⟩ :=
    (lowerRule_within name body).rhs production lowered _ inside
  · exact helper_ne_chosen (accepted.written_chosen rule written mem) same
  · exact different (helper_injective chosen (accepted.owner_chosen other) same.symm).1

theorem settled_augmented {start : Symbol} (declared : start ∈ registry.starts) :
    Settled owner ⟨start.augmented, [start]⟩ later := by
  intro number same inside
  rw [same, List.mem_singleton] at inside
  exact absurd inside (helper_ne_chosen (accepted.start_chosen declared))

theorem settled (mem : owner ∈ grammar.rules.map (·.1)) :
    registry.productions.Pairwise (Settled owner) := by
  rw [accepted.productions_eq, Grammar.productions]
  refine List.pairwise_append.mpr ⟨?_, List.pairwise_flatMap.mpr ⟨?_, ?_⟩, ?_⟩
  · refine List.pairwise_of_forall_mem_list fun earlier front later _ => ?_
    obtain ⟨start, declared, rfl⟩ := List.mem_map.mp front
    exact accepted.settled_augmented declared
  · rintro ⟨name, body⟩ rule
    by_cases same : name = owner
    · subst same
      exact (ordered_lowerRule (accepted.owner_chosen mem) (accepted.written_chosen rule)).settled
    · refine List.pairwise_of_forall_mem_list fun _ _ later lowered number lhs => ?_
      exact absurd lhs (accepted.lhs_ne_helper rule mem same lowered)
  · -- Of two rules at most one is the owner, and the other neither makes nor uses its helpers.
    refine (List.pairwise_map.mp accepted.rules_nodup).imp_of_mem ?_
    rintro ⟨name, body⟩ ⟨other, other_body⟩ rule other_rule different
      earlier lowered later other_lowered number lhs inside
    by_cases same : name = owner
    · exact absurd lhs (accepted.lhs_ne_helper other_rule mem
        (fun same' => different (same.trans same'.symm)) other_lowered)
    · rw [lhs] at inside
      exact absurd inside (accepted.rhs_ne_helper rule mem same lowered)
  · intro earlier front later _
    obtain ⟨start, declared, rfl⟩ := List.mem_map.mp front
    exact accepted.settled_augmented declared

theorem lt_of_uses {i j : Nat} {used made : Production} (mem : owner ∈ grammar.rules.map (·.1))
    (at_j : registry.productions[j]? = some used) (at_i : registry.productions[i]? = some made)
    (uses : helper owner number ∈ used.rhs) (other : used.lhs ≠ helper owner number)
    (lhs : made.lhs = helper owner number) : i < j := by
  obtain ⟨j_lt, rfl⟩ := List.getElem?_eq_some_iff.mp at_j
  obtain ⟨i_lt, rfl⟩ := List.getElem?_eq_some_iff.mp at_i
  by_contra not_before
  rcases Nat.lt_or_eq_of_le (Nat.le_of_not_lt not_before) with after | rfl
  · have settled := List.pairwise_iff_getElem.mp (accepted.settled mem) j i j_lt i_lt after
    exact other ((settled number lhs (lhs ▸ uses)).symm.trans lhs)
  · exact other lhs

end AcceptedFrom

/-- Productions are registered in this order: the augmented ones as the start symbols are first named, then
a block for each rule. A block has productions of the rule's name and helpers only, those of the name being
its alternatives in order, and all productions of a helper come before any other that uses it. -/
theorem registered_in_order {grammar : Grammar} {registry : Registry}
    (accepted : Registry.ofGrammar grammar = .ok registry) :
    (∃ blocks : List (List Production),
      registry.productions = (grammar.start.map Symbol.mk).eraseDups.map
        (fun start => ⟨start.augmented, [start]⟩) ++ blocks.flatten ∧
      List.Forall₂ (fun rule block =>
        (∀ production ∈ block, production.lhs = ⟨rule.1⟩ ∨ IsHelper rule.1 production.lhs) ∧
        (select ⟨rule.1⟩ block).length = rule.2.choices.length ∧
        select ⟨rule.1⟩ block = spellChoices rule.1 ⟨rule.1⟩ 0 rule.2.choices) grammar.rules blocks) ∧
    ∀ owner ∈ grammar.rules.map (·.1), ∀ (number i j : Nat) (used made : Production),
      registry.productions[j]? = some used → registry.productions[i]? = some made →
      helper owner number ∈ used.rhs → used.lhs ≠ helper owner number →
      made.lhs = helper owner number → i < j := by
  have from_grammar := acceptedFrom accepted
  refine ⟨⟨grammar.rules.map fun rule => lowerRule rule.1 rule.2, ?_, ?_⟩, ?_⟩
  · rw [from_grammar.productions_eq, from_grammar.starts_eq, OrderedSet.distinct_eq_eraseDups,
      Grammar.productions, List.flatMap_def]
  · rw [List.forall₂_map_right_iff, List.forall₂_same]
    rintro ⟨name, body⟩ -
    refine ⟨(lowerRule_within name body).lhs, ?_, select_lowerRule_self name body⟩
    rw [select_lowerRule_self, length_spellChoices]
  · intro owner mem number i j used made at_j at_i uses other lhs
    exact from_grammar.lt_of_uses mem at_j at_i uses other lhs

/-- The second helper of `rows` is made inside the first. -/
theorem registered_in_order_rows :
    (∃ first second : List Production,
      ((Registry.ofGrammar rows).toOption.get rows_accepted).productions =
        ⟨⟨"rows'"⟩, [⟨"rows"⟩]⟩ :: (first ++ second) ∧
      select ⟨"rows"⟩ first = [⟨⟨"rows"⟩, [⟨"rows~1"⟩]⟩] ∧
      select ⟨"place"⟩ second = [⟨⟨"place"⟩, [⟨"place~1"⟩]⟩]) ∧
    ((Registry.ofGrammar rows).toOption.get rows_accepted).productions[3]? =
      some ⟨⟨"rows~1"⟩, [⟨"rows~1"⟩, ⟨"Comma"⟩, ⟨"rows~2"⟩]⟩ ∧
    ∀ i made, ((Registry.ofGrammar rows).toOption.get rows_accepted).productions[i]? = some made →
      made.lhs = ⟨"rows~2"⟩ → i < 3 := by
  have user : ((Registry.ofGrammar rows).toOption.get rows_accepted).productions[3]? =
      some ⟨⟨"rows~1"⟩, [⟨"rows~1"⟩, ⟨"Comma"⟩, ⟨"rows~2"⟩]⟩ := by decide +kernel
  obtain ⟨⟨blocks, whole, each⟩, before⟩ := registered_in_order (eq_ok_of_isSome rows_accepted)
  refine ⟨?_, user, fun i made at_i lhs => ?_⟩
  · cases each with
    | @cons _ block _ _ first rest =>
      cases rest with
      | @cons _ other _ _ second rest =>
        cases rest
        rw [List.flatten_cons, List.flatten_cons, List.flatten_nil, List.append_nil] at whole
        exact ⟨block, other, whole, first.2.2, second.2.2⟩
  · exact before "rows" (by decide) 2 i 3 _ made user at_i (by decide) (by decide) lhs

end ShiftReduce.Registry
