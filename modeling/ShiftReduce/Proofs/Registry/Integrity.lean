import ShiftReduce.Proofs.Registry.Ledger
import ShiftReduce.Proofs.Registry.Order
import ShiftReduce.Proofs.Registry.Registration

/-!
What holds together in the registry of an accepted grammar: numbers and positions, the nonterminals and
their productions, the terminals and their uses, and the names built for augmented starts and helpers, none
of which is built twice or chosen by the author.
-/
namespace ShiftReduce

open Lowering ShiftReduce.Symbol

namespace Grammar

variable {grammar : Grammar}

/-- Each combinator that a helper is made for, with the rule it is in and its number there. -/
def occurrences (grammar : Grammar) : List (String × Nat × Rule) :=
  grammar.rules.flatMap fun (name, body) =>
    (Rule.combinatorsOfAll body.choices).zipIdx.map fun (combinator, i) => (name, i + 1, combinator)

def generated (grammar : Grammar) : List Symbol :=
  (grammar.start.map Symbol.mk).eraseDups.map Symbol.augmented ++
    grammar.occurrences.map fun (name, number, _) => helper name number

theorem mem_occurrences {name : String} {number : Nat} {combinator : Rule} :
    (name, number, combinator) ∈ grammar.occurrences ↔ ∃ body i, (name, body) ∈ grammar.rules ∧
      (Rule.combinatorsOfAll body.choices)[i]? = some combinator ∧ number = i + 1 := by
  simp only [occurrences, List.mem_flatMap, List.mem_map, Prod.exists, List.mk_mem_zipIdx_iff_getElem?,
    Prod.mk.injEq]
  constructor
  · rintro ⟨name, body, rule, combinator, i, at_i, rfl, rfl, rfl⟩
    exact ⟨body, i, rule, at_i, rfl⟩
  · rintro ⟨body, i, rule, at_i, rfl⟩
    exact ⟨name, body, rule, combinator, i, at_i, rfl, rfl, rfl⟩

theorem generated_not_chosen {symbol : Symbol} (mem : symbol ∈ grammar.generated) : ¬ Chosen symbol.name := by
  intro chosen
  obtain mem | mem := List.mem_append.mp mem
  · obtain ⟨start, -, same⟩ := List.mem_map.mp mem
    exact augmented_ne_chosen chosen same
  · obtain ⟨⟨name, number, combinator⟩, -, same⟩ := List.mem_map.mp mem
    exact helper_ne_chosen chosen same

end Grammar

theorem Lowering.select_flatMap {α : Type} (symbol : Symbol) (xs : List α) (f : α → List Production) :
    select symbol (xs.flatMap f) = xs.flatMap fun x => select symbol (f x) := List.filter_flatMap ..

theorem flatMap_eq_of_unique {α β κ : Type} {xs : List α} {key : α → κ} {f : α → List β} {x : α}
    (nodup : (xs.map key).Nodup) (mem : x ∈ xs) (others : ∀ y ∈ xs, key y ≠ key x → f y = []) :
    xs.flatMap f = f x := by
  induction xs with
  | nil => cases mem
  | cons y rest ih =>
    rw [List.map_cons, List.nodup_cons] at nodup
    rw [List.forall_mem_cons] at others
    rw [List.flatMap_cons]
    obtain rfl | mem := List.mem_cons.mp mem
    · have nothing : rest.flatMap f = [] := List.flatMap_eq_nil_iff.mpr fun z mem =>
        others.2 z mem fun same => nodup.1 (same ▸ List.mem_map_of_mem mem)
      rw [nothing, List.append_nil]
    · have different : key y ≠ key x := fun same => nodup.1 (same ▸ List.mem_map_of_mem mem)
      rw [others.1 different, List.nil_append, ih nodup.2 mem others.2]

namespace Registry.AcceptedFrom

variable {grammar : Grammar} {registry : Registry} {name : String} {body combinator : Rule}
  {symbol start : Symbol} {production : Production} {number id : Nat}
  (accepted : registry.AcceptedFrom grammar)

include accepted

theorem starts_eq_eraseDups : registry.starts = (grammar.start.map Symbol.mk).eraseDups := by
  rw [accepted.starts_eq, OrderedSet.distinct_eq_eraseDups]

theorem select_productions (rule : (name, body) ∈ grammar.rules)
    (unaugmented : ∀ start ∈ registry.starts, start.augmented ≠ symbol)
    (others : ∀ other other_body, (other, other_body) ∈ grammar.rules → other ≠ name →
      ∀ production ∈ lowerRule other other_body, production.lhs ≠ symbol) :
    select symbol registry.productions = select symbol (lowerRule name body) := by
  have front : select symbol (registry.starts.map fun start => ⟨start.augmented, [start]⟩) = [] := by
    refine select_eq_nil fun production mem => ?_
    obtain ⟨start, declared, rfl⟩ := List.mem_map.mp mem
    exact unaugmented start declared
  rw [accepted.productions_eq, Grammar.productions, select_append, front, List.nil_append,
    select_flatMap]
  refine flatMap_eq_of_unique accepted.rules_nodup rule ?_
  rintro ⟨other, other_body⟩ other_rule different
  exact select_eq_nil (others other other_body other_rule different)

theorem select_rule (rule : (name, body) ∈ grammar.rules) :
    select ⟨name⟩ registry.productions = spellChoices name ⟨name⟩ 0 body.choices := by
  have chosen := accepted.owner_chosen (List.mem_map_of_mem rule)
  rw [accepted.select_productions rule, select_lowerRule_self]
  · exact fun start _ => augmented_ne_chosen chosen
  · rintro other other_body other_rule different production lowered same
    obtain lhs | ⟨number, lhs⟩ := (lowerRule_within other other_body).lhs production lowered
    · rw [lhs, Symbol.mk.injEq] at same
      exact different same
    · exact helper_ne_chosen chosen (lhs.symm.trans same)

theorem select_occurrence (occurrence : (name, number, combinator) ∈ grammar.occurrences) :
    select (helper name number) registry.productions = own name number combinator := by
  obtain ⟨body, i, rule, at_i, rfl⟩ := Grammar.mem_occurrences.mp occurrence
  have named : name ∈ grammar.rules.map (·.1) := List.mem_map_of_mem rule
  have place : made name 0 (Rule.combinatorsOfAll body.choices) (0 + i + 1) =
      own name (0 + i + 1) combinator := made_of_getElem? at_i
  rw [Nat.zero_add] at place
  rw [accepted.select_productions rule, select_lowerRule_helper, place]
  · exact fun start declared same => helper_ne_augmented (accepted.start_chosen declared) same.symm
  · rintro other other_body other_rule different production lowered
    exact accepted.lhs_ne_helper other_rule named different lowered

theorem helper_defined (occurrence : (name, number, combinator) ∈ grammar.occurrences) :
    ∃ production ∈ registry.productions, production.lhs = helper name number := by
  obtain ⟨body, i, rule, at_i, rfl⟩ := Grammar.mem_occurrences.mp occurrence
  obtain ⟨chosen, nonterminal⟩ := accepted.rules_chosen name (List.mem_map_of_mem rule)
  obtain ⟨production, lowered, inside⟩ :=
    exists_use_of_combinator chosen (accepted.written_chosen rule) at_i
  have registered := accepted.mem_productions.mpr (.inr ⟨name, body, rule, lowered⟩)
  exact accepted.references production registered _ inside
    ((isTerminal_helper chosen (i + 1)).trans nonterminal)

theorem number_le (occurrence : (name, number, combinator) ∈ grammar.occurrences) :
    number ≤ registry.productions.length := by
  obtain ⟨body, i, rule, at_i, rfl⟩ := Grammar.mem_occurrences.mp occurrence
  have inside := (List.getElem?_eq_some_iff.mp at_i).1
  have nodup : ((List.range (i + 1)).map fun j => helper name (j + 1)).Nodup :=
    List.pairwise_map.mpr (List.nodup_range.imp fun different same =>
      different (Nat.succ.inj (helper_number_injective same)))
  have subset : ((List.range (i + 1)).map fun j => helper name (j + 1)) ⊆
      registry.productions.map (·.lhs) := by
    intro symbol mem
    obtain ⟨j, before, rfl⟩ := List.mem_map.mp mem
    have first := Nat.le_of_lt_succ (List.mem_range.mp before)
    have at_j := List.getElem?_eq_getElem (Nat.lt_of_le_of_lt first inside)
    obtain ⟨production, registered, lhs⟩ :=
      accepted.helper_defined (Grammar.mem_occurrences.mpr ⟨body, j, rule, at_j, rfl⟩)
    exact List.mem_map.mpr ⟨production, registered, lhs⟩
  simpa using nodup.length_le_of_subset subset

theorem lhs_known (mem : production ∈ registry.productions) :
    production.lhs.name ∈ grammar.ruleNames ∨ production.lhs ∈ grammar.generated := by
  obtain ⟨start, declared, rfl⟩ | ⟨name, body, rule, lowered⟩ := accepted.mem_productions.mp mem
  · rw [accepted.starts_eq_eraseDups] at declared
    exact .inr (List.mem_append_left _ (List.mem_map_of_mem declared))
  · obtain lhs | ⟨i, combinator, at_i, lhs⟩ := lhs_lowerRule lowered
    · rw [lhs]
      exact .inl (List.mem_map_of_mem rule)
    · have occurrence := Grammar.mem_occurrences.mpr ⟨body, i, rule, at_i, rfl⟩
      exact .inr (List.mem_append_right _ (List.mem_map.mpr ⟨_, occurrence, lhs.symm⟩))

theorem helpers_nodup :
    (grammar.occurrences.map fun (name, number, _) => helper name number).Nodup := by
  rw [Grammar.occurrences, List.map_flatMap]
  refine List.nodup_flatMap.mpr ⟨?_, ?_⟩
  · rintro ⟨name, body⟩ -
    have places : ((Rule.combinatorsOfAll body.choices).zipIdx.map Prod.snd).Nodup := by
      rw [List.zipIdx_map_snd]
      exact List.nodup_range'
    rw [List.map_map]
    refine List.pairwise_map.mpr ((List.pairwise_map.mp places).imp fun different same => ?_)
    exact different (Nat.succ.inj (helper_number_injective same))
  · refine (List.pairwise_map.mp accepted.rules_nodup).imp_of_mem ?_
    rintro ⟨name, body⟩ ⟨other, other_body⟩ rule other_rule different symbol mem other_mem
    simp only [List.mem_map, Prod.exists] at mem other_mem
    obtain ⟨_, _, _, ⟨_, i, -, rfl, rfl, rfl⟩, rfl⟩ := mem
    obtain ⟨_, _, _, ⟨_, j, -, rfl, rfl, rfl⟩, same⟩ := other_mem
    exact different (helper_injective (accepted.owner_chosen (List.mem_map_of_mem rule))
      (accepted.owner_chosen (List.mem_map_of_mem other_rule)) same.symm).1

theorem generated_nodup : grammar.generated.Nodup := by
  refine List.nodup_append.mpr ⟨?_, accepted.helpers_nodup, ?_⟩
  · rw [← accepted.starts_eq_eraseDups]
    exact accepted.wellformed.starts_nodup.map fun _ _ => augmented_injective
  · rintro _ mem _ other_mem rfl
    rw [← accepted.starts_eq_eraseDups] at mem
    obtain ⟨start, declared, rfl⟩ := List.mem_map.mp mem
    obtain ⟨⟨name, number, combinator⟩, -, same⟩ := List.mem_map.mp other_mem
    exact helper_ne_augmented (accepted.start_chosen declared) same

theorem lt_of_augmented (declared : start ∈ registry.starts)
    (found : registry.productions[id]? = some production) (lhs : production.lhs = start.augmented) :
    id < registry.starts.length := by
  by_contra behind
  rw [accepted.productions_eq, Grammar.productions, List.getElem?_append_right (by simpa using behind)]
    at found
  obtain ⟨⟨name, body⟩, rule, lowered⟩ := List.mem_flatMap.mp (List.mem_of_getElem? found)
  obtain own | ⟨number, own⟩ := (lowerRule_within name body).lhs production lowered
  · exact augmented_ne_chosen (accepted.owner_chosen (List.mem_map_of_mem rule)) (lhs.symm.trans own)
  · exact helper_ne_augmented (accepted.start_chosen declared) (own.symm.trans lhs)

theorem productionsFor_augmented (declared : registry.starts[id]? = some start) :
    registry.productionsFor start.augmented = [id] := by
  have wellformed := accepted.wellformed
  have nodup : (registry.productionsFor start.augmented).Nodup :=
    (Ledger.positions_pairwise _ _).imp Nat.ne_of_lt
  refine OrderedSet.eq_singleton_of_nodup nodup fun other => ⟨fun mem => ?_, ?_⟩
  · obtain ⟨production, found, lhs⟩ := mem_productionsFor.mp mem
    have front := accepted.lt_of_augmented (List.mem_of_getElem? declared) found lhs
    cases found.symm.trans (wellformed.augmented_at (List.getElem?_eq_getElem front))
    have same : registry.starts[other]? = registry.starts[id]? := by
      rw [declared, List.getElem?_eq_getElem front, augmented_injective lhs]
    exact (List.getElem?_inj front wellformed.starts_nodup).mp same
  · rintro rfl
    exact mem_productionsFor.mpr ⟨_, wellformed.augmented_at declared, rfl⟩

theorem terminals_used : ∃ used, registry.terminals = eof :: used ∧ ∀ symbol,
    symbol ∈ used ↔
      symbol.isTerminal = true ∧ ∃ production ∈ registry.productions, symbol ∈ production.rhs := by
  have wellformed := accepted.wellformed
  obtain ⟨used, front⟩ : ∃ used, registry.terminals = eof :: used := by
    have first := wellformed.eof_first
    generalize registry.terminals = terminals at first
    cases terminals with
    | nil => cases first
    | cons terminal rest =>
      cases first
      exact ⟨rest, rfl⟩
  have nodup := wellformed.terminals_nodup
  rw [front, List.nodup_cons] at nodup
  refine ⟨used, front, fun symbol => ⟨fun mem => ?_, ?_⟩⟩
  · have registered : symbol ∈ registry.terminals := front ▸ List.mem_cons_of_mem _ mem
    rw [accepted.terminals_eq, OrderedSet.mem_distinct, List.mem_cons, List.mem_filter, List.mem_map]
      at registered
    obtain rfl | ⟨⟨name, named, rfl⟩, terminal⟩ := registered
    · exact absurd mem nodup.1
    · exact ⟨terminal, accepted.exists_use named⟩
  · rintro ⟨terminal, production, registered, inside⟩
    have known := wellformed.terminal_registered production registered symbol inside terminal
    rw [front] at known
    refine (List.mem_cons.mp known).resolve_left fun same => ?_
    exact wellformed.eof_unused production registered (same ▸ inside)

end Registry.AcceptedFrom

namespace Registry

/-- How the parts of a registry fit together, and with the grammar that it was made from. -/
structure Integrity (grammar : Grammar) (registry : Registry) : Prop where
  /-- Productions have their positions as numbers. -/
  numbers : (Ledger.ofProductions registry.productions).entries.map
      (fun (id, production) => (production, id.toNat)) = registry.productions.zipIdx
  /-- Under each nonterminal the numbers of its productions are filed. -/
  filed : (Ledger.ofProductions registry.productions).index.map
      (fun (symbol, ids) => (symbol, ids.map UInt32.toNat)) =
    registry.nonterminals.map fun symbol => (symbol, registry.productionsFor symbol)
  nonterminals_nodup : registry.nonterminals.Nodup
  mem_nonterminals : ∀ symbol, symbol ∈ registry.nonterminals ↔
    ∃ production ∈ registry.productions, production.lhs = symbol
  productionsFor_increasing : ∀ symbol, (registry.productionsFor symbol).Pairwise (· < ·)
  mem_productionsFor : ∀ symbol id, id ∈ registry.productionsFor symbol ↔
    ∃ production, registry.productions[id]? = some production ∧ production.lhs = symbol
  productionsFor_ne_nil : ∀ symbol ∈ registry.nonterminals, registry.productionsFor symbol ≠ []
  rhs_registered : ∀ production ∈ registry.productions, ∀ symbol ∈ production.rhs,
    (symbol.isTerminal = true ∧ symbol ∈ registry.terminals) ∨
      (symbol.isTerminal = false ∧ symbol ∈ registry.nonterminals)
  terminals_nodup : registry.terminals.Nodup
  terminals_used : ∃ used, registry.terminals = eof :: used ∧ ∀ symbol, symbol ∈ used ↔
    symbol.isTerminal = true ∧ ∃ production ∈ registry.productions, symbol ∈ production.rhs
  eof_unused : ∀ production ∈ registry.productions, eof ∉ production.rhs
  /-- The augmented production of a start symbol is the only one of its name, which is used nowhere. -/
  starts : ∀ name ∈ grammar.start, ∃ id, registry.startProduction ⟨name⟩ = some id ∧
    registry.productions[id]? = some ⟨augmented ⟨name⟩, [⟨name⟩]⟩ ∧
    registry.productionsFor (augmented ⟨name⟩) = [id] ∧
    ∀ production ∈ registry.productions, augmented ⟨name⟩ ∉ production.rhs
  /-- The productions of a rule's own name. -/
  rules : ∀ name body, (name, body) ∈ grammar.rules →
    select ⟨name⟩ registry.productions = spellChoices name ⟨name⟩ 0 body.choices
  /-- The productions of a helper are those made for one combinator. -/
  helpers : ∀ name number combinator, (name, number, combinator) ∈ grammar.occurrences →
    select (helper name number) registry.productions = own name number combinator
  /-- Helpers have productions, and a word is enough to count those of a rule. -/
  helpers_counted : ∀ name number combinator, (name, number, combinator) ∈ grammar.occurrences →
    helper name number ∈ registry.nonterminals ∧ number < UInt32.size
  lhs_known : ∀ production ∈ registry.productions,
    production.lhs.name ∈ grammar.ruleNames ∨ production.lhs ∈ grammar.generated
  generated_nodup : grammar.generated.Nodup
  generated_fresh : ∀ symbol ∈ grammar.generated,
    symbol.name ∉ grammar.ruleNames ++ grammar.start ++ grammar.names ++ grammar.nullable

/-- Registration leaves a registry in which everything fits, as long as the numbers do not run out. -/
theorem integrity_of_accepted {grammar : Grammar} {registry : Registry}
    (accepted : Registry.ofGrammar grammar = .ok registry)
    (few : registry.productions.length < UInt32.size) : registry.Integrity grammar := by
  have from_grammar := acceptedFrom accepted
  have wellformed := from_grammar.wellformed
  refine {
    numbers := entries_eq few
    filed := index_eq few
    nonterminals_nodup := OrderedSet.nodup_distinct _
    mem_nonterminals := fun _ => mem_nonterminals
    productionsFor_increasing := Ledger.positions_pairwise registry.productions
    mem_productionsFor := fun _ _ => mem_productionsFor
    productionsFor_ne_nil := fun symbol mem => ?_
    rhs_registered := fun production mem symbol inside => ?_
    terminals_nodup := wellformed.terminals_nodup
    terminals_used := from_grammar.terminals_used
    eof_unused := wellformed.eof_unused
    starts := fun name mem => ?_
    rules := fun _ _ => from_grammar.select_rule
    helpers := fun _ _ _ => from_grammar.select_occurrence
    helpers_counted := fun _ _ _ occurrence => ⟨mem_nonterminals.mpr
      (from_grammar.helper_defined occurrence), (from_grammar.number_le occurrence).trans_lt few⟩
    lhs_known := fun _ => from_grammar.lhs_known
    generated_nodup := from_grammar.generated_nodup
    generated_fresh := fun symbol mem chosen => ?_ }
  · obtain ⟨production, registered, lhs⟩ := mem_nonterminals.mp mem
    obtain ⟨id, found⟩ := List.mem_iff_getElem?.mp registered
    exact List.ne_nil_of_mem (mem_productionsFor.mpr ⟨production, found, lhs⟩)
  · cases terminal : symbol.isTerminal with
    | true => exact .inl ⟨rfl, wellformed.terminal_registered production mem symbol inside terminal⟩
    | false => exact .inr ⟨rfl, mem_nonterminals.mpr
        (wellformed.nonterminal_defined production mem symbol inside terminal)⟩
  · have declared := from_grammar.mem_starts.mpr mem
    obtain ⟨id, found⟩ := exists_startProduction declared
    have at_id := getElem?_of_startProduction found
    exact ⟨id, found, wellformed.augmented_at at_id, from_grammar.productionsFor_augmented at_id,
      wellformed.augmented_unused _ declared⟩
  · exact Grammar.generated_not_chosen mem ((wellformed_of_accepted accepted).names _ chosen).toChosen

/-- Four names are built for `rows`, three of them for combinators. -/
theorem integrity_rows :
    ((Registry.ofGrammar rows).toOption.get rows_accepted).productions.length < UInt32.size ∧
    rows.generated = [⟨"rows'"⟩, ⟨"rows~1"⟩, ⟨"rows~2"⟩, ⟨"place~1"⟩] ∧
    ((Registry.ofGrammar rows).toOption.get rows_accepted).Integrity rows := by
  have few : ((Registry.ofGrammar rows).toOption.get rows_accepted).productions.length < UInt32.size := by
    decide +kernel
  exact ⟨few, by decide +kernel, integrity_of_accepted (eq_ok_of_isSome rows_accepted) few⟩

end Registry

end ShiftReduce
