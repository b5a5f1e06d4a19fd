import ShiftReduce.Proofs.Lowering.Language
import ShiftReduce.Proofs.Registry.Analysed

/-!
Nullability is exact. The symbols found are the nonterminals that derive the empty string, and among the
author's own those whose rule matches it. What the author declares makes no difference: declarations are
checked against what is found and add nothing to it.
-/
namespace ShiftReduce.Registry

variable {grammar : Grammar} {registry : Registry} {symbol : Symbol}

/-- Passes that start from no symbol at all come to rest at the nullable symbols. -/
def NullableSettled (registry : Registry) : Prop :=
  Analysis.Settles (Nullable.pass registry.productions) [] registry.nullable

theorem isNullable_iff : registry.isNullable symbol = true ↔ symbol ∈ registry.nullable := by
  rw [isNullable, List.contains_iff_mem]

namespace Wellformed

variable (wellformed : registry.Wellformed)

include wellformed

theorem nullableSettled : registry.NullableSettled := by
  rw [NullableSettled, wellformed.nullable_eq]
  exact (Nullable.climbs registry.productions).settles ⟨List.nodup_nil, List.nil_subset _⟩
    (Nat.lt_succ_self _)

theorem nonterminal_of_nullable (vanishes : symbol ∈ registry.nullable) :
    symbol ∈ registry.nonterminals := by
  rw [wellformed.nullable_eq] at vanishes
  exact OrderedSet.mem_distinct.mpr ((Nullable.found_solve registry.productions).1.subset vanishes)

end Wellformed

namespace AcceptedFrom

theorem mem_nullable_iff_language (accepted : registry.AcceptedFrom grammar) {name : String}
    (defined : name ∈ grammar.rules.map (·.1)) :
    ⟨name⟩ ∈ registry.nullable ↔ [] ∈ grammar.language name := by
  rw [accepted.nullable_eq, Nullable.mem_solve_iff]
  constructor
  · exact accepted.mem_language_of_expands defined
  · intro mem
    rw [accepted.productions_eq]
    exact Grammar.expands_of_mem_language registry.starts mem

theorem nullable_eq_of_declared {declared : List String} {other : Registry}
    (accepted : registry.AcceptedFrom grammar)
    (also : other.AcceptedFrom { grammar with nullable := declared }) :
    other.nullable = registry.nullable := by
  have starts : other.starts = registry.starts := also.starts_eq.trans accepted.starts_eq.symm
  have productions : other.productions = registry.productions := by
    rw [also.productions_eq, accepted.productions_eq, starts]
    rfl
  rw [also.nullable_eq, accepted.nullable_eq, productions]

end AcceptedFrom

/-- The nullable symbols of an accepted grammar are found. They are the nonterminals that derive the
empty string, whatever is declared, and a nonterminal of the author's is one if its rule matches that
string. -/
theorem isNullable_exact (accepted : Registry.ofGrammar grammar = .ok registry) :
    registry.NullableSettled ∧
      (∀ symbol, registry.isNullable symbol = true ↔
        symbol ∈ registry.nonterminals ∧ Derives registry.productions [symbol] []) ∧
      (∀ name ∈ grammar.rules.map (·.1),
        registry.isNullable ⟨name⟩ = true ↔ [] ∈ grammar.language name) ∧
      ∀ declared other, Registry.ofGrammar { grammar with nullable := declared } = .ok other →
        ∀ symbol, other.isNullable symbol = registry.isNullable symbol := by
  have from_grammar := acceptedFrom accepted
  have wellformed := from_grammar.wellformed
  refine ⟨wellformed.nullableSettled, fun symbol => ?_, fun name defined => ?_, ?_⟩
  · rw [isNullable_iff, ← wellformed.mem_nullable_iff]
    exact ⟨fun vanishes => ⟨wellformed.nonterminal_of_nullable vanishes, vanishes⟩, And.right⟩
  · rw [isNullable_iff]
    exact from_grammar.mem_nullable_iff_language defined
  · intro declared other also symbol
    rw [isNullable, isNullable, from_grammar.nullable_eq_of_declared (acceptedFrom also)]

/-- Only a helper has an empty production; it makes `u` vanish, and `u` makes `t` and then `s`. -/
def fading : Grammar where
  start := ["v"]
  rules := [
    ("s", .seq [.symbol "t", .symbol "t"]),
    ("t", .symbol "Id" ||| .symbol "u"),
    ("u", .many (.symbol "v")),
    ("v", .seq [.symbol "s", .symbol "Id"])]
  nullable := []

def fadingRegistry : Registry := (Registry.ofGrammar fading).toOption.get (by decide +kernel)

theorem isNullable_fading :
    Derives fadingRegistry.productions [⟨"s"⟩] [] ∧ [] ∈ fading.language "s" ∧
      [] ∉ fading.language "v" ∧
      ∃ other, Registry.ofGrammar { fading with nullable := ["s", "u"] } = .ok other ∧
        other.isNullable ⟨"s"⟩ = true ∧ other.isNullable ⟨"v"⟩ = false := by
  have accepted : Registry.ofGrammar fading = .ok fadingRegistry := eq_ok_of_isSome _
  have computed : fadingRegistry.isNullable ⟨"s"⟩ = true ∧
      fadingRegistry.isNullable ⟨"v"⟩ = false := by decide +kernel
  have declared : (Registry.ofGrammar { fading with nullable := ["s", "u"] }).toOption.isSome =
      true := by decide +kernel
  obtain ⟨vanishes, stays⟩ := computed
  obtain ⟨-, derived, matched, undeclared⟩ := isNullable_exact accepted
  have same := undeclared ["s", "u"] _ (eq_ok_of_isSome declared)
  refine ⟨((derived _).mp vanishes).2, (matched "s" (by decide)).mp vanishes, fun mem => ?_, _,
    eq_ok_of_isSome declared, (same _).trans vanishes, (same _).trans stays⟩
  rw [(matched "v" (by decide)).mpr mem] at stays
  cases stays

end ShiftReduce.Registry
