import ShiftReduce.Proofs.Analysis.Soundness
import ShiftReduce.Proofs.Registry.Analysed

/-!
FIRST sets are exact. A terminal is in FIRST of a symbol if and only if the symbol derives, in zero or
more steps, a string that begins with the terminal. The sets are where passes over the productions come
to rest.
-/
namespace ShiftReduce.Registry

variable {registry : Registry} {grammar : Grammar} {symbol terminal : Symbol}

def firstPass (registry : Registry) : SymbolSets → SymbolSets × Bool :=
  First.pass registry.terminals.length registry.nullable
    (Production.grouped registry.nonterminals registry.productions)

/-- Passes that start from each terminal's own set come to rest at the FIRST sets, and one more pass
reports no growth and changes nothing. -/
def FirstSettled (registry : Registry) : Prop :=
  Analysis.Settles registry.firstPass (First.initial registry.terminals registry.nonterminals)
      registry.first ∧
    registry.firstPass registry.first = (registry.first, false)

theorem mem_symbolsOf {set : TerminalSet} :
    terminal ∈ registry.symbolsOf set ↔
      ∃ t, set.contains t = true ∧ registry.terminals[t]? = some terminal := by
  rw [symbolsOf, (Ranking.sort_perm _ _).mem_iff, List.mem_filterMap]
  simp only [TerminalSet.mem_toList]

theorem mem_symbolsOf_iff (wellformed : registry.Wellformed) {set : TerminalSet} {t : Nat}
    (at_t : registry.terminals[t]? = some terminal) :
    terminal ∈ registry.symbolsOf set ↔ set.contains t = true := by
  rw [mem_symbolsOf]
  constructor
  · rintro ⟨u, mem, at_u⟩
    rwa [wellformed.index_unique at_t at_u]
  · exact fun mem => ⟨t, mem, at_t⟩

namespace Wellformed

variable (wellformed : registry.Wellformed)

include wellformed

theorem first_justified :
    First.Justified registry.terminals registry.productions registry.first := by
  rw [wellformed.first_eq]
  exact First.justified_solve (fun _ => wellformed.mem_nullable_iff.mp) wellformed.covered

theorem firstSettled : registry.FirstSettled := by
  have climbs := First.climbs registry.nullable wellformed.covered
  have settles := climbs.settles (.refl First.fits_initial) (Nat.lt_of_lt_of_le
    (Nat.lt_succ_self _) (Nat.le_add_right _ _))
  obtain ⟨grown, still⟩ := climbs.still settles (.refl First.fits_initial)
  rw [FirstSettled, wellformed.first_eq]
  exact ⟨settles, climbs.sweep_eq grown still⟩

theorem contains_first_iff {t : Nat} (at_t : registry.terminals[t]? = some terminal) :
    (registry.first.get symbol).contains t = true ↔
      ∃ rest, Derives registry.productions [symbol] (terminal :: rest) := by
  constructor
  · intro mem
    obtain ⟨opening, rest, at_opening, derivation⟩ := wellformed.first_justified symbol t mem
    cases at_t.symm.trans at_opening
    exact ⟨rest, derivation⟩
  · rintro ⟨rest, derivation⟩
    have begins : registry.Begins t (terminal :: rest) := .inl (wellformed.terminal_begins at_t)
    obtain mem | ⟨-, nothing⟩ := wellformed.begins_of_derives derivation begins
    · exact mem
    · cases nothing

theorem firstOf_eq (known : symbol ∈ registry.terminals ∨ symbol ∈ registry.nonterminals) :
    registry.firstOf symbol = registry.symbolsOf (registry.first.get symbol) := by
  have entry : symbol ∈ SymbolSets.keys registry.first := by
    have grown := (First.grown_solve registry.nullable wellformed.covered).1
    rw [wellformed.first_eq, grown.keys_eq, First.keys_initial, List.mem_append]
    exact known
  rw [firstOf, SymbolSets.get?_eq entry]

end Wellformed

/-- The FIRST sets of an accepted grammar are found, and they are what derivations show. -/
theorem firstOf_exact (accepted : Registry.ofGrammar grammar = .ok registry) :
    registry.FirstSettled ∧
    ∀ symbol, symbol ∈ registry.terminals ∨ symbol ∈ registry.nonterminals →
      ∀ terminal ∈ registry.terminals, terminal ∈ registry.firstOf symbol ↔
        ∃ rest, Derives registry.productions [symbol] (terminal :: rest) := by
  have wellformed := (acceptedFrom accepted).wellformed
  refine ⟨wellformed.firstSettled, fun symbol known terminal registered => ?_⟩
  obtain ⟨t, at_t⟩ := List.getElem?_of_mem registered
  rw [wellformed.firstOf_eq known, mem_symbolsOf_iff wellformed at_t,
    wellformed.contains_first_iff at_t]

/-- The rule of `a` calls itself first, and what comes before `X` can all vanish. -/
def fronts : Grammar where
  start := ["s"]
  rules := [
    ("s", .seq [.symbol "a", .symbol "b", .symbol "X"]),
    ("a", .seq [.symbol "a", .symbol "Y"] ||| .empty),
    ("b", .optional (.seq [.symbol "Z", .symbol "s"]))]
  nullable := ["a", "b"]

def frontsRegistry : Registry := (Registry.ofGrammar fronts).toOption.get (by decide +kernel)

theorem firstOf_fronts :
    frontsRegistry.firstOf ⟨"s"⟩ = [⟨"X"⟩, ⟨"Y"⟩, ⟨"Z"⟩] ∧
      (∃ rest, Derives frontsRegistry.productions [⟨"s"⟩] (⟨"Z"⟩ :: rest)) ∧
      (∃ rest, Derives frontsRegistry.productions [⟨"a"⟩] (⟨"Y"⟩ :: rest)) ∧
      ¬∃ rest, Derives frontsRegistry.productions [⟨"b"⟩] (⟨"X"⟩ :: rest) := by
  have accepted : Registry.ofGrammar fronts = .ok frontsRegistry := eq_ok_of_isSome _
  have computed : frontsRegistry.firstOf ⟨"s"⟩ = [⟨"X"⟩, ⟨"Y"⟩, ⟨"Z"⟩] ∧
      frontsRegistry.firstOf ⟨"a"⟩ = [⟨"Y"⟩] ∧ frontsRegistry.firstOf ⟨"b"⟩ = [⟨"Z"⟩] ∧
      [⟨"s"⟩, ⟨"a"⟩, ⟨"b"⟩] ⊆ frontsRegistry.nonterminals ∧
      [⟨"X"⟩, ⟨"Y"⟩, ⟨"Z"⟩] ⊆ frontsRegistry.terminals := by decide +kernel
  obtain ⟨first_s, first_a, first_b, nonterminals, terminals⟩ := computed
  have shown := (firstOf_exact accepted).2
  have of_s := shown ⟨"s"⟩ (.inr (nonterminals (by decide))) ⟨"Z"⟩ (terminals (by decide))
  have of_a := shown ⟨"a"⟩ (.inr (nonterminals (by decide))) ⟨"Y"⟩ (terminals (by decide))
  have of_b := shown ⟨"b"⟩ (.inr (nonterminals (by decide))) ⟨"X"⟩ (terminals (by decide))
  rw [first_s] at of_s
  rw [first_a] at of_a
  rw [first_b] at of_b
  exact ⟨first_s, of_s.mp (by decide), of_a.mp (by decide), fun begins => by
    simpa using of_b.mpr begins⟩

end ShiftReduce.Registry
