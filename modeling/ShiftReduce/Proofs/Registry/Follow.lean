import ShiftReduce.Proofs.Registry.First

/-!
FOLLOW sets are exact. A terminal is in FOLLOW of a nonterminal if some derivation, from whatever
nonterminal, shows it right after that one, and the end marker also where a derivation from an augmented
start symbol ends with it. Nonterminals that no start symbol reaches count as well.
-/
namespace ShiftReduce

namespace Registry

variable {registry : Registry} {grammar : Grammar} {symbol terminal : Symbol}

/-- Some nonterminal derives a string with `terminal` right after `symbol`, or `terminal` is the end
marker and an augmented start symbol derives a string that ends with `symbol`. -/
def Adjoins (registry : Registry) (symbol terminal : Symbol) : Prop :=
  (∃ owner ∈ registry.nonterminals, ∃ before after,
    Derives registry.productions [owner] (before ++ symbol :: terminal :: after)) ∨
  terminal = Symbol.eof ∧ ∃ start ∈ registry.starts, ∃ before,
    Derives registry.productions [start.augmented] (before ++ [symbol])

/-- Passes from the initial sets come to rest at the FOLLOW sets, whatever fuel they are given beyond the
number of members that there can be. -/
def FollowSettled (registry : Registry) : Prop :=
  Follow.pass registry.nullable registry.first registry.productions registry.follow
      = (registry.follow, false) ∧
    ∀ fuel, registry.nonterminals.length * registry.terminals.length < fuel →
      Analysis.saturate (Follow.pass registry.nullable registry.first registry.productions) fuel
        (Follow.initial registry.terminals.length (registry.starts.map Symbol.augmented)
          registry.nonterminals) = registry.follow

theorem mem_followOf (wellformed : registry.Wellformed) {t : Nat}
    (at_t : registry.terminals[t]? = some terminal) :
    terminal ∈ registry.followOf symbol ↔ registry.follows symbol t = true :=
  mem_symbolsOf_iff wellformed at_t

namespace Wellformed

variable (wellformed : registry.Wellformed)

include wellformed

theorem adjoins_of_follows {t : Nat} (at_t : registry.terminals[t]? = some terminal)
    (follows : registry.follows symbol t = true) : registry.Adjoins symbol terminal := by
  rw [Registry.follows, wellformed.follow_eq] at follows
  obtain ⟨owner, known, before, after, next, at_next, derivation⟩ | ⟨rfl, start, mem, before, derivation⟩ :=
    Follow.adjoins_solve (fun _ => wellformed.mem_nullable_iff.mp) wellformed.first_justified
      wellformed.firsts wellformed.covered.lhs wellformed.terminals_pos symbol t follows
  · cases at_t.symm.trans at_next
    exact .inl ⟨owner, known, before, after, derivation⟩
  · cases at_t.symm.trans wellformed.eof_first
    obtain ⟨start, declared, rfl⟩ := List.mem_map.mp mem
    exact .inr ⟨rfl, start, declared, before, derivation⟩

theorem follows_of_adjoins {t : Nat} (known : symbol ∈ registry.nonterminals)
    (at_t : registry.terminals[t]? = some terminal) (adjoins : registry.Adjoins symbol terminal) :
    registry.follows symbol t = true := by
  obtain ⟨owner, -, before, after, derivation⟩ | ⟨rfl, start, declared, before, derivation⟩ := adjoins
  · have followed : registry.FollowedBy
        (fun t => (registry.follow.get owner).contains t = true) [owner] := .singleton fun _ => id
    exact (followed.derives wellformed derivation).follows_next wellformed known at_t
  · have followed : registry.Followed [start.augmented] := .singleton fun t zero => by
      rw [zero]
      exact wellformed.augmented_follow declared
    rw [wellformed.index_unique at_t wellformed.eof_first]
    exact Followed.follows_eof (followed.derives wellformed derivation) known

theorem followSettled : registry.FollowSettled := by
  have climbs := Follow.climbs registry.nullable (registry.starts.map Symbol.augmented)
    wellformed.covered.lhs wellformed.firsts
  obtain ⟨grown, still⟩ := Follow.grown_solve registry.nullable (registry.starts.map Symbol.augmented)
    wellformed.covered.lhs wellformed.firsts wellformed.terminals_pos
  rw [← wellformed.follow_eq] at grown still
  refine ⟨climbs.sweep_eq grown still, fun fuel enough => ?_⟩
  rw [wellformed.follow_eq]
  exact climbs.saturate_eq (.refl (Follow.fits_initial wellformed.terminals_pos)) (by omega) enough

end Wellformed

/-- The FOLLOW sets of an accepted grammar are found, and they are what derivations show. -/
theorem followOf_exact (accepted : Registry.ofGrammar grammar = .ok registry) :
    registry.FollowSettled ∧
    ∀ symbol ∈ registry.nonterminals, ∀ terminal ∈ registry.terminals,
      (terminal ∈ registry.followOf symbol ↔ registry.Adjoins symbol terminal) ∧
      ∀ t, registry.terminals[t]? = some terminal →
        (registry.follows symbol t = true ↔ registry.Adjoins symbol terminal) := by
  have wellformed := (acceptedFrom accepted).wellformed
  refine ⟨wellformed.followSettled, fun symbol known terminal registered => ?_⟩
  have shown : ∀ t, registry.terminals[t]? = some terminal →
      (registry.follows symbol t = true ↔ registry.Adjoins symbol terminal) := fun t at_t =>
    ⟨wellformed.adjoins_of_follows at_t, wellformed.follows_of_adjoins known at_t⟩
  obtain ⟨t, at_t⟩ := List.getElem?_of_mem registered
  exact ⟨(mem_followOf wellformed at_t).trans (shown t at_t), shown⟩

/-- Between `t` and `X` there may be a `Y`, and only `v`, which is used nowhere, has a `Z` there. -/
def gaps : Grammar where
  start := ["s"]
  rules := [
    ("s", .seq [.symbol "t", .symbol "u", .symbol "X"]),
    ("t", .symbol "Id"),
    ("u", .symbol "Y" ||| .empty),
    ("v", .seq [.symbol "t", .symbol "Z"])]
  nullable := ["u"]

def gapsRegistry : Registry := (Registry.ofGrammar gaps).toOption.get (by decide +kernel)

theorem followOf_gaps :
    gapsRegistry.followOf ⟨"t"⟩ = [⟨"X"⟩, ⟨"Y"⟩, ⟨"Z"⟩] ∧
      gapsRegistry.Adjoins ⟨"t"⟩ ⟨"X"⟩ ∧ gapsRegistry.Adjoins ⟨"t"⟩ ⟨"Z"⟩ ∧
      ¬gapsRegistry.Adjoins ⟨"t"⟩ Symbol.eof ∧ gapsRegistry.Adjoins ⟨"s"⟩ Symbol.eof := by
  have accepted : Registry.ofGrammar gaps = .ok gapsRegistry := eq_ok_of_isSome _
  have computed : gapsRegistry.followOf ⟨"t"⟩ = [⟨"X"⟩, ⟨"Y"⟩, ⟨"Z"⟩] ∧
      gapsRegistry.followOf ⟨"s"⟩ = [Symbol.eof] ∧
      gapsRegistry.nonterminals = [⟨"s'"⟩, ⟨"s"⟩, ⟨"t"⟩, ⟨"u"⟩, ⟨"v"⟩] ∧
      gapsRegistry.terminals = [Symbol.eof, ⟨"X"⟩, ⟨"Id"⟩, ⟨"Y"⟩, ⟨"Z"⟩] := by decide +kernel
  obtain ⟨follow, follow_start, nonterminals, terminals⟩ := computed
  have shown := (followOf_exact accepted).2
  simp only [nonterminals, terminals, List.forall_mem_cons] at shown
  obtain ⟨-, ⟨start_eof, -⟩, ⟨eof, x, -, -, z, -⟩, -⟩ := shown
  rw [follow] at eof x z
  rw [follow_start] at start_eof
  refine ⟨follow, x.1.mp (by decide), z.1.mp (by decide), fun ends => ?_, start_eof.1.mp (by decide)⟩
  exact absurd (eof.1.mpr ends) (by decide)

end Registry

end ShiftReduce
