import ShiftReduce.Proofs.Analysis.Follow
import ShiftReduce.Proofs.Derivation

/-!
FIRST and FOLLOW sets hold nothing but what derivations show. A step adds to the set of a symbol only
terminals for which a derivation can be put together from those behind the sets it reads. So all members
have one at every moment of the passes, and it does not matter that a step may read a set that it has
changed already, or the copy of one that it goes on to change.
-/
namespace ShiftReduce

open TerminalSet SymbolSets

variable {terminals nonterminals nullable augmented string before after : List Symbol}
  {productions : List Production} {production : Production} {sets first : SymbolSets}
  {symbol : Symbol} {t : Nat}

namespace First

/-- Some string derived from this one begins with the terminal of index `t`. -/
def Opens (terminals : List Symbol) (productions : List Production) (t : Nat) (string : List Symbol) :
    Prop :=
  ∃ terminal rest, terminals[t]? = some terminal ∧ Derives productions string (terminal :: rest)

/-- Every member of a set begins a string derived from the symbol of that set. -/
def Justified (terminals : List Symbol) (productions : List Production) (sets : SymbolSets) : Prop :=
  ∀ symbol t, (sets.get symbol).contains t = true → Opens terminals productions t [symbol]

section

variable (empty : ∀ symbol ∈ nullable, Derives productions [symbol] [])

include empty

theorem derives_nil (vanishes : ∀ symbol ∈ string, symbol ∈ nullable) :
    Derives productions string [] := by
  induction string with
  | nil => exact .refl []
  | cons symbol rest ih =>
    rw [List.forall_mem_cons] at vanishes
    have head : Derives productions (symbol :: rest) rest := by
      simpa using (empty symbol vanishes.1).context [] rest
    exact head.trans (ih vanishes.2)

theorem opens_of_begins (justified : Justified terminals productions sets)
    (begins : Begins nullable sets t string) : Opens terminals productions t string := by
  induction string with
  | nil => cases begins
  | cons symbol rest ih =>
    obtain mem | ⟨vanishes, later⟩ := begins
    · obtain ⟨terminal, more, at_t, derivation⟩ := justified symbol t mem
      exact ⟨terminal, more ++ rest, at_t, by simpa using derivation.context [] rest⟩
    · obtain ⟨terminal, more, at_t, derivation⟩ := ih later
      have head : Derives productions (symbol :: rest) rest := by
        simpa using (empty symbol vanishes).context [] rest
      exact ⟨terminal, more, at_t, head.trans derivation⟩

theorem justified_step {rule : Symbol × List (List Symbol)}
    (grown : Grown terminals.length (initial terminals nonterminals) sets)
    (covered : Production.Covered terminals nonterminals productions)
    (justified : Justified terminals productions sets)
    (mem : rule ∈ Production.grouped nonterminals productions) :
    Justified terminals productions (step terminals.length nullable sets rule).1 := by
  obtain ⟨fits, members⟩ := gatherAll_spec (entered_of_grown covered grown mem)
  intro symbol t added
  obtain old | ⟨rfl, new⟩ := contains_get_grow grown.fits (fun _ => fits.lt) added
  · exact justified symbol t old
  · obtain ⟨body, listed, begins⟩ := (members t).mp new
    obtain ⟨terminal, rest, at_t, derivation⟩ := opens_of_begins empty justified begins
    have head : DerivesStep productions [rule.1] body := by
      simpa using DerivesStep.replace [] [] ((Production.mem_body mem).mp listed)
    exact ⟨terminal, rest, at_t, .step head derivation⟩

end

theorem justified_initial : Justified terminals productions (initial terminals nonterminals) := by
  intro symbol t mem
  obtain ⟨i, at_i, single⟩ | ⟨-, none⟩ := mem_initial.mp (mem_of_mem_keys (mem_keys_of_contains mem))
  · have inside := (List.getElem?_eq_some_iff.mp at_i).1
    rw [← single, Fits.contains_singleton inside, decide_eq_true_eq] at mem
    exact ⟨symbol, [], mem ▸ at_i, .refl _⟩
  · rw [← none, contains_empty] at mem
    cases mem

theorem justified_solve (empty : ∀ symbol ∈ nullable, Derives productions [symbol] [])
    (covered : Production.Covered terminals nonterminals productions) :
    Justified terminals productions (solve terminals nonterminals nullable productions) := by
  have climbs := (climbs nullable covered).and fun sets grown justified rule mem =>
    justified_step empty grown covered justified mem
  exact (climbs.saturate ⟨.refl fits_initial, justified_initial⟩ (by omega)).1.2

end First

namespace Follow

/-- A nonterminal derives a string in which the terminal of index `t` comes right after `symbol`, or the
string ends there, an augmented start symbol derives it and `t` is the index of the end marker. -/
def Adjoins (terminals nonterminals augmented : List Symbol) (productions : List Production)
    (symbol : Symbol) (t : Nat) : Prop :=
  (∃ owner ∈ nonterminals, ∃ before after terminal, terminals[t]? = some terminal ∧
    Derives productions [owner] (before ++ symbol :: terminal :: after)) ∨
  t = 0 ∧ ∃ start ∈ augmented, ∃ before, Derives productions [start] (before ++ [symbol])

section

variable (mem : production ∈ productions) (whole : production.rhs = before ++ symbol :: after)

include mem whole

theorem adjoins_of_opens (known : production.lhs ∈ nonterminals)
    (opens : First.Opens terminals productions t after) :
    Adjoins terminals nonterminals augmented productions symbol t := by
  obtain ⟨terminal, rest, at_t, derivation⟩ := opens
  have head : DerivesStep productions [production.lhs] (before ++ [symbol] ++ after) := by
    simpa [whole] using DerivesStep.replace [] [] mem
  have tail := derivation.context (before ++ [symbol]) []
  rw [List.append_nil, List.append_nil] at tail
  exact .inl ⟨production.lhs, known, before, rest, terminal, at_t,
    by simpa using Derives.step head tail⟩

theorem adjoins_of_vanishes (vanishes : Derives productions after [])
    (adjoins : Adjoins terminals nonterminals augmented productions production.lhs t) :
    Adjoins terminals nonterminals augmented productions symbol t := by
  have inner : ∀ left right, Derives productions (left ++ production.lhs :: right)
      (left ++ before ++ symbol :: right) := by
    intro left right
    have head := DerivesStep.replace left right mem
    have tail := vanishes.context (left ++ before ++ [symbol]) right
    rw [whole] at head
    exact .step head (by simpa using tail)
  obtain ⟨owner, known, left, right, terminal, at_t, derivation⟩ | ⟨rfl, start, known, left, derivation⟩ :=
    adjoins
  · exact .inl ⟨owner, known, left ++ before, right, terminal, at_t, derivation.trans (inner _ _)⟩
  · exact .inr ⟨rfl, start, known, left ++ before, derivation.trans (inner _ _)⟩

end

theorem contains_get_scan {count : Nat} {start : SymbolSets} {trailer : TerminalSet}
    {property : Symbol → Nat → Prop} (firsts : ∀ symbol ∈ string, Fits count (first.get symbol))
    (bounded : ∀ t, trailer.contains t = true → t < count) (grown : Grown count start sets)
    (old : ∀ symbol t, (sets.get symbol).contains t = true → property symbol t)
    (placed : ∀ before symbol after t, string = before ++ symbol :: after →
      (First.Begins nullable first t after ∨
        (∀ symbol ∈ after, symbol ∈ nullable) ∧ trailer.contains t = true) → property symbol t) :
    ∀ symbol t, ((scan nullable first trailer sets string).2.1.get symbol).contains t = true →
      property symbol t := by
  induction string with
  | nil => exact old
  | cons head rest ih =>
    rw [List.forall_mem_cons] at firsts
    have kept := (scan_climbs nullable firsts.2 bounded grown).1
    intro symbol t mem
    rw [scan_cons] at mem
    obtain mem | ⟨rfl, new⟩ :=
      contains_get_grow kept.fits (bounded_front firsts.2 bounded sets) mem
    · refine ih firsts.2 (fun before symbol after t whole => ?_) symbol t mem
      exact placed (head :: before) symbol after t (congrArg (head :: ·) whole)
    · exact placed [] symbol rest t rfl ((mem_front firsts.2 bounded sets t).mp new)

section

variable (empty : ∀ symbol ∈ nullable, Derives productions [symbol] [])
  (justified : First.Justified terminals productions first)
  (firsts : ∀ production ∈ productions, ∀ symbol ∈ production.rhs,
    Fits terminals.length (first.get symbol))
  (defined : ∀ production ∈ productions, production.lhs ∈ nonterminals)

include empty justified firsts defined

theorem adjoins_step
    (grown : Grown terminals.length (initial terminals.length augmented nonterminals) sets)
    (adjoins : ∀ symbol t, (sets.get symbol).contains t = true →
      Adjoins terminals nonterminals augmented productions symbol t)
    (mem : production ∈ productions) :
    ∀ symbol t, ((step nullable first sets production).1.get symbol).contains t = true →
      Adjoins terminals nonterminals augmented productions symbol t := by
  refine contains_get_scan (firsts production mem) (bounded_trailer defined grown mem) grown adjoins ?_
  intro before symbol after t whole front
  obtain begins | ⟨vanishes, trails⟩ := front
  · exact adjoins_of_opens mem whole (defined production mem)
      (First.opens_of_begins empty justified begins)
  · exact adjoins_of_vanishes mem whole (First.derives_nil empty vanishes)
      (adjoins production.lhs t trails)

theorem adjoins_solve (positive : 0 < terminals.length) :
    ∀ symbol t, ((solve terminals.length augmented nonterminals nullable first productions).get
        symbol).contains t = true → Adjoins terminals nonterminals augmented productions symbol t := by
  have climbs := (climbs nullable augmented defined firsts).and fun sets grown adjoins production mem =>
    adjoins_step empty justified firsts defined grown adjoins mem
  refine (climbs.saturate ⟨.refl (fits_initial positive), fun symbol t mem => ?_⟩ (by omega)).1.2
  obtain ⟨-, single⟩ := mem_initial.mp (mem_of_mem_keys (mem_keys_of_contains mem))
  rw [← single] at mem
  split at mem
  · rename_i start
    rw [Fits.contains_singleton positive, decide_eq_true_eq] at mem
    exact .inr ⟨mem, symbol, start, [], .refl _⟩
  · rw [contains_empty] at mem
    cases mem

end

end Follow

end ShiftReduce
