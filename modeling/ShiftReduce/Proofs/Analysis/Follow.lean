import ShiftReduce.Analysis.Follow
import ShiftReduce.Proofs.Analysis.First

/-!
FOLLOW sets are closed under the productions: inside a right-hand side a symbol is followed by what
can begin the rest of it, and where the rest can vanish, by what follows the left-hand side.
-/
namespace ShiftReduce.Follow

open TerminalSet SymbolSets

variable {nullable nonterminals augmented string : List Symbol} {first start sets : SymbolSets}
  {trailer : TerminalSet} {productions : List Production} {production : Production} {count t : Nat}

theorem scan_cons (nullable : List Symbol) (first : SymbolSets) (trailer : TerminalSet)
    (sets : SymbolSets) (symbol : Symbol) (rest : List Symbol) :
    scan nullable first trailer sets (symbol :: rest) =
      let after := scan nullable first trailer sets rest
      let grown := after.2.1.grow symbol after.1
      (if nullable.contains symbol then (first.get symbol).union after.1 else first.get symbol,
        grown.1, after.2.2 || grown.2) := rfl

section

variable (firsts : ∀ symbol ∈ string, Fits count (first.get symbol))
  (bounded : ∀ t, trailer.contains t = true → t < count)

include firsts bounded

theorem mem_front (sets : SymbolSets) (t : Nat) :
    (scan nullable first trailer sets string).1.contains t = true ↔
      First.Begins nullable first t string ∨
        (∀ symbol ∈ string, symbol ∈ nullable) ∧ trailer.contains t = true := by
  induction string generalizing t with
  | nil => simp [scan, First.Begins]
  | cons symbol rest ih =>
    rw [List.forall_mem_cons] at firsts
    have after : ∀ u, (scan nullable first trailer sets rest).1.contains u = true → u < count := by
      intro u mem
      obtain begins | ⟨-, trails⟩ := (ih firsts.2 u).mp mem
      · exact begins.lt firsts.2
      · exact bounded u trails
    simp only [scan_cons, First.Begins, List.contains_iff_mem, List.forall_mem_cons]
    by_cases vanishes : symbol ∈ nullable
    · rw [if_pos vanishes, firsts.1.mem_union after, ih firsts.2]
      tauto
    · rw [if_neg vanishes]
      tauto

theorem bounded_front (sets : SymbolSets) (t : Nat)
    (mem : (scan nullable first trailer sets string).1.contains t = true) : t < count := by
  obtain begins | ⟨-, trails⟩ := (mem_front firsts bounded sets t).mp mem
  · exact begins.lt firsts
  · exact bounded t trails

variable (nullable) in
theorem scan_climbs (grown : Grown count start sets) :
    Grown count start (scan nullable first trailer sets string).2.1 ∧
      ((scan nullable first trailer sets string).2.2 = false →
        (scan nullable first trailer sets string).2.1 = sets) ∧
      ((scan nullable first trailer sets string).2.2 = true →
        weight count (keys start) sets
          < weight count (keys start) (scan nullable first trailer sets string).2.1) := by
  induction string with
  | nil => simpa [scan] using grown
  | cons symbol rest ih =>
    rw [List.forall_mem_cons] at firsts
    obtain ⟨kept, idle, raised⟩ := ih firsts.2
    have after : ∀ t, (scan nullable first trailer sets rest).1.contains t = true → t < count :=
      bounded_front firsts.2 bounded sets
    simp only [scan_cons]
    refine ⟨kept.grow after, fun still => ?_, fun grew => ?_⟩
    · rw [Bool.or_eq_false_iff] at still
      rw [grow_idle still.2, idle still.1]
    · cases more : (SymbolSets.grow symbol (scan nullable first trailer sets rest).1
          (scan nullable first trailer sets rest).2.1).2 with
      | false =>
        rw [more, Bool.or_false] at grew
        rw [grow_idle more]
        exact raised grew
      | true =>
        have listed := mem_keys_of_grow more
        rw [kept.keys_eq] at listed
        have step_up := kept.weight_lt after listed more
        cases before : (scan nullable first trailer sets rest).2.2 with
        | false => rwa [idle before] at step_up ⊢
        | true => exact Nat.lt_trans (raised before) step_up

theorem mem_of_idle {before after : List Symbol} {symbol : Symbol} (grown : Grown count start sets)
    (still : (scan nullable first trailer sets string).2.2 = false)
    (whole : string = before ++ symbol :: after) (known : symbol ∈ keys sets)
    (front : First.Begins nullable first t after ∨
      (∀ symbol ∈ after, symbol ∈ nullable) ∧ trailer.contains t = true) :
    (sets.get symbol).contains t = true := by
  induction before generalizing string with
  | nil =>
    subst whole
    rw [List.nil_append, List.forall_mem_cons] at firsts
    rw [List.nil_append, scan_cons, Bool.or_eq_false_iff] at still
    have same := (scan_climbs nullable firsts.2 bounded grown).2.1 still.1
    rw [same] at still
    exact grown.mem_of_idle (bounded_front firsts.2 bounded sets) known still.2
      ((mem_front firsts.2 bounded sets t).mpr front)
  | cons head before ih =>
    subst whole
    rw [List.cons_append, List.forall_mem_cons] at firsts
    rw [List.cons_append, scan_cons, Bool.or_eq_false_iff] at still
    exact ih firsts.2 still.1 rfl

end

theorem keys_initial : keys (initial count augmented nonterminals) = nonterminals := by
  simp [keys, initial, List.map_map, Function.comp_def]

theorem mem_initial {symbol : Symbol} {set : TerminalSet} :
    (symbol, set) ∈ initial count augmented nonterminals ↔ symbol ∈ nonterminals ∧
      (if symbol ∈ augmented then .singleton count 0 else .empty count) = set := by
  simp only [initial, List.mem_map, Prod.mk.injEq, List.contains_iff_mem]
  constructor
  · rintro ⟨_, mem, rfl, rfl⟩
    exact ⟨mem, rfl⟩
  · rintro ⟨mem, rfl⟩
    exact ⟨symbol, mem, rfl, rfl⟩

theorem fits_initial (positive : 0 < count) (symbol : Symbol) (set : TerminalSet)
    (mem : (symbol, set) ∈ initial count augmented nonterminals) : Fits count set := by
  obtain ⟨-, rfl⟩ := mem_initial.mp mem
  split
  · exact .singleton positive
  · exact .empty count

section

variable (defined : ∀ production ∈ productions, production.lhs ∈ nonterminals)

include defined in
theorem bounded_trailer (grown : Grown count (initial count augmented nonterminals) sets)
    (mem : production ∈ productions) (t : Nat)
    (trails : (sets.get production.lhs).contains t = true) : t < count := by
  refine (grown.fits production.lhs ?_).lt trails
  rw [grown.keys_eq, keys_initial]
  exact defined production mem

variable (firsts : ∀ production ∈ productions, ∀ symbol ∈ production.rhs,
  Fits count (first.get symbol)) (nullable augmented)

include defined firsts

theorem climbs : Analysis.Climbs (step nullable first) productions
    (Grown count (initial count augmented nonterminals))
    (weight count nonterminals) (nonterminals.length * count) := by
  constructor
  · intro sets grown production mem
    exact (scan_climbs nullable (firsts production mem) (bounded_trailer defined grown mem) grown).1
  · intro sets grown production mem
    exact (scan_climbs nullable (firsts production mem) (bounded_trailer defined grown mem) grown).2.1
  · intro sets grown production mem
    have raised :=
      (scan_climbs nullable (firsts production mem) (bounded_trailer defined grown mem) grown).2.2
    rwa [keys_initial] at raised
  · exact fun sets _ => weight_le nonterminals

variable (positive : 0 < count)

include positive

theorem grown_solve :
    Grown count (initial count augmented nonterminals)
        (solve count augmented nonterminals nullable first productions) ∧
      ∀ production ∈ productions, (step nullable first
        (solve count augmented nonterminals nullable first productions) production).2 = false :=
  (climbs nullable augmented defined firsts).saturate (.refl (fits_initial positive)) (by omega)

theorem mem_solve {before after : List Symbol} {symbol : Symbol} (mem : production ∈ productions)
    (whole : production.rhs = before ++ symbol :: after) (known : symbol ∈ nonterminals)
    (front : First.Begins nullable first t after ∨ (∀ symbol ∈ after, symbol ∈ nullable) ∧
      ((solve count augmented nonterminals nullable first productions).get
        production.lhs).contains t = true) :
    ((solve count augmented nonterminals nullable first productions).get symbol).contains t = true := by
  obtain ⟨grown, still⟩ := grown_solve nullable augmented defined firsts positive
  have entry : symbol ∈ keys (solve count augmented nonterminals nullable first productions) := by
    rwa [grown.keys_eq, keys_initial]
  exact mem_of_idle (firsts production mem) (bounded_trailer defined grown mem) grown
    (still production mem) whole entry front

theorem zero_mem_solve {symbol : Symbol} (known : symbol ∈ nonterminals)
    (start : symbol ∈ augmented) :
    ((solve count augmented nonterminals nullable first productions).get symbol).contains 0 = true := by
  refine (grown_solve nullable augmented defined firsts positive).1.kept symbol 0 ?_
  have entry : symbol ∈ keys (initial count augmented nonterminals) := by rwa [keys_initial]
  obtain ⟨-, single⟩ := mem_initial.mp (mem_of_mem_keys entry)
  rw [← single, if_pos start, Fits.contains_singleton positive, decide_eq_true_eq]

end

end ShiftReduce.Follow
