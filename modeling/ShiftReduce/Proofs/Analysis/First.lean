import ShiftReduce.Analysis.First
import ShiftReduce.Proofs.Analysis.Saturation
import ShiftReduce.Proofs.Analysis.SymbolSets

/-!
FIRST sets are closed under the productions: what begins a right-hand side begins its left-hand side.
-/
namespace ShiftReduce

structure Production.Covered (terminals nonterminals : List Symbol) (productions : List Production) :
    Prop where
  lhs : ∀ production ∈ productions, production.lhs ∈ nonterminals
  rhs : ∀ production ∈ productions, ∀ symbol ∈ production.rhs,
    symbol ∈ terminals ∨ symbol ∈ nonterminals

theorem Production.mem_grouped {nonterminals : List Symbol} {productions : List Production}
    {rule : Symbol × List (List Symbol)} :
    rule ∈ grouped nonterminals productions ↔ rule.1 ∈ nonterminals ∧
      rule.2 = (productions.filter (·.lhs = rule.1)).map (·.rhs) := by
  rw [grouped, List.mem_map]
  constructor
  · rintro ⟨nonterminal, mem, rfl⟩
    exact ⟨mem, rfl⟩
  · rintro ⟨mem, bodies⟩
    exact ⟨rule.1, mem, Prod.ext rfl bodies.symm⟩

theorem Production.mem_body {nonterminals : List Symbol} {productions : List Production}
    {rule : Symbol × List (List Symbol)} (mem : rule ∈ grouped nonterminals productions)
    {body : List Symbol} : body ∈ rule.2 ↔ ⟨rule.1, body⟩ ∈ productions := by
  simp only [(mem_grouped.mp mem).2, List.mem_map, List.mem_filter, decide_eq_true_eq]
  constructor
  · rintro ⟨production, ⟨known, lhs⟩, rfl⟩
    exact lhs ▸ known
  · exact fun known => ⟨_, ⟨known, rfl⟩, rfl⟩

namespace First

open TerminalSet

variable {terminals nonterminals nullable : List Symbol} {productions : List Production}
  {production : Production} {rule : Symbol × List (List Symbol)} {sets : SymbolSets} {count t : Nat}

/-- A string of symbols can begin with the terminal `t`: one of them can, and those before it vanish. -/
def Begins (nullable : List Symbol) (sets : SymbolSets) (t : Nat) : List Symbol → Prop
  | [] => False
  | symbol :: rest =>
    (sets.get symbol).contains t = true ∨ symbol ∈ nullable ∧ Begins nullable sets t rest

theorem Begins.lt {string : List Symbol} (fits : ∀ symbol ∈ string, Fits count (sets.get symbol))
    (begins : Begins nullable sets t string) : t < count := by
  induction string with
  | nil => cases begins
  | cons symbol rest ih =>
    rw [List.forall_mem_cons] at fits
    obtain mem | ⟨-, later⟩ := begins
    · exact fits.1.lt mem
    · exact ih fits.2 later

def Entered (count : Nat) (sets : SymbolSets) (string : List Symbol) : Prop :=
  ∀ symbol ∈ string, ∃ set, sets.get? symbol = some set ∧ Fits count set

theorem gather_spec {string : List Symbol} {buffer : TerminalSet} (fits : Fits count buffer)
    (entered : Entered count sets string) :
    Fits count (gather nullable sets buffer string) ∧ ∀ t,
      (gather nullable sets buffer string).contains t = true ↔
        buffer.contains t = true ∨ Begins nullable sets t string := by
  induction string generalizing buffer with
  | nil => simpa [gather, Begins] using fits
  | cons symbol rest ih =>
    obtain ⟨⟨set, entry, own⟩, others⟩ := List.forall_mem_cons.mp entered
    have bounded : ∀ t, set.contains t = true → t < count := fun _ => own.lt
    have same : sets.get symbol = set := by simp [SymbolSets.get, entry]
    simp only [gather, entry, Begins, same, List.contains_iff_mem]
    by_cases vanishes : symbol ∈ nullable
    · obtain ⟨kept, members⟩ := ih (fits.union bounded) others
      rw [if_pos vanishes]
      refine ⟨kept, fun t => ?_⟩
      rw [members, fits.mem_union bounded, or_assoc]
      simp [vanishes]
    · rw [if_neg vanishes]
      refine ⟨fits.union bounded, fun t => ?_⟩
      rw [fits.mem_union bounded]
      simp [vanishes]

theorem foldl_gather_spec {bodies : List (List Symbol)} {buffer : TerminalSet}
    (fits : Fits count buffer) (entered : ∀ body ∈ bodies, Entered count sets body) :
    Fits count (bodies.foldl (gather nullable sets) buffer) ∧ ∀ t,
      (bodies.foldl (gather nullable sets) buffer).contains t = true ↔
        buffer.contains t = true ∨ ∃ body ∈ bodies, Begins nullable sets t body := by
  induction bodies generalizing buffer with
  | nil => simpa using fits
  | cons body rest ih =>
    obtain ⟨first, others⟩ := List.forall_mem_cons.mp entered
    obtain ⟨kept, members⟩ := gather_spec fits first
    obtain ⟨whole, all⟩ := ih kept others
    refine ⟨whole, fun t => ?_⟩
    rw [List.foldl_cons, all, members, or_assoc]
    simp

theorem gatherAll_spec {bodies : List (List Symbol)}
    (entered : ∀ body ∈ bodies, Entered count sets body) :
    Fits count (gatherAll count nullable sets bodies) ∧ ∀ t,
      (gatherAll count nullable sets bodies).contains t = true ↔
        ∃ body ∈ bodies, Begins nullable sets t body := by
  obtain ⟨fits, members⟩ := foldl_gather_spec (Fits.empty count) entered
  refine ⟨fits, fun t => (members t).trans (or_iff_right ?_)⟩
  simp [contains_empty]

theorem begins_append {before after : List Symbol} :
    Begins nullable sets t (before ++ after) ↔ Begins nullable sets t before ∨
      (∀ symbol ∈ before, symbol ∈ nullable) ∧ Begins nullable sets t after := by
  induction before with
  | nil => simp [Begins]
  | cons symbol rest ih =>
    rw [List.cons_append, Begins, ih, Begins, List.forall_mem_cons]
    tauto

theorem keys_initial : SymbolSets.keys (initial terminals nonterminals) = terminals ++ nonterminals := by
  simp [SymbolSets.keys, initial, List.map_map, Function.comp_def]

theorem mem_initial {symbol : Symbol} {set : TerminalSet} :
    (symbol, set) ∈ initial terminals nonterminals ↔
      (∃ i, terminals[i]? = some symbol ∧ .singleton terminals.length i = set) ∨
        symbol ∈ nonterminals ∧ .empty terminals.length = set := by
  simp only [initial, List.mem_append, List.mem_map, Prod.exists, Prod.mk.injEq,
    List.mem_zipIdx_iff_getElem?]
  constructor
  · rintro (⟨_, i, at_i, rfl, rfl⟩ | ⟨_, mem, rfl, rfl⟩)
    · exact .inl ⟨i, at_i, rfl⟩
    · exact .inr ⟨mem, rfl⟩
  · rintro (⟨i, at_i, rfl⟩ | ⟨mem, rfl⟩)
    · exact .inl ⟨symbol, i, at_i, rfl, rfl⟩
    · exact .inr ⟨symbol, mem, rfl, rfl⟩

theorem fits_initial (symbol : Symbol) (set : TerminalSet)
    (mem : (symbol, set) ∈ initial terminals nonterminals) : Fits terminals.length set := by
  obtain ⟨i, at_i, rfl⟩ | ⟨-, rfl⟩ := mem_initial.mp mem
  · exact .singleton (List.getElem?_eq_some_iff.mp at_i).1
  · exact .empty _

section

variable (nullable) (covered : Production.Covered terminals nonterminals productions)

include covered

theorem entered_of_grown (grown : SymbolSets.Grown terminals.length (initial terminals nonterminals) sets)
    (mem : rule ∈ Production.grouped nonterminals productions) :
    ∀ body ∈ rule.2, Entered terminals.length sets body := by
  intro body listed symbol inside
  have known : symbol ∈ SymbolSets.keys sets := by
    rw [grown.keys_eq, keys_initial, List.mem_append]
    exact covered.rhs _ ((Production.mem_body mem).mp listed) symbol inside
  exact ⟨_, SymbolSets.get?_eq known, grown.fits symbol known⟩

theorem climbs : Analysis.Climbs (step terminals.length nullable)
    (Production.grouped nonterminals productions)
    (SymbolSets.Grown terminals.length (initial terminals nonterminals))
    (SymbolSets.weight terminals.length nonterminals) (nonterminals.length * terminals.length) := by
  have bounded : ∀ sets, SymbolSets.Grown terminals.length (initial terminals nonterminals) sets →
      ∀ rule ∈ Production.grouped nonterminals productions, ∀ t,
        (gatherAll terminals.length nullable sets rule.2).contains t = true → t < terminals.length :=
    fun sets grown rule mem _ => (gatherAll_spec (entered_of_grown covered grown mem)).1.lt
  constructor
  · exact fun sets grown rule mem => grown.grow (bounded sets grown rule mem)
  · exact fun sets _ rule _ still => SymbolSets.grow_idle still
  · exact fun sets grown rule mem grew =>
      grown.weight_lt (bounded sets grown rule mem) (Production.mem_grouped.mp mem).1 grew
  · exact fun sets _ => SymbolSets.weight_le nonterminals

theorem grown_solve :
    SymbolSets.Grown terminals.length (initial terminals nonterminals)
        (solve terminals nonterminals nullable productions) ∧
      ∀ rule ∈ Production.grouped nonterminals productions, (step terminals.length nullable
        (solve terminals nonterminals nullable productions) rule).2 = false :=
  (climbs nullable covered).saturate (.refl fits_initial) (by omega)

theorem fits_solve {symbol : Symbol} (mem : symbol ∈ terminals ∨ symbol ∈ nonterminals) :
    Fits terminals.length ((solve terminals nonterminals nullable productions).get symbol) := by
  have grown := (grown_solve nullable covered).1
  refine grown.fits symbol ?_
  rwa [grown.keys_eq, keys_initial, List.mem_append]

theorem mem_solve_lhs (mem : production ∈ productions)
    (begins : Begins nullable (solve terminals nonterminals nullable productions) t production.rhs) :
    ((solve terminals nonterminals nullable productions).get production.lhs).contains t = true := by
  obtain ⟨grown, still⟩ := grown_solve nullable covered
  have listed : (production.lhs, (productions.filter (·.lhs = production.lhs)).map (·.rhs)) ∈
      Production.grouped nonterminals productions :=
    Production.mem_grouped.mpr ⟨covered.lhs production mem, rfl⟩
  obtain ⟨fits, members⟩ := gatherAll_spec (entered_of_grown covered grown listed)
  have known : production.lhs ∈
      SymbolSets.keys (solve terminals nonterminals nullable productions) := by
    rw [grown.keys_eq, keys_initial, List.mem_append]
    exact .inr (covered.lhs production mem)
  exact grown.mem_of_idle (fun _ => fits.lt) known (still _ listed)
    ((members t).mpr ⟨production.rhs, (Production.mem_body listed).mpr mem, begins⟩)

theorem mem_solve_terminal {terminal : Symbol} (at_t : terminals[t]? = some terminal)
    (nodup : terminals.Nodup) (apart : terminal ∉ nonterminals) :
    ((solve terminals nonterminals nullable productions).get terminal).contains t = true := by
  refine (grown_solve nullable covered).1.kept terminal t ?_
  have known : terminal ∈ SymbolSets.keys (initial terminals nonterminals) := by
    rw [keys_initial]
    exact List.mem_append_left _ (List.mem_of_getElem? at_t)
  obtain ⟨i, at_i, single⟩ | ⟨mem, -⟩ := mem_initial.mp (SymbolSets.mem_of_mem_keys known)
  · obtain ⟨left, at_left⟩ := List.getElem?_eq_some_iff.mp at_i
    obtain ⟨right, at_right⟩ := List.getElem?_eq_some_iff.mp at_t
    obtain rfl : i = t := nodup.getElem_inj_iff.mp (at_left.trans at_right.symm)
    rw [← single, Fits.contains_singleton left, decide_eq_true_eq]
  · exact absurd mem apart

end

end First

end ShiftReduce
