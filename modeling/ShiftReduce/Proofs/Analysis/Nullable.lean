import ShiftReduce.Analysis.Nullable
import ShiftReduce.Proofs.Analysis.Saturation
import ShiftReduce.Proofs.Derivation

/-!
The nonterminals found to derive the empty string are closed under the productions: one with a
right-hand side of such nonterminals only is among them. So they are those that do derive it.
-/
namespace ShiftReduce.Nullable

variable {productions : List Production} {production : Production}

structure Found (productions : List Production) (found : List Symbol) : Prop where
  nodup : found.Nodup
  subset : found ⊆ productions.map (·.lhs)

theorem step_eq (found : List Symbol) (production : Production) :
    step found production =
      if production.lhs ∉ found ∧ ∀ symbol ∈ production.rhs, symbol ∈ found then
        (found ++ [production.lhs], true)
      else (found, false) := by
  simp [step]

theorem climbs (productions : List Production) :
    Analysis.Climbs step productions (Found productions) List.length productions.length where
  keeps found known production mem := by
    rw [step_eq]
    split
    · rename_i new
      refine ⟨?_, ?_⟩
      · rw [List.nodup_append]
        refine ⟨known.nodup, List.pairwise_singleton _ _, ?_⟩
        intro symbol symbol_mem other other_mem same
        rw [List.mem_singleton] at other_mem
        rw [other_mem] at same
        exact new.1 (same ▸ symbol_mem)
      · rw [List.append_subset]
        refine ⟨known.subset, ?_⟩
        simpa using ⟨production, mem, rfl⟩
    · exact known
  idle found _ production _ still := by
    rw [step_eq] at still ⊢
    split at still
    · cases still
    · rename_i old
      rw [if_neg old]
  grows found _ production _ grew := by
    rw [step_eq] at grew ⊢
    split at grew
    · rename_i new
      rw [if_pos new]
      simp
    · cases grew
  bounded found known := by
    have fewer := known.nodup.length_le_of_subset known.subset
    rwa [List.length_map] at fewer

theorem found_solve (productions : List Production) :
    Found productions (solve productions) ∧
      ∀ production ∈ productions, (step (solve productions) production).2 = false :=
  (climbs productions).saturate ⟨List.nodup_nil, List.nil_subset _⟩ (Nat.lt_succ_self _)

theorem lhs_mem_solve (mem : production ∈ productions)
    (vanishes : ∀ symbol ∈ production.rhs, symbol ∈ solve productions) :
    production.lhs ∈ solve productions := by
  have still := (found_solve productions).2 production mem
  rw [step_eq] at still
  split at still
  · cases still
  · rename_i old
    exact Decidable.byContradiction fun missing => old ⟨missing, vanishes⟩

theorem mem_solve_of_expands {string : List Symbol} (expands : Expands productions string []) :
    ∀ symbol ∈ string, symbol ∈ solve productions := by
  generalize whole : ([] : List Symbol) = result at expands
  induction expands with
  | nil => simp
  | terminal => cases whole
  | nonterminal mem _ _ inner outer =>
    obtain ⟨nothing, rest⟩ := List.append_eq_nil_iff.mp whole.symm
    rw [List.forall_mem_cons]
    exact ⟨lhs_mem_solve mem (inner nothing.symm), outer rest.symm⟩

theorem expands_of_forall {string : List Symbol}
    (empty : ∀ symbol ∈ string, Expands productions [symbol] []) : Expands productions string [] := by
  induction string with
  | nil => exact .nil
  | cons symbol rest ih =>
    rw [List.forall_mem_cons] at empty
    exact Expands.append empty.1 (ih empty.2)

theorem climbs_expands (productions : List Production) :
    Analysis.Climbs step productions
      (fun found => Found productions found ∧ ∀ symbol ∈ found, Expands productions [symbol] [])
      List.length productions.length := by
  refine (climbs productions).and fun found _ empty production mem => ?_
  rw [step_eq]
  split
  · rename_i new
    rw [List.forall_mem_append, List.forall_mem_singleton]
    have inner := expands_of_forall fun symbol inside => empty symbol (new.2 symbol inside)
    exact ⟨empty, Expands.nonterminal mem inner .nil⟩
  · exact empty

theorem mem_solve_iff {symbol : Symbol} :
    symbol ∈ solve productions ↔ Expands productions [symbol] [] := by
  constructor
  · have initially : Found productions [] ∧ ∀ symbol ∈ [], Expands productions [symbol] [] :=
      ⟨⟨List.nodup_nil, List.nil_subset _⟩, by simp⟩
    exact ((climbs_expands productions).saturate initially (Nat.lt_succ_self _)).1.2 symbol
  · exact fun expands => mem_solve_of_expands expands symbol List.mem_cons_self

end ShiftReduce.Nullable
