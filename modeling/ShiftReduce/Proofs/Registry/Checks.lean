import Mathlib.Data.List.Basic
import ShiftReduce.Proofs.Registry.Accepted

/-!
What the single checks of registration say, when they pass and when they report a defect.
-/
namespace ShiftReduce.Registration

open ShiftReduce.Symbol

variable {error : GrammarError} {names seen defined : List String} {symbols declared : List Symbol}
  {productions : List Production}

theorem checkRuleNames_error (checked : checkRuleNames seen names = .error error) :
    (∃ name ∈ names, NameDefect name error) ∨
      (∃ name ∈ names, (⟨name⟩ : Symbol).isTerminal = true ∧ error = .terminalRule name) ∨
      ∃ name, 1 < (seen ++ names).count name ∧ error = .duplicateRule name := by
  induction names generalizing seen with
  | nil => cases checked
  | cons name rest ih =>
    obtain refused | ⟨_, -, checked⟩ := bind_eq_error.mp checked
    · exact .inl ⟨name, List.mem_cons_self, nameDefect_of_checkName refused⟩
    · split at checked
      · rename_i terminal
        cases checked
        exact .inr (.inl ⟨name, List.mem_cons_self, terminal, rfl⟩)
      · split at checked
        · rename_i known
          cases checked
          rw [List.contains_iff_mem] at known
          have counted := List.count_pos_iff.mpr known
          refine .inr (.inr ⟨name, ?_, rfl⟩)
          rw [List.count_append, List.count_cons_self]
          omega
        · obtain ⟨other, mem, defect⟩ | ⟨other, mem, terminal⟩ | ⟨other, counted, same⟩ := ih checked
          · exact .inl ⟨other, List.mem_cons_of_mem _ mem, defect⟩
          · exact .inr (.inl ⟨other, List.mem_cons_of_mem _ mem, terminal⟩)
          · refine .inr (.inr ⟨other, ?_, same⟩)
            rwa [List.perm_middle.count_eq]

theorem checkStarts_error (checked : checkStarts defined names = .error error) :
    (∃ name ∈ names, NameDefect name error) ∨
      ∃ name ∈ names, name ∉ defined ∧ error = .undefinedStart name := by
  induction names with
  | nil => cases checked
  | cons name rest ih =>
    simp only [List.exists_mem_cons_iff]
    obtain refused | ⟨_, -, checked⟩ := bind_eq_error.mp checked
    · exact .inl (.inl (nameDefect_of_checkName refused))
    · split at checked
      · exact (ih checked).imp .inr .inr
      · rename_i unknown
        cases checked
        exact .inr (.inl ⟨by simpa using unknown, rfl⟩)

theorem checkNames_error (checked : checkNames names = .error error) :
    ∃ name ∈ names, NameDefect name error := by
  induction names with
  | nil => cases checked
  | cons name rest ih =>
    rw [List.exists_mem_cons_iff]
    obtain refused | ⟨_, -, checked⟩ := bind_eq_error.mp checked
    · exact .inl (nameDefect_of_checkName refused)
    · exact .inr (ih checked)

theorem checkReferences_error (checked : checkReferences symbols productions = .error error) :
    ∃ production ∈ productions, ∃ symbol ∈ production.rhs, symbol.isTerminal = false ∧
      symbol ∉ symbols ∧ error = .undefinedNonterminal symbol.name production.lhs.name := by
  induction productions with
  | nil => cases checked
  | cons production rest ih =>
    rw [List.exists_mem_cons_iff]
    unfold checkReferences at checked
    split at checked
    · rename_i symbol found
      cases checked
      have unresolved := List.find?_some found
      simp only [isNonterminal, Bool.and_eq_true, Bool.not_eq_true', List.contains_eq_mem,
        decide_eq_false_iff_not] at unresolved
      exact .inl ⟨symbol, List.mem_of_find?_eq_some found, unresolved.1, unresolved.2, rfl⟩
    · exact .inr (ih checked)

theorem checkNullableNames_ok (checked : checkNullableNames defined names = .ok ()) :
    ∀ name ∈ names, name ∈ defined := by
  induction names with
  | nil => simp
  | cons name rest ih =>
    obtain ⟨_, _, checked⟩ := bind_eq_ok.mp checked
    split at checked
    · rename_i known
      rw [List.forall_mem_cons]
      exact ⟨by simpa using known, ih checked⟩
    · cases checked

theorem checkNullableNames_error (checked : checkNullableNames defined names = .error error) :
    (∃ name ∈ names, NameDefect name error) ∨
      ∃ name ∈ names, name ∉ defined ∧ error = .unknownNullable name := by
  induction names with
  | nil => cases checked
  | cons name rest ih =>
    simp only [List.exists_mem_cons_iff]
    obtain refused | ⟨_, -, checked⟩ := bind_eq_error.mp checked
    · exact .inl (.inl (nameDefect_of_checkName refused))
    · split at checked
      · exact (ih checked).imp .inr .inr
      · rename_i unknown
        cases checked
        exact .inr (.inl ⟨by simpa using unknown, rfl⟩)

theorem declareNullable_ok {more : List Symbol}
    (checked : declareNullable defined declared productions = .ok more) :
    ∀ production ∈ productions, production.rhs = [] → production.lhs.name ∈ defined →
      production.lhs ∈ declared := by
  induction productions generalizing declared with
  | nil => simp
  | cons production rest ih =>
    rw [List.forall_mem_cons]
    unfold declareNullable at checked
    split at checked
    · rename_i passed
      refine ⟨fun empty _ => ?_, ih checked⟩
      simpa [Production.isEpsilon, empty] using passed
    · split at checked
      · cases checked
      · rename_i helper
        rw [List.contains_iff_mem] at helper
        refine ⟨fun _ own => absurd own helper, fun other mem empty own => ?_⟩
        obtain declared | same := List.mem_append.mp (ih checked other mem empty own)
        · exact declared
        · rw [List.mem_singleton.mp same] at own
          exact absurd own helper

theorem mem_declareNullable {more : List Symbol} {symbol : Symbol}
    (checked : declareNullable defined declared productions = .ok more) :
    symbol ∈ more ↔ symbol ∈ declared ∨
      ∃ production ∈ productions, production.lhs = symbol ∧ production.rhs = [] := by
  induction productions generalizing declared with
  | nil =>
    cases checked
    simp
  | cons production rest ih =>
    rw [List.exists_mem_cons_iff]
    unfold declareNullable at checked
    split at checked
    · rename_i passed
      rw [Bool.or_eq_true, Bool.not_eq_true', ← Bool.not_eq_true, Production.isEpsilon,
        List.isEmpty_iff, List.contains_iff_mem] at passed
      rw [ih checked]
      refine or_congr_right' fun undeclared => (or_iff_right ?_).symm
      rintro ⟨rfl, empty⟩
      exact passed.elim (absurd empty) undeclared
    · rename_i found
      rw [Bool.or_eq_true, not_or, Bool.not_eq_true', Bool.not_eq_false, Production.isEpsilon,
        List.isEmpty_iff] at found
      split at checked
      · cases checked
      · rw [ih checked, List.mem_append, List.mem_singleton, or_assoc, eq_comm (a := symbol)]
        simp only [found.1, and_true]

theorem declareNullable_error
    (checked : declareNullable defined declared productions = .error error) :
    ∃ production ∈ productions, production.rhs = [] ∧ production.lhs ∉ declared ∧
      production.lhs.name ∈ defined ∧ error = .undeclaredNullable production.lhs.name := by
  induction productions generalizing declared with
  | nil => cases checked
  | cons production rest ih =>
    rw [List.exists_mem_cons_iff]
    unfold declareNullable at checked
    split at checked
    · exact .inr (ih checked)
    · rename_i stopped
      rw [Bool.or_eq_true, not_or, Bool.not_eq_true', Bool.not_eq_false, Production.isEpsilon,
        List.isEmpty_iff, List.contains_iff_mem] at stopped
      split at checked
      · rename_i own
        cases checked
        exact .inl ⟨stopped.1, stopped.2, by simpa using own, rfl⟩
      · obtain ⟨other, mem, empty, undeclared, own⟩ := ih checked
        exact .inr ⟨other, mem, empty, fun known => undeclared (List.mem_append_left _ known), own⟩

theorem checkDeclarations_ok (checked : checkDeclarations symbols names = .ok ()) :
    ∀ name ∈ names, (⟨name⟩ : Symbol) ∈ symbols := by
  induction names with
  | nil => simp
  | cons name rest ih =>
    rw [List.forall_mem_cons]
    unfold checkDeclarations at checked
    split at checked
    · rename_i found
      exact ⟨by simpa using found, ih checked⟩
    · cases checked

theorem checkDeclarations_error (checked : checkDeclarations symbols names = .error error) :
    ∃ name ∈ names, (⟨name⟩ : Symbol) ∉ symbols ∧ error = .spuriousNullable name := by
  induction names with
  | nil => cases checked
  | cons name rest ih =>
    rw [List.exists_mem_cons_iff]
    unfold checkDeclarations at checked
    split at checked
    · exact .inr (ih checked)
    · rename_i missing
      cases checked
      exact .inl ⟨by simpa using missing, rfl⟩

end ShiftReduce.Registration
