import ShiftReduce.Derivation

/-!
Derivations of sentences, which have terminals only. A sentence that is derived at all is put together
from what each symbol derives by itself, and such an expansion can be followed from right to left.
-/
namespace ShiftReduce

/-- The productions `used`, in this order, are a rightmost derivation of a sentence from `start`. -/
structure RightmostDerivation (productions : List Production) (start : Symbol) (used : List Nat)
    (sentence : List Symbol) : Prop where
  terminals : sentence.all (·.isTerminal) = true
  derives : Rightmost productions used [start] sentence

theorem append_eq_append_cons {α : Type} {u v before after : List α} {x : α}
    (whole : u ++ v = before ++ x :: after) :
    (∃ rest, u = before ++ x :: rest ∧ after = rest ++ v) ∨
      ∃ front, before = u ++ front ∧ v = front ++ x :: after := by
  obtain ⟨front, rfl, right⟩ | ⟨rest, left, right⟩ := List.append_eq_append_iff.mp whole
  · exact .inr ⟨front, rfl, right⟩
  · cases rest with
    | nil =>
      rw [List.append_nil] at left
      exact .inr ⟨[], by rw [left, List.append_nil], right.symm⟩
    | cons first rest =>
      rw [List.cons_append, List.cons.injEq] at right
      obtain ⟨rfl, right⟩ := right
      exact .inl ⟨rest, left, right⟩

theorem of_singleton_eq_append_cons {α : Type} {before after : List α} {x y : α}
    (whole : [x] = before ++ y :: after) : before = [] ∧ y = x ∧ after = [] := by
  cases before with
  | nil => simpa [eq_comm] using whole
  | cons => simp at whole

variable {productions : List Production} {u v w : List Symbol}

namespace Rightmost

variable {used : List Nat}

theorem derives (derivation : Rightmost productions used u v) : Derives productions u v := by
  induction derivation with
  | refl => exact .refl _
  | step found _ _ ih => exact .step (.replace _ _ (List.mem_of_getElem? found)) ih

theorem trans {more : List Nat} (first : Rightmost productions used u v)
    (second : Rightmost productions more v w) : Rightmost productions (used ++ more) u w := by
  induction first with
  | refl => exact second
  | step found terminals _ ih => exact .step found terminals (ih second)

theorem prepend (front : List Symbol) (derivation : Rightmost productions used u v) :
    Rightmost productions used (front ++ u) (front ++ v) := by
  induction derivation with
  | refl => exact .refl _
  | @step id used production before after result found terminals _ ih =>
    rw [← List.append_assoc]
    refine .step found terminals ?_
    rwa [← List.append_assoc, ← List.append_assoc] at ih

theorem append_terminals {tail : List Symbol} (derivation : Rightmost productions used u v)
    (terminals : tail.all (·.isTerminal) = true) :
    Rightmost productions used (u ++ tail) (v ++ tail) := by
  induction derivation with
  | refl => exact .refl _
  | @step id used production before after result found after_terminals _ ih =>
    rw [List.append_assoc, List.cons_append]
    refine .step found ?_ ?_
    · rw [List.all_append, after_terminals, terminals, Bool.and_self]
    · rwa [List.append_assoc (before ++ production.rhs)] at ih

theorem append {more : List Nat} {u' v' : List Symbol} (first : Rightmost productions used u u')
    (second : Rightmost productions more v v') (terminals : v'.all (·.isTerminal) = true) :
    Rightmost productions (more ++ used) (u ++ v) (u' ++ v') :=
  (second.prepend u).trans (first.append_terminals terminals)

theorem root {id : Nat} {lhs : Symbol} {rhs : List Symbol} (found : productions[id]? = some ⟨lhs, rhs⟩)
    (inner : Rightmost productions used rhs w) : Rightmost productions (id :: used) [lhs] w := by
  rw [← List.append_nil rhs] at inner
  exact @Rightmost.step _ _ _ _ [] [] _ found rfl inner

end Rightmost

/-- The sentence that a string becomes when each of its nonterminals is replaced by an expansion of
one of its right-hand sides. -/
inductive Expands (productions : List Production) : List Symbol → List Symbol → Prop where
  | nil : Expands productions [] []
  | terminal {symbol : Symbol} {rest w : List Symbol} : symbol.isTerminal = true →
      Expands productions rest w → Expands productions (symbol :: rest) (symbol :: w)
  | nonterminal {production : Production} {rest v w : List Symbol} : production ∈ productions →
      Expands productions production.rhs v → Expands productions rest w →
      Expands productions (production.lhs :: rest) (v ++ w)

namespace Expands

theorem append {u' v' : List Symbol} (first : Expands productions u u')
    (second : Expands productions v v') : Expands productions (u ++ v) (u' ++ v') := by
  induction first with
  | nil => exact second
  | terminal terminal _ ih => exact .terminal terminal ih
  | nonterminal mem inner _ _ ih =>
    rw [List.append_assoc]
    exact .nonterminal mem inner ih

theorem split (expands : Expands productions (u ++ v) w) :
    ∃ left right, w = left ++ right ∧ Expands productions u left ∧ Expands productions v right := by
  generalize whole : u ++ v = string at expands
  induction expands generalizing u with
  | nil =>
    obtain ⟨rfl, rfl⟩ := List.append_eq_nil_iff.mp whole
    exact ⟨[], [], rfl, .nil, .nil⟩
  | @terminal symbol rest w terminal others ih =>
    cases u with
    | nil =>
      rw [List.nil_append] at whole
      rw [whole]
      exact ⟨[], symbol :: w, rfl, .nil, .terminal terminal others⟩
    | cons first u =>
      obtain ⟨rfl, tail⟩ := List.cons.inj whole
      obtain ⟨left, right, rfl, front, back⟩ := ih tail
      exact ⟨first :: left, right, rfl, .terminal terminal front, back⟩
  | @nonterminal production rest inner w mem below others _ ih =>
    cases u with
    | nil =>
      rw [List.nil_append] at whole
      rw [whole]
      exact ⟨[], inner ++ w, rfl, .nil, .nonterminal mem below others⟩
    | cons first u =>
      obtain ⟨rfl, tail⟩ := List.cons.inj whole
      obtain ⟨left, right, rfl, front, back⟩ := ih tail
      exact ⟨inner ++ left, right, by rw [List.append_assoc], .nonterminal mem below front, back⟩

theorem exists_production {symbol : Symbol} (nonterminal : symbol.isTerminal = false)
    (expands : Expands productions [symbol] w) :
    ∃ production ∈ productions, production.lhs = symbol ∧ Expands productions production.rhs w := by
  cases expands with
  | terminal terminal =>
    rw [nonterminal] at terminal
    cases terminal
  | nonterminal mem inner rest =>
    cases rest
    rw [List.append_nil]
    exact ⟨_, mem, rfl, inner⟩

theorem refl (terminals : w.all (·.isTerminal) = true) : Expands productions w w := by
  induction w with
  | nil => exact .nil
  | cons symbol rest ih =>
    rw [List.all_cons, Bool.and_eq_true] at terminals
    exact .terminal terminals.1 (ih terminals.2)

theorem terminals (expands : Expands productions u w) : w.all (·.isTerminal) = true := by
  induction expands with
  | nil => rfl
  | terminal terminal _ ih => rw [List.all_cons, terminal, ih, Bool.and_self]
  | nonterminal _ _ _ inner outer => rw [List.all_append, inner, outer, Bool.and_self]

theorem derives (expands : Expands productions u w) : Derives productions u w := by
  induction expands with
  | nil => exact .refl []
  | @terminal symbol rest w _ _ ih => simpa using ih.context [symbol] []
  | @nonterminal production rest v w mem _ _ inner outer =>
    have first : Derives productions (production.lhs :: rest) (production.rhs ++ rest) :=
      .single (.replace [] rest mem)
    have second : Derives productions (production.rhs ++ rest) (v ++ rest) := by
      simpa using inner.context [] rest
    have third : Derives productions (v ++ rest) (v ++ w) := by
      simpa using outer.context v []
    exact (first.trans second).trans third

theorem of_derives (derivation : Derives productions u w) (terminals : w.all (·.isTerminal) = true) :
    Expands productions u w := by
  induction derivation with
  | refl => exact .refl terminals
  | step head _ ih =>
    obtain ⟨before, after, mem⟩ := head
    obtain ⟨front, right, rfl, first, back⟩ := (ih terminals).split
    obtain ⟨left, middle, rfl, outer, inner⟩ := first.split
    rw [List.append_assoc]
    exact outer.append (.nonterminal mem inner back)

theorem rightmost (expands : Expands productions u w) : ∃ used, Rightmost productions used u w := by
  induction expands with
  | nil => exact ⟨[], .refl []⟩
  | @terminal symbol rest w _ _ ih =>
    obtain ⟨used, derivation⟩ := ih
    exact ⟨used, derivation.prepend [symbol]⟩
  | @nonterminal production rest v w mem _ others inner outer =>
    -- what comes after the nonterminal is derived first
    obtain ⟨used, derivation⟩ := outer
    obtain ⟨more, below⟩ := inner
    obtain ⟨id, found⟩ := List.getElem?_of_mem mem
    have last : Rightmost productions (id :: more) ([] ++ production.lhs :: w) (v ++ w) :=
      .step found others.terminals (below.append_terminals others.terminals)
    exact ⟨used ++ id :: more, (derivation.prepend [production.lhs]).trans last⟩

end Expands

/-- A sentence that is derived at all is derived from right to left. -/
theorem exists_rightmost (derivation : Derives productions u w)
    (terminals : w.all (·.isTerminal) = true) : ∃ used, Rightmost productions used u w :=
  (Expands.of_derives derivation terminals).rightmost

end ShiftReduce
