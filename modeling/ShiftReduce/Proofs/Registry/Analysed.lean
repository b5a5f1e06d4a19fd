import ShiftReduce.Proofs.Analysis.Follow
import ShiftReduce.Proofs.Analysis.Nullable
import ShiftReduce.Proofs.Derivation
import ShiftReduce.Proofs.Registry.Wellformed

/-!
The sets computed for a registry hold all that its derivations can show: in a string derived from a
start symbol every nonterminal is followed by a member of its FOLLOW set.
-/
namespace ShiftReduce

namespace Registry

variable {registry : Registry}

/-- The string can begin with the terminal of index `t`. -/
def Begins (registry : Registry) (t : Nat) (string : List Symbol) : Prop :=
  First.Begins registry.nullable registry.first t string

def Vanishes (registry : Registry) (string : List Symbol) : Prop :=
  ∀ symbol ∈ string, symbol ∈ registry.nullable

namespace Wellformed

variable {production : Production} {t : Nat}

theorem covered (wellformed : registry.Wellformed) :
    Production.Covered registry.terminals registry.nonterminals registry.productions where
  lhs production mem := mem_nonterminals.mpr ⟨production, mem, rfl⟩
  rhs production mem symbol inside := by
    cases terminal : symbol.isTerminal with
    | true => exact .inl (wellformed.terminal_registered production mem symbol inside terminal)
    | false => exact .inr (mem_nonterminals.mpr
        (wellformed.nonterminal_defined production mem symbol inside terminal))

theorem nonterminal_of_mem (wellformed : registry.Wellformed) {symbol : Symbol}
    (mem : symbol ∈ registry.nonterminals) : symbol.isTerminal = false := by
  obtain ⟨production, defining, rfl⟩ := mem_nonterminals.mp mem
  exact wellformed.lhs_nonterminal production defining

theorem lhs_vanishes (wellformed : registry.Wellformed) (mem : production ∈ registry.productions)
    (vanishes : registry.Vanishes production.rhs) : production.lhs ∈ registry.nullable := by
  unfold Vanishes at vanishes
  rw [wellformed.nullable_eq] at vanishes ⊢
  exact Nullable.lhs_mem_solve mem vanishes

theorem mem_nullable_iff (wellformed : registry.Wellformed) {symbol : Symbol} :
    symbol ∈ registry.nullable ↔ Derives registry.productions [symbol] [] := by
  rw [wellformed.nullable_eq, Nullable.mem_solve_iff]
  exact ⟨Expands.derives, fun derivation => .of_derives derivation rfl⟩

theorem lhs_begins (wellformed : registry.Wellformed) (mem : production ∈ registry.productions)
    (begins : registry.Begins t production.rhs) :
    (registry.first.get production.lhs).contains t = true := by
  unfold Begins at begins
  rw [wellformed.first_eq] at begins ⊢
  exact First.mem_solve_lhs registry.nullable wellformed.covered mem begins

theorem terminal_begins (wellformed : registry.Wellformed) {terminal : Symbol}
    (at_t : registry.terminals[t]? = some terminal) :
    (registry.first.get terminal).contains t = true := by
  have terminal_mem := List.mem_of_getElem? at_t
  rw [wellformed.first_eq]
  refine First.mem_solve_terminal registry.nullable wellformed.covered at_t wellformed.terminals_nodup
    fun mem => ?_
  have clash := wellformed.registered_terminal terminal terminal_mem
  rw [wellformed.nonterminal_of_mem mem] at clash
  cases clash

theorem firsts (wellformed : registry.Wellformed) (production : Production)
    (mem : production ∈ registry.productions) (symbol : Symbol) (inside : symbol ∈ production.rhs) :
    (registry.first.get symbol).Fits registry.terminals.length := by
  rw [wellformed.first_eq]
  exact First.fits_solve registry.nullable wellformed.covered
    (wellformed.covered.rhs production mem symbol inside)

theorem index_unique (wellformed : registry.Wellformed) {terminal : Symbol} {u : Nat}
    (at_t : registry.terminals[t]? = some terminal) (at_u : registry.terminals[u]? = some terminal) :
    t = u :=
  (List.getElem?_inj (List.getElem?_eq_some_iff.mp at_t).1 wellformed.terminals_nodup).mp
    (at_t.trans at_u.symm)

theorem terminals_pos (wellformed : registry.Wellformed) : 0 < registry.terminals.length :=
  (List.getElem?_eq_some_iff.mp wellformed.eof_first).1

theorem mem_follow (wellformed : registry.Wellformed) {before after : List Symbol} {symbol : Symbol}
    (mem : production ∈ registry.productions)
    (whole : production.rhs = before ++ symbol :: after) (known : symbol ∈ registry.nonterminals)
    (front : registry.Begins t after ∨ registry.Vanishes after ∧
      (registry.follow.get production.lhs).contains t = true) :
    (registry.follow.get symbol).contains t = true := by
  rw [wellformed.follow_eq] at front ⊢
  exact Follow.mem_solve _ _ wellformed.covered.lhs wellformed.firsts wellformed.terminals_pos mem whole
    known front

theorem augmented_follow (wellformed : registry.Wellformed) {start : Symbol}
    (declared : start ∈ registry.starts) :
    (registry.follow.get start.augmented).contains 0 = true := by
  obtain ⟨i, at_i⟩ := List.getElem?_of_mem declared
  have defining := List.mem_of_getElem? (wellformed.augmented_at at_i)
  rw [wellformed.follow_eq]
  exact Follow.zero_mem_solve _ _ wellformed.covered.lhs wellformed.firsts wellformed.terminals_pos
    (mem_nonterminals.mpr ⟨_, defining, rfl⟩) (List.mem_map_of_mem declared)

section

variable {before after : List Symbol} (wellformed : registry.Wellformed)
  (mem : production ∈ registry.productions)

include wellformed mem

theorem vanishes_fold (vanishes : registry.Vanishes (before ++ production.rhs ++ after)) :
    registry.Vanishes (before ++ production.lhs :: after) := by
  simp only [Vanishes, List.forall_mem_append, List.forall_mem_cons] at vanishes ⊢
  exact ⟨vanishes.1.1, wellformed.lhs_vanishes mem vanishes.1.2, vanishes.2⟩

theorem begins_fold (begins : registry.Begins t (before ++ production.rhs ++ after)) :
    registry.Begins t (before ++ production.lhs :: after) := by
  simp only [Begins, First.begins_append, First.Begins, List.forall_mem_append] at begins ⊢
  obtain (first | ⟨silent, first⟩) | ⟨⟨silent, vanishes⟩, first⟩ := begins
  · exact .inl first
  · exact .inr ⟨silent, .inl (wellformed.lhs_begins mem first)⟩
  · exact .inr ⟨silent, .inr ⟨wellformed.lhs_vanishes mem vanishes, first⟩⟩

end

theorem begins_of_derives (wellformed : registry.Wellformed) {u v : List Symbol}
    (derivation : Derives registry.productions u v) (begins : registry.Begins t v) :
    registry.Begins t u := by
  induction derivation with
  | refl => exact begins
  | step head _ ih =>
    obtain ⟨before, after, mem⟩ := head
    exact wellformed.begins_fold mem (ih begins)

theorem registered_of_derives (wellformed : registry.Wellformed) {u v : List Symbol}
    (derivation : Derives registry.productions u v)
    (registered : ∀ symbol ∈ u, symbol.isTerminal = true → symbol ∈ registry.terminals) :
    ∀ symbol ∈ v, symbol.isTerminal = true → symbol ∈ registry.terminals := by
  induction derivation with
  | refl => exact registered
  | step head _ ih =>
    apply ih
    obtain ⟨before, after, mem⟩ := head
    have inside := wellformed.terminal_registered _ mem
    simp only [List.forall_mem_append, List.forall_mem_cons] at registered ⊢
    exact ⟨⟨registered.1, inside⟩, registered.2.2⟩

theorem eof_notMem_of_derives (wellformed : registry.Wellformed) {u v : List Symbol}
    (derivation : Derives registry.productions u v) (unended : Symbol.eof ∉ u) : Symbol.eof ∉ v := by
  induction derivation with
  | refl => exact unended
  | step head _ ih =>
    apply ih
    obtain ⟨before, after, mem⟩ := head
    have unused := wellformed.eof_unused _ mem
    simp only [List.mem_append, List.mem_cons, not_or] at unended ⊢
    exact ⟨⟨unended.1, unused⟩, unended.2.2⟩

end Wellformed

/-- Each nonterminal in a string has in its FOLLOW set what the string goes on with after it, where one
of the terminals of `trailer` comes after the whole. -/
structure FollowedBy (registry : Registry) (trailer : Nat → Prop) (string : List Symbol) : Prop where
  mem : ∀ {before after : List Symbol} {symbol : Symbol} {t : Nat},
    string = before ++ symbol :: after → symbol ∈ registry.nonterminals →
    registry.Begins t after ∨ registry.Vanishes after ∧ trailer t →
    (registry.follow.get symbol).contains t = true

abbrev Followed (registry : Registry) (string : List Symbol) : Prop :=
  registry.FollowedBy (· = 0) string

theorem Followed.start (wellformed : registry.Wellformed) {symbol : Symbol}
    (declared : symbol ∈ registry.starts) : registry.Followed [symbol] := by
  constructor
  intro before after other t whole known front
  obtain ⟨i, at_i⟩ := List.getElem?_of_mem declared
  have defining := List.mem_of_getElem? (wellformed.augmented_at at_i)
  obtain ⟨rfl, rfl, rfl⟩ := of_singleton_eq_append_cons whole
  obtain begins | ⟨vanishes, rfl⟩ := front
  · cases begins
  · exact wellformed.mem_follow defining (List.nil_append [other]).symm known
      (.inr ⟨vanishes, wellformed.augmented_follow declared⟩)

namespace FollowedBy

variable {trailer : Nat → Prop}

theorem singleton {symbol : Symbol}
    (trails : ∀ t, trailer t → (registry.follow.get symbol).contains t = true) :
    registry.FollowedBy trailer [symbol] := by
  constructor
  intro before after other t whole known front
  obtain ⟨rfl, rfl, rfl⟩ := of_singleton_eq_append_cons whole
  obtain begins | ⟨-, trail⟩ := front
  · cases begins
  · exact trails t trail

theorem step {u v : List Symbol} (wellformed : registry.Wellformed)
    (followed : registry.FollowedBy trailer u) (step : DerivesStep registry.productions u v) :
    registry.FollowedBy trailer v := by
  obtain ⟨left, right, mem⟩ := step
  rename_i production
  constructor
  intro before after symbol t whole known front
  obtain ⟨rest, early, rfl⟩ | ⟨later, rfl, rfl⟩ := append_eq_append_cons whole
  · obtain ⟨rest, rfl, rfl⟩ | ⟨inner, rfl, inside⟩ := append_eq_append_cons early
    · -- the symbol stands before the one replaced
      have place : before ++ symbol :: rest ++ production.lhs :: right =
          before ++ symbol :: (rest ++ production.lhs :: right) := by simp
      refine followed.mem place known ?_
      obtain begins | ⟨vanishes, trails⟩ := front
      · exact .inl (wellformed.begins_fold mem begins)
      · exact .inr ⟨wellformed.vanishes_fold mem vanishes, trails⟩
    · -- it comes from the right-hand side
      refine wellformed.mem_follow mem inside known ?_
      have around : ∀ {u : Nat}, registry.Begins u right ∨ registry.Vanishes right ∧ trailer u →
          (registry.follow.get production.lhs).contains u = true :=
        followed.mem rfl (mem_nonterminals.mpr ⟨production, mem, rfl⟩)
      obtain begins | ⟨vanishes, trails⟩ := front
      · obtain first | ⟨vanishes, begins⟩ := First.begins_append.mp begins
        · exact .inl first
        · exact .inr ⟨vanishes, around (.inl begins)⟩
      · rw [Vanishes, List.forall_mem_append] at vanishes
        exact .inr ⟨vanishes.1, around (.inr ⟨vanishes.2, trails⟩)⟩
  · -- it stands after it
    have place : left ++ production.lhs :: (later ++ symbol :: after) =
        left ++ production.lhs :: later ++ symbol :: after := by simp
    exact followed.mem place known front

theorem derives {u v : List Symbol} (wellformed : registry.Wellformed)
    (followed : registry.FollowedBy trailer u) (derivation : Derives registry.productions u v) :
    registry.FollowedBy trailer v := by
  induction derivation with
  | refl => exact followed
  | step head _ ih => exact ih (followed.step wellformed head)

end FollowedBy

theorem FollowedBy.follows_next (wellformed : registry.Wellformed) {trailer : Nat → Prop}
    {before after : List Symbol} {symbol terminal : Symbol} {t : Nat}
    (followed : registry.FollowedBy trailer (before ++ symbol :: terminal :: after))
    (known : symbol ∈ registry.nonterminals) (at_t : registry.terminals[t]? = some terminal) :
    registry.follows symbol t = true :=
  followed.mem rfl known (.inl (.inl (wellformed.terminal_begins at_t)))

theorem Followed.follows_eof {before : List Symbol} {symbol : Symbol}
    (followed : registry.Followed (before ++ [symbol])) (known : symbol ∈ registry.nonterminals) :
    registry.follows symbol 0 = true :=
  followed.mem rfl known (.inr ⟨by simp [Vanishes], rfl⟩)

theorem Followed.follows (wellformed : registry.Wellformed) {before rest : List Symbol}
    {symbol terminal : Symbol} {t : Nat} (followed : registry.Followed (before ++ symbol :: rest))
    (known : symbol ∈ registry.nonterminals)
    (next : (rest ++ [Symbol.eof]).head? = some terminal)
    (at_t : registry.terminals[t]? = some terminal) : registry.follows symbol t = true := by
  cases rest with
  | nil =>
    obtain rfl : Symbol.eof = terminal := by simpa using next
    obtain rfl : t = 0 := wellformed.index_unique at_t wellformed.eof_first
    exact followed.follows_eof known
  | cons first rest =>
    obtain rfl : first = terminal := by simpa using next
    exact followed.follows_next wellformed known at_t

end Registry

end ShiftReduce
