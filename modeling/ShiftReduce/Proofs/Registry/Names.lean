import ShiftReduce.Symbol

/-!
Names chosen by an author against names built for augmented starts and helpers. A chosen name has
neither mark, so a generated name tells its kind, its owner and its number, and never meets a chosen
one.
-/
namespace ShiftReduce.Symbol

/-- What the checks on a name leave over for the proofs. -/
structure Chosen (name : String) : Prop where
  nonempty : name.toList ≠ []
  not_eof : name ≠ "Eof"
  no_quote : '\'' ∉ name.toList
  no_tilde : '~' ∉ name.toList

/-- A name that an author may choose: its first character tells upper case from lower. -/
structure Permitted (name : String) : Prop extends Chosen name where
  cased : ∀ c ∈ name.toList.head?, Text.isUppercase c = true ∨ Text.isLowercase c = true

inductive NameDefect (name : String) : GrammarError → Prop where
  | empty : name.toList = [] → NameDefect name .emptyName
  | ambiguous {c : Char} : name.toList.head? = some c → Text.isUppercase c = false →
      Text.isLowercase c = false → NameDefect name (.ambiguousName name)
  | reserved : name = "Eof" ∨ '\'' ∈ name.toList ∨ '~' ∈ name.toList →
      NameDefect name (.reservedName name)

theorem NameDefect.not_permitted {name : String} {error : GrammarError}
    (defect : NameDefect name error) : ¬ Permitted name := by
  intro permitted
  cases defect with
  | empty nothing => exact permitted.nonempty nothing
  | @ambiguous c head not_upper not_lower =>
    have cased := permitted.cased c head
    simp [not_upper, not_lower] at cased
  | reserved mark =>
    obtain eof | quote | tilde := mark
    · exact permitted.not_eof eof
    · exact permitted.no_quote quote
    · exact permitted.no_tilde tilde

theorem permitted_of_checkName {name : String} (checked : checkName name = .ok ()) :
    Permitted name := by
  unfold checkName at checked
  split at checked
  · cases checked
  · rename_i c rest chars
    split at checked
    · cases checked
    · rename_i cased
      split at checked
      · cases checked
      · rename_i unreserved
        simp only [Bool.or_eq_true, beq_iff_eq, List.any_eq_true, not_or, not_exists, not_and,
          List.contains_iff_mem] at unreserved
        rw [← chars] at unreserved
        have marks : ∀ mark ∈ reservedMarks, mark ∉ name.toList :=
          fun mark reserved present => unreserved.2 mark present reserved
        refine ⟨⟨by simp [chars], unreserved.1, marks '\'' (by decide), marks '~' (by decide)⟩, ?_⟩
        intro first head
        rw [chars, List.head?_cons, Option.mem_some_iff] at head
        subst first
        simpa [Decidable.or_iff_not_imp_left] using cased

theorem nameDefect_of_checkName {name : String} {error : GrammarError}
    (checked : checkName name = .error error) : NameDefect name error := by
  unfold checkName at checked
  split at checked
  · rename_i chars
    cases checked
    exact .empty chars
  · rename_i c rest chars
    split at checked
    · rename_i uncased
      cases checked
      rw [Bool.and_eq_true, Bool.not_eq_true', Bool.not_eq_true'] at uncased
      exact .ambiguous (by rw [chars]; rfl) uncased.1 uncased.2
    · split at checked
      · rename_i reserved
        cases checked
        rw [← chars] at reserved
        simp only [Bool.or_eq_true, beq_iff_eq, List.any_eq_true, List.contains_iff_mem] at reserved
        obtain eof | ⟨mark, present, reserved⟩ := reserved
        · exact .reserved (.inl eof)
        · have marks : reservedMarks = ['\'', '~'] := by decide
          rw [marks, List.mem_cons, List.mem_singleton] at reserved
          obtain rfl | rfl := reserved
          · exact .reserved (.inr (.inl present))
          · exact .reserved (.inr (.inr present))
      · cases checked

theorem toList_augmented (start : Symbol) :
    start.augmented.name.toList = start.name.toList ++ ['\''] := by
  simp [augmented]

theorem toList_helper (owner : String) (number : Nat) :
    (helper owner number).name.toList = owner.toList ++ '~' :: (toString number).toList := by
  simp [helper]

theorem isTerminal_of_toList {a b : Symbol} {tail : List Char} (nonempty : a.name.toList ≠ [])
    (longer : b.name.toList = a.name.toList ++ tail) : b.isTerminal = a.isTerminal := by
  unfold isTerminal
  rw [longer]
  cases chars : a.name.toList with
  | nil => exact absurd chars nonempty
  | cons c rest => rfl

theorem isTerminal_augmented {start : Symbol} (chosen : Chosen start.name) :
    start.augmented.isTerminal = start.isTerminal :=
  isTerminal_of_toList chosen.nonempty (toList_augmented start)

theorem isTerminal_helper {owner : String} (chosen : Chosen owner) (number : Nat) :
    (helper owner number).isTerminal = (⟨owner⟩ : Symbol).isTerminal :=
  isTerminal_of_toList (a := ⟨owner⟩) chosen.nonempty (toList_helper owner number)

theorem augmented_injective {a b : Symbol} (same : a.augmented = b.augmented) : a = b := by
  have chars : a.name.toList ++ ['\''] = b.name.toList ++ ['\''] := by
    rw [← toList_augmented, ← toList_augmented, same]
  have names : a.name = b.name := String.toList_inj.mp (List.append_cancel_right chars)
  cases a
  cases b
  rw [Symbol.mk.injEq]
  exact names

theorem augmented_ne_chosen {start symbol : Symbol} (chosen : Chosen symbol.name) :
    start.augmented ≠ symbol := by
  rintro rfl
  exact chosen.no_quote (by simp [toList_augmented])

theorem helper_ne_chosen {owner : String} {number : Nat} {symbol : Symbol}
    (chosen : Chosen symbol.name) : helper owner number ≠ symbol := by
  rintro rfl
  exact chosen.no_tilde (by simp [toList_helper])

theorem helper_ne_augmented {owner : String} {number : Nat} {start : Symbol}
    (chosen : Chosen start.name) : helper owner number ≠ start.augmented := by
  intro same
  have mark : '~' ∈ start.augmented.name.toList := by simp [← same, toList_helper]
  rw [toList_augmented] at mark
  simp [chosen.no_tilde] at mark

end ShiftReduce.Symbol
