import ShiftReduce.ItemPath
import ShiftReduce.Proofs.Item.Closure
import ShiftReduce.Proofs.Registry.Wellformed

/-!
Paths of the item machine, read in both directions: forwards, one symbol is an advance followed by
closure; backwards, an item leads to the beginning of its production and from there to an item that
expects its left-hand side.
-/
namespace ShiftReduce

namespace Registry

variable {registry : Registry}

theorem next?_eq_some {item : Item} {symbol : Symbol} :
    registry.next? item = some symbol ↔ ∃ production,
      registry.productions[item.production]? = some production ∧
        production.rhs[item.dot]? = some symbol :=
  Option.bind_eq_some_iff

theorem isComplete_iff {item : Item} :
    registry.isComplete item = true ↔ ∃ production,
      registry.productions[item.production]? = some production ∧
        production.rhs.length ≤ item.dot := by
  unfold isComplete
  cases registry.productions[item.production]? <;> simp

theorem mem_outgoing {items : List Item} {symbol : Symbol} {moved : Item} :
    (symbol, moved) ∈ registry.outgoing items ↔
      ∃ item ∈ items, registry.next? item = some symbol ∧ item.forward = moved := by
  simp only [outgoing, List.mem_filterMap, Option.map_eq_some_iff, Prod.mk.injEq]
  constructor
  · rintro ⟨item, mem, _, next, rfl, moved⟩
    exact ⟨item, mem, next, moved⟩
  · rintro ⟨item, mem, next, moved⟩
    exact ⟨item, mem, symbol, next, rfl, moved⟩

theorem mem_advance {items : List Item} {symbol : Symbol} {moved : Item} :
    moved ∈ registry.advance items symbol ↔
      ∃ item ∈ items, registry.next? item = some symbol ∧ item.forward = moved := by
  simp only [advance, List.mem_map, List.mem_filter, decide_eq_true_eq, Prod.exists]
  constructor
  · rintro ⟨_, _, ⟨mem, rfl⟩, rfl⟩
    exact mem_outgoing.mp mem
  · intro moved_over
    exact ⟨symbol, moved, ⟨mem_outgoing.mpr moved_over, rfl⟩, rfl⟩

theorem mem_advance_congr {items other : List Item} {symbol : Symbol}
    (same : ∀ item, item ∈ other ↔ item ∈ items) (moved : Item) :
    moved ∈ registry.advance other symbol ↔ moved ∈ registry.advance items symbol := by
  simp only [mem_advance, same]

end Registry

namespace ItemPath

open Registry

variable {registry : Registry} {start id : Nat} {read : List Symbol} {item : Item}

theorem nil_iff : ItemPath registry start [] item ↔ Closes registry [⟨start, 0⟩] item := by
  constructor
  · intro path
    generalize silent : ([] : List Symbol) = read at path
    induction path with
    | here => exact .kernel List.mem_cons_self
    | past => simp at silent
    | into _ next found lhs ih =>
      exact .predicted (ih silent) (mem_predicted.mpr ⟨_, _, _, next, found, lhs, rfl⟩)
  · intro closes
    induction closes with
    | kernel mem =>
      rw [List.mem_singleton.mp mem]
      exact .here
    | predicted _ new ih =>
      obtain ⟨symbol, id, production, next, found, lhs, rfl⟩ := mem_predicted.mp new
      exact .into ih next found lhs

theorem snoc_iff {items : List Item} {symbol : Symbol}
    (reached : ∀ item, item ∈ items ↔ ItemPath registry start read item) :
    ItemPath registry start (read ++ [symbol]) item ↔
      Closes registry (registry.advance items symbol) item := by
  constructor
  · intro path
    generalize whole : read ++ [symbol] = longer at path
    induction path with
    | here => simp at whole
    | past path next _ =>
      obtain ⟨rfl, last⟩ := List.append_inj' whole rfl
      cases last
      exact .kernel (mem_advance.mpr ⟨_, (reached _).mpr path, next, rfl⟩)
    | into _ next found lhs ih =>
      exact .predicted (ih whole) (mem_predicted.mpr ⟨_, _, _, next, found, lhs, rfl⟩)
  · intro closes
    induction closes with
    | kernel moved =>
      obtain ⟨item, mem, next, rfl⟩ := mem_advance.mp moved
      exact .past ((reached item).mp mem) next
    | predicted _ new ih =>
      obtain ⟨symbol, id, production, next, found, lhs, rfl⟩ := mem_predicted.mp new
      exact .into ih next found lhs

theorem expects {before after : List Symbol} {symbol : Symbol}
    (path : ItemPath registry start (before ++ symbol :: after) item) :
    ∃ earlier, ItemPath registry start before earlier ∧ registry.next? earlier = some symbol := by
  generalize whole : before ++ symbol :: after = read at path
  induction path generalizing after with
  | here => simp at whole
  | into _ _ _ _ ih => exact ih whole
  | @past read item last path next ih =>
    obtain rfl | ⟨front, final, rfl⟩ := List.eq_nil_or_concat after
    · obtain ⟨rfl, same⟩ := List.append_inj' whole rfl
      cases same
      exact ⟨item, path, next⟩
    · rw [List.concat_eq_append, ← List.cons_append, ← List.append_assoc] at whole
      exact ih (List.append_inj' whole rfl).1

theorem dot_le {production : Production} (path : ItemPath registry start read item)
    (found : registry.productions[item.production]? = some production) :
    item.dot ≤ production.rhs.length := by
  cases path with
  | here => exact Nat.zero_le _
  | into => exact Nat.zero_le _
  | past _ next =>
    obtain ⟨_, same, inside⟩ := next?_eq_some.mp next
    cases found.symm.trans same
    exact (List.getElem?_eq_some_iff.mp inside).1

/-- Before an item stands what its dot has passed, and before that the beginning of its production
was reached. -/
theorem trace {production : Production} (path : ItemPath registry start read item)
    (found : registry.productions[item.production]? = some production) :
    ∃ before, read = before ++ production.rhs.take item.dot ∧
      ItemPath registry start before ⟨item.production, 0⟩ := by
  induction path with
  | here => exact ⟨[], by simp, .here⟩
  | into path next known lhs => exact ⟨_, by simp, .into path next known lhs⟩
  | @past read item symbol path next ih =>
    obtain ⟨before, rfl, begun⟩ := ih found
    obtain ⟨_, same, inside⟩ := next?_eq_some.mp next
    cases found.symm.trans same
    refine ⟨before, ?_, begun⟩
    simp [Item.forward, List.take_add_one, inside]

theorem pass {production : Production} (path : ItemPath registry start read ⟨id, 0⟩)
    (found : registry.productions[id]? = some production) {dot : Nat}
    (inside : dot ≤ production.rhs.length) :
    ItemPath registry start (read ++ production.rhs.take dot) ⟨id, dot⟩ := by
  induction dot with
  | zero => simpa using path
  | succ dot ih =>
    have next : registry.next? ⟨id, dot⟩ = some production.rhs[dot] :=
      next?_eq_some.mpr ⟨production, found, List.getElem?_eq_getElem inside⟩
    have longer := past (ih (by omega)) next
    rwa [List.append_assoc, List.take_append_getElem] at longer

theorem begun {production : Production} (path : ItemPath registry start read ⟨id, 0⟩)
    (found : registry.productions[id]? = some production) :
    (read = [] ∧ id = start) ∨
      ∃ item, ItemPath registry start read item ∧ registry.next? item = some production.lhs := by
  generalize whole : (⟨id, 0⟩ : Item) = item at path
  cases path with
  | here =>
    cases whole
    exact .inl ⟨rfl, rfl⟩
  | past => cases whole
  | into path next known lhs =>
    cases whole
    cases found.symm.trans known
    exact .inr ⟨_, path, lhs ▸ next⟩

theorem isStartProduction_of_expected (wellformed : registry.Wellformed) {production : Production}
    (found : registry.productions[id]? = some production)
    (next : registry.next? item = some production.lhs) : registry.isStartProduction id = false := by
  rw [isStartProduction, decide_eq_false_iff_not]
  intro front
  cases found.symm.trans (wellformed.augmented_at (List.getElem?_eq_getElem front))
  obtain ⟨other, known, inside⟩ := next?_eq_some.mp next
  exact absurd (List.mem_of_getElem? inside) (wellformed.augmented_unused _ (List.getElem_mem front) _
    (List.mem_of_getElem? known))

theorem augmented (wellformed : registry.Wellformed) (path : ItemPath registry start read item)
    (front : item.production < registry.starts.length) :
    item.production = start ∧
      read = [registry.starts[item.production]].take item.dot := by
  have found := wellformed.augmented_at (List.getElem?_eq_getElem front)
  obtain ⟨before, rfl, beginning⟩ := path.trace found
  obtain ⟨rfl, same⟩ | ⟨expecting, -, next⟩ := beginning.begun found
  · exact ⟨same, by simp⟩
  · have other := isStartProduction_of_expected wellformed found next
    simp [isStartProduction, front] at other

end ItemPath

end ShiftReduce
