import Mathlib.Computability.StateTransition
import ShiftReduce.Item
import ShiftReduce.Proofs.Registry.Ledger

/-!
Closure of item lists. `Closes` is the least set that holds the kernel and all it predicts, step by
step; the scan in `close` comes to the end of its list and has found exactly that set.
-/
namespace ShiftReduce.Registry

open StateTransition

variable {registry : Registry}

theorem mem_predicted {item new : Item} :
    new ∈ registry.predicted item ↔ ∃ symbol id production, registry.next? item = some symbol ∧
      registry.productions[id]? = some production ∧ production.lhs = symbol ∧ new = ⟨id, 0⟩ := by
  unfold predicted
  cases next : registry.next? item with
  | none => simp
  | some symbol =>
    simp only [List.mem_map, mem_productionsFor, Option.some.injEq]
    constructor
    · rintro ⟨id, ⟨production, found, lhs⟩, rfl⟩
      exact ⟨symbol, id, production, rfl, found, lhs, rfl⟩
    · rintro ⟨_, id, production, rfl, found, lhs, rfl⟩
      exact ⟨id, ⟨production, found, lhs⟩, rfl⟩

inductive Closes (registry : Registry) (kernel : List Item) : Item → Prop where
  | kernel {item : Item} : item ∈ kernel → Closes registry kernel item
  | predicted {item new : Item} : Closes registry kernel item → new ∈ registry.predicted item →
      Closes registry kernel new

theorem Closes.mono {kernel larger : List Item} {item : Item} (subset : kernel ⊆ larger)
    (closes : Closes registry kernel item) : Closes registry larger item := by
  induction closes with
  | kernel mem => exact .kernel (subset mem)
  | predicted _ expected ih => exact .predicted ih expected

theorem closes_congr {kernel other : List Item} (same : ∀ item, item ∈ kernel ↔ item ∈ other)
    {item : Item} : Closes registry kernel item ↔ Closes registry other item :=
  ⟨Closes.mono fun _ mem => (same _).mp mem, Closes.mono fun _ mem => (same _).mpr mem⟩

def Saturated (registry : Registry) (items : List Item) : Prop :=
  ∀ item ∈ items, registry.predicted item ⊆ items

theorem closeFrom_closes {kernel : List Item} (fuel i : Nat) (items : List Item)
    (closes : ∀ item ∈ items, Closes registry kernel item) :
    ∀ item ∈ registry.closeFrom fuel i items, Closes registry kernel item := by
  induction fuel generalizing i items with
  | zero => exact closes
  | succ fuel ih =>
    unfold closeFrom
    cases found : items[i]? with
    | none => exact closes
    | some scanned =>
      refine ih (i + 1) _ fun item mem => ?_
      obtain mem | mem := OrderedSet.mem_insertAll.mp mem
      · exact closes item mem
      · exact .predicted (closes scanned (List.mem_of_getElem? found)) mem

theorem prefix_closeFrom (fuel i : Nat) (items : List Item) :
    items <+: registry.closeFrom fuel i items := by
  induction fuel generalizing i items with
  | zero => exact List.prefix_rfl
  | succ fuel ih =>
    unfold closeFrom
    cases items[i]? with
    | none => exact List.prefix_rfl
    | some item => exact (OrderedSet.prefix_insertAll items _).trans (ih (i + 1) _)

theorem nodup_closeFrom (fuel i : Nat) {items : List Item} (nodup : items.Nodup) :
    (registry.closeFrom fuel i items).Nodup := by
  induction fuel generalizing i items with
  | zero => exact nodup
  | succ fuel ih =>
    unfold closeFrom
    cases items[i]? with
    | none => exact nodup
    | some item => exact ih (i + 1) (OrderedSet.nodup_insertAll nodup)

theorem nodup_close (kernel : List Item) : (registry.close kernel).Nodup :=
  nodup_closeFrom _ _ (OrderedSet.nodup_distinct kernel)

def ScannedTo (registry : Registry) (i : Nat) (items : List Item) : Prop :=
  ∀ j < i, ∀ item, items[j]? = some item → registry.predicted item ⊆ items

theorem ScannedTo.saturated {i : Nat} {items : List Item} (scanned : ScannedTo registry i items)
    (whole : items.length ≤ i) : Saturated registry items := by
  intro item mem
  obtain ⟨j, found⟩ := List.mem_iff_getElem?.mp mem
  have := (List.getElem?_eq_some_iff.mp found).1
  exact scanned j (by omega) item found

theorem ScannedTo.next {i : Nat} {items : List Item} {item : Item}
    (scanned : ScannedTo registry i items) (found : items[i]? = some item) :
    ScannedTo registry (i + 1) (OrderedSet.insertAll items (registry.predicted item)) := by
  intro j before other at_j
  obtain ⟨new, grown⟩ := OrderedSet.prefix_insertAll items (registry.predicted item)
  have := (List.getElem?_eq_some_iff.mp found).1
  rw [← grown, List.getElem?_append_left (by omega)] at at_j
  intro expected mem
  rw [OrderedSet.mem_insertAll]
  by_cases last : j = i
  · rw [last, found] at at_j
    cases at_j
    exact .inr mem
  · exact .inl (scanned j (by omega) other at_j mem)

/-- One step of the scan, without a limit on how many there are: what the item at the position predicts
is appended, and the position moves on. -/
def scan? (registry : Registry) (scan : List Item × Nat) : Option (List Item × Nat) :=
  scan.1[scan.2]?.map fun item =>
    (OrderedSet.insertAll scan.1 (registry.predicted item), scan.2 + 1)

theorem ScannedTo.of_reaches {scan last : List Item × Nat}
    (scanned : ScannedTo registry scan.2 scan.1) (reaches : Reaches (scan? registry) scan last) :
    ScannedTo registry last.2 last.1 := by
  induction reaches with
  | refl => exact scanned
  | tail _ step ih =>
    obtain ⟨item, found, rfl⟩ := Option.map_eq_some_iff.mp step
    exact ih.next found

theorem eval_scan_of_le {i : Nat} {items : List Item} (within : i ≤ items.length)
    (whole : items.length ≤ i) : (items, items.length) ∈ eval (scan? registry) (items, i) := by
  rw [Nat.le_antisymm within whole]
  exact mem_eval.mpr ⟨.refl, by simp [scan?]⟩

/-- All items a scan can hold are in `bound`, so it comes to the end of its list in time. -/
theorem eval_scan {bound : List Item} (expected : ∀ item, registry.predicted item ⊆ bound)
    (fuel i : Nat) (items : List Item) (nodup : items.Nodup) (inside : items ⊆ bound)
    (enough : bound.length ≤ fuel + i) (within : i ≤ items.length) :
    (registry.closeFrom fuel i items, (registry.closeFrom fuel i items).length) ∈
      eval (scan? registry) (items, i) := by
  induction fuel generalizing i items with
  | zero =>
    have short := nodup.length_le_of_subset inside
    exact eval_scan_of_le within (by omega)
  | succ fuel ih =>
    unfold closeFrom
    cases found : items[i]? with
    | none => exact eval_scan_of_le within (List.getElem?_eq_none_iff.mp found)
    | some next =>
      have grown_inside : OrderedSet.insertAll items (registry.predicted next) ⊆ bound := by
        intro item mem
        obtain mem | mem := OrderedSet.mem_insertAll.mp mem
        · exact inside mem
        · exact expected next mem
      have step : Reaches (scan? registry) (items, i)
          (OrderedSet.insertAll items (registry.predicted next), i + 1) :=
        .single (by simp [scan?, found])
      have before := (List.getElem?_eq_some_iff.mp found).1
      have longer := (OrderedSet.prefix_insertAll items (registry.predicted next)).length_le
      rw [reaches_eval step]
      exact ih (i + 1) _ (OrderedSet.nodup_insertAll nodup) grown_inside (by omega) (by omega)

theorem eval_scan_close (registry : Registry) (kernel : List Item) :
    (registry.close kernel, (registry.close kernel).length) ∈
      eval (scan? registry) (OrderedSet.distinct kernel, 0) := by
  have expected : ∀ item, registry.predicted item ⊆ OrderedSet.distinct kernel
      ++ (List.range registry.productions.length).map (⟨·, 0⟩) := by
    intro item new mem
    obtain ⟨_, id, _, _, found, _, rfl⟩ := mem_predicted.mp mem
    have := (List.getElem?_eq_some_iff.mp found).1
    simp [this]
  have short : (OrderedSet.distinct kernel).length ≤ kernel.length :=
    (OrderedSet.nodup_distinct kernel).length_le_of_subset
      fun _ mem => OrderedSet.mem_distinct.mp mem
  refine eval_scan expected _ 0 _ (OrderedSet.nodup_distinct kernel)
    (List.subset_append_left _ _) ?_ (Nat.zero_le _)
  simpa using short

theorem close_saturated (registry : Registry) (kernel : List Item) :
    Saturated registry (registry.close kernel) := by
  have reaches := (mem_eval.mp (eval_scan_close registry kernel)).1
  have nothing : ScannedTo registry 0 (OrderedSet.distinct kernel) := by
    intro j before
    omega
  exact (nothing.of_reaches reaches).saturated (Nat.le_refl _)

theorem mem_close {kernel : List Item} {item : Item} :
    item ∈ registry.close kernel ↔ Closes registry kernel item := by
  constructor
  · refine closeFrom_closes _ _ _ (fun item mem => ?_) item
    exact .kernel (OrderedSet.mem_distinct.mp mem)
  · intro closes
    induction closes with
    | kernel mem => exact (prefix_closeFrom _ _ _).subset (OrderedSet.mem_distinct.mpr mem)
    | predicted _ new ih => exact close_saturated registry kernel _ ih new

end ShiftReduce.Registry
