import Mathlib.Data.List.Basic
import Mathlib.Data.List.Induction
import ShiftReduce.Registry

/-!
Registration as it is carried out: one production after the other gets the next number, a 32-bit word, and
the number is filed under its left-hand side, which has its place from when it was first met. The numbers are
the positions as long as there are fewer productions than words.
-/
namespace ShiftReduce

structure Ledger where
  entries : List (UInt32 × Production)
  /-- The numbers of the productions of each symbol. -/
  index : List (Symbol × List UInt32)

namespace Ledger

def file (index : List (Symbol × List UInt32)) (symbol : Symbol) (id : UInt32) :
    List (Symbol × List UInt32) :=
  if symbol ∈ index.map (·.1) then
    index.map fun (key, ids) => (key, if symbol = key then ids ++ [id] else ids)
  else index ++ [(symbol, [id])]

def push (ledger : Ledger) (production : Production) : Ledger :=
  let id := ledger.entries.length.toUInt32
  ⟨ledger.entries ++ [(id, production)], file ledger.index production.lhs id⟩

def ofProductions (productions : List Production) : Ledger := productions.foldl push ⟨[], []⟩

def positions (productions : List Production) (symbol : Symbol) : List Nat :=
  productions.zipIdx.filterMap fun (production, id) =>
    if production.lhs = symbol then some id else none

variable {productions : List Production} {symbol : Symbol}

theorem mem_positions {id : Nat} :
    id ∈ positions productions symbol ↔
      ∃ production, productions[id]? = some production ∧ production.lhs = symbol := by
  simp only [positions, List.mem_filterMap, Prod.exists, List.mk_mem_zipIdx_iff_getElem?]
  constructor
  · rintro ⟨production, i, found, picked⟩
    split at picked
    · cases picked
      exact ⟨production, found, ‹_›⟩
    · cases picked
  · rintro ⟨production, found, lhs⟩
    exact ⟨production, id, found, by simp [lhs]⟩

theorem lt_of_mem_positions {id : Nat} (mem : id ∈ positions productions symbol) :
    id < productions.length := by
  obtain ⟨production, found, -⟩ := mem_positions.mp mem
  exact (List.getElem?_eq_some_iff.mp found).1

theorem positions_eq_nil (missing : symbol ∉ productions.map (·.lhs)) :
    positions productions symbol = [] := by
  rw [List.eq_nil_iff_forall_not_mem]
  intro id mem
  obtain ⟨production, found, lhs⟩ := mem_positions.mp mem
  exact missing (List.mem_map.mpr ⟨production, List.mem_of_getElem? found, lhs⟩)

theorem positions_concat (productions : List Production) (production : Production) (symbol : Symbol) :
    positions (productions ++ [production]) symbol =
      positions productions symbol ++ if production.lhs = symbol then [productions.length] else [] := by
  rw [positions, List.zipIdx_append, List.filterMap_append]
  by_cases same : production.lhs = symbol <;> simp [positions, same]

theorem positions_pairwise (productions : List Production) (symbol : Symbol) :
    (positions productions symbol).Pairwise (· < ·) := by
  induction productions using List.reverseRecOn with
  | nil => exact .nil
  | append_singleton productions production ih =>
    rw [positions_concat]
    refine List.pairwise_append.mpr ⟨ih, by split <;> simp, fun id mem last last_mem => ?_⟩
    split at last_mem
    · rw [List.mem_singleton.mp last_mem]
      exact lt_of_mem_positions mem
    · cases last_mem

theorem file_map (symbols : List Symbol) (ids : Symbol → List UInt32) (symbol : Symbol) (id : UInt32)
    (none : symbol ∉ symbols → ids symbol = []) :
    file (symbols.map fun key => (key, ids key)) symbol id =
      (OrderedSet.insert symbols symbol).map fun key =>
        (key, ids key ++ if symbol = key then [id] else []) := by
  have keys : (symbols.map fun key => (key, ids key)).map (·.1) = symbols := by
    rw [List.map_map]
    exact List.map_id symbols
  rw [file, keys, OrderedSet.insert]
  by_cases known : symbol ∈ symbols
  · rw [if_pos known, if_pos known, List.map_map]
    refine List.map_congr_left fun key _ => ?_
    by_cases same : symbol = key <;> simp [same]
  · rw [if_neg known, if_neg known, List.map_append]
    congr 1
    · refine List.map_congr_left fun key mem => ?_
      have different : symbol ≠ key := fun same => known (same ▸ mem)
      simp [different]
    · simp [none known]

theorem entries_ofProductions (productions : List Production) :
    (ofProductions productions).entries =
      productions.zipIdx.map fun (production, id) => (id.toUInt32, production) := by
  induction productions using List.reverseRecOn with
  | nil => rfl
  | append_singleton productions production ih =>
    rw [ofProductions, List.foldl_concat, ← ofProductions, push, ih, List.zipIdx_append]
    simp

theorem index_ofProductions (productions : List Production) :
    (ofProductions productions).index = (OrderedSet.distinct (productions.map (·.lhs))).map fun symbol =>
      (symbol, (positions productions symbol).map Nat.toUInt32) := by
  induction productions using List.reverseRecOn with
  | nil => rfl
  | append_singleton productions production ih =>
    have symbols : OrderedSet.distinct ((productions ++ [production]).map (·.lhs)) =
        OrderedSet.insert (OrderedSet.distinct (productions.map (·.lhs))) production.lhs := by
      rw [OrderedSet.distinct, List.map_append, OrderedSet.insertAll, List.foldl_append]
      rfl
    have size : (ofProductions productions).entries.length = productions.length := by
      simp [entries_ofProductions]
    rw [ofProductions, List.foldl_concat, ← ofProductions, push, ih, size, file_map, symbols]
    · refine List.map_congr_left fun symbol _ => ?_
      rw [positions_concat, List.map_append]
      split <;> rfl
    · intro missing
      rw [OrderedSet.mem_distinct] at missing
      rw [positions_eq_nil missing, List.map_nil]

theorem toNat_lt_of_lookup {ids : List UInt32} {id : UInt32}
    (found : (ofProductions productions).index.lookup symbol = some ids) (mem : id ∈ ids) :
    id.toNat < productions.length := by
  obtain ⟨before, after, index, -⟩ := List.lookup_eq_some_iff.mp found
  have listed : (symbol, ids) ∈ (ofProductions productions).index := by simp [index]
  rw [index_ofProductions, List.mem_map] at listed
  obtain ⟨_, -, entry⟩ := listed
  cases entry
  obtain ⟨position, inside, rfl⟩ := List.mem_map.mp mem
  refine Nat.lt_of_le_of_lt ?_ (lt_of_mem_positions inside)
  rw [Nat.toUInt32, UInt32.toNat_ofNat']
  exact Nat.mod_le _ _

theorem toNat_toUInt32 {ids : List Nat} (few : ∀ id ∈ ids, id < UInt32.size) :
    (ids.map Nat.toUInt32).map UInt32.toNat = ids := by
  rw [List.map_map]
  refine (List.map_congr_left fun id mem => ?_).trans (List.map_id ids)
  exact UInt32.toNat_ofNat_of_lt' (few id mem)

end Ledger

namespace Registry

variable {registry : Registry}

theorem mem_productionsFor {symbol : Symbol} {id : Nat} :
    id ∈ registry.productionsFor symbol ↔
      ∃ production, registry.productions[id]? = some production ∧ production.lhs = symbol :=
  Ledger.mem_positions

theorem entries_eq (few : registry.productions.length < UInt32.size) :
    (Ledger.ofProductions registry.productions).entries.map (fun (id, production) => (production, id.toNat)) =
      registry.productions.zipIdx := by
  rw [Ledger.entries_ofProductions, List.map_map]
  refine (List.map_congr_left fun (production, id) mem => ?_).trans (List.map_id _)
  have inside := (List.getElem?_eq_some_iff.mp (List.mk_mem_zipIdx_iff_getElem?.mp mem)).1
  exact congrArg (production, ·) (UInt32.toNat_ofNat_of_lt' (Nat.lt_trans inside few))

theorem index_eq (few : registry.productions.length < UInt32.size) :
    (Ledger.ofProductions registry.productions).index.map
        (fun (symbol, ids) => (symbol, ids.map UInt32.toNat)) =
      registry.nonterminals.map fun symbol => (symbol, registry.productionsFor symbol) := by
  rw [Ledger.index_ofProductions, List.map_map]
  refine List.map_congr_left fun symbol _ => ?_
  exact congrArg (symbol, ·) (Ledger.toNat_toUInt32 fun id mem =>
    Nat.lt_trans (Ledger.lt_of_mem_positions mem) few)

end Registry

end ShiftReduce
