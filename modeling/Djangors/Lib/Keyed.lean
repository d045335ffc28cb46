import Mathlib.Data.List.Nodup
import Mathlib.Logic.Function.Basic

/-! # Tables with an automatic key

Rows that have different keys, each below the key of the next row. -/

structure Keyed {α : Type} (key : α → Int) where
  rows : List α
  nextId : Int
  keys : (rows.map key).Nodup
  keys_lt : ∀ row ∈ rows, key row < nextId

namespace Keyed
variable {α : Type} {key : α → Int}

def empty : Keyed key := ⟨[], 1, .nil, nofun⟩

/-- Adds the row that is made for the next key. -/
def insert (table : Keyed key) (row : Int → α) (hkey : ∀ n, key (row n) = n) : Keyed key where
  rows := table.rows ++ [row table.nextId]
  nextId := table.nextId + 1
  keys := by
    rw [List.map_append]
    refine List.nodup_append'.mpr ⟨table.keys, List.nodup_singleton _, ?_⟩
    simp only [List.map_cons, List.map_nil, hkey, List.disjoint_singleton, List.mem_map, not_exists, not_and]
    exact fun old hold heq => Int.lt_irrefl _ (heq ▸ table.keys_lt old hold)
  keys_lt := by
    intro old hold
    rcases List.mem_append.mp hold with hold | hold
    · exact Int.lt_trans (table.keys_lt old hold) (Int.lt_succ _)
    · rw [List.mem_singleton.mp hold, hkey]
      exact Int.lt_succ _

/-- Changes the row with a key. -/
def update (table : Keyed key) (id : Int) (change : α → α) (hkey : ∀ row, key (change row) = key row) : Keyed key where
  rows := table.rows.map fun row => if key row = id then change row else row
  nextId := table.nextId
  keys := by
    have hkeys : (key ∘ fun row => if key row = id then change row else row) = key := by
      funext row
      simp only [Function.comp_apply]
      split
      · exact hkey row
      · rfl
    rw [List.map_map, hkeys]
    exact table.keys
  keys_lt := by
    intro new hnew
    obtain ⟨row, hrow, rfl⟩ := List.mem_map.mp hnew
    split
    · rw [hkey]
      exact table.keys_lt row hrow
    · exact table.keys_lt row hrow

/-- Writes a row in the place of the one with its key. -/
def replace (table : Keyed key) (row : α) : Keyed key where
  rows := table.rows.map fun old => if key old = key row then row else old
  nextId := table.nextId
  keys := by
    have hkeys : (key ∘ fun old => if key old = key row then row else old) = key := by
      funext old
      simp only [Function.comp_apply]
      split
      · rename_i heq
        exact heq.symm
      · rfl
    rw [List.map_map, hkeys]
    exact table.keys
  keys_lt := by
    intro new hnew
    obtain ⟨old, hold, rfl⟩ := List.mem_map.mp hnew
    split
    · rename_i heq
      exact heq ▸ table.keys_lt old hold
    · exact table.keys_lt old hold

/-- Keeps the rows that are not to be deleted. -/
def delete (table : Keyed key) (doomed : α → Bool) : Keyed key where
  rows := table.rows.filter (!doomed ·)
  nextId := table.nextId
  keys := table.keys.sublist (List.filter_sublist.map _)
  keys_lt row hrow := table.keys_lt row (List.mem_of_mem_filter hrow)

variable {table : Keyed key} {row other : α} {id : Int} {make : Int → α} {hmake : ∀ n, key (make n) = n}
  {change : α → α} {hchange : ∀ row, key (change row) = key row}

theorem mem_insert : row ∈ (table.insert make hmake).rows ↔ row ∈ table.rows ∨ row = make table.nextId := by
  rw [insert, List.mem_append, List.mem_singleton]

theorem mem_update : row ∈ (table.update id change hchange).rows ↔
    ∃ old ∈ table.rows, (if key old = id then change old else old) = row :=
  List.mem_map

theorem mem_update_of_ne (hrow : row ∈ table.rows) (hne : key row ≠ id) : row ∈ (table.update id change hchange).rows :=
  mem_update.mpr ⟨row, hrow, if_neg hne⟩

theorem mem_update_self (hrow : row ∈ table.rows) : change row ∈ (table.update (key row) change hchange).rows :=
  mem_update.mpr ⟨row, hrow, if_pos rfl⟩

theorem mem_replace : other ∈ (table.replace row).rows ↔
    ∃ old ∈ table.rows, (if key old = key row then row else old) = other :=
  List.mem_map

theorem mem_delete {doomed : α → Bool} : row ∈ (table.delete doomed).rows ↔ row ∈ table.rows ∧ doomed row = false := by
  rw [delete, List.mem_filter, Bool.not_eq_true']

theorem eq_of_key (hrow : row ∈ table.rows) (hother : other ∈ table.rows) (hkey : key row = key other) : row = other :=
  List.inj_on_of_nodup_map table.keys hrow hother hkey

end Keyed

/-! ## Hash maps of rows by key

The two tables that a join in memory builds: one row for each key, where a later row takes the place of an earlier one,
and all rows of each key in their order. A map is a function to what it holds. -/

namespace HashJoin
variable {κ ρ : Type} [DecidableEq κ]

/-- `map.insert(key, row)` -/
def insert (map : κ → Option ρ) (entry : κ × ρ) : κ → Option ρ := Function.update map entry.1 (some entry.2)

/-- `map.entry(key).or_insert_with(Vec::new).push(row)` -/
def push (map : κ → Option (List ρ)) (entry : κ × ρ) : κ → Option (List ρ) :=
  Function.update map entry.1 (some ((map entry.1).getD [] ++ [entry.2]))

/-- The map of one row for each key. -/
def index (entries : List (κ × ρ)) : κ → Option ρ := entries.foldl insert fun _ => none

/-- The map of the rows of each key. -/
def group (entries : List (κ × ρ)) : κ → Option (List ρ) := entries.foldl push fun _ => none

variable {entries : List (κ × ρ)} {k : κ}

theorem foldl_insert (distinct : (entries.map (·.1)).Nodup) (map : κ → Option ρ) :
    entries.foldl insert map k = (entries.lookup k).or (map k) := by
  induction entries generalizing map with
  | nil => rfl
  | cons entry entries ih =>
    obtain ⟨hnew, distinct⟩ := List.nodup_cons.mp distinct
    rw [List.foldl_cons, ih distinct, List.lookup_cons]
    by_cases h : k = entry.1
    · have hnone : entries.lookup k = none := by
        refine List.lookup_eq_none_iff.mpr fun other hother => bne_iff_ne.mpr fun heq => hnew ?_
        exact List.mem_map.mpr ⟨other, hother, heq.symm.trans h⟩
      rw [hnone, h, insert, Function.update_self, beq_self_eq_true]
      rfl
    · rw [insert, Function.update_of_ne h, beq_false_of_ne h]

/-- Under distinct keys the map holds the row of each key. -/
theorem index_eq_lookup (distinct : (entries.map (·.1)).Nodup) : index entries k = entries.lookup k := by
  rw [index, foldl_insert distinct, Option.or_none]

theorem foldl_push (map : κ → Option (List ρ)) :
    ((entries.foldl push map k).getD [] = (map k).getD [] ++ (entries.filter (·.1 = k)).map (·.2)) ∧
      (entries.foldl push map k = none ↔ map k = none ∧ k ∉ entries.map (·.1)) := by
  induction entries generalizing map with
  | nil => simp
  | cons entry entries ih =>
    obtain ⟨hrows, hnone⟩ := ih (push map entry)
    rw [List.foldl_cons, hrows, hnone]
    by_cases h : entry.1 = k
    · simp [push, h]
    · simp [push, h, Ne.symm h]

/-- The map holds the rows of each key, in their order. -/
theorem group_getD : (group entries k).getD [] = (entries.filter (·.1 = k)).map (·.2) := (foldl_push _).1

theorem group_eq_none : group entries k = none ↔ k ∉ entries.map (·.1) := by
  rw [group, (foldl_push _).2, and_iff_right rfl]

end HashJoin
