import Djangors.Lib.Keyed
import Djangors.Lib.Lists
import Mathlib.Logic.Function.Basic

/-! # Tables with a unique column

A table with an automatic key and a column whose values differ from row to row. -/

structure UniqueTable {α κ : Type} (id : α → Int) (key : α → κ) extends Keyed id where
  unique : (rows.map key).Nodup

namespace UniqueTable
variable {α κ : Type} [DecidableEq κ] {id : α → Int} {key : α → κ}

def empty : UniqueTable id key := ⟨Keyed.empty, .nil⟩

/-- The row that has a value in the unique column. -/
def row? (table : UniqueTable id key) (k : κ) : Option α := table.rows.find? (key · == k)

/-- Adds the row that is made for the next id, unless its value is taken. -/
def insert (table : UniqueTable id key) (row : Int → α) (hid : ∀ n, id (row n) = n) :
    Option (UniqueTable id key × α) :=
  if h : key (row table.nextId) ∈ table.rows.map key then none
  else
    some ({ table.toKeyed.insert row hid with
            unique := by
              rw [Keyed.insert, List.map_append]
              exact List.nodup_append'.mpr ⟨table.unique, List.nodup_singleton _, by simpa using h⟩ },
      row table.nextId)

/-- Writes all columns of the row that has the id of `row`. -/
def replace (table : UniqueTable id key) (row : α) : Option (UniqueTable id key) :=
  if h : ((table.toKeyed.replace row).rows.map key).Nodup then some ⟨table.toKeyed.replace row, h⟩ else none

/-- Removes the row with an id. -/
def remove (table : UniqueTable id key) (n : Int) : UniqueTable id key where
  toKeyed := table.toKeyed.delete (id · = n)
  unique := table.unique.sublist (List.filter_sublist.map _)

def hasId (table : UniqueTable id key) (n : Int) : Bool := table.rows.any (id · = n)

variable {table table' : UniqueTable id key} {row old : α} {k : κ}

theorem row?_eq_some : table.row? k = some row ↔ row ∈ table.rows ∧ key row = k := List.find?_key_eq_some table.unique

theorem row?_eq_none : table.row? k = none ↔ ∀ row ∈ table.rows, key row ≠ k := by
  simp only [row?, List.find?_eq_none, beq_iff_eq, ne_eq]

theorem key_row? (h : table.row? k = some row) : key row = k := (row?_eq_some.mp h).2

/-- The rows of a table are known by their values: one of them is written, added or removed. -/
theorem row?_eq_update {found : Option α} (hself : table'.row? k = found)
    (hother : ∀ row, key row ≠ k → (row ∈ table'.rows ↔ row ∈ table.rows)) :
    table'.row? = Function.update table.row? k found := by
  funext k'
  by_cases hk : k' = k
  · rw [hk, hself, Function.update_self]
  · rw [Function.update_of_ne hk]
    refine Option.ext fun row => ?_
    rw [row?_eq_some, row?_eq_some]
    exact and_congr_left fun heq => hother row (heq ▸ hk)

/-- A row is added when its value is new. -/
theorem insert_row (make : Int → α) (hid : ∀ n, id (make n) = n) (hkey : key (make table.nextId) = k)
    (hnew : table.row? k = none) :
    ∃ table', table.insert make hid = some (table', make table.nextId) ∧
      table'.row? = Function.update table.row? k (some (make table.nextId)) := by
  have hfree : key (make table.nextId) ∉ table.rows.map key := by
    rintro hmem
    obtain ⟨row, hrow, heq⟩ := List.mem_map.mp hmem
    exact row?_eq_none.mp hnew row hrow (heq.trans hkey)
  have hadded {row : α} : row ∈ (table.toKeyed.insert make hid).rows ↔ row ∈ table.rows ∨ row = make table.nextId :=
    Keyed.mem_insert
  rw [insert, dif_neg hfree]
  refine ⟨_, rfl, row?_eq_update ?_ fun row hne => ?_⟩
  · exact row?_eq_some.mpr ⟨hadded.mpr (.inr rfl), hkey⟩
  · refine hadded.trans ⟨?_, .inl⟩
    rintro (hrow | rfl)
    · exact hrow
    · exact absurd hkey hne

theorem insert_taken {make : Int → α} {hid : ∀ n, id (make n) = n} (hkey : key (make table.nextId) = k)
    (htaken : table.row? k = some row) : table.insert make hid = none := by
  obtain ⟨hrow, heq⟩ := row?_eq_some.mp htaken
  rw [insert, dif_pos (List.mem_map.mpr ⟨row, hrow, heq.trans hkey.symm⟩)]

theorem hasId_row (hold : table.row? k = some old) : table.hasId (id old) = true :=
  List.any_eq_true.mpr ⟨old, (row?_eq_some.mp hold).1, decide_eq_true rfl⟩

/-- A row is written when its value stays. -/
theorem replace_row (row : α) (hold : table.row? k = some old) (hkey : key row = k) (hid : id row = id old) :
    ∃ table', table.replace row = some table' ∧ table'.row? = Function.update table.row? k (some row) := by
  obtain ⟨hmem, hk⟩ := row?_eq_some.mp hold
  have hrows : ∀ other ∈ table.rows, id other = id row → other = old := fun other hother heq =>
    Keyed.eq_of_key hother hmem (heq.trans hid)
  have hkeys : (table.toKeyed.replace row).rows.map key = table.rows.map key := by
    rw [Keyed.replace, List.map_map]
    refine List.map_congr_left fun other hother => ?_
    simp only [Function.comp_apply]
    split
    · rename_i heq
      rw [hrows other hother heq, hkey, hk]
    · rfl
  rw [replace, dif_pos (hkeys ▸ table.unique)]
  refine ⟨_, rfl, row?_eq_update ?_ fun other hne => ?_⟩
  · exact row?_eq_some.mpr ⟨Keyed.mem_replace.mpr ⟨old, hmem, if_pos hid.symm⟩, hkey⟩
  · refine Keyed.mem_replace.trans ⟨?_, fun hother => ⟨other, hother, if_neg fun heq => ?_⟩⟩
    · rintro ⟨before, hbefore, heq⟩
      split at heq
      · exact absurd (heq ▸ hkey) hne
      · exact heq ▸ hbefore
    · exact hne (hrows other hother heq ▸ hk)

/-- A row is removed by its id. -/
theorem remove_row (hold : table.row? k = some old) :
    (table.remove (id old)).row? = Function.update table.row? k none := by
  obtain ⟨hmem, hk⟩ := row?_eq_some.mp hold
  have hremoved : ∀ row, row ∈ (table.remove (id old)).rows ↔ row ∈ table.rows ∧ id row ≠ id old := fun row =>
    Keyed.mem_delete.trans (and_congr_right fun _ => decide_eq_false_iff_not)
  refine row?_eq_update (row?_eq_none.mpr fun row hrow heq => ?_) fun row hne => ?_
  · obtain ⟨hrow, hid⟩ := (hremoved row).mp hrow
    have hfound : table.row? k = some row := row?_eq_some.mpr ⟨hrow, heq⟩
    rw [hold] at hfound
    exact hid (congrArg id (Option.some.inj hfound).symm)
  · rw [hremoved]
    refine and_iff_left_of_imp fun hrow heq => hne ?_
    rw [Keyed.eq_of_key hrow hmem heq, hk]

end UniqueTable
