import Mathlib.Data.List.Nodup

/-!
# Tables with a unique key

A table is the list of its rows in order of arrival. An insert whose key is taken
leaves the table as it is, so the first write wins.
-/
namespace Machine

variable {α κ : Type*}

structure KeyedRows (key : α → κ) where
  rows : List α
  unique : (rows.map key).Nodup

namespace KeyedRows

variable {key : α → κ}

def empty : KeyedRows key := ⟨[], List.nodup_nil⟩

theorem nodup_concat {rows : List α} {row : α} (unique : (rows.map key).Nodup)
    (fresh : key row ∉ rows.map key) : ((rows ++ [row]).map key).Nodup := by
  rw [List.map_append, List.map_singleton]
  apply List.Nodup.append unique (List.nodup_singleton _)
  intro k stored here
  rw [List.mem_singleton.mp here] at stored
  exact fresh stored

variable [DecidableEq κ]

/-- `INSERT .. ON CONFLICT (key) DO NOTHING` -/
def insert (table : KeyedRows key) (row : α) : KeyedRows key :=
  if fresh : key row ∉ table.rows.map key then
    ⟨table.rows ++ [row], nodup_concat table.unique fresh⟩
  else table

theorem insert_fresh {table : KeyedRows key} {row : α} (fresh : key row ∉ table.rows.map key) :
    (table.insert row).rows = table.rows ++ [row] := by
  simp only [insert, dif_pos fresh]

theorem insert_taken {table : KeyedRows key} {row : α} (taken : key row ∈ table.rows.map key) :
    table.insert row = table := by
  simp only [insert, dif_neg (not_not_intro taken)]

def insertAll (table : KeyedRows key) (rows : List α) : KeyedRows key := rows.foldl insert table

/-- Rows under new keys all arrive, in their order. -/
theorem insertAll_fresh {table : KeyedRows key} {rows : List α} (unique : (rows.map key).Nodup)
    (fresh : ∀ row ∈ rows, key row ∉ table.rows.map key) :
    (table.insertAll rows).rows = table.rows ++ rows := by
  induction rows generalizing table with
  | nil => simp [insertAll]
  | cons row rows ih =>
    obtain ⟨head, tail⟩ := List.nodup_cons.mp unique
    have first := insert_fresh (fresh row (List.mem_cons_self ..))
    -- later keys are neither in the table nor the one just taken
    have later : ∀ r ∈ rows, key r ∉ (table.insert row).rows.map key := by
      intro r member taken
      rw [first, List.map_append, List.mem_append] at taken
      rcases taken with stored | same
      · exact fresh r (List.mem_cons_of_mem row member) stored
      · rw [List.map_singleton, List.mem_singleton] at same
        exact head (same ▸ List.mem_map_of_mem member)
    have rest := ih tail later
    rw [first, List.append_assoc, List.singleton_append] at rest
    exact rest

end KeyedRows

end Machine
