import Mathlib.Data.List.Induction
import Mathlib.Tactic.Common

/-!
# Copies cell by cell

A value that consists of cells is copied by one write for each cell.  In between the target is a
mixture, each cell from the one or the other value; after all cells it is the source, whatever it
was before.
-/

namespace CellwiseCopy

section

variable {Value Cell : Type*} {put : Value → Value → Cell → Value} (source target : Value)

/-- The target after the writes of these cells. -/
def copyCells (put : Value → Value → Cell → Value) (source target : Value) (cells : List Cell) :
    Value := cells.foldl (put source) target

theorem copyCells_concat (cells : List Cell) (cell : Cell) :
    copyCells put source target (cells ++ [cell]) =
      put source (copyCells put source target cells) cell := by
  rw [copyCells, List.foldl_append]
  rfl

end

variable {Value Cell Word : Type*} [DecidableEq Cell]

/-- `put source target cell` writes the cell of the source into the target, and a value is known by
its cells. -/
structure IsCopy (read : Value → Cell → Word) (put : Value → Value → Cell → Value) : Prop where
  read_put : ∀ source target cell other, read (put source target cell) other =
    if other = cell then read source other else read target other
  ext : ∀ left right, (∀ cell, read left cell = read right cell) → left = right

section

variable {read : Value → Cell → Word} {put : Value → Value → Cell → Value}
  (source target : Value)

theorem IsCopy.read_copyCells (h : IsCopy read put) (cells : List Cell) (cell : Cell) :
    read (copyCells put source target cells) cell =
      if cell ∈ cells then read source cell else read target cell := by
  induction cells using List.reverseRecOn with
  | nil => rfl
  | append_singleton cells last ih =>
    rw [copyCells_concat, h.read_put, ih]
    by_cases hlast : cell = last
    · rw [if_pos hlast, if_pos (List.mem_append_right _ (List.mem_singleton.mpr hlast))]
    · have hmem : cell ∈ cells ++ [last] ↔ cell ∈ cells := by simp [hlast]
      rw [if_neg hlast, if_congr hmem rfl rfl]

/-- After all cells nothing is left of the target. -/
theorem IsCopy.copyCells_all (h : IsCopy read put) {cells : List Cell}
    (hall : ∀ cell, cell ∈ cells) : copyCells put source target cells = source := by
  apply h.ext
  intro cell
  rw [h.read_copyCells, if_pos (hall cell)]

end

end CellwiseCopy
