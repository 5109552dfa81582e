import Mathlib.Algebra.BigOperators.Fin

/-!
# Counted loops over arrays

The two loop shapes of array code: `for (i = 0; i < n; ++i) cells[i] = body(i, cells[i])`, which
rewrites the first `n` cells one after another, and `for (j = 0; j < n; ++j) sum += term(j)`, which
accumulates.
-/

namespace CountedLoop

variable {Cell : Type*} {n size : ℕ}

/-- `for (i = 0; i < n; ++i) cells[i] = body(i, cells[i])`.  The loop is irreducible: a definitional
comparison of two records that hold loop results is not meant to run the loops. -/
@[irreducible]
def rewriteCells (n : ℕ) (h : n ≤ size) (body : Fin n → Cell → Cell) (cells : Vector Cell size) :
    Vector Cell size :=
  Fin.foldl n (fun cells i ↦ cells.set i (body i cells[i])) cells

theorem rewriteCells_succ (h : n + 1 ≤ size) (body : Fin (n + 1) → Cell → Cell)
    (cells : Vector Cell size) :
    rewriteCells (n + 1) h body cells =
      let done := rewriteCells n (Nat.le_of_succ_le h) (fun i ↦ body i.castSucc) cells
      done.set n (body (Fin.last n) done[n]) := by
  unfold rewriteCells
  rw [Fin.foldl_succ_last]
  rfl

/-- Each of the first `n` cells is rewritten once, from its own old value; the others are kept. -/
theorem getElem_rewriteCells (h : n ≤ size) (body : Fin n → Cell → Cell)
    (cells : Vector Cell size) (j : ℕ) (hj : j < size) :
    (rewriteCells n h body cells)[j] =
      if hn : j < n then body ⟨j, hn⟩ cells[j] else cells[j] := by
  induction n generalizing j with
  | zero => simp [rewriteCells]
  | succ n ih =>
    rw [rewriteCells_succ]
    simp only [Vector.getElem_set, ih]
    by_cases heq : n = j
    · subst heq
      simp [Fin.last]
    · by_cases hlt : j < n
      · simp [heq, hlt, Nat.lt_succ_of_lt hlt]
      · simp [heq, hlt, show ¬ j < n + 1 by omega]

/-- `for (j = 0; j < n; ++j) sum += term(j)`. -/
@[irreducible]
def accumulate {Sum : Type*} [Add Sum] [Zero Sum] (n : ℕ) (term : Fin n → Sum) : Sum :=
  Fin.foldl n (fun sum j ↦ sum + term j) 0

theorem accumulate_succ {Sum : Type*} [Add Sum] [Zero Sum] (term : Fin (n + 1) → Sum) :
    accumulate (n + 1) term = accumulate n (fun j ↦ term j.castSucc) + term (Fin.last n) := by
  unfold accumulate
  rw [Fin.foldl_succ_last]

/-- In a commutative monoid the loop computes the finite sum. -/
theorem accumulate_eq_sum {Sum : Type*} [AddCommMonoid Sum] (term : Fin n → Sum) :
    accumulate n term = ∑ j, term j := by
  induction n with
  | zero => simp [accumulate]
  | succ n ih => rw [accumulate_succ, Fin.sum_univ_castSucc, ih]

end CountedLoop
