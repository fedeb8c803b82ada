import Mathlib

/-!
# The first entries of an array in memory

An array is the memory it stands in, `ℕ → α`, and `cells a n` lists its first
`n` entries. What lies at or above `n` is memory the list does not use.

Results: `cells` after a store at its end (`cells_update_end`), after a store
elsewhere (`cells_update_of_le`), and after the entries above one position have
been moved down over it (`cells_shift`, `cells_shift_erase`).
-/

namespace Cells

variable {α : Type*}

/-- The first `n` entries of the array `a`. -/
def cells (a : ℕ → α) (n : ℕ) : List α := (List.range n).map a

@[simp] theorem cells_zero (a : ℕ → α) : cells a 0 = [] := rfl

@[simp] theorem length_cells (a : ℕ → α) (n : ℕ) : (cells a n).length = n := by simp [cells]

theorem cells_succ (a : ℕ → α) (n : ℕ) : cells a (n + 1) = cells a n ++ [a n] := by
  simp [cells, List.range_succ]

theorem mem_cells {a : ℕ → α} {n : ℕ} {x : α} : x ∈ cells a n ↔ ∃ i < n, a i = x := by
  simp [cells]

theorem cells_congr {a b : ℕ → α} {n : ℕ} (h : ∀ i < n, a i = b i) : cells a n = cells b n :=
  List.map_congr_left fun i hi => h i (List.mem_range.mp hi)

theorem cells_add (a : ℕ → α) (m n : ℕ) : cells a (m + n) = cells a m ++ cells (fun i => a (m + i)) n := by
  simp [cells, List.range_add, Function.comp_def]

theorem cells_update_of_le {a : ℕ → α} {n k : ℕ} (h : n ≤ k) (x : α) :
    cells (Function.update a k x) n = cells a n :=
  cells_congr fun i hi => Function.update_of_ne (by omega) _ _

theorem cells_update_end (a : ℕ → α) (n : ℕ) (x : α) :
    cells (Function.update a n x) (n + 1) = cells a n ++ [x] := by
  rw [cells_succ, cells_update_of_le le_rfl, Function.update_self]

/-- The entries above position `k` moved down by one. -/
theorem cells_shift {a b : ℕ → α} {k n : ℕ} (hlow : ∀ i < k, b i = a i)
    (hhigh : ∀ i, k ≤ i → i < k + n → b i = a (i + 1)) :
    cells b (k + n) = cells a k ++ cells (fun i => a (k + 1 + i)) n := by
  rw [cells_add, cells_congr hlow]
  congr 1
  refine cells_congr fun i hi => ?_
  rw [hhigh (k + i) (by omega) (by omega)]
  congr 1; omega

/-- When `k` is the first position of `x`, moving the entries above it down
    erases `x`. -/
theorem cells_shift_erase [DecidableEq α] {a b : ℕ → α} {k n : ℕ} {x : α} (hk : k < n)
    (hx : a k = x) (hfirst : ∀ i < k, a i ≠ x) (hlow : ∀ i < k, b i = a i)
    (hhigh : ∀ i, k ≤ i → i < n → b i = a (i + 1)) : cells b (n - 1) = (cells a n).erase x := by
  obtain ⟨m, rfl⟩ : ∃ m, n = k + 1 + m := ⟨n - (k + 1), by omega⟩
  have hnot : x ∉ cells a k := fun h => by
    obtain ⟨i, hi, hxi⟩ := mem_cells.mp h
    exact hfirst i hi hxi
  rw [show k + 1 + m - 1 = k + m by omega, cells_shift hlow fun i h1 h2 => hhigh i h1 (by omega),
    cells_add a (k + 1) m, cells_succ, List.append_assoc, hx, List.erase_append_right _ hnot]
  simp

end Cells
