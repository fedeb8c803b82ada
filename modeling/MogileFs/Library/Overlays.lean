import Mathlib

/-!
# Writing over a list from its start

`overlay old x` is `old` after `x` has been written over it from its first
position on: what `x` does not reach of `old` stays behind it.

Results:
* `overlay_append`: writing in two pieces is writing at once.
* `foldl_overlay_eq_iff`: after several lists have been written, each from the
  start, the last one alone is there exactly when no earlier one was longer.
-/

namespace Overlays

variable {α : Type*}

/-- `old` after `x` has been written over it from the start. -/
def overlay (old x : List α) : List α := x ++ old.drop x.length

@[simp] theorem overlay_nil (old : List α) : overlay old [] = old := by simp [overlay]

@[simp] theorem nil_overlay (x : List α) : overlay [] x = x := by simp [overlay]

@[simp] theorem length_overlay (old x : List α) :
    (overlay old x).length = max old.length x.length := by
  simp only [overlay, List.length_append, List.length_drop]
  omega

/-- What stands before the end of `x`, then `y`, then what `old` has behind both. -/
theorem overlay_append (old x y : List α) :
    overlay old (x ++ y) =
      (overlay old x).take x.length ++ y ++ (overlay old x).drop (x.length + y.length) := by
  have hbehind : (x ++ old.drop x.length).drop (x.length + y.length) =
      old.drop (x.length + y.length) := by
    rw [List.drop_append, List.drop_eq_nil_of_le (by omega), List.nil_append, List.drop_drop]
    congr 1
    omega
  unfold overlay
  rw [List.take_left, hbehind, List.length_append]

theorem overlay_eq_iff {old x : List α} : overlay old x = x ↔ old.length ≤ x.length := by
  unfold overlay
  rw [List.append_right_eq_self, List.drop_eq_nil_iff]

theorem length_foldl_overlay_le_iff {old : List α} {xs : List (List α)} {n : ℕ} :
    (xs.foldl overlay old).length ≤ n ↔ old.length ≤ n ∧ ∀ x ∈ xs, x.length ≤ n := by
  induction xs generalizing old with
  | nil => simp
  | cons x xs ih =>
    rw [List.foldl_cons, ih, length_overlay, max_le_iff, List.forall_mem_cons, and_assoc]

/-- The list that is written last is there alone when nothing before it was longer. -/
theorem foldl_overlay_eq_iff {old y : List α} {xs : List (List α)} :
    overlay (xs.foldl overlay old) y = y ↔
      old.length ≤ y.length ∧ ∀ x ∈ xs, x.length ≤ y.length := by
  rw [overlay_eq_iff, length_foldl_overlay_le_iff]

end Overlays
