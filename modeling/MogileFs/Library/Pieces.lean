import Mathlib

/-!
# The pieces of a list between separators

`pieces sep s` are the non-empty stretches of `s` without `sep`, in order: what a
tokenizer that treats runs of separators as one returns call after call.

Results:
* `pieces_eq`: the first piece and the pieces of what follows it, in terms of
  `dropWhile` and `takeWhile`, as a tokenizer computes them.
* `pieces_intercalate`: taking apart what was joined.
-/

namespace Pieces

variable {α : Type*} [DecidableEq α]

/-- The non-empty stretches of `s` between occurrences of `sep`. -/
def pieces (sep : α) (s : List α) : List (List α) := (s.splitOn sep).filter (· ≠ [])

@[simp] theorem pieces_nil (sep : α) : pieces sep [] = [] := by
  simp [pieces, List.splitOn_eq_splitOnP]

theorem pieces_append_cons (sep : α) (s t : List α) :
    pieces sep (s ++ sep :: t) = pieces sep s ++ pieces sep t := by
  unfold pieces
  rw [List.splitOn_eq_splitOnP, List.splitOnP_append_cons s t (by simp), List.filter_append]
  rfl

/-- A separator at the front belongs to no piece. -/
theorem pieces_cons_sep (sep : α) (s : List α) : pieces sep (sep :: s) = pieces sep s := by
  simpa using pieces_append_cons sep [] s

theorem pieces_of_notMem {sep : α} {s : List α} (h : sep ∉ s) (hs : s ≠ []) :
    pieces sep s = [s] := by
  unfold pieces
  rw [List.splitOn_eq_singleton h]
  simp [hs]

theorem pieces_dropWhile (sep : α) (s : List α) :
    pieces sep (s.dropWhile (· = sep)) = pieces sep s := by
  induction s with
  | nil => rfl
  | cons a s ih =>
    by_cases h : a = sep
    · subst h
      rw [List.dropWhile_cons_of_pos (by simp), ih, pieces_cons_sep]
    · rw [List.dropWhile_cons_of_neg (by simpa using h)]

/-- A list that starts with a piece: the piece, and the pieces behind the
    separator that ends it. -/
theorem pieces_cons_of_ne {sep a : α} {s : List α} (h : a ≠ sep) :
    pieces sep (a :: s) = (a :: s).takeWhile (· ≠ sep) ::
      pieces sep (((a :: s).dropWhile (· ≠ sep)).drop 1) := by
  have hpiece : sep ∉ (a :: s).takeWhile (· ≠ sep) := fun hmem => by
    simpa using List.mem_takeWhile_imp hmem
  have hne : (a :: s).takeWhile (· ≠ sep) ≠ [] := by
    rw [List.takeWhile_cons_of_pos (by simpa using h)]
    exact List.cons_ne_nil _ _
  have hsplit := List.takeWhile_append_dropWhile (p := (· ≠ sep)) (l := a :: s)
  cases hrest : (a :: s).dropWhile (· ≠ sep) with
  | nil =>
    rw [hrest, List.append_nil] at hsplit
    rw [hsplit] at hpiece hne ⊢
    rw [pieces_of_notMem hpiece hne]
    rfl
  | cons b t =>
    have hb : b = sep := by
      have := List.head?_dropWhile_not (· ≠ sep) (a :: s)
      rw [hrest] at this
      simpa using this
    subst hb
    rw [hrest] at hsplit
    rw [← hsplit, pieces_append_cons, pieces_of_notMem hpiece hne, hsplit]
    rfl

/-- How a tokenizer finds the pieces. -/
theorem pieces_eq (sep : α) (s : List α) :
    pieces sep s =
      if s.dropWhile (· = sep) = [] then []
      else (s.dropWhile (· = sep)).takeWhile (· ≠ sep) ::
        pieces sep (((s.dropWhile (· = sep)).dropWhile (· ≠ sep)).drop 1) := by
  rw [← pieces_dropWhile]
  split_ifs with h
  · rw [h, pieces_nil]
  · obtain ⟨a, t, hat⟩ := List.exists_cons_of_ne_nil h
    have ha : a ≠ sep := by
      have := List.head?_dropWhile_not (· = sep) s
      rw [hat] at this
      simpa using this
    rw [hat]
    exact pieces_cons_of_ne ha

/-- Non-empty pieces without separator, joined by it. -/
theorem pieces_intercalate {sep : α} {ps : List (List α)} (hsep : ∀ p ∈ ps, sep ∉ p)
    (hne : ∀ p ∈ ps, p ≠ []) : pieces sep ([sep].intercalate ps) = ps := by
  by_cases hnil : ps = []
  · rw [hnil, List.intercalate_nil, pieces_nil]
  · rw [pieces, List.splitOn_intercalate sep hsep hnil, List.filter_eq_self]
    simpa using hne

end Pieces
