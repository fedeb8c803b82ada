import MogileFs.Library.Pieces
import MogileFs.Tracker.CodecLaws

/-!
# Encoded pairs

The text `k=v&k=v…` with both halves of each pair encoded, which requests are made of and
which trackers answer with.

Results:
* `pieces_encodedPairs`, `splitOn_encodedPairs`: the text taken apart at `&`.
* `takeWhile_encodedPair`, `dropWhile_encodedPair`: a pair taken apart at its first `=`.
* `notMem_encodedPairs`: the characters the text does not have.
-/

namespace MogileFs

open Pieces

/-- `k=v`, both halves encoded. -/
def encodedPair (p : Bytes × Bytes) : Bytes :=
  mfsTrackerUrlEncode p.1 ++ ch '=' :: mfsTrackerUrlEncode p.2

/-- The pairs with `&` between them. -/
def encodedPairs (pairs : List (Bytes × Bytes)) : Bytes :=
  [ch '&'].intercalate (pairs.map encodedPair)

@[simp] theorem encodedPairs_nil : encodedPairs [] = [] := rfl

theorem encodedPairs_cons (p : Bytes × Bytes) {pairs : List (Bytes × Bytes)} (h : pairs ≠ []) :
    encodedPairs (p :: pairs) = encodedPair p ++ ch '&' :: encodedPairs pairs := by
  rw [encodedPairs, List.map_cons, List.intercalate_cons_of_ne_nil (by simpa using h)]
  simp [encodedPairs]

@[simp] theorem encodedPairs_singleton (p : Bytes × Bytes) : encodedPairs [p] = encodedPair p :=
  List.intercalate_singleton

theorem encodedPair_ne_nil (p : Bytes × Bytes) : encodedPair p ≠ [] :=
  List.append_ne_nil_of_right_ne_nil _ (List.cons_ne_nil _ _)

theorem takeWhile_encodedPair (p : Bytes × Bytes) :
    (encodedPair p).takeWhile (· ≠ ch '=') = mfsTrackerUrlEncode p.1 := by
  have hkey : ∀ c ∈ mfsTrackerUrlEncode p.1, (decide (c ≠ ch '=')) = true := fun c hc =>
    decide_eq_true (urlChar_ne (urlChar_of_mem_urlEncode hc) (by decide))
  rw [encodedPair, List.takeWhile_append_of_pos hkey, List.takeWhile_cons_of_neg (by simp),
    List.append_nil]

theorem dropWhile_encodedPair (p : Bytes × Bytes) :
    ((encodedPair p).dropWhile (· ≠ ch '=')).drop 1 = mfsTrackerUrlEncode p.2 := by
  have hkey : ∀ c ∈ mfsTrackerUrlEncode p.1, (decide (c ≠ ch '=')) = true := fun c hc =>
    decide_eq_true (urlChar_ne (urlChar_of_mem_urlEncode hc) (by decide))
  rw [encodedPair, List.dropWhile_append_of_pos hkey, List.dropWhile_cons_of_neg (by simp),
    List.drop_one, List.tail_cons]

theorem notMem_encodedPair (p : Bytes × Bytes) {c : Byte} (hc : urlChar c = false)
    (hequals : c ≠ ch '=') : c ∉ encodedPair p := by
  intro h
  rcases List.mem_append.mp h with h | h
  · exact notMem_urlEncode _ hc h
  · rcases List.mem_cons.mp h with h | h
    · exact hequals h
    · exact notMem_urlEncode _ hc h

theorem notMem_encodedPairs (pairs : List (Bytes × Bytes)) {c : Byte} (hc : urlChar c = false)
    (hequals : c ≠ ch '=') (hand : c ≠ ch '&') : c ∉ encodedPairs pairs := by
  induction pairs with
  | nil => exact List.not_mem_nil
  | cons p pairs ih =>
    by_cases hnil : pairs = []
    · rw [hnil, encodedPairs_singleton]
      exact notMem_encodedPair p hc hequals
    · rw [encodedPairs_cons p hnil]
      intro h
      rcases List.mem_append.mp h with h | h
      · exact notMem_encodedPair p hc hequals h
      · rcases List.mem_cons.mp h with h | h
        · exact hand h
        · exact ih h

theorem and_notMem_encodedPair {pairs : List (Bytes × Bytes)} :
    ∀ piece ∈ pairs.map encodedPair, ch '&' ∉ piece := by
  intro piece hpiece
  obtain ⟨p, -, rfl⟩ := List.mem_map.mp hpiece
  exact notMem_encodedPair p (by decide) (by decide)

theorem splitOn_encodedPairs {pairs : List (Bytes × Bytes)} (h : pairs ≠ []) :
    (encodedPairs pairs).splitOn (ch '&') = pairs.map encodedPair :=
  List.splitOn_intercalate _ and_notMem_encodedPair (by simpa using h)

theorem pieces_encodedPairs (pairs : List (Bytes × Bytes)) :
    pieces (ch '&') (encodedPairs pairs) = pairs.map encodedPair := by
  refine pieces_intercalate and_notMem_encodedPair fun piece hpiece => ?_
  obtain ⟨p, -, rfl⟩ := List.mem_map.mp hpiece
  exact encodedPair_ne_nil p

/-- The first character of the text is that of the first key. -/
theorem head?_encodedPairs {p : Bytes × Bytes} (pairs : List (Bytes × Bytes)) {c : Byte}
    {key : Bytes} (hkey : mfsTrackerUrlEncode p.1 = c :: key) :
    (encodedPairs (p :: pairs)).head? = some c := by
  have hpair : (encodedPair p).head? = some c := by rw [encodedPair, hkey]; rfl
  by_cases hnil : pairs = []
  · rw [hnil, encodedPairs_singleton, hpair]
  · rw [encodedPairs_cons p hnil, List.head?_append, hpair, Option.some_or]

end MogileFs
