import Mathlib

/-!
# Maps updated by a sequence of key/value pairs

A map is a function `κ → Option ν`. `setAll m ps` writes the pairs of `ps` into
`m` from left to right, so the last pair of a key wins.

Results:
* `setAll_apply`: what `setAll` leaves at a key is the last value the pairs
  give it, or else the old value.
* `setAll_setAll_eq_iff`: writing `ps` before `qs` makes no difference exactly
  when every key of `ps` is written again by `qs` or already had its last
  value in `ps`.
-/

namespace KeyedUpdates

variable {κ ν : Type*} [DecidableEq κ]

/-- `m` with the value at `k` set to `v`. -/
def set (m : κ → Option ν) (k : κ) (v : ν) : κ → Option ν := Function.update m k (some v)

@[simp] theorem set_self (m : κ → Option ν) (k : κ) (v : ν) : set m k v k = some v := by
  simp [set]

theorem set_of_ne (m : κ → Option ν) {k k' : κ} (v : ν) (h : k' ≠ k) : set m k v k' = m k' := by
  simp [set, h]

/-- The pairs written from left to right. -/
def setAll (m : κ → Option ν) (ps : List (κ × ν)) : κ → Option ν :=
  ps.foldl (fun m p => set m p.1 p.2) m

@[simp] theorem setAll_nil (m : κ → Option ν) : setAll m [] = m := rfl

@[simp] theorem setAll_cons (m : κ → Option ν) (p : κ × ν) (ps : List (κ × ν)) :
    setAll m (p :: ps) = setAll (set m p.1 p.2) ps := rfl

theorem setAll_append (m : κ → Option ν) (ps qs : List (κ × ν)) :
    setAll m (ps ++ qs) = setAll (setAll m ps) qs := List.foldl_append

/-- The value the last pair with key `k` carries. -/
def lastValue : List (κ × ν) → κ → Option ν
  | [], _ => none
  | p :: ps, k => (lastValue ps k).or (if p.1 = k then some p.2 else none)

@[simp] theorem lastValue_nil (k : κ) : lastValue ([] : List (κ × ν)) k = none := rfl

theorem lastValue_append (ps qs : List (κ × ν)) (k : κ) :
    lastValue (ps ++ qs) k = (lastValue qs k).or (lastValue ps k) := by
  induction ps with
  | nil => simp
  | cons p ps ih => simp only [List.cons_append, lastValue, ih, Option.or_assoc]

theorem setAll_apply (m : κ → Option ν) (ps : List (κ × ν)) (k : κ) :
    setAll m ps k = (lastValue ps k).or (m k) := by
  induction ps generalizing m with
  | nil => simp
  | cons p ps ih =>
    rw [setAll_cons, ih, lastValue, Option.or_assoc]
    by_cases h : p.1 = k
    · subst h; simp
    · rw [set_of_ne _ _ (Ne.symm h)]; simp [h]

theorem lastValue_eq_none_iff (ps : List (κ × ν)) (k : κ) :
    lastValue ps k = none ↔ k ∉ ps.map Prod.fst := by
  induction ps with
  | nil => simp
  | cons p ps ih =>
    simp only [lastValue, Option.or_eq_none_iff, ih, List.map_cons, List.mem_cons, not_or]
    by_cases h : p.1 = k
    · subst h; simp
    · simp [h, Ne.symm h]

theorem lastValue_mem {ps : List (κ × ν)} {k : κ} {v : ν} (h : lastValue ps k = some v) :
    (k, v) ∈ ps := by
  induction ps with
  | nil => simp at h
  | cons p ps ih =>
    rw [lastValue] at h
    cases hl : lastValue ps k with
    | some w =>
      rw [hl] at h
      exact List.mem_cons_of_mem _ (ih (by rw [hl]; simpa using h))
    | none =>
      rw [hl] at h
      obtain ⟨a, b⟩ := p
      by_cases hk : a = k
      · subst hk
        obtain rfl : b = v := by simpa using h
        exact List.mem_cons_self
      · simp [hk] at h

/-- Where every key occurs once, each has its own value. -/
theorem lastValue_of_nodup {ps : List (κ × ν)} (h : (ps.map Prod.fst).Nodup) {k : κ} {v : ν}
    (hmem : (k, v) ∈ ps) : lastValue ps k = some v := by
  induction ps with
  | nil => cases hmem
  | cons p ps ih =>
    rw [List.map_cons, List.nodup_cons] at h
    rw [lastValue]
    rcases List.mem_cons.mp hmem with rfl | hmem
    · rw [(lastValue_eq_none_iff ps k).mpr h.1, Option.none_or, if_pos rfl]
    · rw [ih h.2 hmem, Option.some_or]

/-- Keys that are renamed without two of them becoming one. -/
theorem lastValue_map {κ' : Type*} [DecidableEq κ'] {f : κ → κ'} {ps : List (κ × ν)} {k : κ}
    (hf : ∀ p ∈ ps, f p.1 = f k → p.1 = k) :
    lastValue (ps.map fun p => (f p.1, p.2)) (f k) = lastValue ps k := by
  induction ps with
  | nil => rfl
  | cons p ps ih =>
    rw [List.map_cons, lastValue, lastValue, ih fun q hq => hf q (List.mem_cons_of_mem p hq)]
    by_cases h : p.1 = k
    · rw [if_pos (congrArg f h), if_pos h]
    · rw [if_neg (mt (hf p List.mem_cons_self) h), if_neg h]

/-- The pairs that `k` takes its value from, when `ps` has any for it. -/
theorem setAll_of_lastValue (m : κ → Option ν) {ps : List (κ × ν)} {k : κ} {v : ν}
    (h : lastValue ps k = some v) : setAll m ps k = some v := by
  rw [setAll_apply, h, Option.some_or]

/-- A first sequence of writes leaves no trace below a second one exactly when
    each of its keys is written again or kept the value it had. -/
theorem setAll_setAll_eq_iff (m : κ → Option ν) (ps qs : List (κ × ν)) :
    setAll (setAll m ps) qs = setAll m qs ↔
      ∀ k v, lastValue ps k = some v → k ∈ qs.map Prod.fst ∨ m k = some v := by
  constructor
  · intro h k v hv
    by_cases hk : k ∈ qs.map Prod.fst
    · exact Or.inl hk
    · have hq := (lastValue_eq_none_iff qs k).mpr hk
      have := congrFun h k
      rw [setAll_apply, setAll_apply m qs, hq, Option.none_or, Option.none_or, setAll_apply, hv,
        Option.some_or] at this
      exact Or.inr this.symm
  · intro h
    funext k
    rw [setAll_apply, setAll_apply, setAll_apply]
    cases hv : lastValue ps k with
    | none => rfl
    | some v =>
      rcases h k v hv with hk | hm
      · have hq : lastValue qs k ≠ none := fun hn => (lastValue_eq_none_iff qs k).mp hn hk
        obtain ⟨w, hw⟩ := Option.ne_none_iff_exists'.mp hq
        rw [hw]; simp
      · rw [hm]; simp

end KeyedUpdates
