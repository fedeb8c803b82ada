import Mathlib

/-!
# Memory whose bounds are checked

A memory is a list, a pointer a position in it. `read` and `write` outside the list are
errors that end the computation, so a computation that ends in `Except.ok` has stayed
inside. What stands in memory from position `i` on is `mem.drop i`; the lemmas are
stated in these terms.

Results:
* `scan_of_drop`, `scanBelow_of_drop`: where a search for the first element without `p`
  ends, when it is sure to find one and when it stops at a given position.
* `drop_set_of_drop`, `write_append`: what a write leaves in front of it and behind it.
* `memmove_front`: a part of the memory moved to its front.
-/

namespace CheckedMemory

/-- An access outside the memory. -/
structure OutOfBounds where
  position : ℕ
deriving DecidableEq

variable {α β : Type}

@[simp] theorem ok_bind (a : α) (f : α → Except OutOfBounds β) : (Except.ok a >>= f) = f a := rfl

/-- `mem[i]`. -/
def read (mem : List α) (i : ℕ) : Except OutOfBounds α :=
  match mem[i]? with
  | none => .error ⟨i⟩
  | some a => .ok a

/-- `mem[i] = a`. -/
def write (mem : List α) (i : ℕ) (a : α) : Except OutOfBounds (List α) :=
  if i < mem.length then .ok (mem.set i a) else .error ⟨i⟩

/-- `n` elements from position `i` on. -/
def readMany (mem : List α) (i : ℕ) : ℕ → Except OutOfBounds (List α)
  | 0 => .ok []
  | n + 1 => do
    let a ← read mem i
    let rest ← readMany mem (i + 1) n
    return a :: rest

/-- Consecutive writes from position `i` on. -/
def writeMany (mem : List α) (i : ℕ) : List α → Except OutOfBounds (List α)
  | [] => .ok mem
  | x :: xs => do writeMany (← write mem i x) (i + 1) xs

/-- `memmove(mem + dst, mem + src, n)`. -/
def memmove (mem : List α) (dst src n : ℕ) : Except OutOfBounds (List α) := do
  writeMany mem dst (← readMany mem src n)

/-- The first position from `i` on whose element does not have `p`. -/
def scan (p : α → Bool) (mem : List α) (i : ℕ) : Except OutOfBounds ℕ :=
  match _h : mem[i]? with
  | none => .error ⟨i⟩
  | some a => if p a then scan p mem (i + 1) else .ok i
termination_by mem.length - i
decreasing_by
  have := (List.getElem?_eq_some_iff.mp _h).1
  omega

/-- The same, going no further than `stop`. -/
def scanBelow (p : α → Bool) (mem : List α) (stop i : ℕ) : Except OutOfBounds ℕ :=
  if i < stop then do
    if p (← read mem i) then scanBelow p mem stop (i + 1) else return i
  else .ok i
termination_by stop - i

/-! ## Reading -/

variable {mem : List α} {i : ℕ}

theorem getElem?_of_drop {a : α} {rest : List α} (h : mem.drop i = a :: rest) :
    mem[i]? = some a := by
  have hzero : (mem.drop i)[0]? = mem[i + 0]? := List.getElem?_drop
  rw [h] at hzero
  simpa using hzero.symm

/-- What stands behind the first `xs`. -/
theorem drop_of_drop {xs rest : List α} (h : mem.drop i = xs ++ rest) :
    mem.drop (i + xs.length) = rest := by
  rw [← List.drop_drop, h, List.drop_left]

theorem drop_of_drop_cons {a : α} {rest : List α} (h : mem.drop i = a :: rest) :
    mem.drop (i + 1) = rest :=
  have hone : mem.drop i = [a] ++ rest := h
  drop_of_drop hone

theorem read_of_drop {a : α} {rest : List α} (h : mem.drop i = a :: rest) :
    read mem i = .ok a := by
  rw [read, getElem?_of_drop h]

theorem readMany_of_drop {xs rest : List α} (h : mem.drop i = xs ++ rest) :
    readMany mem i xs.length = .ok xs := by
  induction xs generalizing i with
  | nil => rfl
  | cons x xs ih =>
    rw [List.length_cons, readMany, read_of_drop h, ok_bind, ih (drop_of_drop_cons h)]
    rfl

/-! ## Searching -/

/-- A search that comes to an element without `p`. -/
theorem scan_of_drop {p : α → Bool} {xs rest : List α} {b : α} (h : mem.drop i = xs ++ b :: rest)
    (hxs : ∀ x ∈ xs, p x) (hb : ¬p b) : scan p mem i = .ok (i + xs.length) := by
  induction xs generalizing i with
  | nil =>
    rw [scan]
    split
    · rename_i hnone
      rw [getElem?_of_drop h] at hnone
      cases hnone
    · rename_i a hsome
      rw [getElem?_of_drop h, Option.some.injEq] at hsome
      rw [← hsome, if_neg hb]
      rfl
  | cons x xs ih =>
    have hget := getElem?_of_drop h
    rw [scan]
    split
    · rename_i hnone
      rw [hget] at hnone
      cases hnone
    · rename_i a hsome
      rw [hget, Option.some.injEq] at hsome
      rw [← hsome, if_pos (hxs x List.mem_cons_self),
        ih (drop_of_drop_cons h) fun y hy => hxs y (List.mem_cons_of_mem x hy), List.length_cons]
      congr 1
      omega

/-- Where a search ends is inside the memory, and not before its start. -/
theorem scan_bounds {p : α → Bool} {j : ℕ} (h : scan p mem i = .ok j) : i ≤ j ∧ j < mem.length := by
  induction i using scan.induct p mem with
  | case1 i hnone =>
    rw [scan] at h
    split at h
    · cases h
    · rename_i a hsome
      rw [hnone] at hsome
      cases hsome
  | case2 i a hsome hp ih =>
    rw [scan] at h
    split at h
    · cases h
    · rename_i b hb
      rw [hsome, Option.some.injEq] at hb
      rw [← hb, if_pos hp] at h
      exact ⟨by have := (ih h).1; omega, (ih h).2⟩
  | case3 i a hsome hp =>
    rw [scan] at h
    split at h
    · cases h
    · rename_i b hb
      rw [hsome, Option.some.injEq] at hb
      rw [← hb, if_neg hp, Except.ok.injEq] at h
      rw [← h]
      exact ⟨le_rfl, (List.getElem?_eq_some_iff.mp hsome).1⟩

theorem scan_of_length_le (p : α → Bool) (h : mem.length ≤ i) : scan p mem i = .error ⟨i⟩ := by
  have hnone : mem[i]? = none := List.getElem?_eq_none h
  rw [scan]
  split
  · rfl
  · rename_i a hsome
    rw [hnone] at hsome
    cases hsome

/-- A search in the `xs` in front of `stop`. -/
theorem scanBelow_of_drop {p : α → Bool} {xs rest : List α} (h : mem.drop i = xs ++ rest)
    {stop : ℕ} (hstop : stop = i + xs.length) :
    scanBelow p mem stop i = .ok (i + (xs.takeWhile p).length) := by
  induction xs generalizing i with
  | nil =>
    rw [scanBelow, if_neg (by simp [hstop])]
    rfl
  | cons x xs ih =>
    rw [List.length_cons] at hstop
    rw [scanBelow, if_pos (by omega), read_of_drop h, ok_bind]
    by_cases hx : p x
    · rw [if_pos hx, ih (drop_of_drop_cons h) (by omega), List.takeWhile_cons_of_pos hx,
        List.length_cons]
      congr 1
      omega
    · rw [if_neg hx, List.takeWhile_cons_of_neg hx]
      rfl

/-! ## Writing -/

theorem write_of_drop {a b : α} {rest : List α} (h : mem.drop i = a :: rest) :
    write mem i b = .ok (mem.set i b) := by
  have hi : i < mem.length := (List.getElem?_eq_some_iff.mp (getElem?_of_drop h)).1
  rw [write, if_pos hi]

/-- What stands from a position at or before the write on. -/
theorem drop_set_of_drop {xs rest : List α} {a : α} (b : α) (h : mem.drop i = xs ++ a :: rest)
    {j : ℕ} (hj : j = i + xs.length) : (mem.set j b).drop i = xs ++ b :: rest := by
  rw [List.drop_set, if_neg (by omega), h, hj, Nat.add_sub_cancel_left,
    List.set_append_right _ _ le_rfl, Nat.sub_self]
  rfl

/-- A write right behind what has been written. -/
theorem write_append (xs : List α) {ys : List α} (h : 0 < ys.length) (b : α) :
    write (xs ++ ys) xs.length b = .ok (xs ++ [b] ++ ys.drop 1) := by
  cases ys with
  | nil => exact absurd h (Nat.lt_irrefl 0)
  | cons y ys =>
    have hdrop : (xs ++ y :: ys).drop xs.length = y :: ys := List.drop_left
    rw [write_of_drop hdrop, List.set_append_right _ _ le_rfl, Nat.sub_self, List.append_assoc]
    rfl

theorem writeMany_append {front ys : List α} (xs : List α) (h : xs.length ≤ ys.length) :
    writeMany (front ++ ys) front.length xs = .ok (front ++ (xs ++ ys.drop xs.length)) := by
  induction xs generalizing front ys with
  | nil => rfl
  | cons x xs ih =>
    rw [List.length_cons] at h
    have hnext : writeMany (front ++ [x] ++ ys.drop 1) (front ++ [x]).length xs =
        .ok (front ++ [x] ++ (xs ++ (ys.drop 1).drop xs.length)) :=
      ih (by rw [List.length_drop]; omega)
    rw [List.length_append, List.length_singleton, List.drop_drop] at hnext
    rw [writeMany, write_append _ (by omega), ok_bind, hnext, List.length_cons, Nat.add_comm 1]
    simp

/-- What stands at `src` moved to the front of the memory. -/
theorem memmove_front {src : ℕ} {xs rest : List α} (h : mem.drop src = xs ++ rest) :
    memmove mem 0 src xs.length = .ok (xs ++ mem.drop xs.length) := by
  have hlen : xs.length ≤ mem.length := by
    have := congrArg List.length h
    rw [List.length_drop, List.length_append] at this
    omega
  have hwrite : writeMany ([] ++ mem) ([] : List α).length xs =
      .ok ([] ++ (xs ++ mem.drop xs.length)) := writeMany_append xs hlen
  rw [memmove, readMany_of_drop h, ok_bind]
  exact hwrite

end CheckedMemory
