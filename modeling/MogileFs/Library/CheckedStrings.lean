import MogileFs.Library.CheckedMemory

/-!
# Strings in checked memory

A string is what stands in memory in front of the first `nul`. `strlen`, `strcspn` and
`strstr` read through `CheckedMemory`, so where memory ends right behind the `nul`, a
call that ends in `Except.ok` has not gone past it.

Results:
* `strlen_of_drop`, `strcspn_of_drop`, `strstr_of_none`, `strstr_of_some`: what they
  compute on a string, in terms of the list of its elements.
* `behindFirst_append`, `behindFirst_eq_none`: what stands behind the first occurrence
  of a needle, and when there is none.
* `scan_cstring`: a search in a string.
-/

namespace CheckedMemory

variable {α : Type} [DecidableEq α]

/-! ## The functions -/

/-- `strlen(mem + i)`. -/
def strlen (nul : α) (mem : List α) (i : ℕ) : Except OutOfBounds ℕ := do
  return (← scan (· ≠ nul) mem i) - i

/-- `strcspn(mem + i, reject)`. -/
def strcspn (nul : α) (reject mem : List α) (i : ℕ) : Except OutOfBounds ℕ := do
  return (← scan (fun a => a ≠ nul ∧ a ∉ reject) mem i) - i

/-- Whether `needle` stands at position `i`, read as far as it takes to tell. -/
def matchesAt (mem : List α) : List α → ℕ → Except OutOfBounds Bool
  | [], _ => .ok true
  | a :: needle, i => do
    if (← read mem i) = a then matchesAt mem needle (i + 1) else return false

/-- `strstr(mem + i, needle)` for a needle that is not empty: the position of its first
    occurrence. -/
def strstr (nul : α) (needle mem : List α) (i : ℕ) : Except OutOfBounds (Option ℕ) :=
  match _h : mem[i]? with
  | none => .error ⟨i⟩
  | some a => do
    if ← matchesAt mem needle i then return some i
    else if a = nul then return none
    else strstr nul needle mem (i + 1)
termination_by mem.length - i
decreasing_by
  have := (List.getElem?_eq_some_iff.mp _h).1
  omega

/-! ## Searching a list -/

/-- What stands behind the first occurrence of `needle`. -/
def behindFirst (needle : List α) : List α → Option (List α)
  | [] => if needle <+: [] then some [] else none
  | x :: xs =>
    if needle <+: x :: xs then some ((x :: xs).drop needle.length) else behindFirst needle xs

theorem behindFirst_append {needle xs t : List α} (h : behindFirst needle xs = some t) :
    ∃ front, xs = front ++ (needle ++ t) := by
  induction xs with
  | nil =>
    rw [behindFirst] at h
    split_ifs at h with hnil
    obtain rfl := List.prefix_nil.mp hnil
    cases h
    exact ⟨[], rfl⟩
  | cons x xs ih =>
    rw [behindFirst] at h
    split_ifs at h with hhere
    · obtain ⟨rest, hrest⟩ := hhere
      rw [← hrest, List.drop_left, Option.some.injEq] at h
      exact ⟨[], by rw [← h, ← hrest, List.nil_append]⟩
    · obtain ⟨front, hfront⟩ := ih h
      exact ⟨x :: front, by rw [hfront, List.cons_append]⟩

theorem behindFirst_eq_none {needle xs : List α} :
    behindFirst needle xs = none ↔ ¬ needle <:+: xs := by
  induction xs with
  | nil =>
    rw [behindFirst, List.infix_nil]
    split_ifs with hnil
    · simp [List.prefix_nil.mp hnil]
    · simpa [List.prefix_nil] using hnil
  | cons x xs ih =>
    rw [behindFirst, List.infix_cons_iff]
    split_ifs with hhere
    · simp [hhere]
    · simp [hhere, ih]

/-! ## What they compute -/

variable {mem : List α} {i : ℕ} {nul : α}

omit [DecidableEq α] in
/-- A string up to its first element without `p`, or to its end. -/
theorem cstring_split (nul : α) (p : α → Bool) (s rest : List α) :
    ∃ b rest', s ++ nul :: rest = s.takeWhile p ++ b :: rest' ∧
      (s.dropWhile p = [] ∧ b = nul ∧ rest' = rest ∨
        ∃ s', s.dropWhile p = b :: s' ∧ ¬p b ∧ rest' = s' ++ nul :: rest) := by
  have hsplit := List.takeWhile_append_dropWhile (p := p) (l := s)
  cases hdrop : s.dropWhile p with
  | nil =>
    rw [hdrop, List.append_nil] at hsplit
    exact ⟨nul, rest, by rw [hsplit], Or.inl ⟨rfl, rfl, rfl⟩⟩
  | cons b s' =>
    refine ⟨b, s' ++ nul :: rest, ?_, Or.inr ⟨s', rfl, ?_, rfl⟩⟩
    · rw [hdrop] at hsplit
      nth_rewrite 1 [← hsplit]
      simp
    · have := List.head?_dropWhile_not p s
      rw [hdrop] at this
      simpa using this

/-- A search in a string for the first element without `p`. -/
theorem scan_cstring {p q : α → Bool} {s rest : List α} (h : mem.drop i = s ++ nul :: rest)
    (hs : nul ∉ s) (hq : ∀ b, q b = (b ≠ nul && p b)) :
    scan q mem i = .ok (i + (s.takeWhile p).length) := by
  obtain ⟨b, rest', hsplit, hb⟩ := cstring_split nul p s rest
  refine scan_of_drop (h.trans hsplit) (fun x hx => ?_) ?_
  · have hne : x ≠ nul := fun h0 => hs (h0 ▸ (List.takeWhile_prefix p).subset hx)
    simp [hq, hne, List.mem_takeWhile_imp hx]
  · rcases hb with ⟨-, rfl, -⟩ | ⟨s', -, hp, -⟩
    · simp [hq]
    · simp [hq, hp]

theorem strlen_of_drop {xs rest : List α} (h : mem.drop i = xs ++ nul :: rest) (hxs : nul ∉ xs) :
    strlen nul mem i = .ok xs.length := by
  rw [strlen, scan_cstring (p := fun _ => true) h hxs (fun b => by simp), ok_bind,
    Nat.add_sub_cancel_left, List.takeWhile_eq_self_iff.mpr fun _ _ => rfl]
  rfl

theorem strlen_of_length_le (h : mem.length ≤ i) : strlen nul mem i = .error ⟨i⟩ := by
  rw [strlen, scan_of_length_le _ h]
  rfl

theorem strcspn_of_drop {reject xs rest : List α} (h : mem.drop i = xs ++ nul :: rest)
    (hxs : nul ∉ xs) :
    strcspn nul reject mem i = .ok (xs.takeWhile (· ∉ reject)).length := by
  rw [strcspn, scan_cstring (p := (· ∉ reject)) h hxs (fun b => by simp), ok_bind,
    Nat.add_sub_cancel_left]
  rfl

theorem matchesAt_of_drop {needle xs rest : List α} (h : mem.drop i = xs ++ nul :: rest)
    (hneedle : nul ∉ needle) : matchesAt mem needle i = .ok (decide (needle <+: xs)) := by
  induction needle generalizing i xs with
  | nil => simp [matchesAt]
  | cons a needle ih =>
    have hne : nul ≠ a := fun heq => hneedle (heq ▸ List.mem_cons_self)
    cases xs with
    | nil =>
      rw [matchesAt, read_of_drop h, ok_bind, if_neg hne]
      simp
      rfl
    | cons x xs =>
      rw [matchesAt, read_of_drop h, ok_bind]
      by_cases hx : x = a
      · rw [if_pos hx, ih (drop_of_drop_cons h) fun hmem => hneedle (List.mem_cons_of_mem a hmem)]
        simp [hx, List.cons_prefix_cons]
      · rw [if_neg hx]
        simp [List.cons_prefix_cons, Ne.symm hx]
        rfl

/-- One pass of the search. -/
theorem strstr_of_drop {needle xs rest : List α} {a : α} {more : List α}
    (h : mem.drop i = xs ++ nul :: rest) (hhead : xs ++ nul :: rest = a :: more)
    (hneedle : nul ∉ needle) :
    strstr nul needle mem i =
      if needle <+: xs then .ok (some i)
      else if a = nul then .ok none
      else strstr nul needle mem (i + 1) := by
  have hget : mem[i]? = some a := getElem?_of_drop (h.trans hhead)
  rw [strstr]
  split
  · rename_i hnone
    rw [hget] at hnone
    cases hnone
  · rename_i b hsome
    rw [hget, Option.some.injEq] at hsome
    rw [← hsome, matchesAt_of_drop h hneedle, ok_bind]
    by_cases hhere : needle <+: xs <;> simp [hhere] <;> rfl

theorem strstr_of_none {needle xs rest : List α} (h : mem.drop i = xs ++ nul :: rest)
    (hxs : nul ∉ xs) (hneedle : nul ∉ needle) (hnone : behindFirst needle xs = none) :
    strstr nul needle mem i = .ok none := by
  induction xs generalizing i with
  | nil =>
    rw [behindFirst] at hnone
    split_ifs at hnone with hhere
    rw [strstr_of_drop h rfl hneedle, if_neg hhere, if_pos rfl]
  | cons x xs ih =>
    rw [behindFirst] at hnone
    split_ifs at hnone with hhere
    have hx : x ≠ nul := fun heq => hxs (heq ▸ List.mem_cons_self)
    rw [strstr_of_drop h rfl hneedle, if_neg hhere, if_neg hx]
    exact ih (drop_of_drop_cons h) (fun hmem => hxs (List.mem_cons_of_mem x hmem)) hnone

theorem strstr_of_some {needle xs rest t : List α} (h : mem.drop i = xs ++ nul :: rest)
    (hxs : nul ∉ xs) (hneedle : nul ∉ needle) (hsome : behindFirst needle xs = some t) :
    ∃ j, strstr nul needle mem i = .ok (some j) ∧
      mem.drop (j + needle.length) = t ++ nul :: rest := by
  induction xs generalizing i with
  | nil =>
    rw [behindFirst] at hsome
    split_ifs at hsome with hhere
    obtain rfl := List.prefix_nil.mp hhere
    cases hsome
    exact ⟨i, by rw [strstr_of_drop h rfl hneedle, if_pos hhere], h⟩
  | cons x xs ih =>
    rw [behindFirst] at hsome
    split_ifs at hsome with hhere
    · refine ⟨i, by rw [strstr_of_drop h rfl hneedle, if_pos hhere], ?_⟩
      obtain ⟨tail, htail⟩ := hhere
      rw [← htail, List.drop_left, Option.some.injEq] at hsome
      rw [← htail, hsome, List.append_assoc] at h
      exact drop_of_drop h
    · have hx : x ≠ nul := fun heq => hxs (heq ▸ List.mem_cons_self)
      obtain ⟨j, hj, hdrop⟩ :=
        ih (drop_of_drop_cons h) (fun hmem => hxs (List.mem_cons_of_mem x hmem)) hsome
      refine ⟨j, ?_, hdrop⟩
      rw [strstr_of_drop h rfl hneedle, if_neg hhere, if_neg hx]
      exact hj

end CheckedMemory
