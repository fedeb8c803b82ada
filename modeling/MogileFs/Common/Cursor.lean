import MogileFs.Common.Apr

/-!
# Writing through a `char *`

Memory with a write cursor, and one past the highest position written, so that a
bound on what a function writes is a bound on `top`.
-/

namespace MogileFs

/-- Memory, the position of the cursor in it, and one past the highest position
    written. -/
structure Cursor where
  memory : ℕ → Byte
  pos : ℕ
  top : ℕ

/-- `strcpy(cursor, s)`, with the NUL it writes. -/
def Cursor.strcpy (b : Cursor) (s : Bytes) : Cursor :=
  { b with
    memory := fun i =>
      if b.pos ≤ i ∧ i ≤ b.pos + s.length then s.getD (i - b.pos) 0 else b.memory i
    top := max b.top (b.pos + s.length + 1) }

/-- `cursor += n`. -/
def Cursor.advance (b : Cursor) (n : ℕ) : Cursor := { b with pos := b.pos + n }

/-- `*cursor++ = c`. -/
def Cursor.put (b : Cursor) (c : Byte) : Cursor where
  memory := Function.update b.memory b.pos c
  pos := b.pos + 1
  top := max b.top (b.pos + 1)

/-- `cursor[i] = c` for a position of the memory, the cursor staying where it is. -/
def Cursor.poke (b : Cursor) (i : ℕ) (c : Byte) : Cursor :=
  { b with memory := Function.update b.memory i c, top := max b.top (i + 1) }

/-- What has been written from the beginning is `s`, the cursor stands behind it, and at most
    one byte behind the cursor is written. -/
structure Cursor.Wrote (b : Cursor) (s : Bytes) : Prop where
  pos : b.pos = s.length
  memory : ∀ i < s.length, b.memory i = s.getD i 0
  top : b.top ≤ s.length + 1

theorem Cursor.Wrote.strcpy_advance {b : Cursor} {s : Bytes} (h : b.Wrote s) (t : Bytes) :
    ((b.strcpy t).advance t.length).Wrote (s ++ t) where
  pos := by
    simp only [Cursor.advance, Cursor.strcpy, List.length_append, h.pos]
  memory := by
    intro i hi
    rw [List.length_append] at hi
    simp only [Cursor.advance, Cursor.strcpy, h.pos]
    by_cases hs : i < s.length
    · rw [if_neg (by omega), h.memory i hs, List.getD_append _ _ _ _ hs]
    · rw [if_pos (by omega), List.getD_append_right _ _ _ _ (by omega)]
  top := by
    have := h.top
    simp only [Cursor.advance, Cursor.strcpy, List.length_append, h.pos]
    omega

theorem Cursor.Wrote.put {b : Cursor} {s : Bytes} (h : b.Wrote s) (c : Byte) :
    (b.put c).Wrote (s ++ [c]) where
  pos := by
    simp only [Cursor.put, List.length_append, List.length_singleton, h.pos]
  memory := by
    intro i hi
    rw [List.length_append, List.length_singleton] at hi
    simp only [Cursor.put, h.pos]
    by_cases hs : i < s.length
    · rw [Function.update_of_ne (by omega), h.memory i hs, List.getD_append _ _ _ _ hs]
    · obtain rfl : i = s.length := by omega
      rw [Function.update_self, List.getD_append_right _ _ _ _ le_rfl]
      simp
  top := by
    have := h.top
    simp only [Cursor.put, List.length_append, List.length_singleton, h.pos]
    omega

/-- What has been written, read back. -/
theorem Cursor.Wrote.map_range {b : Cursor} {s : Bytes} (h : b.Wrote s) {t u : Bytes}
    (hs : s = t ++ u) : (List.range t.length).map b.memory = t := by
  refine List.ext_getElem (by simp) fun i hi hit => ?_
  rw [List.length_map, List.length_range] at hi
  rw [List.getElem_map, List.getElem_range, h.memory i (by rw [hs, List.length_append]; omega), hs,
    List.getD_append _ _ _ _ hi, List.getD_eq_getElem _ _ hi]

/-- The memory holds the C string `s` at its beginning. -/
def HoldsString (memory : ℕ → Byte) (s : Bytes) : Prop :=
  (∀ i < s.length, memory i = s.getD i 0) ∧ memory s.length = 0 ∧ (0 : Byte) ∉ s

theorem Cursor.Wrote.holdsString {b : Cursor} {s : Bytes} (h : b.Wrote (s ++ [0]))
    (hs : (0 : Byte) ∉ s) : HoldsString b.memory s := by
  have hlen : (s ++ [(0 : Byte)]).length = s.length + 1 := by simp
  refine ⟨fun i hi => ?_, ?_, hs⟩
  · rw [h.memory i (by omega), List.getD_append _ _ _ _ hi]
  · rw [h.memory _ (by omega), List.getD_append_right _ _ _ _ le_rfl, Nat.sub_self]
    rfl

end MogileFs
