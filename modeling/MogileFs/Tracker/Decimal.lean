import MogileFs.Tracker.CodecLaws

/-!
# Decimal numbers

The text that `%d` writes, and `atoi` and `apr_atoi64`, which read it back. White space is that
of the C locale; a number out of range is clamped by `apr_atoi64` as `strtoll` does it, and
`atoi` keeps the low 32 bits of what `strtol` returns.

Results:
* `isdigit_of_mem_decimalNat`, `decimalNat_ne_nil`: one digit at least, and only digits.
* `urlEncode_decimalNat`: a number goes through the encoder unchanged.
* `aprAtoi64_decimalNat`, `atoi_decimalNat`, `aprAtoi64_decimal`: the round trips.
* `aprAtoi64_cstr`, `atoi_cstr`: what stands behind a NUL is not read.
* `decimalNat_injective`: different numbers have different texts.
-/

namespace MogileFs

/-! ## Reading -/

def isspace (c : Byte) : Bool := c = ch ' ' || (9 ≤ c && c ≤ 13)

/-- The value of a text of digits. -/
def digitsValue (s : Bytes) : ℕ := s.foldl (fun value c => 10 * value + (c - ch '0').toNat) 0

/-- `apr_atoi64`. -/
def aprAtoi64 (buf : Bytes) : ℤ :=
  let buf := buf.dropWhile isspace
  let value (s : Bytes) : ℤ := digitsValue (s.takeWhile isdigit)
  match buf with
  | [] => 0
  | c :: rest =>
    if c = ch '-' then max (-value rest) (-2 ^ 63)
    else if c = ch '+' then min (value rest) (2 ^ 63 - 1)
    else min (value buf) (2 ^ 63 - 1)

/-- `atoi`: `strtol`, cut down to an `int`. -/
def atoi (buf : Bytes) : ℤ := (aprAtoi64 buf).bmod (2 ^ 32)

/-! ## Digits -/

theorem toNat_of_isDigit {c : Char} (hc : c.isDigit) : 48 ≤ c.toNat ∧ c.toNat ≤ 57 := by
  rw [Char.isDigit, Bool.and_eq_true, decide_eq_true_eq, decide_eq_true_eq] at hc
  exact ⟨UInt32.le_iff_toNat_le.mp hc.1, UInt32.le_iff_toNat_le.mp hc.2⟩

/-- A digit as a byte, and its value. -/
theorem isdigit_ch {c : Char} (hc : c.isDigit) :
    isdigit (ch c) ∧ (ch c - ch '0').toNat = c.toNat - 48 := by
  obtain ⟨hlow, hhigh⟩ := toNat_of_isDigit hc
  rw [ch]
  generalize c.toNat = n at hlow hhigh ⊢
  interval_cases n <;> decide

theorem isDigit_of_mem_toDigits {n : ℕ} {c : Char} (h : c ∈ Nat.toDigits 10 n) : c.isDigit :=
  Nat.isDigit_of_mem_toDigits (by decide) (by decide) h

theorem isdigit_of_mem_decimalNat {n : ℕ} {c : Byte} (h : c ∈ decimalNat n) : isdigit c := by
  obtain ⟨d, hd, rfl⟩ := List.mem_map.mp h
  exact (isdigit_ch (isDigit_of_mem_toDigits hd)).1

theorem decimalNat_ne_nil (n : ℕ) : decimalNat n ≠ [] := fun h =>
  Nat.toDigits_ne_nil (List.map_eq_nil_iff.mp h)

theorem notMem_decimalNat (n : ℕ) {c : Byte} (hc : isdigit c = false) : c ∉ decimalNat n := by
  intro h
  rw [isdigit_of_mem_decimalNat h] at hc
  cases hc

theorem unreserved_of_isdigit {c : Byte} (h : isdigit c) : unreserved c := by
  simp [unreserved, isalnum, h]

theorem urlEncode_decimalNat (n : ℕ) : mfsTrackerUrlEncode (decimalNat n) = decimalNat n :=
  (urlEncode_eq_self_iff (notMem_decimalNat n (by decide))).mpr fun _ hc =>
    unreserved_of_isdigit (isdigit_of_mem_decimalNat hc)

/-! ## Round trips -/

theorem digitsValue_decimalNat (n : ℕ) : digitsValue (decimalNat n) = n := by
  have hfold : ∀ (s : List Char) (value : ℕ), (∀ c ∈ s, c.isDigit) →
      (s.map ch).foldl (fun value c => 10 * value + (c - ch '0').toNat) value =
        Nat.ofDigitChars 10 s value := by
    intro s
    induction s with
    | nil => exact fun value _ => Nat.ofDigitChars_nil.symm
    | cons c s ih =>
      intro value hs
      rw [List.map_cons, List.foldl_cons, ih _ fun d hd => hs d (List.mem_cons_of_mem c hd),
        (isdigit_ch (hs c List.mem_cons_self)).2, Nat.ofDigitChars_cons]
      rfl
  rw [digitsValue, decimalNat, hfold _ 0 fun c hc => isDigit_of_mem_toDigits hc,
    Nat.ofDigitChars_ten_toDigits]

theorem decimalNat_injective {m n : ℕ} (h : decimalNat m = decimalNat n) : m = n := by
  rw [← digitsValue_decimalNat m, h, digitsValue_decimalNat]

theorem not_sign_of_isdigit {c : Byte} (h : isdigit c) :
    isspace c = false ∧ c ≠ ch '-' ∧ c ≠ ch '+' := by
  revert c
  decide +kernel

theorem aprAtoi64_decimalNat {n : ℕ} (hn : n < 2 ^ 63) : aprAtoi64 (decimalNat n) = n := by
  have hall : (decimalNat n).takeWhile isdigit = decimalNat n :=
    List.takeWhile_eq_self_iff.mpr fun c hc => isdigit_of_mem_decimalNat hc
  have hvalue := digitsValue_decimalNat n
  have hdigit : ∀ c ∈ decimalNat n, isdigit c := fun c hc => isdigit_of_mem_decimalNat hc
  obtain ⟨c, s, hcs⟩ := List.exists_cons_of_ne_nil (decimalNat_ne_nil n)
  rw [hcs] at hall hvalue hdigit ⊢
  have hc : isdigit c := hdigit c List.mem_cons_self
  obtain ⟨hspace, hminus, hplus⟩ := not_sign_of_isdigit hc
  rw [aprAtoi64, List.dropWhile_cons_of_neg (by simp [hspace])]
  simp only [if_neg hminus, if_neg hplus, hall, hvalue]
  omega

theorem atoi_decimalNat {n : ℕ} (hn : n < 2 ^ 31) : atoi (decimalNat n) = n := by
  rw [atoi, aprAtoi64_decimalNat (by omega)]
  exact Int.bmod_eq_of_le (by omega) (by omega)

theorem aprAtoi64_decimal {n : ℤ} (hlow : -2 ^ 63 ≤ n) (hhigh : n < 2 ^ 63) :
    aprAtoi64 (decimal n) = n := by
  rw [decimal]
  by_cases hneg : n < 0
  · have htext : (decimalNat n.natAbs).takeWhile isdigit = decimalNat n.natAbs :=
      List.takeWhile_eq_self_iff.mpr fun c hc => isdigit_of_mem_decimalNat hc
    rw [if_pos hneg, aprAtoi64, List.dropWhile_cons_of_neg (by decide)]
    simp only [if_pos, htext, digitsValue_decimalNat]
    omega
  · rw [if_neg hneg, aprAtoi64_decimalNat (by omega)]
    omega

/-! ## C strings -/

theorem takeWhile_cstr {p : Byte → Bool} (hp : p 0 = false) (s : Bytes) :
    (cstr s).takeWhile p = s.takeWhile p := by
  rw [cstr, List.takeWhile_takeWhile]
  congr 1
  funext c
  by_cases hc : c = 0
  · simp [hc, hp]
  · simp [hc]

theorem dropWhile_cstr {p : Byte → Bool} (hp : p 0 = false) (s : Bytes) :
    (cstr s).dropWhile p = cstr (s.dropWhile p) := by
  induction s with
  | nil => rfl
  | cons c s ih =>
    by_cases hc : c = 0
    · subst hc
      rw [List.dropWhile_cons_of_neg (by simp [hp])]
      rfl
    · rw [cstr, List.takeWhile_cons_of_pos (by simpa using hc)]
      by_cases hpc : p c
      · rw [List.dropWhile_cons_of_pos hpc, List.dropWhile_cons_of_pos hpc]
        exact ih
      · rw [List.dropWhile_cons_of_neg hpc, List.dropWhile_cons_of_neg hpc, cstr,
          List.takeWhile_cons_of_pos (by simpa using hc)]

theorem aprAtoi64_cstr (s : Bytes) : aprAtoi64 (cstr s) = aprAtoi64 s := by
  have hdigits : ∀ s, (cstr s).takeWhile isdigit = s.takeWhile isdigit := takeWhile_cstr (by decide)
  rw [aprAtoi64, aprAtoi64, dropWhile_cstr (by decide)]
  cases s.dropWhile isspace with
  | nil => rfl
  | cons c rest =>
    by_cases hc : c = 0
    · subst hc
      simp [cstr, ch, isdigit, digitsValue]
    · have hcons : cstr (c :: rest) = c :: cstr rest := by
        rw [cstr, List.takeWhile_cons_of_pos (by simpa using hc)]
        rfl
      have hwhole := hdigits (c :: rest)
      rw [hcons] at hwhole ⊢
      simp only [hdigits, hwhole]

theorem atoi_cstr (s : Bytes) : atoi (cstr s) = atoi s := by
  rw [atoi, atoi, aprAtoi64_cstr]

end MogileFs
