import MogileFs.Library.KeyedUpdates

/-!
# The parts of APR the library is written against

Byte strings, status codes, hashes of C strings, `apr_strtok`, one
`apr_socket_recv` call and times. `char` is a byte; a C string inside a larger buffer is
what stands before the first NUL (`cstr`).
-/

namespace MogileFs

/-- `char`. -/
abbrev Byte := UInt8

abbrev Bytes := List Byte

/-- The bytes of a C string literal. -/
def str (s : String) : Bytes := s.toList.map fun c => c.toNat.toUInt8

/-- `'\n'`. -/
abbrev LF : Byte := 10

/-- `'\r'`. -/
abbrev CR : Byte := 13

/-- The C string that starts at the first byte of `memory`. -/
def cstr (memory : Bytes) : Bytes := memory.takeWhile (· ≠ 0)

theorem cstr_of_notMem {s : Bytes} (h : (0 : Byte) ∉ s) : cstr s = s :=
  List.takeWhile_eq_self_iff.mpr fun x hx => by
    simp only [ne_eq, decide_eq_true_eq]; rintro rfl; exact h hx

theorem cstr_append_nul {s : Bytes} (h : (0 : Byte) ∉ s) (t : Bytes) : cstr (s ++ 0 :: t) = s := by
  unfold cstr
  rw [List.takeWhile_append_of_pos]
  · simp
  · intro x hx
    simp only [ne_eq, decide_eq_true_eq]; rintro rfl; exact h hx

theorem nul_notMem_cstr (s : Bytes) : (0 : Byte) ∉ cstr s := by
  intro h
  simpa using List.mem_takeWhile_imp h

/-- `apr_status_t`: the codes the library tests or returns by name; every other
    operating system error is `other`. -/
inductive AprStatus
  | success
  | econnrefused
  | egeneral
  | eftype
  | eof
  | timeup
  | enomem
  | enostat
  | ebadpath
  | enotempty
  | other (code : ℕ)
deriving DecidableEq

/-! ## `apr_hash_t` with C strings as keys and values -/

/-- `apr_hash_t`, as the lookups it answers. -/
abbrev Hash := Bytes → Option Bytes

/-- `apr_hash_get(hash, key, APR_HASH_KEY_STRING)`; `none` is NULL. -/
def aprHashGet (hash : Hash) (key : Bytes) : Option Bytes := hash key

/-- `apr_hash_set(hash, key, klen, value)`. -/
def aprHashSet (hash : Hash) (key value : Bytes) : Hash := KeyedUpdates.set hash key value

/-- `apr_hash_make`. -/
def aprHashMake : Hash := fun _ => none

/-! ## `apr_strtok` -/

/-- `apr_strtok` with a one-character separator on the string `s` (what `str`,
    or `*last` on a later call, points to): the next token and where `*last`
    points afterwards; `none` is NULL. -/
def aprStrtok (s : Bytes) (sep : Byte) : Option (Bytes × Bytes) :=
  let s := s.dropWhile (· = sep)
  if s = [] then none
  else some (s.takeWhile (· ≠ sep), (s.dropWhile (· ≠ sep)).drop 1)

theorem aprStrtok_length {s token rest : Bytes} {sep : Byte}
    (h : aprStrtok s sep = some (token, rest)) : rest.length < s.length := by
  unfold aprStrtok at h
  simp only at h
  split_ifs at h with hs
  simp only [Option.some.injEq, Prod.mk.injEq] at h
  obtain ⟨-, rfl⟩ := h
  have h1 : (s.dropWhile (· = sep)).length ≤ s.length := (List.dropWhile_suffix _).length_le
  have h2 : ((s.dropWhile (· = sep)).dropWhile (· ≠ sep)).length ≤ (s.dropWhile (· = sep)).length :=
    (List.dropWhile_suffix _).length_le
  have h3 : (s.dropWhile (· = sep)).length ≠ 0 := by simpa using hs
  rw [List.length_drop]
  -- the first byte left is not the separator, so the token is not empty
  by_cases h4 : ((s.dropWhile (· = sep)).dropWhile (· ≠ sep)).length = 0
  · omega
  · omega

/-! ## `apr_socket_recv` -/

/-- What one `apr_socket_recv` call with a buffer of `capacity` bytes answers:
    its status and the bytes it stored, whose number it reports through `len`. -/
structure Recv (capacity : ℕ) where
  rv : AprStatus
  bytes : Bytes
  fits : bytes.length ≤ capacity
deriving DecidableEq

/-! ## Time -/

/-- `apr_time_from_sec`, on 64 bits. -/
def aprTimeFromSec (sec : ℤ) : ℤ := (sec * 1000000).bmod (2 ^ 64)

end MogileFs
