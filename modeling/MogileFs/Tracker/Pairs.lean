import MogileFs.Library.Pieces
import MogileFs.Tracker.Response

/-!
# The pairs of a response

What `mfs_tracker_parse_response` stores, said without its loop. The text behind
`OK <number>` is a sequence of pieces between `&`; the parser stores the pairs
of the pieces in order and gives up at the first piece without `=`. By then the
pairs in front of it are in the caller's hash.

Results:
* `parsePairs_eq`: the status and the stores of the pair loop, from the pieces.
* `sets_of_rejected`: what a response that is rejected leaves in the hash.
-/

namespace MogileFs

open Pieces

/-- `k=v`, with the value decoded. -/
def pairOf (piece : Bytes) : Bytes × Bytes :=
  (piece.takeWhile (· ≠ ch '='),
    mfsTrackerUrlDecode ((piece.dropWhile (· ≠ ch '=')).drop 1))

/-- The piece has a `=`. -/
def hasValue (piece : Bytes) : Bool := piece.contains (ch '=')

/-- The pairs of the pieces in front of the first one without `=`. -/
def leadingPairs (text : Bytes) : List (Bytes × Bytes) :=
  ((pieces (ch '&') text).takeWhile hasValue).map pairOf

theorem skipWhile_eq_none {p : Byte → Bool} {buf : Bytes} (h : skipWhile p buf = none) :
    buf.takeWhile p = buf := by
  unfold skipWhile at h
  simp only at h
  split_ifs at h with hlen
  exact (List.takeWhile_prefix p).eq_of_length hlen

theorem skipWhile_eq_some {p : Byte → Bool} {buf : Bytes} {n : ℕ} (h : skipWhile p buf = some n) :
    n = (buf.takeWhile p).length ∧ buf.takeWhile p ≠ buf := by
  unfold skipWhile at h
  simp only at h
  split_ifs at h with hlen
  exact ⟨(Option.some.inj h).symm, fun heq => hlen (by rw [heq])⟩

theorem skipNotCharInStr_none {piece : Bytes} (h : skipNotCharInStr piece (ch '=') = none) :
    hasValue piece = false := by
  have hall := List.takeWhile_eq_self_iff.mp (skipWhile_eq_none h)
  rw [hasValue, ← Bool.not_eq_true, List.contains_iff_mem]
  intro hmem
  simpa using hall _ hmem

theorem skipNotCharInStr_some {piece : Bytes} {n : ℕ}
    (h : skipNotCharInStr piece (ch '=') = some n) :
    hasValue piece = true ∧
      pairOf piece = (piece.take n, mfsTrackerUrlDecode (piece.drop (n + 1))) := by
  obtain ⟨rfl, hne⟩ := skipWhile_eq_some h
  have hsplit := List.takeWhile_append_dropWhile (p := (· ≠ ch '=')) (l := piece)
  constructor
  · by_contra hc
    refine hne (List.takeWhile_eq_self_iff.mpr fun x hx => ?_)
    simp only [ne_eq, decide_eq_true_eq]
    rintro rfl
    exact hc (List.contains_iff_mem.mpr hx)
  · unfold pairOf
    congr 1
    · exact (List.prefix_iff_eq_take.mp (List.takeWhile_prefix _))
    · congr 1
      rw [← List.drop_drop]
      congr 1
      nth_rewrite 3 [← hsplit]
      exact (List.drop_left' rfl).symm

/-- The pair loop: it succeeds when every piece has a `=`, and stores the pairs
    in front of the first that has none. -/
theorem parsePairs_eq (buf : Bytes) :
    parsePairs buf =
      (if (pieces (ch '&') buf).all hasValue then .success else .eftype, leadingPairs buf) := by
  induction buf using parsePairs.induct with
  | case1 buf h =>
    have hp : pieces (ch '&') buf = [] := by
      unfold aprStrtok at h
      simp only at h
      split_ifs at h with h0
      rw [pieces_eq, if_pos h0]
    rw [parsePairs, h]
    simp [leadingPairs, hp]
  | case2 buf pair rest h hskip =>
    have hp : pieces (ch '&') buf = pair :: pieces (ch '&') rest := by
      unfold aprStrtok at h
      simp only at h
      split_ifs at h with h0
      simp only [Option.some.injEq, Prod.mk.injEq] at h
      rw [pieces_eq, if_neg h0, h.1, h.2]
    rw [parsePairs, h]
    simp only [hskip]
    simp [leadingPairs, hp, skipNotCharInStr_none hskip]
  | case3 buf pair rest h n hskip ih =>
    have hp : pieces (ch '&') buf = pair :: pieces (ch '&') rest := by
      unfold aprStrtok at h
      simp only at h
      split_ifs at h with h0
      simp only [Option.some.injEq, Prod.mk.injEq] at h
      rw [pieces_eq, if_neg h0, h.1, h.2]
    obtain ⟨hv, hpair⟩ := skipNotCharInStr_some hskip
    rw [parsePairs, h]
    simp only [hskip]
    rw [ih]
    simp [leadingPairs, hp, hv, hpair]

/-! ## What a rejected response leaves behind -/

/-- The response line of an exchange, its CR replaced by NUL; `none` when no
    whole line arrived. -/
def responseLine (x : Exchange) : Option Bytes :=
  if x.send ≠ .success then none
  else
    match receiveLine none x.recv with
    | .error _ => none
    | .ok line => (terminateLine line).toOption

/-- The text of the pairs of an `OK` line. -/
def okText (line : Bytes) : Option Bytes :=
  if 4 ≤ line.length ∧ line.take 3 = str "OK " then
    (skipSpaceOrNumber (line.drop 3)).map fun n => cstr ((line.drop 3).drop n)
  else none

/-- The pairs in front of the first piece without `=`, of an `OK` response that
    has such a piece. -/
def brokenPairs (x : Exchange) : List (Bytes × Bytes) :=
  match (responseLine x).bind okText with
  | none => []
  | some text => if (pieces (ch '&') text).all hasValue then [] else leadingPairs text

theorem sets_parseErr_of_rejected {buf : Bytes} (h : (parseErr buf).rv ≠ .success) :
    (parseErr buf).sets = [] := by
  unfold parseErr at *
  cases hskip : skipChar buf (ch ' ') with
  | none => rfl
  | some n =>
    rw [hskip] at h
    simp only at h ⊢
    cases hcode : skipNotChar (buf.drop n) (ch ' ') with
    | none => rfl
    | some m =>
      rw [hcode] at h
      simp only at h ⊢
      cases hdesc : skipChar ((buf.drop n).drop (m + 1)) (ch ' ') with
      | none => rfl
      | some k => rw [hdesc] at h; simp at h

theorem sets_parseResponse_of_rejected {line : Bytes} (h : (parseResponse line).rv ≠ .success) :
    (parseResponse line).sets = match okText line with
      | none => []
      | some text => if (pieces (ch '&') text).all hasValue then [] else leadingPairs text := by
  by_cases hok : 4 ≤ line.length ∧ line.take 3 = str "OK "
  · have hparse : parseResponse line = parseOk (line.drop 3) := by
      rw [parseResponse, if_neg (by omega), if_pos hok.2]
    rw [hparse] at h ⊢
    rw [okText, if_pos hok]
    unfold parseOk at *
    cases hskip : skipSpaceOrNumber (line.drop 3) with
    | none => rfl
    | some n =>
      rw [hskip] at h
      simp only [parsePairs_eq, Option.map_some] at h ⊢
      split_ifs at h ⊢ with hall
      · exact absurd rfl h
      · rfl
  · rw [okText, if_neg hok]
    unfold parseResponse at *
    split_ifs at h ⊢ with hlen hok' herr
    · rfl
    · exact absurd ⟨by omega, hok'⟩ hok
    · exact sets_parseErr_of_rejected h
    · rfl

/-- A rejected response has stored exactly its broken pairs. -/
theorem sets_of_rejected {x : Exchange} (h : (exchangeReply x).rv ≠ .success) :
    (exchangeReply x).sets = brokenPairs x := by
  unfold exchangeReply brokenPairs responseLine at *
  split_ifs at h ⊢ with hsend
  · rfl
  · cases hr : receiveLine none x.recv with
    | error rv => rfl
    | ok line =>
      rw [hr] at h
      simp only at h ⊢
      cases ht : terminateLine line with
      | error rv => rfl
      | ok line' =>
        rw [ht] at h
        exact sets_parseResponse_of_rejected h

end MogileFs
