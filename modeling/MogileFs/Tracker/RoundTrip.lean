import MogileFs.Tracker.EncodedPairs
import MogileFs.Tracker.Language

/-!
# Encoded pairs in a response

A tracker that encodes both halves of its pairs, as `mfs_tracker_add_parameter` does, against
the parser of `src/tracker.c`. The parser decodes values only: a key stays in the hash as it
stands in the line (line 383).

Results:
* `okResponse_okLine`, `map_pairOf_okLine`: the line is taken, and what the parser stores.
* `encodedResponse_iff`: when every key of the tracker ends up with its last value.
* `keysFound_fresh_iff`: in an empty hash, when no key needs encoding.
-/

namespace MogileFs

open Pieces KeyedUpdates

/-! ## The line -/

/-- `OK `, an optional number and space, and the encoded pairs. -/
def okLine (fid : Option Bytes) (pairs : List (Bytes × Bytes)) : Bytes :=
  str "OK " ++ ((match fid with
    | none => []
    | some digits => digits ++ [ch ' ']) ++ encodedPairs pairs)

/-- Pairs a response can carry: C strings, the keys not empty, the first of them not taken
    for a part of the number. -/
structure ResponsePairs (pairs : List (Bytes × Bytes)) : Prop where
  key : ∀ p ∈ pairs, (0 : Byte) ∉ p.1
  value : ∀ p ∈ pairs, (0 : Byte) ∉ p.2
  keyNonempty : ∀ p ∈ pairs, p.1 ≠ []
  first : ∀ p ∈ pairs.head?, ∀ c ∈ p.1.head?, isdigit c = false ∧ c ≠ ch ' '

/-- The first character of an encoded key that starts with neither a digit nor a space. -/
theorem head?_urlEncode {c : Byte} (hnul : c ≠ 0) (hdigit : isdigit c = false)
    (hspace : c ≠ ch ' ') (s : Bytes) :
    ∃ d t, mfsTrackerUrlEncode (c :: s) = d :: t ∧ isdigit d = false ∧ d ≠ ch ' ' := by
  rw [urlEncode_cons hnul]
  split_ifs with hplain
  · exact ⟨c, _, rfl, hdigit, hspace⟩
  · exact ⟨ch '%', _, rfl, by decide, by decide⟩

theorem isdigit_eq (c : Byte) : isdigit c = (ch '0' ≤ c && c ≤ ch '9') := rfl

theorem head?_encodedPairs_ne {pairs : List (Bytes × Bytes)} (h : ResponsePairs pairs) :
    ∀ c ∈ (encodedPairs pairs).head?, isdigit c = false ∧ c ≠ ch ' ' := by
  intro c hc
  cases pairs with
  | nil => cases hc
  | cons p pairs =>
    obtain ⟨k, s, hk⟩ := List.exists_cons_of_ne_nil (h.keyNonempty p List.mem_cons_self)
    have hfirst := h.first p (Option.mem_some_self p) k (by rw [hk]; rfl)
    have hnul : k ≠ 0 := fun h0 =>
      h.key p List.mem_cons_self (by rw [hk, h0]; exact List.mem_cons_self)
    obtain ⟨d, t, hd, hdigit⟩ := head?_urlEncode hnul hfirst.1 hfirst.2 s
    rw [head?_encodedPairs pairs (by rw [hk, hd])] at hc
    obtain rfl := Option.mem_some.mp hc
    exact hdigit

/-- The number in front belongs to what the parser skips, the pairs do not. -/
theorem okBody_okLine {fid : Option Bytes} (hfid : ∀ digits ∈ fid, ∀ c ∈ digits, isdigit c)
    {pairs : List (Bytes × Bytes)} (h : ResponsePairs pairs) :
    okBody (okLine fid pairs) = encodedPairs pairs := by
  have hbody : (encodedPairs pairs).dropWhile
      (fun b => b = ch ' ' || (ch '0' ≤ b && b ≤ ch '9')) = encodedPairs pairs := by
    rw [List.dropWhile_eq_self_iff]
    intro hlen hskip
    obtain ⟨hdigit, hspace⟩ := head?_encodedPairs_ne h _ (List.head?_eq_getElem? ▸
      List.getElem?_eq_getElem hlen)
    rw [isdigit_eq] at hdigit
    simp [hspace, hdigit] at hskip
  have hok : (str "OK ").length = 3 := rfl
  have hdrop : (okLine fid pairs).drop 3 = _ := List.drop_left' hok
  rw [okBody, hdrop, List.dropWhile_append_of_pos, hbody]
  cases fid with
  | none => exact fun c hc => absurd hc List.not_mem_nil
  | some digits =>
    intro c hc
    rcases List.mem_append.mp hc with hc | hc
    · have := hfid digits rfl c hc
      rw [isdigit_eq] at this
      simp [this]
    · simp [List.mem_singleton.mp hc]

theorem nul_notMem_okLine {fid : Option Bytes} (hfid : ∀ digits ∈ fid, ∀ c ∈ digits, isdigit c)
    (pairs : List (Bytes × Bytes)) : (0 : Byte) ∉ okLine fid pairs := by
  intro h
  rcases List.mem_append.mp h with h | h
  · exact absurd h (by decide)
  · rcases List.mem_append.mp h with h | h
    · cases fid with
      | none => cases h
      | some digits =>
        rcases List.mem_append.mp h with h | h
        · exact absurd (hfid digits rfl _ h) (by decide)
        · exact absurd h (by decide)
    · exact notMem_encodedPairs pairs (by decide) (by decide) (by decide) h

/-! ## What the parser stores -/

theorem okResponse_okLine {fid : Option Bytes} (hfid : ∀ digits ∈ fid, ∀ c ∈ digits, isdigit c)
    {pairs : List (Bytes × Bytes)} (h : ResponsePairs pairs) : OkResponse (okLine fid pairs) := by
  refine ⟨List.prefix_append _ _, fun piece hpiece => ?_⟩
  rw [okBody_okLine hfid h, pieces_encodedPairs] at hpiece
  obtain ⟨p, -, rfl⟩ := List.mem_map.mp hpiece
  exact List.mem_append_right _ List.mem_cons_self

/-- The value is decoded, the key is not. -/
theorem pairOf_encodedPair {p : Bytes × Bytes} (hvalue : (0 : Byte) ∉ p.2) :
    pairOf (encodedPair p) = (mfsTrackerUrlEncode p.1, p.2) := by
  rw [pairOf, takeWhile_encodedPair, dropWhile_encodedPair, urlDecode_urlEncode hvalue]

theorem map_pairOf_okLine {fid : Option Bytes} (hfid : ∀ digits ∈ fid, ∀ c ∈ digits, isdigit c)
    {pairs : List (Bytes × Bytes)} (h : ResponsePairs pairs) :
    (pieces (ch '&') (okBody (okLine fid pairs))).map pairOf =
      pairs.map fun p => (mfsTrackerUrlEncode p.1, p.2) := by
  rw [okBody_okLine hfid h, pieces_encodedPairs, List.map_map]
  exact List.map_congr_left fun p hp => pairOf_encodedPair (h.value p hp)

/-- The parser on the line, as `mfs_tracker_request` presents it. -/
theorem parseResponse_okLine {fid : Option Bytes}
    (hfid : ∀ digits ∈ fid, ∀ c ∈ digits, isdigit c) {pairs : List (Bytes × Bytes)}
    (h : ResponsePairs pairs) :
    parseResponse (okLine fid pairs ++ [0, LF]) =
      ⟨.success, some true, pairs.map fun p => (mfsTrackerUrlEncode p.1, p.2)⟩ := by
  rw [parseResponse_ok (nul_notMem_okLine hfid pairs) (okResponse_okLine hfid h),
    map_pairOf_okLine hfid h]

/-! ## Keys -/

/-- The hash finds the key `k` with the value `v` after `pairs` have been stored under their
    encoded keys: `k` is the encoding of a key whose last value is `v`, or it is no key's
    encoding and `v` is what the hash had for it. -/
def KeyFound (result : Hash) (pairs : List (Bytes × Bytes)) (k v : Bytes) : Prop :=
  (∃ k', mfsTrackerUrlEncode k' = k ∧ lastValue pairs k' = some v) ∨
    ((∀ p ∈ pairs, mfsTrackerUrlEncode p.1 ≠ k) ∧ result k = some v)

theorem setAll_encodedKeys_iff {pairs : List (Bytes × Bytes)} (h : ResponsePairs pairs)
    (result : Hash) (k v : Bytes) :
    setAll result (pairs.map fun p => (mfsTrackerUrlEncode p.1, p.2)) k = some v ↔
      KeyFound result pairs k v := by
  by_cases hgiven : ∀ p ∈ pairs, mfsTrackerUrlEncode p.1 ≠ k
  · have hnone : lastValue (pairs.map fun p => (mfsTrackerUrlEncode p.1, p.2)) k = none := by
      rw [lastValue_eq_none_iff]
      intro hmem
      obtain ⟨q, hq, rfl⟩ := List.mem_map.mp hmem
      obtain ⟨p, hp, rfl⟩ := List.mem_map.mp hq
      exact hgiven p hp rfl
    rw [setAll_apply, hnone, Option.none_or]
    constructor
    · exact fun hv => Or.inr ⟨hgiven, hv⟩
    · rintro (⟨k', hk', hlast⟩ | ⟨-, hv⟩)
      · exact absurd hk' (hgiven _ (lastValue_mem hlast))
      · exact hv
  · obtain ⟨p, hp, hpk⟩ : ∃ p ∈ pairs, mfsTrackerUrlEncode p.1 = k := by
      simpa using hgiven
    have hinjective : ∀ q ∈ pairs, mfsTrackerUrlEncode q.1 = mfsTrackerUrlEncode p.1 →
        q.1 = p.1 := fun q hq => urlEncode_injective (h.key q hq) (h.key p hp)
    have hlast : lastValue (pairs.map fun q => (mfsTrackerUrlEncode q.1, q.2)) k =
        lastValue pairs p.1 := by
      rw [← hpk]
      exact lastValue_map hinjective
    have hsome : lastValue pairs p.1 ≠ none := fun hnone =>
      (lastValue_eq_none_iff pairs p.1).mp hnone (List.mem_map_of_mem hp)
    obtain ⟨w, hw⟩ := Option.ne_none_iff_exists'.mp hsome
    rw [setAll_apply, hlast, hw, Option.some_or]
    constructor
    · exact fun hv => Or.inl ⟨p.1, hpk, by rw [hw, hv]⟩
    · rintro (⟨k', hk', hv⟩ | ⟨hnot, -⟩)
      · have hk : k' = p.1 := hinjective _ (lastValue_mem hv) (hk'.trans hpk.symm)
        rw [← hw, ← hk, hv]
      · exact absurd hpk (hnot p hp)

/-- A key that the encoder has written and would change again grows. -/
theorem length_lt_length_urlEncode {s : Bytes} (hnul : (0 : Byte) ∉ s) (hspace : ch ' ' ∉ s)
    (hne : mfsTrackerUrlEncode s ≠ s) : s.length < (mfsTrackerUrlEncode s).length := by
  induction s with
  | nil => exact absurd rfl hne
  | cons c s ih =>
    rw [List.mem_cons, not_or] at hnul hspace
    have hlen := length_le_length_urlEncode hnul.2
    rw [urlEncode_cons fun h => hnul.1 h.symm] at hne ⊢
    rw [if_neg fun h : c = ch ' ' => hspace.1 h.symm] at hne ⊢
    split_ifs at hne ⊢ with hplain
    · have := ih hnul.2 hspace.2 fun h => hne (by rw [h])
      simpa using this
    · simp only [List.length_cons]
      omega

/-- In an empty hash every key is found exactly when no key needs encoding: a key that does is
    found only under a longer one that does too. -/
theorem keysFound_fresh_iff {pairs : List (Bytes × Bytes)} (h : ResponsePairs pairs) :
    (∀ k v, lastValue pairs k = some v → KeyFound aprHashMake pairs k v) ↔
      ∀ p ∈ pairs, mfsTrackerUrlEncode p.1 = p.1 := by
  constructor
  · intro hfound
    by_contra hnot
    push Not at hnot
    obtain ⟨p, hp, hpne⟩ := hnot
    -- by induction on the length of the encoded key: each such key is another one's encoding
    have hnone : ∀ n, ∀ p ∈ pairs, mfsTrackerUrlEncode p.1 ≠ p.1 →
        (mfsTrackerUrlEncode p.1).length < n → False := by
      intro n
      induction n with
      | zero => exact fun p _ _ hlt => Nat.not_lt_zero _ hlt
      | succ n ih =>
        intro p hp hpne hlt
        have hsome : lastValue pairs p.1 ≠ none := fun hnone =>
          (lastValue_eq_none_iff pairs p.1).mp hnone (List.mem_map_of_mem hp)
        obtain ⟨v, hv⟩ := Option.ne_none_iff_exists'.mp hsome
        rcases hfound p.1 v hv with ⟨k', hk', hlast⟩ | ⟨-, hold⟩
        · have hne : mfsTrackerUrlEncode k' ≠ k' := fun heq => hpne (by rw [← hk', heq, heq])
          have hgrows := length_lt_length_urlEncode (h.key p hp)
            (by rw [← hk']; exact notMem_urlEncode k' (by decide)) hpne
          exact ih (k', v) (lastValue_mem hlast) hne (by rw [hk']; omega)
        · cases hold
    exact hnone _ p hp hpne (Nat.lt_succ_self _)
  · intro hplain k v hv
    exact Or.inl ⟨k, hplain _ (lastValue_mem hv), hv⟩

/-! ## The round trip -/

/-- The parser takes every such line; each key of the tracker has its last value in the hash
    if and only if the hash finds it without decoding. -/
theorem encodedResponse_iff {fid : Option Bytes}
    (hfid : ∀ digits ∈ fid, ∀ c ∈ digits, isdigit c) {pairs : List (Bytes × Bytes)}
    (h : ResponsePairs pairs) (ok : Option Bool) (result : Hash) :
    ((mfsTrackerParseResponse (okLine fid pairs ++ [0, LF]) ok result).1 = .success ∧
      (mfsTrackerParseResponse (okLine fid pairs ++ [0, LF]) ok result).2.1 = some true ∧
      ∀ k v, lastValue pairs k = some v →
        (mfsTrackerParseResponse (okLine fid pairs ++ [0, LF]) ok result).2.2 k = some v) ↔
    ∀ k v, lastValue pairs k = some v → KeyFound result pairs k v := by
  have hparse := parseResponse_okLine hfid h
  have hkeys : ∀ k v, (mfsTrackerParseResponse (okLine fid pairs ++ [0, LF]) ok result).2.2 k =
      some v ↔ KeyFound result pairs k v := by
    intro k v
    rw [← setAll_encodedKeys_iff h]
    simp only [mfsTrackerParseResponse, hparse, Reply.resultAfter]
  simp only [hkeys]
  constructor
  · exact fun hall => hall.2.2
  · exact fun hall => ⟨congrArg Reply.rv hparse, by
      simp only [mfsTrackerParseResponse, hparse, Reply.okAfter, Option.some_or], hall⟩

/-- Two plain keys behind a number. -/
theorem encodedResponse_iff_plain :
    ((mfsTrackerParseResponse (okLine (some (str "7"))
        [(str "a", str "x y"), (str "b", str "&=")] ++ [0, LF]) none aprHashMake).1 = .success ∧
      (mfsTrackerParseResponse (okLine (some (str "7"))
        [(str "a", str "x y"), (str "b", str "&=")] ++ [0, LF]) none aprHashMake).2.1 = some true ∧
      ∀ k v, lastValue [(str "a", str "x y"), (str "b", str "&=")] k = some v →
        (mfsTrackerParseResponse (okLine (some (str "7"))
          [(str "a", str "x y"), (str "b", str "&=")] ++ [0, LF]) none aprHashMake).2.2 k =
          some v) ↔
    ∀ k v, lastValue [(str "a", str "x y"), (str "b", str "&=")] k = some v →
      KeyFound aprHashMake [(str "a", str "x y"), (str "b", str "&=")] k v :=
  encodedResponse_iff (by decide +kernel) ⟨by decide, by decide, by decide, by decide +kernel⟩ none
    aprHashMake

/-- The key `a b` is stored as `a+b`. -/
theorem encodedResponse_key_not_decoded :
    ¬∀ k v, lastValue [(str "a b", str "c")] k = some v →
      (mfsTrackerParseResponse (okLine none [(str "a b", str "c")] ++ [0, LF]) none
        aprHashMake).2.2 k = some v := by
  intro hall
  have hkey := hall (str "a b") (str "c") (by decide)
  revert hkey
  decide +kernel

end MogileFs
