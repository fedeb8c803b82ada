import MogileFs.Tracker.Codec

/-!
# Laws of the URL codec

`mfs_tracker_url_decode` undoes `mfs_tracker_url_encode` on every C string, and what the
encoder writes holds none of the characters that requests and responses are made of.

Results:
* `urlDecode_urlEncode`: decoding an encoded string.
* `urlChar_of_mem_urlEncode`: the characters of an encoded string (`urlChar`).
* `urlEncode_eq_self_iff`: the strings the encoder leaves alone.
-/

namespace MogileFs

/-! ## Equations of the decoder -/

theorem urlDecode_cons_of_ne {c : Byte} (hc : c ≠ 0) (hpercent : c ≠ ch '%') (s : Bytes) :
    mfsTrackerUrlDecode (c :: s) =
      (if c = ch '+' then ch ' ' else c) :: mfsTrackerUrlDecode s := by
  rw [mfsTrackerUrlDecode.eq_def]
  simp only [if_neg hc, if_neg hpercent]
  split_ifs with hplus
  · rfl
  · rfl

/-- A `%` with two characters behind it. -/
theorem urlDecode_percent {d e : Byte} (hd : d ≠ 0) (he : e ≠ 0) (s : Bytes) :
    mfsTrackerUrlDecode (ch '%' :: d :: e :: s) =
      (fromHex d <<< 4 ||| fromHex e) :: mfsTrackerUrlDecode s := by
  rw [mfsTrackerUrlDecode, if_neg (by decide), if_pos rfl, if_pos (by simp [hd, he])]

/-- A `%` at the end of a string, or next to its end, is dropped. -/
theorem urlDecode_percent_short {s : Bytes} (hs : s.length < 2) :
    mfsTrackerUrlDecode (ch '%' :: s) = mfsTrackerUrlDecode s := by
  match s, hs with
  | [], _ => rfl
  | [d], _ =>
    rw [mfsTrackerUrlDecode.eq_def]
    simp only [if_pos, if_neg (show ¬ch '%' = 0 by decide)]

/-! ## Characters -/

/-- The characters the encoder leaves alone. -/
def unreserved (c : Byte) : Bool :=
  isalnum c || c = ch '-' || c = ch '_' || c = ch '.' || c = ch '~'

/-- The characters the encoder writes. -/
def urlChar (c : Byte) : Bool := unreserved c || c = ch '%' || c = ch '+'

theorem unreserved_ne {c d : Byte} (h : unreserved c) (hd : unreserved d = false) : c ≠ d := by
  rintro rfl
  rw [h] at hd
  cases hd

theorem urlChar_ne {c d : Byte} (h : urlChar c) (hd : urlChar d = false) : c ≠ d := by
  rintro rfl
  rw [h] at hd
  cases hd

theorem unreserved_toHex (code : Byte) : unreserved (toHex code) := by
  revert code
  decide +kernel

theorem fromHex_toHex (c : Byte) :
    fromHex (toHex (c >>> 4)) <<< 4 ||| fromHex (toHex (c &&& 15)) = c := by
  revert c
  decide +kernel

/-! ## The encoder -/

theorem urlEncode_cons {c : Byte} (hc : c ≠ 0) (s : Bytes) :
    mfsTrackerUrlEncode (c :: s) =
      if unreserved c then c :: mfsTrackerUrlEncode s
      else if c = ch ' ' then ch '+' :: mfsTrackerUrlEncode s
      else ch '%' :: toHex (c >>> 4) :: toHex (c &&& 15) :: mfsTrackerUrlEncode s := by
  rw [mfsTrackerUrlEncode, if_neg hc]
  rfl

theorem urlDecode_urlEncode {s : Bytes} (hs : (0 : Byte) ∉ s) :
    mfsTrackerUrlDecode (mfsTrackerUrlEncode s) = s := by
  induction s with
  | nil => rfl
  | cons c s ih =>
    rw [List.mem_cons, not_or] at hs
    have hc : c ≠ 0 := fun h => hs.1 h.symm
    rw [urlEncode_cons hc]
    split_ifs with hplain hspace
    · rw [urlDecode_cons_of_ne hc (unreserved_ne hplain (by decide)),
        if_neg (unreserved_ne hplain (by decide)), ih hs.2]
    · rw [urlDecode_cons_of_ne (by decide) (by decide), if_pos rfl, ih hs.2, hspace]
    · have hhex : ∀ code, toHex code ≠ 0 := fun code =>
        unreserved_ne (unreserved_toHex code) (by decide)
      rw [urlDecode_percent (hhex _) (hhex _), fromHex_toHex, ih hs.2]

theorem urlChar_of_mem_urlEncode {s : Bytes} {c : Byte} (h : c ∈ mfsTrackerUrlEncode s) :
    urlChar c := by
  induction s with
  | nil => cases h
  | cons d s ih =>
    by_cases hd : d = 0
    · rw [mfsTrackerUrlEncode, if_pos hd] at h
      cases h
    · rw [urlEncode_cons hd] at h
      split_ifs at h with hplain hspace
      · rcases List.mem_cons.mp h with rfl | h
        · simp [urlChar, hplain]
        · exact ih h
      · rcases List.mem_cons.mp h with rfl | h
        · decide
        · exact ih h
      · simp only [List.mem_cons] at h
        rcases h with rfl | rfl | rfl | h
        · decide
        · simp [urlChar, unreserved_toHex]
        · simp [urlChar, unreserved_toHex]
        · exact ih h

/-- An encoded string holds no separator. -/
theorem notMem_urlEncode (s : Bytes) {c : Byte} (hc : urlChar c = false) :
    c ∉ mfsTrackerUrlEncode s := fun h => urlChar_ne (urlChar_of_mem_urlEncode h) hc rfl

theorem urlEncode_injective {s t : Bytes} (hs : (0 : Byte) ∉ s) (ht : (0 : Byte) ∉ t)
    (h : mfsTrackerUrlEncode s = mfsTrackerUrlEncode t) : s = t := by
  rw [← urlDecode_urlEncode hs, h, urlDecode_urlEncode ht]

theorem length_le_length_urlEncode {s : Bytes} (hs : (0 : Byte) ∉ s) :
    s.length ≤ (mfsTrackerUrlEncode s).length := by
  induction s with
  | nil => exact Nat.zero_le _
  | cons c s ih =>
    rw [List.mem_cons, not_or] at hs
    have := ih hs.2
    rw [urlEncode_cons fun h => hs.1 h.symm]
    split_ifs
    · simpa using this
    · simpa using this
    · simp only [List.length_cons]
      omega

theorem urlEncode_eq_self_iff {s : Bytes} (hs : (0 : Byte) ∉ s) :
    mfsTrackerUrlEncode s = s ↔ ∀ c ∈ s, unreserved c := by
  induction s with
  | nil => simp [mfsTrackerUrlEncode]
  | cons c s ih =>
    rw [List.mem_cons, not_or] at hs
    have hc : c ≠ 0 := fun h => hs.1 h.symm
    have hlen := length_le_length_urlEncode hs.2
    rw [urlEncode_cons hc, List.forall_mem_cons]
    split_ifs with hplain hspace
    · rw [List.cons.injEq, ih hs.2]
      simp [hplain]
    · subst hspace
      exact iff_of_false (fun h => absurd (List.cons.inj h).1 (by decide)) fun h => hplain h.1
    · refine iff_of_false (fun h => ?_) fun h => hplain h.1
      have := congrArg List.length h
      simp only [List.length_cons] at this
      omega

end MogileFs
