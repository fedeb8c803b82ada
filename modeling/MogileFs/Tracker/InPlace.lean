import MogileFs.Library.CheckedStrings
import MogileFs.Tracker.CodecLaws
import MogileFs.Tracker.Pairs

/-!
# The response parser in place

`mfs_tracker_parse_response` again, access by access: the buffer is a checked memory,
`apr_strtok` and the parser write their NULs into it, and lengths are counted down beside
the pointers as in the source (lines 311–428, and `mfs_tracker_url_decode`, lines
250–267). A pointer is a position in the buffer.

Results, for a buffer that ends in NUL and LF, as `mfs_tracker_request` presents it:
* `parsePairsAt_eq`, `parseOkAt_eq`, `parseErrAt_eq`: each part stays in the buffer and
  does what its counterpart on lists does.
* `parseResponseAt_eq`: so does the whole parser.
-/

namespace MogileFs

open CheckedMemory

/-! ## The model -/

/-- `memcmp(s, mem + i, strlen(s)) == 0`. -/
def memcmpAt (mem : Bytes) (i : ℕ) (s : Bytes) : Except OutOfBounds Bool := do
  let bytes ← readMany mem i s.length
  return bytes = s

/-- The loop the `skip_*` functions with a `buf_size` share. -/
def skipWhileAt (p : Byte → Bool) (mem : Bytes) (buf bufSize : ℕ) :
    Except OutOfBounds (Option ℕ) := do
  let stop ← scanBelow p mem (buf + bufSize) buf
  return if stop - buf = bufSize then none else some (stop - buf)

/-- `skip_char` (lines 311–316). -/
def skipCharAt (mem : Bytes) (buf bufSize : ℕ) (c : Byte) : Except OutOfBounds (Option ℕ) :=
  skipWhileAt (· = c) mem buf bufSize

/-- `skip_space_or_number` (lines 318–323). -/
def skipSpaceOrNumberAt (mem : Bytes) (buf bufSize : ℕ) : Except OutOfBounds (Option ℕ) :=
  skipWhileAt (fun b => b = ch ' ' || (ch '0' ≤ b && b ≤ ch '9')) mem buf bufSize

/-- `skip_not_char` (lines 325–330). -/
def skipNotCharAt (mem : Bytes) (buf bufSize : ℕ) (c : Byte) : Except OutOfBounds (Option ℕ) :=
  skipWhileAt (· ≠ c) mem buf bufSize

/-- `skip_not_char_in_str` (lines 332–337). -/
def skipNotCharInStrAt (mem : Bytes) (buf : ℕ) (c : Byte) : Except OutOfBounds (Option ℕ) := do
  let stop ← scan (fun b => b ≠ c && b ≠ 0) mem buf
  return if (← read mem stop) = 0 then none else some (stop - buf)

/-- The loop of `mfs_tracker_url_decode` (lines 252–264). -/
def urlDecodeLoopAt (mem : Bytes) (pstr : ℕ) : Except OutOfBounds Bytes :=
  match _h : mem[pstr]? with
  | none => .error ⟨pstr⟩
  | some c =>
    if c = 0 then .ok []
    else if c = ch '%' then do
      let d ← read mem (pstr + 1)
      if d ≠ 0 then
        let e ← read mem (pstr + 2)
        if e ≠ 0 then
          let rest ← urlDecodeLoopAt mem (pstr + 3)
          return (fromHex d <<< 4 ||| fromHex e) :: rest
        else urlDecodeLoopAt mem (pstr + 1)
      else urlDecodeLoopAt mem (pstr + 1)
    else do
      let rest ← urlDecodeLoopAt mem (pstr + 1)
      return (if c = ch '+' then ch ' ' else c) :: rest
termination_by mem.length - pstr
decreasing_by
  all_goals
    have := (List.getElem?_eq_some_iff.mp _h).1
    omega

/-- `mfs_tracker_url_decode` (lines 250–267): `strlen`, then the loop. -/
def mfsTrackerUrlDecodeAt (mem : Bytes) (encoded : ℕ) : Except OutOfBounds Bytes := do
  let _ ← scan (· ≠ 0) mem encoded
  urlDecodeLoopAt mem encoded

/-- What a call of `apr_strtok` that finds a token leaves: the token, `*last` and the
    memory, in which a NUL ends the token. -/
structure Token where
  pair : ℕ
  last : ℕ
  mem : Bytes

/-- `apr_strtok` with a one-character separator. -/
def aprStrtokAt (mem : Bytes) (s : ℕ) (sep : Byte) : Except OutOfBounds (Option Token) := do
  let pair ← scan (fun b => b ≠ 0 && b = sep) mem s
  if (← read mem pair) = 0 then return none
  let last ← scan (fun b => b ≠ 0 && b ≠ sep) mem (pair + 1)
  if (← read mem last) = 0 then return some ⟨pair, last, mem⟩
  let mem ← write mem last 0
  return some ⟨pair, last + 1, mem⟩

theorem aprStrtokAt_bounds {mem : Bytes} {s : ℕ} {sep : Byte} {t : Token}
    (h : aprStrtokAt mem s sep = .ok (some t)) :
    t.mem.length = mem.length ∧ s < t.last ∧ s < mem.length := by
  unfold aprStrtokAt at h
  cases hpair : scan (fun b => b ≠ 0 && b = sep) mem s with
  | error e => rw [hpair] at h; cases h
  | ok pair =>
    have hp := scan_bounds hpair
    rw [hpair, ok_bind] at h
    cases hread : read mem pair with
    | error e => rw [hread] at h; cases h
    | ok b =>
      rw [hread, ok_bind] at h
      split_ifs at h
      · cases h
      · cases hlast : scan (fun b => b ≠ 0 && b ≠ sep) mem (pair + 1) with
        | error e => rw [hlast] at h; cases h
        | ok last =>
          have hl := scan_bounds hlast
          rw [hlast, ok_bind] at h
          cases hend : read mem last with
          | error e => rw [hend] at h; cases h
          | ok c =>
            rw [hend, ok_bind] at h
            split_ifs at h
            · cases h
              exact ⟨rfl, by simp only; omega, by omega⟩
            · rw [write, if_pos hl.2, ok_bind] at h
              cases h
              exact ⟨List.length_set, by simp only; omega, by omega⟩

/-- The `while(pair != NULL)` loop (lines 369–385): its status, the `apr_hash_set` calls
    and the buffer afterwards. -/
def parsePairsAt (mem : Bytes) (s : ℕ) :
    Except OutOfBounds (AprStatus × List (Bytes × Bytes) × Bytes) :=
  match _h : aprStrtokAt mem s (ch '&') with
  | .error e => .error e
  | .ok none => .ok (.success, [], mem)
  | .ok (some t) => do
    match ← skipNotCharInStrAt t.mem t.pair (ch '=') with
    | none => return (.eftype, [], t.mem)
    | some nextPos =>
      let key ← readMany t.mem t.pair nextPos
      let value ← mfsTrackerUrlDecodeAt t.mem (t.pair + nextPos + 1)
      let (rv, sets, mem) ← parsePairsAt t.mem t.last
      return (rv, (key, value) :: sets, mem)
termination_by mem.length - s
decreasing_by
  have := aprStrtokAt_bounds _h
  omega

/-- The branch for `OK ` (lines 347–386). -/
def parseOkAt (mem : Bytes) (finalBufferSize : ℕ) : Except OutOfBounds (Reply × Bytes) := do
  let buf := 3
  let bufLeft := finalBufferSize - 3
  match ← skipSpaceOrNumberAt mem buf bufLeft with
  | none => return (.fail .eftype, mem)
  | some nextPos =>
    let (rv, sets, mem) ← parsePairsAt mem (buf + nextPos)
    return (⟨rv, if rv = .success then some true else none, sets⟩, mem)

/-- The branch for `ERR ` (lines 387–421). -/
def parseErrAt (mem : Bytes) (finalBufferSize : ℕ) : Except OutOfBounds (Reply × Bytes) := do
  let buf := 4
  let bufLeft := finalBufferSize - 4
  match ← skipCharAt mem buf bufLeft (ch ' ') with
  | none => return (.fail .eftype, mem)
  | some nextPos =>
    let errorCode := buf + nextPos
    let bufLeft := bufLeft - nextPos
    match ← skipNotCharAt mem errorCode bufLeft (ch ' ') with
    | none => return (.fail .eftype, mem)
    | some nextPos =>
      let buf := errorCode + (nextPos + 1)
      let bufLeft := bufLeft - (nextPos + 1)
      let mem ← write mem (errorCode + nextPos) 0
      match ← skipCharAt mem buf bufLeft (ch ' ') with
      | none => return (.fail .eftype, mem)
      | some nextPos =>
        let code ← mfsTrackerUrlDecodeAt mem errorCode
        let desc ← mfsTrackerUrlDecodeAt mem (buf + nextPos)
        return (⟨.success, some false, [(str "ERROR_CODE", code), (str "ERROR_DESC", desc)]⟩, mem)

/-- `mfs_tracker_parse_response` (lines 339–428) up to its writes to `*ok` and `result`. -/
def parseResponseAt (finalBuffer : Bytes) (finalBufferSize : ℕ) :
    Except OutOfBounds (Reply × Bytes) := do
  if finalBufferSize < 4 then return (.fail .eftype, finalBuffer)
  if ← memcmpAt finalBuffer 0 (str "OK ") then parseOkAt finalBuffer finalBufferSize
  else
    if ← (if finalBufferSize > 4 then memcmpAt finalBuffer 0 (str "ERR ") else return false) then
      parseErrAt finalBuffer finalBufferSize
    else
      let finalBuffer ← write finalBuffer 3 0
      let _ ← scan (· ≠ 0) finalBuffer 0 -- the start of the response goes to the log
      return (.fail .eftype, finalBuffer)

/-- `mfs_tracker_parse_response` (lines 339–428): the status, `*ok` and `result`. -/
def mfsTrackerParseResponseAt (finalBuffer : Bytes) (finalBufferSize : ℕ) (ok : Option Bool)
    (result : Hash) : Except OutOfBounds (AprStatus × Option Bool × Hash) := do
  let (r, _) ← parseResponseAt finalBuffer finalBufferSize
  return (r.rv, r.okAfter ok, r.resultAfter result)

/-! ## The helpers -/

variable {mem : Bytes} {i : ℕ}

theorem memcmpAt_of_drop {xs rest : Bytes} (s : Bytes) (h : mem.drop i = xs ++ rest)
    (hlen : xs.length = s.length) : memcmpAt mem i s = .ok (xs = s) := by
  rw [memcmpAt, ← hlen, readMany_of_drop h]
  rfl

theorem skipWhileAt_of_drop (p : Byte → Bool) {xs rest : Bytes} (h : mem.drop i = xs ++ rest)
    {bufSize : ℕ} (hsize : bufSize = xs.length) :
    skipWhileAt p mem i bufSize = .ok (skipWhile p xs) := by
  rw [skipWhileAt, scanBelow_of_drop h (by rw [hsize]), ok_bind, Nat.add_sub_cancel_left, hsize]
  rfl

theorem skipNotCharInStrAt_of_drop {s rest : Bytes} (h : mem.drop i = s ++ 0 :: rest)
    (hs : (0 : Byte) ∉ s) (c : Byte) :
    skipNotCharInStrAt mem i c = .ok (skipNotCharInStr s c) := by
  obtain ⟨b, rest', hsplit, hb⟩ := cstring_split 0 (· ≠ c) s rest
  have hlen : (s.takeWhile (· ≠ c)).length + (s.dropWhile (· ≠ c)).length = s.length := by
    rw [← List.length_append, List.takeWhile_append_dropWhile]
  rw [skipNotCharInStrAt, scan_cstring (p := (· ≠ c)) h hs (fun b => by simp [Bool.and_comm]),
    ok_bind, read_of_drop (drop_of_drop (h.trans hsplit)), ok_bind, skipNotCharInStr, skipWhile,
    Nat.add_sub_cancel_left]
  rcases hb with ⟨hnil, rfl, -⟩ | ⟨s', hcons, -, -⟩
  · rw [hnil, List.length_nil] at hlen
    rw [if_pos rfl, if_pos (by omega)]
    rfl
  · have hne : b ≠ 0 := by
      rintro rfl
      exact hs ((List.dropWhile_suffix _).subset (hcons ▸ List.mem_cons_self))
    rw [hcons, List.length_cons] at hlen
    rw [if_neg hne, if_neg (by omega)]
    rfl

/-! ## The decoder -/

theorem urlDecodeLoopAt_cons {c : Byte} {rest : Bytes} (h : mem.drop i = c :: rest) (hc : c ≠ 0) :
    urlDecodeLoopAt mem i =
      if c = ch '%' then do
        let d ← read mem (i + 1)
        if d ≠ 0 then
          let e ← read mem (i + 2)
          if e ≠ 0 then
            let rest ← urlDecodeLoopAt mem (i + 3)
            return (fromHex d <<< 4 ||| fromHex e) :: rest
          else urlDecodeLoopAt mem (i + 1)
        else urlDecodeLoopAt mem (i + 1)
      else do
        let rest ← urlDecodeLoopAt mem (i + 1)
        return (if c = ch '+' then ch ' ' else c) :: rest := by
  rw [urlDecodeLoopAt]
  split
  · rename_i hnone
    rw [getElem?_of_drop h] at hnone
    cases hnone
  · rename_i b hsome
    rw [getElem?_of_drop h, Option.some.injEq] at hsome
    subst hsome
    rw [if_neg hc]

theorem urlDecodeLoopAt_nul {rest : Bytes} (h : mem.drop i = 0 :: rest) :
    urlDecodeLoopAt mem i = .ok [] := by
  rw [urlDecodeLoopAt]
  split
  · rename_i hnone
    rw [getElem?_of_drop h] at hnone
    cases hnone
  · rename_i b hsome
    rw [getElem?_of_drop h, Option.some.injEq] at hsome
    rw [if_pos hsome.symm]

theorem urlDecodeLoopAt_of_drop (s : Bytes) {i : ℕ} {rest : Bytes}
    (h : mem.drop i = s ++ 0 :: rest) (hs : (0 : Byte) ∉ s) :
    urlDecodeLoopAt mem i = .ok (mfsTrackerUrlDecode s) := by
  match s with
  | [] => exact urlDecodeLoopAt_nul h
  | c :: s =>
    rw [List.mem_cons, not_or] at hs
    have hc : c ≠ 0 := fun h => hs.1 h.symm
    have hnext := drop_of_drop_cons h
    have ih := urlDecodeLoopAt_of_drop s hnext hs.2
    rw [urlDecodeLoopAt_cons h hc]
    by_cases hpercent : c = ch '%'
    · subst hpercent
      rw [if_pos rfl]
      match s with
      | [] => rw [read_of_drop hnext, ok_bind, if_neg (by simp), ih, urlDecode_percent_short (by simp)]
      | [d] =>
        rw [read_of_drop hnext, ok_bind, read_of_drop (drop_of_drop_cons hnext), ok_bind, ih,
          urlDecode_percent_short (by simp)]
        simp
      | d :: e :: s =>
        simp only [List.mem_cons, not_or] at hs
        have hd : d ≠ 0 := fun h => hs.2.1 h.symm
        have he : e ≠ 0 := fun h => hs.2.2.1 h.symm
        have hskip := drop_of_drop_cons (drop_of_drop_cons hnext)
        rw [read_of_drop hnext, ok_bind, if_pos hd, read_of_drop (drop_of_drop_cons hnext), ok_bind,
          if_pos he, urlDecodeLoopAt_of_drop s hskip hs.2.2.2, urlDecode_percent hd he]
        rfl
    · rw [if_neg hpercent, ih, urlDecode_cons_of_ne hc hpercent]
      rfl

theorem mfsTrackerUrlDecodeAt_of_drop {s rest : Bytes} (h : mem.drop i = s ++ 0 :: rest)
    (hs : (0 : Byte) ∉ s) : mfsTrackerUrlDecodeAt mem i = .ok (mfsTrackerUrlDecode s) := by
  rw [mfsTrackerUrlDecodeAt,
    scan_of_drop h (fun x hx => by simpa using ne_of_mem_of_not_mem hx hs) (by simp), ok_bind,
    urlDecodeLoopAt_of_drop s h hs]

/-! ## The pairs -/

/-- `apr_strtok` on a C string: no token, or one that a NUL ends, with the rest of the
    string behind it. -/
theorem aprStrtokAt_of_drop {s rest : Bytes} (sep : Byte) (hsep : sep ≠ 0)
    (h : mem.drop i = s ++ 0 :: rest) (hs : (0 : Byte) ∉ s) :
    match aprStrtok s sep with
    | none => aprStrtokAt mem i sep = .ok none
    | some (pair, s') => ∃ t more, aprStrtokAt mem i sep = .ok (some t) ∧
        t.mem.drop t.pair = pair ++ 0 :: more ∧ t.mem.drop t.last = s' ++ 0 :: rest := by
  have hfirst : scan (fun b => b ≠ 0 && b = sep) mem i =
      .ok (i + (s.takeWhile (· = sep)).length) := scan_cstring h hs fun b => rfl
  obtain ⟨b, rest', hsplit, hb⟩ := cstring_split 0 (· = sep) s rest
  have hat := drop_of_drop (h.trans hsplit)
  unfold aprStrtok
  rcases hb with ⟨hnil, rfl, -⟩ | ⟨s₁, hcons, hne, rfl⟩
  · simp only [hnil, if_true]
    rw [aprStrtokAt, hfirst, ok_bind, read_of_drop hat, ok_bind, if_pos rfl]
    rfl
  · have hne : b ≠ sep := by simpa using hne
    have hmem : ∀ x ∈ b :: s₁, x ∈ s := fun x hx =>
      (List.dropWhile_suffix _).subset (hcons ▸ hx)
    have hb0 : b ≠ 0 := fun h0 => hs (h0 ▸ hmem b List.mem_cons_self)
    have hs₁ : (0 : Byte) ∉ s₁ := fun h0 => hs (hmem 0 (List.mem_cons_of_mem b h0))
    have hscan : scan (fun b => b ≠ 0 && b ≠ sep) mem (i + (s.takeWhile (· = sep)).length + 1) =
        .ok (i + (s.takeWhile (· = sep)).length + 1 + (s₁.takeWhile (· ≠ sep)).length) :=
      scan_cstring (drop_of_drop_cons hat) hs₁ fun b => rfl
    simp only [hcons, reduceCtorEq, if_false]
    rw [List.takeWhile_cons_of_pos (by simpa using hne),
      List.dropWhile_cons_of_pos (by simpa using hne)]
    generalize i + (s.takeWhile (· = sep)).length = pair at hfirst hat hscan
    obtain ⟨c, rest₂, hsplit₂, hc⟩ := cstring_split 0 (· ≠ sep) s₁ rest
    have hend := drop_of_drop ((drop_of_drop_cons hat).trans hsplit₂)
    rcases hc with ⟨hnil₂, rfl, rfl⟩ | ⟨s₂, hcons₂, hc, rfl⟩
    · -- the token is the last one
      refine ⟨⟨pair, pair + 1 + (s₁.takeWhile (· ≠ sep)).length, mem⟩, rest₂, ?_, ?_, ?_⟩
      · rw [aprStrtokAt, hfirst, ok_bind, read_of_drop hat, ok_bind, if_neg hb0, hscan, ok_bind,
          read_of_drop hend, ok_bind, if_pos rfl]
        rfl
      · rw [hat, hsplit₂, List.cons_append]
      · rw [hnil₂]
        exact hend
    · have hc : c = sep := by simpa using hc
      subst hc
      refine ⟨⟨pair, pair + 1 + (s₁.takeWhile (· ≠ c)).length + 1,
        mem.set (pair + 1 + (s₁.takeWhile (· ≠ c)).length) 0⟩, s₂ ++ 0 :: rest, ?_, ?_, ?_⟩
      · rw [aprStrtokAt, hfirst, ok_bind, read_of_drop hat, ok_bind, if_neg hb0, hscan, ok_bind,
          read_of_drop hend, ok_bind, if_neg hsep, write_of_drop hend]
        rfl
      · rw [hsplit₂, ← List.cons_append] at hat
        exact drop_set_of_drop 0 hat (by rw [List.length_cons]; omega)
      · rw [hcons₂, List.drop_one, List.tail_cons, List.drop_set, if_pos (Nat.lt_succ_self _)]
        exact drop_of_drop_cons hend

theorem aprStrtok_subset {s pair s' : Bytes} {sep : Byte} (h : aprStrtok s sep = some (pair, s')) :
    pair ⊆ s ∧ s' ⊆ s := by
  unfold aprStrtok at h
  simp only at h
  split_ifs at h
  simp only [Option.some.injEq, Prod.mk.injEq] at h
  obtain ⟨rfl, rfl⟩ := h
  have hsuffix := (List.dropWhile_suffix (l := s) (· = sep)).subset
  have hrest : ((s.dropWhile (· = sep)).dropWhile (· ≠ sep)).drop 1 ⊆ s.dropWhile (· = sep) :=
    ((List.drop_suffix _ _).trans (List.dropWhile_suffix _)).subset
  exact ⟨List.Subset.trans (List.takeWhile_prefix _).subset hsuffix, List.Subset.trans hrest hsuffix⟩

theorem parsePairsAt_none (h : aprStrtokAt mem i (ch '&') = .ok none) :
    parsePairsAt mem i = .ok (.success, [], mem) := by
  rw [parsePairsAt]
  split
  · simp_all
  · rfl
  · simp_all

theorem parsePairsAt_some {t : Token} (h : aprStrtokAt mem i (ch '&') = .ok (some t)) :
    parsePairsAt mem i = do
      match ← skipNotCharInStrAt t.mem t.pair (ch '=') with
      | none => return (.eftype, [], t.mem)
      | some nextPos =>
        let key ← readMany t.mem t.pair nextPos
        let value ← mfsTrackerUrlDecodeAt t.mem (t.pair + nextPos + 1)
        let (rv, sets, mem) ← parsePairsAt t.mem t.last
        return (rv, (key, value) :: sets, mem) := by
  rw [parsePairsAt]
  split
  · simp_all
  · simp_all
  · rename_i t' ht'
    rw [h, Except.ok.injEq, Option.some.injEq] at ht'
    subst ht'
    rfl

/-- The pair loop on a C string stays in the memory, and does what it does on a list. -/
theorem parsePairsAt_of_drop {s rest : Bytes} (h : mem.drop i = s ++ 0 :: rest)
    (hs : (0 : Byte) ∉ s) :
    ∃ mem', parsePairsAt mem i = .ok ((parsePairs s).1, (parsePairs s).2, mem') := by
  induction s using parsePairs.induct generalizing mem i with
  | case1 s hnone =>
    have htok := aprStrtokAt_of_drop (ch '&') (by decide) h hs
    rw [hnone] at htok
    refine ⟨mem, ?_⟩
    rw [parsePairsAt_none htok, parsePairs, hnone]
  | case2 s pair s' hsome hskip =>
    have htok := aprStrtokAt_of_drop (ch '&') (by decide) h hs
    rw [hsome] at htok
    obtain ⟨t, more, htok, hpair, -⟩ := htok
    refine ⟨t.mem, ?_⟩
    rw [parsePairsAt_some htok, skipNotCharInStrAt_of_drop hpair
      (fun h0 => hs ((aprStrtok_subset hsome).1 h0)), hskip, parsePairs, hsome]
    simp only [hskip]
    rfl
  | case3 s pair s' hsome n hskip ih =>
    have htok := aprStrtokAt_of_drop (ch '&') (by decide) h hs
    rw [hsome] at htok
    obtain ⟨t, more, htok, hpair, hlast⟩ := htok
    have hpair0 : (0 : Byte) ∉ pair := fun h0 => hs ((aprStrtok_subset hsome).1 h0)
    obtain ⟨mem', hrest⟩ := ih hlast fun h0 => hs ((aprStrtok_subset hsome).2 h0)
    have hn : n < pair.length := by
      obtain ⟨rfl, hne⟩ := skipWhile_eq_some hskip
      exact lt_of_le_of_ne (List.takeWhile_prefix _).length_le
        fun heq => hne ((List.takeWhile_prefix _).eq_of_length heq)
    have hkey : t.mem.drop t.pair = pair.take n ++ (pair.drop n ++ 0 :: more) := by
      rw [hpair, ← List.append_assoc, List.take_append_drop]
    have hlen : (pair.take n).length = n := by rw [List.length_take]; omega
    have hvalue : t.mem.drop (t.pair + n + 1) = pair.drop (n + 1) ++ 0 :: more := by
      have hbehind := drop_of_drop hkey
      rw [hlen, List.drop_eq_getElem_cons hn, List.cons_append] at hbehind
      exact drop_of_drop_cons hbehind
    have hread := readMany_of_drop hkey
    rw [hlen] at hread
    refine ⟨mem', ?_⟩
    rw [parsePairsAt_some htok, skipNotCharInStrAt_of_drop hpair hpair0, hskip, parsePairs, hsome]
    simp only [hskip, ok_bind, hread, hrest, mfsTrackerUrlDecodeAt_of_drop hvalue
      fun h0 => hpair0 (List.mem_of_mem_drop h0)]
    rfl

/-! ## The whole parser -/

/-- A string behind which a NUL stands, as C reads it. -/
theorem cstr_split (s rest : Bytes) : ∃ rest', s ++ 0 :: rest = cstr s ++ 0 :: rest' := by
  obtain ⟨b, rest', hsplit, hb⟩ := cstring_split 0 (· ≠ 0) s rest
  rcases hb with ⟨-, rfl, -⟩ | ⟨s', -, hb, -⟩
  · exact ⟨rest', hsplit⟩
  · obtain rfl : b = 0 := by simpa using hb
    exact ⟨rest', hsplit⟩

theorem mfsTrackerUrlDecodeAt_cstr {s rest : Bytes} (h : mem.drop i = s ++ 0 :: rest) :
    mfsTrackerUrlDecodeAt mem i = .ok (mfsTrackerUrlDecode (cstr s)) := by
  obtain ⟨rest', hsplit⟩ := cstr_split s rest
  exact mfsTrackerUrlDecodeAt_of_drop (h.trans hsplit) (nul_notMem_cstr s)

theorem cstr_append_terminator (s : Bytes) : cstr (s ++ [0, LF]) = cstr s := by
  obtain ⟨rest', hsplit⟩ := cstr_split s [LF]
  rw [hsplit, cstr_append_nul (nul_notMem_cstr s)]

/-- A `skip_*` function that a NUL stops stops in front of the terminator at the latest. -/
theorem skipWhile_terminated {p : Byte → Bool} (hp : p 0 = false) (s : Bytes) :
    skipWhile p (s ++ [0, LF]) = some (s.takeWhile p).length := by
  obtain ⟨b, rest, hsplit, hb⟩ := cstring_split 0 p s [LF]
  have htake : (s ++ [0, LF]).takeWhile p = s.takeWhile p := by
    rw [hsplit, List.takeWhile_append_of_pos fun x hx => List.mem_takeWhile_imp hx]
    rcases hb with ⟨-, rfl, -⟩ | ⟨s', -, hb, -⟩
    · simp [hp]
    · simp [hb]
  have hlen := (List.takeWhile_prefix (l := s) p).length_le
  rw [skipWhile, htake]
  exact if_neg (by rw [List.length_append, List.length_cons]; omega)

theorem le_length_of_skipWhile {p : Byte → Bool} (hp : p 0 = false) {s : Bytes} {n : ℕ}
    (h : skipWhile p (s ++ [0, LF]) = some n) : n ≤ s.length := by
  rw [skipWhile_terminated hp, Option.some.injEq] at h
  rw [← h]
  exact (List.takeWhile_prefix p).length_le

theorem drop_terminated {s : Bytes} (h : mem.drop i = s ++ [0, LF]) {n : ℕ} (hn : n ≤ s.length) :
    mem.drop (i + n) = s.drop n ++ [0, LF] := by
  rw [← List.drop_drop, h, List.drop_append_of_le_length hn]

theorem takeWhile_ne_append_cons {c : Byte} {xs : Bytes} (h : c ∉ xs) (ys : Bytes) :
    (xs ++ c :: ys).takeWhile (· ≠ c) = xs := by
  rw [List.takeWhile_append_of_pos fun x hx => by simpa using ne_of_mem_of_not_mem hx h]
  simp

/-- `skip_not_char` comes to a character of the text, or to the end. -/
theorem skipNotChar_terminated {c : Byte} (h0 : c ≠ 0) (hlf : c ≠ LF) (s : Bytes) :
    skipNotChar (s ++ [0, LF]) c =
      if c ∈ s then some (s.takeWhile (· ≠ c)).length else none := by
  unfold skipNotChar skipWhile
  split_ifs with hmem
  · obtain ⟨xs, ys, rfl, hxs⟩ := List.eq_append_cons_of_mem hmem
    simp only [List.append_assoc, List.cons_append, takeWhile_ne_append_cons hxs]
    exact if_neg (by simp only [List.length_append, List.length_cons]; omega)
  · refine if_pos (congrArg List.length (List.takeWhile_eq_self_iff.mpr fun x hx => ?_))
    have hx : x ≠ c := by
      rintro rfl
      simp [hmem, h0, hlf] at hx
    simpa using hx

theorem exists_of_skipNotChar {c : Byte} (h0 : c ≠ 0) (hlf : c ≠ LF) {s : Bytes} {n : ℕ}
    (h : skipNotChar (s ++ [0, LF]) c = some n) : ∃ xs ys, s = xs ++ c :: ys ∧ xs.length = n := by
  rw [skipNotChar_terminated h0 hlf] at h
  split_ifs at h with hmem
  obtain ⟨xs, ys, rfl, hxs⟩ := List.eq_append_cons_of_mem hmem
  rw [takeWhile_ne_append_cons hxs, Option.some.injEq] at h
  exact ⟨xs, ys, rfl, h⟩

theorem parseOkAt_of_drop {text : Bytes} (h : mem.drop 3 = text ++ [0, LF]) {finalBufferSize : ℕ}
    (hsize : finalBufferSize - 3 = text.length + 2) :
    ∃ mem', parseOkAt mem finalBufferSize = .ok (parseOk (text ++ [0, LF]), mem') := by
  have hskip : skipSpaceOrNumberAt mem 3 (finalBufferSize - 3) =
      .ok (skipSpaceOrNumber (text ++ [0, LF])) :=
    skipWhileAt_of_drop _ (h.trans (List.append_nil _).symm) (by simpa using hsize)
  unfold parseOkAt parseOk
  simp only [hskip, ok_bind]
  cases hn : skipSpaceOrNumber (text ++ [0, LF]) with
  | none => exact ⟨mem, rfl⟩
  | some n =>
    have hle := le_length_of_skipWhile (by decide) hn
    have hrest := drop_terminated h hle
    obtain ⟨rest', hsplit⟩ := cstr_split (text.drop n) [LF]
    obtain ⟨mem', hpairs⟩ := parsePairsAt_of_drop (hrest.trans hsplit) (nul_notMem_cstr _)
    refine ⟨mem', ?_⟩
    simp only [hpairs, ok_bind]
    rw [List.drop_append_of_le_length hle, cstr_append_terminator]
    rfl

theorem parseErrAt_of_drop {text : Bytes} (h : mem.drop 4 = text ++ [0, LF]) {finalBufferSize : ℕ}
    (hsize : finalBufferSize - 4 = text.length + 2) :
    ∃ mem', parseErrAt mem finalBufferSize = .ok (parseErr (text ++ [0, LF]), mem') := by
  have hskip : skipCharAt mem 4 (finalBufferSize - 4) (ch ' ') =
      .ok (skipChar (text ++ [0, LF]) (ch ' ')) :=
    skipWhileAt_of_drop _ (h.trans (List.append_nil _).symm) (by simpa using hsize)
  unfold parseErrAt parseErr
  simp only [hskip, ok_bind]
  cases hn : skipChar (text ++ [0, LF]) (ch ' ') with
  | none => exact ⟨mem, rfl⟩
  | some n =>
    have hle := le_length_of_skipWhile (by decide) hn
    have hcode := drop_terminated h hle
    have hcodeSize : finalBufferSize - 4 - n = (text.drop n).length + 2 := by
      rw [List.length_drop]
      omega
    simp only [List.drop_append_of_le_length hle]
    generalize text.drop n = code at hcode hcodeSize ⊢
    generalize 4 + n = errorCode at hcode ⊢
    have hnot : skipNotCharAt mem errorCode (finalBufferSize - 4 - n) (ch ' ') =
        .ok (skipNotChar (code ++ [0, LF]) (ch ' ')) :=
      skipWhileAt_of_drop _ (hcode.trans (List.append_nil _).symm) (by simpa using hcodeSize)
    simp only [hnot, ok_bind]
    cases hm : skipNotChar (code ++ [0, LF]) (ch ' ') with
    | none => exact ⟨mem, rfl⟩
    | some m =>
      obtain ⟨xs, ys, rfl, hxs⟩ := exists_of_skipNotChar (by decide) (by decide) hm
      rw [List.append_assoc, List.cons_append] at hcode
      have hspace := drop_of_drop hcode
      rw [hxs] at hspace
      -- the space behind the code becomes its NUL
      have hcode' : (mem.set (errorCode + m) 0).drop errorCode = xs ++ 0 :: (ys ++ [0, LF]) :=
        drop_set_of_drop 0 hcode (by rw [hxs])
      have hrest : (mem.set (errorCode + m) 0).drop (errorCode + (m + 1)) = ys ++ [0, LF] := by
        rw [List.drop_set, if_pos (by omega)]
        exact drop_of_drop_cons hspace
      have hrestSize : finalBufferSize - 4 - n - (m + 1) = ys.length + 2 := by
        rw [List.length_append, List.length_cons] at hcodeSize
        omega
      have htake : (xs ++ ch ' ' :: ys ++ [0, LF]).take m = xs := by
        rw [List.append_assoc, List.take_left' hxs]
      have hdrop : (xs ++ ch ' ' :: ys ++ [0, LF]).drop (m + 1) = ys ++ [0, LF] := by
        rw [List.append_assoc, ← List.drop_drop, List.drop_left' hxs]
        rfl
      simp only [write_of_drop hspace, ok_bind, hdrop, htake]
      generalize mem.set (errorCode + m) 0 = mem' at hcode' hrest ⊢
      have hskip' : skipCharAt mem' (errorCode + (m + 1)) (finalBufferSize - 4 - n - (m + 1))
          (ch ' ') = .ok (skipChar (ys ++ [0, LF]) (ch ' ')) :=
        skipWhileAt_of_drop _ (hrest.trans (List.append_nil _).symm) (by simpa using hrestSize)
      simp only [hskip', ok_bind]
      cases hk : skipChar (ys ++ [0, LF]) (ch ' ') with
      | none => exact ⟨mem', rfl⟩
      | some k =>
        have hle' := le_length_of_skipWhile (by decide) hk
        refine ⟨mem', ?_⟩
        simp only [mfsTrackerUrlDecodeAt_cstr hcode', ok_bind,
          mfsTrackerUrlDecodeAt_cstr (drop_terminated hrest hle')]
        rw [List.drop_append_of_le_length hle', cstr_append_terminator]
        rfl

/-- A start of the line without NUL is one of the text. -/
theorem prefix_terminated {s c : Bytes} (hs : (0 : Byte) ∉ s) : s <+: c ++ [0, LF] ↔ s <+: c := by
  constructor
  · intro h
    by_cases hlen : s.length ≤ c.length
    · exact List.prefix_of_prefix_length_le h (List.prefix_append _ _) hlen
    · have hnul : c ++ [0] <+: s := by
        refine List.prefix_of_prefix_length_le ⟨[LF], by simp⟩ h ?_
        rw [List.length_append, List.length_singleton]
        omega
      exact absurd (hnul.subset (by simp)) hs
  · exact fun h => h.trans (List.prefix_append _ _)

theorem take_terminated {s c : Bytes} (hs : (0 : Byte) ∉ s) :
    (c ++ [0, LF]).take s.length = s ↔ s <+: c := by
  rw [eq_comm, ← List.prefix_iff_eq_take, prefix_terminated hs]

theorem memcmpAt_terminated {s c : Bytes} (hs : (0 : Byte) ∉ s) (hlen : s.length ≤ c.length + 2) :
    memcmpAt (c ++ [0, LF]) 0 s = .ok (decide (s <+: c)) := by
  have hdrop : (c ++ [0, LF]).drop 0 =
      (c ++ [0, LF]).take s.length ++ (c ++ [0, LF]).drop s.length :=
    (List.take_append_drop _ _).symm
  rw [memcmpAt_of_drop s hdrop (by simpa using hlen)]
  simp only [take_terminated hs]

/-- The NUL that is written behind the start of a line that is no response. -/
theorem refuseAt_terminated {c : Bytes} (hc : 2 ≤ c.length) :
    ∃ mem', (do
      let finalBuffer ← write (c ++ [0, LF]) 3 0
      let _ ← scan (· ≠ 0) finalBuffer 0
      return (Reply.fail .eftype, finalBuffer)) = Except.ok (Reply.fail .eftype, mem') := by
  have hlen : (c ++ [0, LF]).length = c.length + 2 := by simp
  have hset : (c ++ [0, LF]).set 3 0 = (c ++ [0, LF]).take 3 ++ 0 :: (c ++ [0, LF]).drop 4 := by
    rw [List.set_eq_take_append_cons_drop, if_pos (by omega)]
  obtain ⟨rest, hsplit⟩ := cstr_split ((c ++ [0, LF]).take 3) ((c ++ [0, LF]).drop 4)
  have hstart : ((c ++ [0, LF]).set 3 0).drop 0 = cstr ((c ++ [0, LF]).take 3) ++ 0 :: rest :=
    hset.trans hsplit
  refine ⟨(c ++ [0, LF]).set 3 0, ?_⟩
  rw [write, if_pos (by omega), ok_bind,
    scan_of_drop hstart (fun x hx => by simpa using ne_of_mem_of_not_mem hx (nul_notMem_cstr _))
      (by simp), ok_bind]
  rfl

/-- A line that ends in NUL and LF: the parser stays in the buffer, and does what it does
    on a list. -/
theorem parseResponseAt_eq (c : Bytes) :
    ∃ mem', parseResponseAt (c ++ [0, LF]) (c.length + 2) =
      .ok (parseResponse (c ++ [0, LF]), mem') := by
  have hlen : (c ++ [0, LF]).length = c.length + 2 := by simp
  have hok : (c ++ [0, LF]).take 3 = str "OK " ↔ str "OK " <+: c :=
    take_terminated (s := str "OK ") (by decide)
  have herr : (c ++ [0, LF]).take 4 = str "ERR " ↔ str "ERR " <+: c :=
    take_terminated (s := str "ERR ") (by decide)
  unfold parseResponseAt parseResponse
  rw [hlen]
  by_cases hshort : c.length + 2 < 4
  · rw [if_pos hshort, if_pos hshort]
    exact ⟨_, rfl⟩
  rw [if_neg hshort, if_neg hshort, memcmpAt_terminated (by decide) (by show 3 ≤ _; omega), ok_bind]
  by_cases hstart : str "OK " <+: c
  · obtain ⟨text, rfl⟩ := hstart
    have htext : (str "OK " ++ text ++ [0, LF]).drop 3 = text ++ [0, LF] := rfl
    have hsize : (str "OK " ++ text).length + 2 - 3 = text.length + 2 := by simp [str]
    obtain ⟨mem', h⟩ := parseOkAt_of_drop htext hsize
    rw [if_pos (by simp), if_pos (hok.mpr (List.prefix_append _ _)), h]
    exact ⟨mem', rfl⟩
  rw [if_neg (by simpa using hstart), if_neg (mt hok.mp hstart)]
  by_cases hlong : c.length + 2 > 4
  · rw [if_pos hlong, memcmpAt_terminated (by decide) (by show 4 ≤ _; omega), ok_bind]
    by_cases hstart : str "ERR " <+: c
    · obtain ⟨text, rfl⟩ := hstart
      have htext : (str "ERR " ++ text ++ [0, LF]).drop 4 = text ++ [0, LF] := rfl
      have hsize : (str "ERR " ++ text).length + 2 - 4 = text.length + 2 := by simp [str]
      obtain ⟨mem', h⟩ := parseErrAt_of_drop htext hsize
      rw [if_pos (by simp), if_pos ⟨hlong, herr.mpr (List.prefix_append _ _)⟩, h]
      exact ⟨mem', rfl⟩
    · rw [if_neg (by simpa using hstart), if_neg fun h => hstart (herr.mp h.2)]
      exact refuseAt_terminated (by omega)
  · rw [if_neg hlong, if_neg fun h => hlong h.1]
    exact refuseAt_terminated (by omega)

end MogileFs
