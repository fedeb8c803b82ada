import MogileFs.Library.Cells
import MogileFs.Tracker.InPlace

/-!
# The URL codec in memory

`mfs_tracker_url_encode` and `mfs_tracker_url_decode` again (`src/tracker.c`, lines
218–267), access by access: the string stands in a checked memory that may end right
behind its terminator, and the buffer is exactly what `apr_palloc` hands out. `char` is
signed and goes through `int` as in the source.

Results:
* `toHexAt_eq`, `fromHexChar_eq`, `decodedChar_eq`: the arithmetic on `int` keeps what
  the arithmetic modulo 256 says.
* `mfsTrackerUrlEncodeInto_eq`, `mfsTrackerUrlDecodeInto_eq`: each function stays in its
  buffer and leaves the string of its counterpart there, with the terminator.
* `urlCodec_memory`: both together.
-/

namespace MogileFs

open Cells CheckedMemory

/-! ## `char` and `int` -/

/-- `int`. -/
abbrev CInt := BitVec 32

/-- A `char`, which is signed, promoted to `int`. -/
def promote (c : Byte) : CInt := c.toBitVec.signExtend 32

/-- An `int` converted to `char`. -/
def charOf (n : CInt) : Byte := ⟨n.setWidth 8⟩

def isdigitInt (c : CInt) : Bool := 48 ≤ c.toInt && c.toInt ≤ 57

def isupperInt (c : CInt) : Bool := 65 ≤ c.toInt && c.toInt ≤ 90

def islowerInt (c : CInt) : Bool := 97 ≤ c.toInt && c.toInt ≤ 122

def isalnumInt (c : CInt) : Bool := isdigitInt c || isupperInt c || islowerInt c

def tolowerInt (c : CInt) : CInt := if isupperInt c then c + 32 else c

/-- `from_hex` (lines 219–221). -/
def fromHexChar (c : Byte) : Byte :=
  charOf (if isdigitInt (promote c) then promote c - 48 else tolowerInt (promote c) - 97 + 10)

/-- `to_hex` (lines 224–227). -/
def toHexAt (code : Byte) : Except OutOfBounds Byte :=
  read (str "0123456789abcdef") (promote code &&& 15).toNat

/-- `from_hex(pstr[1]) << 4 | from_hex(pstr[2])` (line 255). -/
def decodedChar (d e : Byte) : Byte :=
  charOf (promote (fromHexChar d) <<< 4 ||| promote (fromHexChar e))

theorem isalnumInt_promote (c : Byte) : isalnumInt (promote c) = isalnum c := by
  revert c
  decide +kernel

theorem fromHexChar_eq (c : Byte) : fromHexChar c = fromHex c := by
  revert c
  decide +kernel

theorem toHexAt_eq (code : Byte) : toHexAt code = .ok (toHex code) := by
  revert code
  decide +kernel

/-- The high half of a character, whose sign the shift drags along. -/
theorem toHex_shift (c : Byte) : toHex (charOf ((promote c).sshiftRight 4)) = toHex (c >>> 4) := by
  revert c
  decide +kernel

theorem charOf_promote (c : Byte) : charOf (promote c) = c := by
  revert c
  decide +kernel

theorem charOf_and (c : Byte) : charOf (promote c &&& 15) = c &&& 15 := by
  revert c
  decide +kernel

theorem charOf_or (m n : CInt) : charOf (m ||| n) = charOf m ||| charOf n := by
  show UInt8.ofBitVec _ = UInt8.ofBitVec _
  congr 1
  ext i h
  simp [charOf]

theorem charOf_shiftLeft (m : CInt) : charOf (m <<< 4) = charOf m <<< 4 := by
  show UInt8.ofBitVec _ = UInt8.ofBitVec _
  congr 1
  ext i h
  simp [charOf]
  rfl

theorem decodedChar_eq (d e : Byte) : decodedChar d e = fromHex d <<< 4 ||| fromHex e := by
  rw [decodedChar, charOf_or, charOf_shiftLeft, charOf_promote, charOf_promote, fromHexChar_eq,
    fromHexChar_eq]

/-! ## The encoder -/

/-- The loop of `mfs_tracker_url_encode` (lines 232–244): the buffer, `pbuf` and `l`. -/
def urlEncodeLoopInto (raw : Bytes) (pstr : ℕ) (buf : Bytes) (pbuf l : ℕ) :
    Except OutOfBounds (Bytes × ℕ × ℕ) :=
  match _h : raw[pstr]? with
  | none => .error ⟨pstr⟩
  | some c =>
    if c = 0 then .ok (buf, pbuf, l)
    else if isalnumInt (promote c) || c = ch '-' || c = ch '_' || c = ch '.' || c = ch '~' then do
      let buf ← write buf pbuf c
      urlEncodeLoopInto raw (pstr + 1) buf (pbuf + 1) (l + 1)
    else if c = ch ' ' then do
      let buf ← write buf pbuf (ch '+')
      urlEncodeLoopInto raw (pstr + 1) buf (pbuf + 1) (l + 1)
    else do
      let buf ← write buf pbuf (ch '%')
      let buf ← write buf (pbuf + 1) (← toHexAt (charOf ((promote c).sshiftRight 4)))
      let buf ← write buf (pbuf + 1 + 1) (← toHexAt (charOf (promote c &&& 15)))
      urlEncodeLoopInto raw (pstr + 1) buf (pbuf + 1 + 1 + 1) (l + 3)
termination_by raw.length - pstr
decreasing_by
  all_goals
    have := (List.getElem?_eq_some_iff.mp _h).1
    omega

/-- `mfs_tracker_url_encode` (lines 229–248): the buffer and `*length`. `palloc` is what
    the memory handed out happens to hold. -/
def mfsTrackerUrlEncodeInto (raw : Bytes) (palloc : ℕ → Byte) :
    Except OutOfBounds (Bytes × ℕ) := do
  let length ← scan (· ≠ 0) raw 0
  let (buf, pbuf, l) ← urlEncodeLoopInto raw 0 (cells palloc (length * 3 + 1)) 0 0
  let buf ← write buf pbuf 0
  return (buf, l)

/-! ## The encoder stays in its buffer -/

theorem urlEncodeLoopInto_nul {raw : Bytes} {i : ℕ} {rest : Bytes} (h : raw.drop i = 0 :: rest)
    (buf : Bytes) (pbuf l : ℕ) : urlEncodeLoopInto raw i buf pbuf l = .ok (buf, pbuf, l) := by
  rw [urlEncodeLoopInto]
  split
  · rename_i hnone
    rw [getElem?_of_drop h] at hnone
    cases hnone
  · rename_i b hsome
    rw [getElem?_of_drop h, Option.some.injEq] at hsome
    rw [if_pos hsome.symm]

/-- One pass over a character of the string. -/
theorem urlEncodeLoopInto_cons {raw : Bytes} {i : ℕ} {c : Byte} {rest : Bytes}
    (h : raw.drop i = c :: rest) (hc : c ≠ 0) (buf : Bytes) (pbuf l : ℕ) :
    urlEncodeLoopInto raw i buf pbuf l =
      (if unreserved c then do
        let buf ← write buf pbuf c
        urlEncodeLoopInto raw (i + 1) buf (pbuf + 1) (l + 1)
      else if c = ch ' ' then do
        let buf ← write buf pbuf (ch '+')
        urlEncodeLoopInto raw (i + 1) buf (pbuf + 1) (l + 1)
      else do
        let buf ← write buf pbuf (ch '%')
        let buf ← write buf (pbuf + 1) (toHex (c >>> 4))
        let buf ← write buf (pbuf + 1 + 1) (toHex (c &&& 15))
        urlEncodeLoopInto raw (i + 1) buf (pbuf + 1 + 1 + 1) (l + 3)) := by
  rw [urlEncodeLoopInto]
  split
  · rename_i hnone
    rw [getElem?_of_drop h] at hnone
    cases hnone
  · rename_i b hsome
    rw [getElem?_of_drop h, Option.some.injEq] at hsome
    subst hsome
    simp only [if_neg hc, isalnumInt_promote, toHexAt_eq, toHex_shift, charOf_and, ok_bind]
    rfl

/-- Writing `xs` and then `ys` into `room` is writing `xs ++ ys`. -/
theorem append_drop_append (done xs ys room : Bytes) :
    done ++ xs ++ ys ++ (room.drop xs.length).drop ys.length =
      done ++ (xs ++ ys) ++ room.drop (xs ++ ys).length := by
  rw [List.drop_drop, List.length_append, List.append_assoc done xs ys]

/-- The loop on a C string writes the encoded string behind what is written already. -/
theorem urlEncodeLoopInto_of_drop (s : Bytes) {raw : Bytes} {i : ℕ} {rest : Bytes}
    (h : raw.drop i = s ++ 0 :: rest) (hs : (0 : Byte) ∉ s) (done room : Bytes) (l : ℕ)
    (hroom : s.length * 3 ≤ room.length) :
    urlEncodeLoopInto raw i (done ++ room) done.length l =
      .ok (done ++ mfsTrackerUrlEncode s ++ room.drop (mfsTrackerUrlEncode s).length,
        (done ++ mfsTrackerUrlEncode s).length, l + (mfsTrackerUrlEncode s).length) := by
  induction s generalizing i done room l with
  | nil =>
    rw [urlEncodeLoopInto_nul h]
    simp [mfsTrackerUrlEncode]
  | cons c s ih =>
    rw [List.mem_cons, not_or] at hs
    rw [List.length_cons] at hroom
    have hc : c ≠ 0 := fun h => hs.1 h.symm
    -- the rest of the loop, behind the `xs` this pass writes
    have hrest : ∀ xs : Bytes, xs.length ≤ 3 →
        urlEncodeLoopInto raw (i + 1) (done ++ xs ++ room.drop xs.length) (done.length + xs.length)
            (l + xs.length) =
          .ok (done ++ (xs ++ mfsTrackerUrlEncode s) ++
              room.drop (xs ++ mfsTrackerUrlEncode s).length,
            (done ++ (xs ++ mfsTrackerUrlEncode s)).length,
            l + (xs ++ mfsTrackerUrlEncode s).length) := by
      intro xs hxs
      have hih := ih (drop_of_drop_cons h) hs.2 (done ++ xs) (room.drop xs.length) (l + xs.length)
        (by rw [List.length_drop]; omega)
      have hlen : (xs ++ mfsTrackerUrlEncode s).length =
          xs.length + (mfsTrackerUrlEncode s).length := List.length_append
      rw [List.length_append] at hih
      rw [hih, append_drop_append, List.append_assoc done xs, Nat.add_assoc l, ← hlen]
    rw [urlEncodeLoopInto_cons h hc, urlEncode_cons hc]
    split_ifs with hplain hspace
    · rw [write_append _ (by omega), ok_bind]
      exact hrest [c] (by simp)
    · rw [write_append _ (by omega), ok_bind]
      exact hrest [ch '+'] (by simp)
    · have hroom₁ : 0 < (room.drop 1).length := by rw [List.length_drop]; omega
      have hroom₂ : 0 < ((room.drop 1).drop 1).length := by
        rw [List.length_drop, List.length_drop]; omega
      have hsecond := write_append (done ++ [ch '%']) hroom₁ (toHex (c >>> 4))
      have hthird := write_append (done ++ [ch '%'] ++ [toHex (c >>> 4)]) hroom₂
        (toHex (c &&& 15))
      simp only [List.length_append, List.length_singleton] at hsecond hthird
      rw [write_append _ (by omega), ok_bind, hsecond, ok_bind, hthird, ok_bind]
      have hlast := hrest [ch '%', toHex (c >>> 4), toHex (c &&& 15)] (by simp)
      simp only [List.append_assoc, List.cons_append, List.nil_append, List.drop_drop] at hlast ⊢
      exact hlast

/-! ## The decoder -/

/-- The loop of `mfs_tracker_url_decode` (lines 252–264): the buffer and `pbuf`. -/
def urlDecodeLoopInto (encoded : Bytes) (pstr : ℕ) (buf : Bytes) (pbuf : ℕ) :
    Except OutOfBounds (Bytes × ℕ) :=
  match _h : encoded[pstr]? with
  | none => .error ⟨pstr⟩
  | some c =>
    if c = 0 then .ok (buf, pbuf)
    else if c = ch '%' then do
      let d ← read encoded (pstr + 1)
      if d ≠ 0 then
        let e ← read encoded (pstr + 2)
        if e ≠ 0 then
          let buf ← write buf pbuf (decodedChar d e)
          urlDecodeLoopInto encoded (pstr + 3) buf (pbuf + 1)
        else urlDecodeLoopInto encoded (pstr + 1) buf pbuf
      else urlDecodeLoopInto encoded (pstr + 1) buf pbuf
    else if c = ch '+' then do
      let buf ← write buf pbuf (ch ' ')
      urlDecodeLoopInto encoded (pstr + 1) buf (pbuf + 1)
    else do
      let buf ← write buf pbuf c
      urlDecodeLoopInto encoded (pstr + 1) buf (pbuf + 1)
termination_by encoded.length - pstr
decreasing_by
  all_goals
    have := (List.getElem?_eq_some_iff.mp _h).1
    omega

/-- `mfs_tracker_url_decode` (lines 250–267): the buffer. -/
def mfsTrackerUrlDecodeInto (encoded : Bytes) (palloc : ℕ → Byte) : Except OutOfBounds Bytes := do
  let length ← scan (· ≠ 0) encoded 0
  let (buf, pbuf) ← urlDecodeLoopInto encoded 0 (cells palloc (length + 1)) 0
  write buf pbuf 0

/-! ## The decoder stays in its buffer -/

theorem urlDecodeLoopInto_nul {encoded : Bytes} {i : ℕ} {rest : Bytes}
    (h : encoded.drop i = 0 :: rest) (buf : Bytes) (pbuf : ℕ) :
    urlDecodeLoopInto encoded i buf pbuf = .ok (buf, pbuf) := by
  rw [urlDecodeLoopInto]
  split
  · rename_i hnone
    rw [getElem?_of_drop h] at hnone
    cases hnone
  · rename_i b hsome
    rw [getElem?_of_drop h, Option.some.injEq] at hsome
    rw [if_pos hsome.symm]

/-- One pass over a character of the string. -/
theorem urlDecodeLoopInto_cons {encoded : Bytes} {i : ℕ} {c : Byte} {rest : Bytes}
    (h : encoded.drop i = c :: rest) (hc : c ≠ 0) (buf : Bytes) (pbuf : ℕ) :
    urlDecodeLoopInto encoded i buf pbuf =
      (if c = ch '%' then do
        let d ← read encoded (i + 1)
        if d ≠ 0 then
          let e ← read encoded (i + 2)
          if e ≠ 0 then
            let buf ← write buf pbuf (fromHex d <<< 4 ||| fromHex e)
            urlDecodeLoopInto encoded (i + 3) buf (pbuf + 1)
          else urlDecodeLoopInto encoded (i + 1) buf pbuf
        else urlDecodeLoopInto encoded (i + 1) buf pbuf
      else do
        let buf ← write buf pbuf (if c = ch '+' then ch ' ' else c)
        urlDecodeLoopInto encoded (i + 1) buf (pbuf + 1)) := by
  rw [urlDecodeLoopInto]
  split
  · rename_i hnone
    rw [getElem?_of_drop h] at hnone
    cases hnone
  · rename_i b hsome
    rw [getElem?_of_drop h, Option.some.injEq] at hsome
    subst hsome
    simp only [if_neg hc, decodedChar_eq]
    split_ifs
    · rfl
    · rfl
    · rfl

/-- The loop where one character `b` has been written first, and then `new`. -/
theorem urlDecodeLoopInto_put {encoded : Bytes} {j : ℕ} {done room new : Bytes} {b : Byte}
    (hroom : 0 < room.length)
    (h : urlDecodeLoopInto encoded j (done ++ [b] ++ room.drop 1) (done ++ [b]).length =
      .ok (done ++ [b] ++ new ++ (room.drop 1).drop new.length, (done ++ [b] ++ new).length)) :
    (do
      let buf ← write (done ++ room) done.length b
      urlDecodeLoopInto encoded j buf (done.length + 1)) =
        .ok (done ++ (b :: new) ++ room.drop (b :: new).length, (done ++ b :: new).length) := by
  have hjoin := append_drop_append done [b] new room
  rw [List.length_singleton] at hjoin
  rw [List.length_append, List.length_singleton, hjoin, List.append_assoc done [b] new] at h
  rw [write_append _ hroom, ok_bind, h]
  rfl

/-- The loop on a character that is no `%`. -/
theorem urlDecodeLoopInto_plain {encoded : Bytes} {i : ℕ} {c : Byte} {t rest done room : Bytes}
    (h : encoded.drop i = c :: rest) (hc : c ≠ 0) (hpercent : c ≠ ch '%') (hroom : 0 < room.length)
    (hrest : urlDecodeLoopInto encoded (i + 1)
        (done ++ [if c = ch '+' then ch ' ' else c] ++ room.drop 1)
        (done ++ [if c = ch '+' then ch ' ' else c]).length =
      .ok (done ++ [if c = ch '+' then ch ' ' else c] ++ mfsTrackerUrlDecode t ++
          (room.drop 1).drop (mfsTrackerUrlDecode t).length,
        (done ++ [if c = ch '+' then ch ' ' else c] ++ mfsTrackerUrlDecode t).length)) :
    urlDecodeLoopInto encoded i (done ++ room) done.length =
      .ok (done ++ mfsTrackerUrlDecode (c :: t) ++
          room.drop (mfsTrackerUrlDecode (c :: t)).length,
        (done ++ mfsTrackerUrlDecode (c :: t)).length) := by
  rw [urlDecodeLoopInto_cons h hc, if_neg hpercent, urlDecode_cons_of_ne hc hpercent]
  exact urlDecodeLoopInto_put hroom hrest

/-- The loop on a C string writes the decoded string behind what is written already. -/
theorem urlDecodeLoopInto_of_drop (t : Bytes) {encoded : Bytes} {i : ℕ} {rest : Bytes}
    (h : encoded.drop i = t ++ 0 :: rest) (ht : (0 : Byte) ∉ t) (done room : Bytes)
    (hroom : t.length ≤ room.length) :
    urlDecodeLoopInto encoded i (done ++ room) done.length =
      .ok (done ++ mfsTrackerUrlDecode t ++ room.drop (mfsTrackerUrlDecode t).length,
        (done ++ mfsTrackerUrlDecode t).length) := by
  induction t using mfsTrackerUrlDecode.induct generalizing i done room with
  | case1 =>
    rw [urlDecodeLoopInto_nul h]
    simp [mfsTrackerUrlDecode]
  | case2 t => exact absurd List.mem_cons_self ht
  | case3 d e t hde _ ih =>
    -- `%` and two characters
    simp only [List.mem_cons, not_or] at ht
    simp only [List.length_cons] at hroom
    have hd : d ≠ 0 := fun h => ht.2.1 h.symm
    have he : e ≠ 0 := fun h => ht.2.2.1 h.symm
    have hnext := drop_of_drop_cons h
    have hbehind := drop_of_drop_cons (drop_of_drop_cons hnext)
    rw [urlDecodeLoopInto_cons h (by decide), if_pos rfl, read_of_drop hnext, ok_bind, if_pos hd,
      read_of_drop (drop_of_drop_cons hnext), ok_bind, if_pos he, urlDecode_percent hd he]
    exact urlDecodeLoopInto_put (by omega) (ih hbehind ht.2.2.2
      (done ++ [fromHex d <<< 4 ||| fromHex e]) (room.drop 1) (by rw [List.length_drop]; omega))
  | case4 d e t hde _ ih =>
    simp only [List.mem_cons, not_or] at ht
    exact absurd (by simp [Ne.symm ht.2.1, Ne.symm ht.2.2.1]) hde
  | case5 t hshort _ ih =>
    -- `%` at the end of the string, or next to it
    rw [List.mem_cons, not_or] at ht
    rw [List.length_cons] at hroom
    have hnext : encoded.drop (i + 1) = t ++ 0 :: rest := drop_of_drop_cons h
    have hskip := ih hnext ht.2 done room (by omega)
    rw [urlDecodeLoopInto_cons h (by decide), if_pos rfl]
    rcases t with _ | ⟨d, _ | ⟨e, t⟩⟩
    · rw [read_of_drop hnext, ok_bind, if_neg (by simp), urlDecode_percent_short (by simp), hskip]
    · rw [read_of_drop hnext, ok_bind, read_of_drop (drop_of_drop_cons hnext), ok_bind,
        urlDecode_percent_short (by simp), if_neg (not_not.mpr rfl), ite_self, hskip]
    · exact absurd rfl (hshort d e t)
  | case6 t hc hpercent ih =>
    rw [List.mem_cons, not_or] at ht
    rw [List.length_cons] at hroom
    exact urlDecodeLoopInto_plain h hc hpercent (by omega) (ih (drop_of_drop_cons h) ht.2
      (done ++ [_]) (room.drop 1) (by rw [List.length_drop]; omega))
  | case7 c t hc hpercent _ ih =>
    rw [List.mem_cons, not_or] at ht
    rw [List.length_cons] at hroom
    exact urlDecodeLoopInto_plain h hc hpercent (by omega) (ih (drop_of_drop_cons h) ht.2
      (done ++ [_]) (room.drop 1) (by rw [List.length_drop]; omega))

theorem length_urlDecode_le {t : Bytes} (ht : (0 : Byte) ∉ t) :
    (mfsTrackerUrlDecode t).length ≤ t.length := by
  induction t using mfsTrackerUrlDecode.induct with
  | case1 => exact le_rfl
  | case2 t => exact absurd List.mem_cons_self ht
  | case3 d e t hde _ ih =>
    simp only [List.mem_cons, not_or] at ht
    have := ih ht.2.2.2
    rw [urlDecode_percent (Ne.symm ht.2.1) (Ne.symm ht.2.2.1)]
    simp only [List.length_cons]
    omega
  | case4 d e t hde _ ih =>
    simp only [List.mem_cons, not_or] at ht
    exact absurd (by simp [Ne.symm ht.2.1, Ne.symm ht.2.2.1]) hde
  | case5 t hshort _ ih =>
    rw [List.mem_cons, not_or] at ht
    have hlt : t.length < 2 := by
      rcases t with _ | ⟨d, _ | ⟨e, t⟩⟩
      · simp
      · simp
      · exact absurd rfl (hshort d e t)
    rw [urlDecode_percent_short hlt, List.length_cons]
    exact Nat.le_succ_of_le (ih ht.2)
  | case6 t hc hpercent ih =>
    rw [List.mem_cons, not_or] at ht
    rw [urlDecode_cons_of_ne hc hpercent]
    exact Nat.succ_le_succ (ih ht.2)
  | case7 c t hc hpercent _ ih =>
    rw [List.mem_cons, not_or] at ht
    rw [urlDecode_cons_of_ne hc hpercent]
    exact Nat.succ_le_succ (ih ht.2)

/-! ## Both functions -/

theorem length_urlEncode_le (s : Bytes) : (mfsTrackerUrlEncode s).length ≤ s.length * 3 := by
  induction s with
  | nil => exact le_rfl
  | cons c s ih =>
    rw [List.length_cons]
    by_cases hc : c = 0
    · rw [mfsTrackerUrlEncode, if_pos hc]
      exact Nat.zero_le _
    · rw [urlEncode_cons hc]
      split_ifs
      · rw [List.length_cons]; omega
      · rw [List.length_cons]; omega
      · simp only [List.length_cons]; omega

/-- Where the search for the terminator of a C string ends. -/
theorem scan_terminator {mem s rest : Bytes} (h : mem = s ++ 0 :: rest) (hs : (0 : Byte) ∉ s) :
    scan (· ≠ 0) mem 0 = .ok s.length := by
  have hdrop : mem.drop 0 = s ++ 0 :: rest := h
  rw [scan_of_drop hdrop (fun x hx => by simpa using ne_of_mem_of_not_mem hx hs) (by simp),
    Nat.zero_add]

/-- The terminator behind what has been written, and the rest of the buffer. -/
theorem write_terminator {new room : Bytes} (h : new.length < room.length) :
    write (new ++ room.drop new.length) new.length 0 =
      .ok (new ++ 0 :: room.drop (new.length + 1)) := by
  rw [write_append _ (by rw [List.length_drop]; omega), List.drop_drop, List.append_assoc]
  rfl

/-- The encoder on a C string with anything behind it. -/
theorem mfsTrackerUrlEncodeInto_eq {raw s rest : Bytes} (h : raw = s ++ 0 :: rest)
    (hs : (0 : Byte) ∉ s) (palloc : ℕ → Byte) :
    mfsTrackerUrlEncodeInto raw palloc =
      .ok (mfsTrackerUrlEncode s ++ 0 ::
          (cells palloc (s.length * 3 + 1)).drop ((mfsTrackerUrlEncode s).length + 1),
        (mfsTrackerUrlEncode s).length) := by
  have hle := length_urlEncode_le s
  have hdrop : raw.drop 0 = s ++ 0 :: rest := h
  have hloop := urlEncodeLoopInto_of_drop s hdrop hs [] (cells palloc (s.length * 3 + 1)) 0
    (by rw [length_cells]; omega)
  simp only [List.nil_append, List.length_nil, Nat.zero_add] at hloop
  rw [mfsTrackerUrlEncodeInto, scan_terminator h hs, ok_bind, hloop, ok_bind]
  simp only
  rw [write_terminator (by rw [length_cells]; omega)]
  rfl

/-- The decoder on a C string with anything behind it. -/
theorem mfsTrackerUrlDecodeInto_eq {encoded t rest : Bytes} (h : encoded = t ++ 0 :: rest)
    (ht : (0 : Byte) ∉ t) (palloc : ℕ → Byte) :
    mfsTrackerUrlDecodeInto encoded palloc =
      .ok (mfsTrackerUrlDecode t ++ 0 ::
        (cells palloc (t.length + 1)).drop ((mfsTrackerUrlDecode t).length + 1)) := by
  have hle := length_urlDecode_le ht
  have hdrop : encoded.drop 0 = t ++ 0 :: rest := h
  have hloop := urlDecodeLoopInto_of_drop t hdrop ht [] (cells palloc (t.length + 1))
    (by rw [length_cells]; omega)
  simp only [List.nil_append, List.length_nil] at hloop
  rw [mfsTrackerUrlDecodeInto, scan_terminator h ht, ok_bind, hloop, ok_bind]
  simp only
  rw [write_terminator (by rw [length_cells]; omega)]

/-- On every C string the encoder, and on every C string `t` whatever the decoder
    stays in a memory that ends behind the terminator and in its own buffer. The encoder
    writes `*length` characters, all of them `urlChar`, and a NUL, at most `3|s| + 1`
    bytes in all; decoding what it leaves gives the string back; the decoder writes at
    most `|t| + 1` bytes. What is behind these bytes stays as it was handed out. -/
theorem urlCodec_memory (s t : Bytes) (hs : (0 : Byte) ∉ s) (ht : (0 : Byte) ∉ t)
    (palloc palloc' : ℕ → Byte) :
    (∃ written, (∀ c ∈ written, urlChar c) ∧ written.length + 1 ≤ 3 * s.length + 1 ∧
      mfsTrackerUrlEncodeInto (s ++ [0]) palloc =
        .ok (written ++ 0 :: (cells palloc (s.length * 3 + 1)).drop (written.length + 1),
          written.length) ∧
      mfsTrackerUrlDecodeInto
          (written ++ 0 :: (cells palloc (s.length * 3 + 1)).drop (written.length + 1)) palloc' =
        .ok (s ++ 0 :: (cells palloc' (written.length + 1)).drop (s.length + 1))) ∧
    ∃ written, written.length + 1 ≤ t.length + 1 ∧
      mfsTrackerUrlDecodeInto (t ++ [0]) palloc =
        .ok (written ++ 0 :: (cells palloc (t.length + 1)).drop (written.length + 1)) := by
  have hencoded : (0 : Byte) ∉ mfsTrackerUrlEncode s := notMem_urlEncode s (by decide)
  have hle := length_urlEncode_le s
  constructor
  · refine ⟨mfsTrackerUrlEncode s, fun c hc => urlChar_of_mem_urlEncode hc, by omega,
      mfsTrackerUrlEncodeInto_eq rfl hs palloc, ?_⟩
    rw [mfsTrackerUrlDecodeInto_eq rfl hencoded palloc', urlDecode_urlEncode hs]
  · have hshorter := length_urlDecode_le ht
    exact ⟨mfsTrackerUrlDecode t, by omega, mfsTrackerUrlDecodeInto_eq rfl ht palloc⟩

/-- A character with its sign bit set, and a `%` in front of the end. -/
theorem urlCodec_memory_percent :
    ∃ written, (∀ c ∈ written, urlChar c) ∧ written.length + 1 ≤ 4 ∧
      mfsTrackerUrlEncodeInto ([200] ++ [0]) (fun _ => 0) =
        .ok (written ++ 0 :: (cells (fun _ => 0) 4).drop (written.length + 1), written.length) := by
  obtain ⟨written, hchars, hlen, hencode, -⟩ :=
    (urlCodec_memory [200] (str "a%4") (by decide) (by decide) (fun _ => 0) fun _ => 0).1
  exact ⟨written, hchars, hlen, hencode⟩

end MogileFs
