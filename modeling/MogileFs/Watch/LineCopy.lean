import MogileFs.Watch.Reader

/-!
# The bounds of a line

`sock_readline` (src/watch.c:59-104) on a buffer in any state and on anything
that its `apr_socket_recv` calls answer, while watching is allowed. A timeout is
taken to report 0 bytes.

Results:
* `sockReadline_copy`: what the caller's buffer holds afterwards, and that
  timeouts make no difference.
* `readlineLoop_bounded`: the bounds alone, for an answer of any kind.
* `readlineLoop_dropTimeouts`: a sequence of answers is read as the same
  sequence without its timeouts.
-/

namespace MogileFs

/-! ## Bounds -/

/-- The cursor in the middle of the loop: `size` characters have been stored, `len`
    counts the positions left of `total`, and nothing is written behind those. -/
structure Copying (buf : ℕ → Byte) (total size len : ℕ) (p : Cursor) : Prop where
  stored : p.pos = size
  room : p.pos + len = total
  top : p.top ≤ total
  frame : ∀ i, total ≤ i → p.memory i = buf i

/-- What `sock_readline` leaves in a buffer of `total` positions that held `buf`. On
    success the last of the stored characters is a newline, and a NUL is behind it. -/
structure LineBounded (buf : ℕ → Byte) (total : ℕ) (r : ReadlineResult) : Prop where
  top : r.bufptr.top ≤ total
  frame : ∀ i, total ≤ i → r.bufptr.memory i = buf i
  stored : r.bufptr.pos ≤ total - 1
  newline : r.rv = some .success →
    0 < r.bufptr.pos ∧ r.bufptr.memory (r.bufptr.pos - 1) = LF
  terminated : r.rv = some .success → r.bufptr.memory r.bufptr.pos = 0

theorem copying_start (buf : ℕ → Byte) (len : ℕ) : Copying buf len 0 len ⟨buf, 0, 0⟩ :=
  ⟨rfl, Nat.zero_add len, Nat.zero_le len, fun _ _ => rfl⟩

/-- A character is stored only where `--len > 0` leaves a position behind it. -/
theorem Copying.put {buf : ℕ → Byte} {total size len : ℕ} {p : Cursor}
    (h : Copying buf total size len p) (hlen : 2 ≤ len) (c : Byte) :
    Copying buf total (size + 1) (len - 1) (p.put c) := by
  obtain ⟨hstored, hroom, htop, hframe⟩ := h
  refine ⟨?_, ?_, ?_, ?_⟩
  · show p.pos + 1 = size + 1
    omega
  · show p.pos + 1 + (len - 1) = total
    omega
  · show max p.top (p.pos + 1) ≤ total
    omega
  · intro i hi
    show Function.update p.memory p.pos c i = buf i
    rw [Function.update_of_ne (by omega)]
    exact hframe i hi

/-- The loop is left without a newline. -/
theorem Copying.lineBounded {buf : ℕ → Byte} {total size len : ℕ} {p : Cursor}
    (h : Copying buf total size len p) (hlen : 1 ≤ len) {rv : Option AprStatus}
    (hrv : rv ≠ some .success) (b : ReadBuffer) (incoming : List (Recv readBufSize)) :
    LineBounded buf total ⟨rv, p, b, incoming⟩ := by
  have hroom := h.room
  refine ⟨h.top, h.frame, ?_, fun hs => absurd hs hrv, fun hs => absurd hs hrv⟩
  show p.pos ≤ total - 1
  omega

/-- The terminator is written at most where `len` had come to 1, and the CR that is
    overwritten is one of the stored characters. -/
theorem Copying.terminateBuffer {buf : ℕ → Byte} {total size len : ℕ} {p : Cursor}
    (h : Copying buf total size len p) (hlen : 2 ≤ len) (b : ReadBuffer)
    (incoming : List (Recv readBufSize)) :
    LineBounded buf total
      ⟨some .success, terminateBuffer (p.put LF) (size + 1), b, incoming⟩ := by
  have hput := h.put hlen LF
  have hlast : (p.put LF).memory ((p.put LF).pos - 1) = LF := by
    show Function.update p.memory p.pos LF (p.pos + 1 - 1) = LF
    rw [Nat.add_sub_cancel, Function.update_self]
  generalize p.put LF = q at hput hlast
  obtain ⟨hstored, hroom, htop, hframe⟩ := hput
  -- what is written never reaches `total`, whether the CR is overwritten or not
  unfold MogileFs.terminateBuffer
  simp only
  split_ifs with hcr
  · have htwo : 2 ≤ q.pos := by omega
    refine ⟨?_, ?_, ?_, ?_, ?_⟩
    · show max (max q.top (q.pos + 1)) (q.pos - 2 + 1) ≤ total
      omega
    · intro i hi
      show Function.update (Function.update q.memory q.pos 0) (q.pos - 2) 0 i = buf i
      rw [Function.update_of_ne (by omega), Function.update_of_ne (by omega)]
      exact hframe i hi
    · show q.pos ≤ total - 1
      omega
    · intro _
      refine ⟨by show 0 < q.pos; omega, ?_⟩
      show Function.update (Function.update q.memory q.pos 0) (q.pos - 2) 0 (q.pos - 1) = LF
      rw [Function.update_of_ne (by omega), Function.update_of_ne (by omega)]
      exact hlast
    · intro _
      show Function.update (Function.update q.memory q.pos 0) (q.pos - 2) 0 q.pos = 0
      rw [Function.update_of_ne (by omega), Function.update_self]
  · refine ⟨?_, ?_, ?_, ?_, ?_⟩
    · show max q.top (q.pos + 1) ≤ total
      omega
    · intro i hi
      show Function.update q.memory q.pos 0 i = buf i
      rw [Function.update_of_ne (by omega)]
      exact hframe i hi
    · show q.pos ≤ total - 1
      omega
    · intro _
      refine ⟨by show 0 < q.pos; omega, ?_⟩
      show Function.update q.memory q.pos 0 (q.pos - 1) = LF
      rw [Function.update_of_ne (by omega)]
      exact hlast
    · intro _
      exact Function.update_self _ _ _

/-- A refill that gives up never does so with `APR_SUCCESS`. -/
theorem refill_failed {b b' : ReadBuffer} {incoming incoming' : List (Recv readBufSize)}
    {rv : AprStatus} (h : refill b incoming = .failed rv b' incoming') : rv ≠ .success := by
  unfold refill at h
  split_ifs at h with hcnt
  cases incoming with
  | nil => cases h
  | cons r incoming =>
    simp only at h
    split_ifs at h with htime hfail hend
    · cases h
      exact hfail.1
    · cases h
      intro heof
      cases heof

theorem readlineLoop_bounded {buf : ℕ → Byte} {total : ℕ} (htotal : total < 2 ^ 64) (p : Cursor)
    (size len : ℕ) (b : ReadBuffer) (incoming : List (Recv readBufSize)) (hlen : 1 ≤ len)
    (h : Copying buf total size len p) :
    LineBounded buf total (readlineLoop true p size len b incoming) := by
  have hdec := decSize_of_pos hlen
  induction p, size, len, b, incoming using readlineLoop.induct true with
  | case1 p size len b incoming hgo hrefill =>
    rw [readlineLoop, if_pos hgo, hrefill]
    exact h.lineBounded hlen (fun hs => by cases hs) _ _
  | case2 p size len b incoming hgo rv b' incoming' hrefill =>
    rw [readlineLoop, if_pos hgo, hrefill]
    have hrv := refill_failed hrefill
    exact h.lineBounded hlen (fun hs => hrv (Option.some.inj hs)) _ _
  | case3 p size len b incoming hgo b' incoming' hrefill ih =>
    rw [readlineLoop, if_pos hgo, hrefill]
    simp only
    have hroom := h.room
    have hback : incSize (decSize len) = len := by
      rw [hdec, incSize, Nat.sub_add_cancel hlen, Nat.mod_eq_of_lt (by omega)]
    rw [hback] at ih ⊢
    exact ih hlen h hdec
  | case4 p size len b incoming hgo b' incoming' hrefill c hc =>
    rw [readlineLoop, if_pos hgo, hrefill]
    simp only
    rw [if_pos hc, show b'.current = LF from hc]
    have htwo : 2 ≤ len := by have := hgo.2; omega
    exact h.terminateBuffer htwo _ _
  | case5 p size len b incoming hgo b' incoming' hrefill c hc ih =>
    rw [readlineLoop, if_pos hgo, hrefill]
    simp only
    rw [if_neg hc]
    have htwo : 2 ≤ len := by have := hgo.2; omega
    rw [hdec] at ih ⊢
    exact ih (by omega) (h.put htwo _) (decSize_of_pos (by omega))
  | case6 p size len b incoming hgo =>
    rw [readlineLoop, if_neg hgo]
    exact h.lineBounded hlen (fun hs => by cases hs) _ _

/-! ## Timeouts -/

/-- A timeout reports 0 bytes. -/
def TimeoutsEmpty (incoming : List (Recv readBufSize)) : Prop :=
  ∀ r ∈ incoming, r.rv = .timeup → r.bytes = []

/-- What is received, without the timeouts. -/
def dropTimeouts (incoming : List (Recv readBufSize)) : List (Recv readBufSize) :=
  incoming.filter fun r => r.rv ≠ .timeup

/-- The two buffers are equal as the reader sees them. -/
structure SameBuffer (b b' : ReadBuffer) : Prop where
  readBuf : b.readBuf = b'.readBuf
  bufPointer : b.bufPointer = b'.bufPointer
  cnt : b.cnt = b'.cnt

/-- The status, what is stored, the buffer and what is left to come are the same, that
    up to timeouts. -/
structure SameLine (r r' : ReadlineResult) : Prop where
  rv : r.rv = r'.rv
  bufptr : r.bufptr = r'.bufptr
  buffer : SameBuffer r.buffer r'.buffer
  incoming : dropTimeouts r.incoming = dropTimeouts r'.incoming

theorem dropTimeouts_timeup {r : Recv readBufSize} (h : r.rv = .timeup)
    (incoming : List (Recv readBufSize)) :
    dropTimeouts (r :: incoming) = dropTimeouts incoming := by
  simp [dropTimeouts, h]

theorem dropTimeouts_cons {r : Recv readBufSize} (h : r.rv ≠ .timeup)
    (incoming : List (Recv readBufSize)) :
    dropTimeouts (r :: incoming) = r :: dropTimeouts incoming := by
  simp [dropTimeouts, h]

theorem dropTimeouts_idem (incoming : List (Recv readBufSize)) :
    dropTimeouts (dropTimeouts incoming) = dropTimeouts incoming := by
  simp [dropTimeouts]

theorem SameBuffer.refl (b : ReadBuffer) : SameBuffer b b := ⟨rfl, rfl, rfl⟩

theorem SameBuffer.recv {b b' : ReadBuffer} (h : SameBuffer b b') (r : Recv readBufSize) :
    SameBuffer (b.recv r) (b'.recv r) := by
  refine ⟨?_, h.bufPointer, rfl⟩
  simp only [ReadBuffer.recv, h.readBuf]

theorem SameBuffer.current {b b' : ReadBuffer} (h : SameBuffer b b') : b.current = b'.current := by
  rw [ReadBuffer.current, ReadBuffer.current, h.readBuf, h.bufPointer]

theorem SameBuffer.advance {b b' : ReadBuffer} (h : SameBuffer b b') (kind : ReadKind) :
    SameBuffer (b.advance kind) (b'.advance kind) :=
  ⟨h.readBuf, congrArg (· + 1) h.bufPointer, h.cnt⟩

theorem SameBuffer.skipNuls {b b' : ReadBuffer} (h : SameBuffer b b') :
    SameBuffer (skipNuls b) (skipNuls b') := by
  induction b using skipNuls.induct generalizing b' with
  | case1 b hpos hcur ih =>
    have hpos' : 0 < b'.cnt := h.cnt ▸ hpos
    have hcur' : b'.current = 0 := h.current ▸ hcur
    rw [MogileFs.skipNuls, if_pos hpos, if_pos hcur]
    rw [MogileFs.skipNuls.eq_1 b', if_pos hpos', if_pos hcur']
    refine ih ⟨h.readBuf, congrArg (· + 1) h.bufPointer, ?_⟩
    show b.cnt - 1 = b'.cnt - 1
    rw [h.cnt]
  | case2 b hpos hcur =>
    rw [MogileFs.skipNuls, if_pos hpos, if_neg hcur, MogileFs.skipNuls,
      if_pos (h.cnt ▸ hpos), if_neg (h.current ▸ hcur)]
    exact ⟨h.readBuf, h.bufPointer, h.cnt⟩
  | case3 b hpos =>
    rw [MogileFs.skipNuls, if_neg hpos, MogileFs.skipNuls, if_neg (h.cnt ▸ hpos)]
    exact h

/-- A refill finds the same in the answers without their timeouts, unless it times out
    itself; then nothing has happened. -/
theorem refill_dropTimeouts {b b' : ReadBuffer} (h : SameBuffer b b')
    {incoming : List (Recv readBufSize)} (hempty : TimeoutsEmpty incoming) :
    match refill b incoming with
    | .waiting => refill b' (dropTimeouts incoming) = .waiting ∧ dropTimeouts incoming = []
    | .again c rest => SameBuffer c b' ∧ dropTimeouts rest = dropTimeouts incoming ∧
        TimeoutsEmpty rest
    | .failed rv c rest => ∃ c', SameBuffer c c' ∧
        refill b' (dropTimeouts incoming) = .failed rv c' (dropTimeouts rest)
    | .ready c rest => TimeoutsEmpty rest ∧ ∃ c', SameBuffer c c' ∧
        refill b' (dropTimeouts incoming) = .ready c' (dropTimeouts rest) := by
  by_cases hcnt : b.cnt = 0
  · have hcnt' : b'.cnt = 0 := h.cnt ▸ hcnt
    cases incoming with
    | nil =>
      simp only [refill, hcnt, hcnt', dropTimeouts, List.filter_nil, if_true, and_self]
    | cons r incoming =>
      have hrest : TimeoutsEmpty incoming := fun q hq => hempty q (List.mem_cons_of_mem _ hq)
      have hrecv := h.recv r
      by_cases htime : r.rv = .timeup
      · have hbytes := hempty r (List.mem_cons_self ..) htime
        simp only [refill, hcnt, htime, if_true]
        refine ⟨⟨?_, h.bufPointer, ?_⟩, (dropTimeouts_timeup htime incoming).symm, hrest⟩
        · funext i
          simp [ReadBuffer.recv, hbytes, h.readBuf]
        · show r.bytes.length = b'.cnt
          rw [hbytes, hcnt']
          rfl
      · rw [dropTimeouts_cons htime]
        by_cases hfail : r.rv ≠ .success ∧ (b.recv r).cnt = 0
        · simp only [refill, hcnt, hcnt', htime, if_true, if_false, if_pos hfail,
            if_pos (show r.rv ≠ .success ∧ (b'.recv r).cnt = 0 from hfail)]
          exact ⟨_, hrecv, rfl⟩
        · have hfail' : ¬ (r.rv ≠ .success ∧ (b'.recv r).cnt = 0) := hfail
          by_cases hend : (b.recv r).cnt = 0
          · simp only [refill, hcnt, hcnt', htime, if_true, if_false, if_neg hfail,
              if_neg hfail', if_pos hend, if_pos (show (b'.recv r).cnt = 0 from hend)]
            exact ⟨_, hrecv, rfl⟩
          · simp only [refill, hcnt, hcnt', htime, if_true, if_false, if_neg hfail,
              if_neg hfail', if_neg hend, if_neg (show ¬ (b'.recv r).cnt = 0 from hend)]
            exact ⟨hrest, { b'.recv r with bufPointer := 0 }, ⟨hrecv.readBuf, rfl, hrecv.cnt⟩, rfl⟩
  · have hcnt' : b'.cnt ≠ 0 := h.cnt ▸ hcnt
    simp only [refill, hcnt, hcnt', if_false]
    have hdec : b.cnt - 1 = b'.cnt - 1 := by rw [h.cnt]
    exact ⟨hempty, { b' with cnt := b'.cnt - 1 }, ⟨h.readBuf, h.bufPointer, hdec⟩, rfl⟩

theorem readlineLoop_dropTimeouts (p : Cursor) (size len : ℕ) (b : ReadBuffer)
    (incoming : List (Recv readBufSize)) (hlen : 1 ≤ len) (hmax : len < 2 ^ 64)
    (hempty : TimeoutsEmpty incoming) :
    ∀ b', SameBuffer b b' → SameLine (readlineLoop true p size len b incoming)
      (readlineLoop true p size len b' (dropTimeouts incoming)) := by
  have hdec := decSize_of_pos hlen
  induction p, size, len, b, incoming using readlineLoop.induct true with
  | case1 p size len b incoming hgo hrefill =>
    intro b' h
    have hmatch := refill_dropTimeouts h hempty
    rw [hrefill] at hmatch
    rw [readlineLoop, if_pos hgo, hrefill, readlineLoop, if_pos hgo, hmatch.1]
    exact ⟨rfl, rfl, h, (dropTimeouts_idem incoming).symm⟩
  | case2 p size len b incoming hgo rv c rest hrefill =>
    intro b' h
    have hmatch := refill_dropTimeouts h hempty
    rw [hrefill] at hmatch
    obtain ⟨c', hsame, hright⟩ := hmatch
    rw [readlineLoop, if_pos hgo, hrefill, readlineLoop, if_pos hgo, hright]
    exact ⟨rfl, rfl, hsame, (dropTimeouts_idem rest).symm⟩
  | case3 p size len b incoming hgo c rest hrefill ih =>
    intro b' h
    have hmatch := refill_dropTimeouts h hempty
    rw [hrefill] at hmatch
    obtain ⟨hsame, hdrop, hrest⟩ := hmatch
    have hback : incSize (decSize len) = len := by
      rw [hdec, incSize, Nat.sub_add_cancel hlen, Nat.mod_eq_of_lt hmax]
    rw [hback] at ih
    have hleft : readlineLoop true p size len b incoming =
        readlineLoop true p size len c rest := by
      rw [readlineLoop, if_pos hgo, hrefill]
      simp only
      rw [hback]
    rw [hleft, ← hdrop]
    exact ih hlen hmax hrest hdec b' hsame
  | case4 p size len b incoming hgo c rest hrefill _ hch =>
    intro b' h
    have hmatch := refill_dropTimeouts h hempty
    rw [hrefill] at hmatch
    obtain ⟨hrest, c', hsame, hright⟩ := hmatch
    rw [readlineLoop, if_pos hgo, hrefill, readlineLoop, if_pos hgo, hright]
    simp only
    rw [← hsame.current, if_pos hch, if_pos hch]
    exact ⟨rfl, rfl, (hsame.advance .taken).skipNuls, (dropTimeouts_idem rest).symm⟩
  | case5 p size len b incoming hgo c rest hrefill _ hch ih =>
    intro b' h
    have hmatch := refill_dropTimeouts h hempty
    rw [hrefill] at hmatch
    obtain ⟨hrest, c', hsame, hright⟩ := hmatch
    have hgo2 := hgo.2
    rw [readlineLoop, if_pos hgo, hrefill, readlineLoop, if_pos hgo, hright]
    simp only
    rw [← hsame.current, if_neg hch, if_neg hch]
    exact ih (by omega) (by omega) hrest (decSize_of_pos (by omega)) _ (hsame.advance .taken)
  | case6 p size len b incoming hgo =>
    intro b' h
    rw [readlineLoop, if_neg hgo, readlineLoop, if_neg hgo]
    exact ⟨rfl, rfl, h, (dropTimeouts_idem incoming).symm⟩

/-- Answers that differ only in their timeouts are read alike. -/
theorem sockReadline_timeouts (buf : ℕ → Byte) {len : ℕ} (hlen : 1 ≤ len) (hmax : len < 2 ^ 64)
    (b : ReadBuffer) {incoming incoming' : List (Recv readBufSize)}
    (hempty : TimeoutsEmpty incoming) (hempty' : TimeoutsEmpty incoming')
    (h : dropTimeouts incoming' = dropTimeouts incoming) :
    SameLine (sockReadline true buf len b incoming') (sockReadline true buf len b incoming) := by
  have hleft := readlineLoop_dropTimeouts ⟨buf, 0, 0⟩ 0 len b incoming' hlen hmax hempty' b
    (SameBuffer.refl b)
  have hright := readlineLoop_dropTimeouts ⟨buf, 0, 0⟩ 0 len b incoming hlen hmax hempty b
    (SameBuffer.refl b)
  rw [h] at hleft
  exact ⟨hleft.rv.trans hright.rv.symm, hleft.bufptr.trans hright.bufptr.symm,
    ⟨hleft.buffer.readBuf.trans hright.buffer.readBuf.symm,
      hleft.buffer.bufPointer.trans hright.buffer.bufPointer.symm,
      hleft.buffer.cnt.trans hright.buffer.cnt.symm⟩,
    hleft.incoming.trans hright.incoming.symm⟩

/-! ## The line -/

/-- `sock_readline` writes only the first `len` positions, stores fewer than `len`
    characters and succeeds only with a newline as the last of them and a NUL behind
    it; timeouts added or removed make no difference. -/
theorem sockReadline_copy (buf : ℕ → Byte) {len : ℕ} (hlen : 1 ≤ len) (hmax : len < 2 ^ 64)
    (b : ReadBuffer) (incoming : List (Recv readBufSize)) (hempty : TimeoutsEmpty incoming) :
    LineBounded buf len (sockReadline true buf len b incoming) ∧
      ∀ incoming', TimeoutsEmpty incoming' → dropTimeouts incoming' = dropTimeouts incoming →
        SameLine (sockReadline true buf len b incoming')
          (sockReadline true buf len b incoming) := by
  refine ⟨?_, fun incoming' hempty' h => ?_⟩
  · exact readlineLoop_bounded hmax _ 0 len b incoming hlen (copying_start buf len)
  · exact sockReadline_timeouts buf hlen hmax b hempty hempty' h

/-- A timeout, then a chunk whose newline is the second character for 3 positions: the
    terminator takes the last of them, and the timeout makes no difference. -/
theorem sockReadline_copy_last :
    let b := (initWatch 0 fun _ => 0).buffer
    let timeout : Recv readBufSize := ⟨.timeup, [], by decide⟩
    let chunk : Recv readBufSize := ⟨.success, [97, LF], by decide⟩
    let r := sockReadline true (fun _ => 0) 3 b [timeout, chunk]
    (r.rv = some .success ∧ r.bufptr.pos = 2) ∧ LineBounded (fun _ => 0) 3 r ∧
      SameLine (sockReadline true (fun _ => 0) 3 b [chunk]) r := by
  intro b timeout chunk r
  have hchunk : TimeoutsEmpty [chunk] := by
    intro q hq ht
    rw [List.mem_singleton.mp hq] at ht
    cases ht
  have hboth : TimeoutsEmpty [timeout, chunk] := by
    intro q hq ht
    rcases List.mem_cons.mp hq with rfl | hq
    · rfl
    · exact hchunk q hq ht
  have h := sockReadline_copy (fun _ => 0) (show 1 ≤ 3 by decide) (by decide) b [timeout, chunk]
    hboth
  refine ⟨?_, h.1, h.2 [chunk] hchunk rfl⟩
  simp [r, b, timeout, chunk, sockReadline, readlineLoop, refill, decSize, incSize,
    ReadBuffer.recv, ReadBuffer.current, ReadBuffer.advance, ReadBuffer.note, initWatch,
    terminateBuffer, Cursor.put, Cursor.poke, LF, CR]

end MogileFs
