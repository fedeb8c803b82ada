import MogileFs.Watch.Watch

/-!
# Reading one line

What `sock_readline` believes it has buffered is `ReadBuffer.available`. After a
chunk `c` has been received that is `c` and one byte more, the one that lies
behind it in `read_buf` (`available_filled`), because a refill does not count
the byte that is read next.

Results:
* `sockReadline_line`: a line that is available is returned without its CRLF.
* `sockReadline_chunk`, `sockReadline_timeout`: an empty buffer is refilled, and
  a timeout changes nothing.
* `sockReadline_phantom`: available bytes without LF are all stored, the one
  behind the chunk included.
* `sockReadline_reads`: the record of reads only grows.
-/

namespace MogileFs

open Cells

/-! ## The available bytes -/

/-- The bytes that `cnt` promises. -/
def ReadBuffer.available (b : ReadBuffer) : Bytes :=
  cells (fun i => b.readBuf (b.bufPointer + i)) b.cnt

@[simp] theorem length_available (b : ReadBuffer) : b.available.length = b.cnt := length_cells _ _

theorem cells_succ_left {α : Type*} (a : ℕ → α) (n : ℕ) :
    cells a (n + 1) = a 0 :: cells (fun i => a (i + 1)) n := by
  simp [cells, List.range_succ_eq_map, Function.comp_def]

/-- The next byte stored from the buffer. -/
def ReadBuffer.takeOne (b : ReadBuffer) : ReadBuffer :=
  { b.advance .taken with cnt := b.cnt - 1 }

theorem available_cons {b : ReadBuffer} {c : Byte} {rest : Bytes} (h : b.available = c :: rest) :
    0 < b.cnt ∧ b.current = c ∧ b.takeOne.available = rest := by
  have hlen := length_available b
  rw [h, List.length_cons] at hlen
  obtain ⟨n, hn⟩ : ∃ n, b.cnt = n + 1 := ⟨rest.length, hlen.symm⟩
  rw [ReadBuffer.available, hn, cells_succ_left] at h
  obtain ⟨h1, h2⟩ := List.cons.inj h
  refine ⟨by omega, h1, ?_⟩
  rw [← h2, ReadBuffer.available]
  simp only [ReadBuffer.takeOne, ReadBuffer.advance, ReadBuffer.note, hn, Nat.add_sub_cancel]
  exact cells_congr fun i _ => by congr 1; omega

/-- `n` bytes stored from the buffer. -/
def ReadBuffer.takeMany (b : ReadBuffer) : ℕ → ReadBuffer
  | 0 => b
  | n + 1 => b.takeOne.takeMany n

theorem takeMany_add (b : ReadBuffer) (m n : ℕ) :
    b.takeMany (m + n) = (b.takeMany m).takeMany n := by
  induction m generalizing b with
  | zero => rw [Nat.zero_add]; rfl
  | succ m ih => rw [Nat.succ_add]; exact ih b.takeOne

theorem available_takeMany {b : ReadBuffer} {x rest : Bytes} (h : b.available = x ++ rest) :
    (b.takeMany x.length).available = rest := by
  induction x generalizing b with
  | nil => exact h
  | cons c x ih => exact ih (available_cons h).2.2

/-- Storing bytes moves the pointer, notes the reads and leaves the rest alone. -/
theorem takeMany_fields (b : ReadBuffer) (n : ℕ) :
    (b.takeMany n).readBuf = b.readBuf ∧ (b.takeMany n).received = b.received ∧
      (b.takeMany n).bufPointer = b.bufPointer + n ∧
      (b.takeMany n).reads =
        b.reads ++ (List.range n).map fun i => ⟨.taken, b.bufPointer + i, b.received⟩ := by
  induction n generalizing b with
  | zero => simp [ReadBuffer.takeMany]
  | succ n ih =>
    obtain ⟨h1, h2, h3, h4⟩ := ih b.takeOne
    rw [ReadBuffer.takeMany]
    refine ⟨h1, h2, ?_, ?_⟩
    · rw [h3]; simp only [ReadBuffer.takeOne, ReadBuffer.advance]; omega
    · rw [h4, List.range_succ_eq_map]
      simp [ReadBuffer.takeOne, ReadBuffer.advance, ReadBuffer.note, Function.comp_def]
      exact fun i _ => by omega

/-- The buffer after a chunk has been received, as if `cnt` had counted one byte
    more than there are. -/
def ReadBuffer.filled (b : ReadBuffer) (r : Recv readBufSize) : ReadBuffer :=
  { b.recv r with bufPointer := 0, cnt := r.bytes.length + 1 }

/-- The byte behind a chunk that has been received into the buffer. -/
def ReadBuffer.behind (b : ReadBuffer) (r : Recv readBufSize) : Byte := b.readBuf r.bytes.length

theorem available_filled (b : ReadBuffer) (r : Recv readBufSize) :
    (b.filled r).available = r.bytes ++ [b.behind r] := by
  simp only [ReadBuffer.available, ReadBuffer.filled, ReadBuffer.recv, Nat.zero_add]
  rw [cells_succ]
  congr 1
  · refine List.ext_getElem (by simp) fun i h1 h2 => ?_
    simp [cells, h2]
  · simp [ReadBuffer.behind]

/-! ## One pass of the loop -/

theorem refill_of_pos {b : ReadBuffer} (h : 0 < b.cnt) (incoming : List (Recv readBufSize)) :
    refill b incoming = .ready { b with cnt := b.cnt - 1 } incoming := by
  unfold refill
  rw [if_neg (by omega)]

/-- What `apr_socket_recv` answers when it times out. -/
def Recv.IsTimeout {n : ℕ} (r : Recv n) : Prop := r.rv = .timeup ∧ r.bytes = []

/-- What `apr_socket_recv` answers when it delivers something. -/
def Recv.IsChunk {n : ℕ} (r : Recv n) : Prop := r.rv = .success ∧ r.bytes ≠ []

theorem refill_timeout {b : ReadBuffer} (h : b.cnt = 0) {r : Recv readBufSize} (hr : r.IsTimeout)
    (incoming : List (Recv readBufSize)) :
    refill b (r :: incoming) = .again (b.recv r) incoming := by
  unfold refill
  rw [if_pos h]
  exact if_pos hr.1

/-- A refill finds the same as a buffer that already holds the chunk. -/
theorem refill_chunk {b : ReadBuffer} (h : b.cnt = 0) {r : Recv readBufSize} (hr : r.IsChunk)
    (incoming : List (Recv readBufSize)) :
    refill b (r :: incoming) = refill (b.filled r) incoming := by
  have hlen : (b.recv r).cnt ≠ 0 := by
    simpa [ReadBuffer.recv, List.length_eq_zero_iff] using hr.2
  have hpos : 0 < (b.filled r).cnt := Nat.succ_pos _
  rw [refill_of_pos hpos]
  unfold refill
  rw [if_pos h]
  simp only
  rw [if_neg (by simp [hr.1]), if_neg (by simp [hr.1]), if_neg hlen]
  rfl

theorem decSize_of_pos {len : ℕ} (h : 0 < len) : decSize len = len - 1 := if_neg (by omega)

theorem readlineLoop_again {b b' : ReadBuffer} {incoming incoming' : List (Recv readBufSize)}
    (h : refill b incoming = .again b' incoming') {len : ℕ} (hlen : 2 ≤ len) (hmax : len < 2 ^ 64)
    (p : Cursor) (size : ℕ) :
    readlineLoop true p size len b incoming = readlineLoop true p size len b' incoming' := by
  have hdec := decSize_of_pos (show 0 < len by omega)
  rw [readlineLoop, if_pos ⟨rfl, by omega⟩, h]
  simp only
  rw [hdec, incSize, Nat.sub_add_cancel (by omega), Nat.mod_eq_of_lt hmax]

theorem readlineLoop_ready {b b' : ReadBuffer} {incoming incoming' : List (Recv readBufSize)}
    (h : refill b incoming = .ready b' incoming') {len : ℕ} (hlen : 2 ≤ len) (p : Cursor)
    (size : ℕ) :
    readlineLoop true p size len b incoming =
      if b'.current = LF then
        ⟨some .success, terminateBuffer (p.put b'.current) (size + 1), skipNuls (b'.advance .taken),
          incoming'⟩
      else
        readlineLoop true (p.put b'.current) (size + 1) (len - 1) (b'.advance .taken) incoming' := by
  have hdec := decSize_of_pos (show 0 < len by omega)
  rw [readlineLoop, if_pos ⟨rfl, by omega⟩, h]
  simp only
  rw [hdec]

/-- Two states that a refill leaves in the same state are read alike. -/
theorem readlineLoop_congr {b₁ b₂ b' : ReadBuffer} {inc₁ inc₂ inc' : List (Recv readBufSize)}
    (h₁ : refill b₁ inc₁ = .ready b' inc') (h₂ : refill b₂ inc₂ = .ready b' inc') {len : ℕ}
    (hlen : 2 ≤ len) (p : Cursor) (size : ℕ) :
    readlineLoop true p size len b₁ inc₁ = readlineLoop true p size len b₂ inc₂ := by
  rw [readlineLoop_ready h₁ hlen, readlineLoop_ready h₂ hlen]

theorem sockReadline_timeout {b : ReadBuffer} (h : b.cnt = 0) {r : Recv readBufSize}
    (hr : r.IsTimeout) (incoming : List (Recv readBufSize)) {len : ℕ} (hlen : 2 ≤ len)
    (hmax : len < 2 ^ 64) (buf : ℕ → Byte) :
    sockReadline true buf len b (r :: incoming) = sockReadline true buf len (b.recv r) incoming :=
  readlineLoop_again (refill_timeout h hr incoming) hlen hmax _ _

theorem sockReadline_chunk {b : ReadBuffer} (h : b.cnt = 0) {r : Recv readBufSize} (hr : r.IsChunk)
    (incoming : List (Recv readBufSize)) {len : ℕ} (hlen : 2 ≤ len) (buf : ℕ → Byte) :
    sockReadline true buf len b (r :: incoming) = sockReadline true buf len (b.filled r) incoming := by
  have hready := refill_of_pos (b := b.filled r) (Nat.succ_pos _) incoming
  exact readlineLoop_congr ((refill_chunk h hr incoming).trans hready) hready hlen _ _

/-! ## A line -/

/-- Bytes stored one after the other. -/
def Cursor.puts (p : Cursor) (x : Bytes) : Cursor := x.foldl Cursor.put p

theorem puts_pos (p : Cursor) (x : Bytes) : (p.puts x).pos = p.pos + x.length := by
  induction x generalizing p with
  | nil => rfl
  | cons c x ih =>
    rw [Cursor.puts, List.foldl_cons, ← Cursor.puts, ih, List.length_cons]
    simp only [Cursor.put]
    omega

theorem puts_memory_below (p : Cursor) (x : Bytes) {i : ℕ} (h : i < p.pos) :
    (p.puts x).memory i = p.memory i := by
  induction x generalizing p with
  | nil => rfl
  | cons c x ih =>
    rw [Cursor.puts, List.foldl_cons, ← Cursor.puts, ih _ (by simp only [Cursor.put]; omega)]
    exact Function.update_of_ne (by omega) _ _

theorem puts_memory (p : Cursor) (x : Bytes) {i : ℕ} (h : i < x.length) :
    (p.puts x).memory (p.pos + i) = x.getD i 0 := by
  induction x generalizing p i with
  | nil => simp at h
  | cons c x ih =>
    rw [Cursor.puts, List.foldl_cons, ← Cursor.puts]
    cases i with
    | zero =>
      rw [puts_memory_below _ _ (by simp only [Cursor.put]; omega)]
      simp [Cursor.put]
    | succ i =>
      have := ih (p.put c) (by simpa using h)
      simp only [Cursor.put] at this ⊢
      rw [show p.pos + (i + 1) = p.pos + 1 + i by omega, this]
      rfl

/-- Available bytes without LF are stored one after the other. -/
theorem readlineLoop_take {x rest : Bytes} (hx : LF ∉ x) (incoming : List (Recv readBufSize)) :
    ∀ {b : ReadBuffer} {len : ℕ} (p : Cursor) (size : ℕ), b.available = x ++ rest →
      x.length + 1 ≤ len →
      readlineLoop true p size len b incoming =
        readlineLoop true (p.puts x) (size + x.length) (len - x.length) (b.takeMany x.length)
          incoming := by
  induction x with
  | nil => intro b len p size _ _; rfl
  | cons c x ih =>
    intro b len p size hb hlen
    obtain ⟨hpos, hcur, hrest⟩ := available_cons hb
    have hc : c ≠ LF := fun h => hx (by simp [h])
    rw [List.length_cons] at hlen
    have hcur' : ({ b with cnt := b.cnt - 1 } : ReadBuffer).current = c := hcur
    rw [readlineLoop_ready (refill_of_pos hpos incoming) (by omega), hcur', if_neg hc]
    have hnext := ih (fun h => hx (List.mem_cons_of_mem _ h)) (p.put c) (size + 1) hrest
      (show x.length + 1 ≤ len - 1 by omega)
    rw [List.length_cons, show size + (x.length + 1) = size + 1 + x.length by omega,
      show len - (x.length + 1) = len - 1 - x.length by omega]
    exact hnext

/-- The stored line, with its CRLF, becomes the line. -/
theorem holdsString_terminateBuffer (buf : ℕ → Byte) {l : Bytes} (h : (0 : Byte) ∉ l) :
    HoldsString
      (terminateBuffer (((⟨buf, 0, 0⟩ : Cursor).puts (l ++ [CR])).put LF) (l.length + 2)).memory l := by
  set p := ((⟨buf, 0, 0⟩ : Cursor).puts (l ++ [CR])).put LF with hp
  have hpos : p.pos = l.length + 2 := by simp [hp, Cursor.put, puts_pos]
  have hmem : ∀ i < (l ++ [CR]).length, p.memory i = (l ++ [CR]).getD i 0 := by
    intro i hi
    have hne : i ≠ ((⟨buf, 0, 0⟩ : Cursor).puts (l ++ [CR])).pos := by
      rw [puts_pos]
      simp only
      omega
    have := puts_memory ⟨buf, 0, 0⟩ (l ++ [CR]) hi
    rw [hp]
    simp only [Cursor.put, Function.update_of_ne hne]
    simpa using this
  have hcr : p.memory l.length = CR := by
    rw [hmem _ (by simp)]
    simp
  have hpoke : (p.poke p.pos 0).memory (p.pos - 2) = CR := by
    rw [hpos]
    simp only [Cursor.poke, Nat.add_sub_cancel]
    rw [Function.update_of_ne (by omega), hcr]
  rw [terminateBuffer, if_pos ⟨by omega, hpoke⟩]
  simp only [Cursor.poke, hpos, Nat.add_sub_cancel]
  refine ⟨fun i hi => ?_, by simp, h⟩
  rw [Function.update_of_ne (by omega), Function.update_of_ne (by omega),
    hmem i (by simp; omega), List.getD_append _ _ _ _ hi]

/-- A line that is available is returned. -/
theorem sockReadline_line {b : ReadBuffer} {l rest : Bytes} (hb : b.available = l ++ CR :: LF :: rest)
    (hlf : LF ∉ l) (hnul : (0 : Byte) ∉ l) {len : ℕ} (hlen : l.length + 2 < len) (buf : ℕ → Byte)
    (incoming : List (Recv readBufSize)) :
    ∃ p, sockReadline true buf len b incoming =
        ⟨some .success, p, skipNuls (b.takeMany (l.length + 2)), incoming⟩ ∧
      HoldsString p.memory l := by
  refine ⟨_, ?_, holdsString_terminateBuffer buf hnul⟩
  have hcr : b.available = (l ++ [CR]) ++ (LF :: rest) := by simp [hb]
  have hlf' : LF ∉ l ++ [CR] := by simpa using ⟨hlf, by decide⟩
  have hav := available_takeMany hcr
  obtain ⟨hpos, hcur, -⟩ := available_cons hav
  rw [sockReadline, readlineLoop_take hlf' incoming _ _ hcr (by simp; omega),
    readlineLoop_ready (refill_of_pos hpos incoming) (by simp; omega)]
  have hcur' : ({ b.takeMany (l ++ [CR]).length with
      cnt := (b.takeMany (l ++ [CR]).length).cnt - 1 } : ReadBuffer).current = LF := hcur
  rw [hcur', if_pos rfl]
  have htwo : b.takeMany (l.length + 2) = (b.takeMany (l ++ [CR]).length).takeOne := by
    rw [show l.length + 2 = (l ++ [CR]).length + 1 by simp, takeMany_add]
    rfl
  have hsize : 0 + (l ++ [CR]).length + 1 = l.length + 2 := by simp
  rw [htwo, hsize]
  rfl

/-! ## The record of reads -/

theorem skipNuls_reads (b : ReadBuffer) : b.reads <+: (skipNuls b).reads := by
  induction b using skipNuls.induct with
  | case1 b hpos hcur ih =>
    rw [skipNuls, if_pos hpos, if_pos hcur]
    refine List.IsPrefix.trans ?_ ih
    simp [ReadBuffer.note, ReadBuffer.advance]
  | case2 b hpos hcur =>
    rw [skipNuls, if_pos hpos, if_neg hcur]
    simp [ReadBuffer.note]
  | case3 b hpos => rw [skipNuls, if_neg hpos]

theorem refill_reads (b : ReadBuffer) (incoming : List (Recv readBufSize)) :
    match refill b incoming with
    | .waiting => True
    | .again b' _ | .failed _ b' _ | .ready b' _ => b'.reads = b.reads := by
  unfold refill
  split_ifs with hcnt
  · cases incoming with
    | nil => trivial
    | cons r incoming =>
      simp only
      split_ifs <;> rfl
  · rfl

theorem readlineLoop_reads (allow : Bool) (p : Cursor) (size len : ℕ) (b : ReadBuffer)
    (incoming : List (Recv readBufSize)) :
    b.reads <+: (readlineLoop allow p size len b incoming).buffer.reads := by
  induction p, size, len, b, incoming using readlineLoop.induct allow with
  | case1 p size len b incoming hgo h =>
    rw [readlineLoop, if_pos hgo, h]
  | case2 p size len b incoming hgo rv b' incoming' h =>
    have := refill_reads b incoming
    rw [h] at this
    rw [readlineLoop, if_pos hgo, h]
    simp only
    rw [this]
  | case3 p size len b incoming hgo b' incoming' h ih =>
    have := refill_reads b incoming
    rw [h] at this
    rw [readlineLoop, if_pos hgo, h]
    simp only
    rw [← this]
    exact ih
  | case4 p size len b incoming hgo b' incoming' h c hc =>
    have := refill_reads b incoming
    rw [h] at this
    rw [readlineLoop, if_pos hgo, h]
    simp only
    rw [if_pos hc, ← this]
    exact List.IsPrefix.trans (by simp [ReadBuffer.advance, ReadBuffer.note]) (skipNuls_reads _)
  | case5 p size len b incoming hgo b' incoming' h c hc ih =>
    have := refill_reads b incoming
    rw [h] at this
    rw [readlineLoop, if_pos hgo, h]
    simp only
    rw [if_neg hc, ← this]
    exact List.IsPrefix.trans (by simp [ReadBuffer.advance, ReadBuffer.note]) ih
  | case6 p size len b incoming hgo => rw [readlineLoop, if_neg hgo]

theorem sockReadline_reads (allow : Bool) (buf : ℕ → Byte) (len : ℕ) (b : ReadBuffer)
    (incoming : List (Recv readBufSize)) :
    b.reads <+: (sockReadline allow buf len b incoming).buffer.reads :=
  readlineLoop_reads allow _ _ _ b incoming

/-- Available bytes without LF, and the byte behind them, are stored. -/
theorem sockReadline_phantom {b : ReadBuffer} {x : Bytes} {phantom : Byte}
    (hb : b.available = x ++ [phantom]) (hx : LF ∉ x) {len : ℕ} (hlen : x.length + 2 ≤ len)
    (buf : ℕ → Byte) (incoming : List (Recv readBufSize)) :
    ⟨.taken, b.bufPointer + x.length, b.received⟩ ∈
      (sockReadline true buf len b incoming).buffer.reads := by
  have hav := available_takeMany hb
  obtain ⟨hpos, hcur, -⟩ := available_cons hav
  obtain ⟨-, hrec, hptr, -⟩ := takeMany_fields b x.length
  rw [sockReadline, readlineLoop_take hx incoming _ _ hb (by omega),
    readlineLoop_ready (refill_of_pos hpos incoming) (by omega)]
  have hmem : (⟨.taken, b.bufPointer + x.length, b.received⟩ : BufferRead) ∈
      (({ b.takeMany x.length with cnt := (b.takeMany x.length).cnt - 1 } : ReadBuffer).advance
        .taken).reads := by
    simp [ReadBuffer.advance, ReadBuffer.note, hptr, hrec]
  split_ifs
  · exact (skipNuls_reads _).subset hmem
  · exact (readlineLoop_reads _ _ _ _ _ _).subset hmem

end MogileFs
