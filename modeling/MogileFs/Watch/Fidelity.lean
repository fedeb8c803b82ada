import MogileFs.Watch.Calls

/-!
# What the watch returns

A connection delivers CRLF-terminated lines in chunks of any size, with timeouts
in between (`LineDelivery`), and `get_next_watch_line` is called once for each.
`sock_readline` does not count down `cnt` for the first byte after a refill, so it
goes on for one byte behind every chunk. That byte is dropped when it is a NUL
right behind a newline. Elsewhere it is given to the caller: in the middle of a
line when the chunk ends there, and in front of the next line when an earlier,
longer chunk has left something else than NUL behind.

Results:
* `watchLines_chunk`: the calls that one chunk serves.
* `runMeets_faithful_iff`, `not_runMeets_strict`: the calls on a connection.
* `watch_fidelity_iff`: on a fresh watch the lines come out right and no
  undelivered byte is stored exactly when every chunk ends with a newline, none
  fills `read_buf`, and none but the last is shorter than the one before it; and
  that no undelivered byte is consumed at all only when there is no line.
-/

namespace MogileFs

/-- A read inside `read_buf`, and of a delivered byte when it is stored. -/
def BufferRead.Faithful (r : BufferRead) : Prop :=
  r.pos < readBufSize ∧ (r.kind = .taken → r.pos < r.received)

/-- A read inside `read_buf`, and of a delivered byte unless it is only inspected. -/
def BufferRead.Strict (r : BufferRead) : Prop :=
  r.pos < readBufSize ∧ (r.kind ≠ .inspected → r.pos < r.received)

/-- The calls for `lines` return them, and all reads on record have `p`. -/
def RunMeets (p : BufferRead → Prop) (passes len : ℕ) (lines : List Bytes) (s : WatchState)
    (buf : ℕ → Byte) : Prop :=
  ReturnsLines (watchLines passes len lines.length s buf).1 lines ∧
    ∀ r ∈ (watchLines passes len lines.length s buf).2.watch.buffer.reads, p r

/-! ## One chunk -/

/-- The buffer behind the calls that a chunk of whole lines serves. -/
structure ChunkServed (entry : ConnectionEntry) (b b₁ : ReadBuffer) (r : Recv readBufSize)
    (incoming : List (Recv readBufSize)) (s' : WatchState) : Prop where
  at_skipNuls : At entry (skipNuls b₁) incoming s'
  available : b₁.available = [b.behind r]
  readBuf : b₁.readBuf = (b.recv r).readBuf
  received : b₁.received = r.bytes.length
  bufPointer : b₁.bufPointer = r.bytes.length
  reads : ∃ R, b₁.reads = b.reads ++ R ∧ ∀ r ∈ R, r.Sound

/-- Bytes of an unfinished line at the end of the buffer: the next call stores the
    byte behind the chunk too. -/
theorem watchLines_phantom {entry : ConnectionEntry} {incoming : List (Recv readBufSize)}
    {s : WatchState} {b : ReadBuffer} (hat : At entry b incoming s) {x : Bytes} {phantom : Byte}
    (hav : b.available = x ++ [phantom]) (hx : LF ∉ x) (len : ℕ) (hlen : x.length + 2 ≤ len)
    (hptr : b.bufPointer + x.length = b.received) (passes n : ℕ) (buf : ℕ → Byte) :
    ⟨.taken, b.received, b.received⟩ ∈
      (watchLines (passes + 1) len (n + 1) s buf).2.watch.buffer.reads := by
  have hmem := sockReadline_phantom hav hx hlen buf incoming
  rw [hptr] at hmem
  have hfirst : ⟨.taken, b.received, b.received⟩ ∈
      (getNextWatchLine true (passes + 1) s buf len).2.2.watch.buffer.reads := by
    rw [getNextWatchLine, if_neg (by simp)]
    simp only
    rw [connectWatch_of_some hat.connection, hat.connection]
    simp only
    rw [hat.buffer, hat.incoming]
    split
    · exact hmem
    · exact hmem
    · exact (getNextWatchLine_reads _ _ _ _ _).subset hmem
  exact (watchLines_reads (passes + 1) len n _ _).subset hfirst

/-- The calls go as if the buffer already held the chunk. -/
theorem watchLines_filled {entry : ConnectionEntry} {incoming : List (Recv readBufSize)}
    {s : WatchState} {b : ReadBuffer} {r : Recv readBufSize} (hat : At entry b (r :: incoming) s)
    (hcnt : b.cnt = 0) (hr : r.IsChunk) {len : ℕ} (hlen : 2 ≤ len) (passes : ℕ)
    (buf : ℕ → Byte) (n : ℕ) :
    watchLines (passes + 1) len (n + 1) s buf =
      watchLines (passes + 1) len (n + 1) (s.put entry (b.filled r) incoming) buf :=
  watchLines_congr hat (sockReadline_chunk hcnt hr incoming hlen buf) passes n

theorem filled_end (b : ReadBuffer) (r : Recv readBufSize) :
    (b.filled r).bufPointer + (b.filled r).cnt = (b.filled r).received + 1 := by
  simp [ReadBuffer.filled, ReadBuffer.recv]

/-- The calls that a chunk of whole lines serves. -/
theorem watchLines_whole {entry : ConnectionEntry} {incoming : List (Recv readBufSize)}
    {s : WatchState} {b : ReadBuffer} {r : Recv readBufSize} (hat : At entry b (r :: incoming) s)
    (hcnt : b.cnt = 0) (hr : r.IsChunk) {front : List Bytes} {len : ℕ} (hlen : 2 ≤ len)
    (hfits : ∀ l ∈ front, LineFits len l) (hne : front ≠ []) (hc : r.bytes = streamOf front)
    (passes : ℕ) (buf : ℕ → Byte) (rest : List Bytes) :
    ∃ b₁ s₁ buf₁ results, ChunkServed entry b b₁ r incoming s₁ ∧ ReturnsLines results front ∧
      watchLines (passes + 1) len (front ++ rest).length s buf =
        (results ++ (watchLines (passes + 1) len rest.length s₁ buf₁).1,
          (watchLines (passes + 1) len rest.length s₁ buf₁).2) := by
  have hav := available_filled b r
  obtain ⟨hret, b₁, hserved⟩ := watchLines_available hne (w := [b.behind r]) (by simp) hfits passes
    buf (at_put hat (b.filled r) incoming) (by rw [hav, hc]) (filled_end b r) r.fits
  obtain ⟨buf₁, hadd⟩ := watchLines_add (passes + 1) len front.length rest.length
    (s.put entry (b.filled r) incoming) buf
  refine ⟨b₁, _, buf₁, _, ⟨hserved.at_skipNuls, hserved.available, hserved.readBuf,
    hserved.received, ?_, hserved.reads⟩, hret, ?_⟩
  · have := hserved.bufPointer
    simpa [ReadBuffer.filled, ReadBuffer.recv] using this
  · rw [← hadd, ← List.length_append]
    obtain ⟨n, hn⟩ : ∃ n, (front ++ rest).length = n + 1 :=
      Nat.exists_eq_succ_of_ne_zero (by simp [hne])
    rw [hn]
    exact watchLines_filled hat hcnt hr hlen passes buf n

/-- The calls for a chunk that ends inside a line: the byte behind it is stored. -/
theorem watchLines_inside {entry : ConnectionEntry} {incoming : List (Recv readBufSize)}
    {s : WatchState} {b : ReadBuffer} {r : Recv readBufSize} (hat : At entry b (r :: incoming) s)
    (hcnt : b.cnt = 0) (hr : r.IsChunk) {front : List Bytes} {l x : Bytes} {len : ℕ}
    (hlen : 2 ≤ len) (hfits : ∀ k ∈ front, LineFits len k) (hl : LineFits len l) (hx : x ≠ [])
    (hc : r.bytes = streamOf front ++ x) (hpre : x <+: l ++ [CR]) (passes : ℕ) (buf : ℕ → Byte)
    (rest : List Bytes) :
    r.bytes.getLast? ≠ some LF ∧
      ⟨.taken, r.bytes.length, r.bytes.length⟩ ∈
        (watchLines (passes + 1) len (front ++ l :: rest).length s buf).2.watch.buffer.reads := by
  have hat' := at_put hat (b.filled r) incoming
  have hav := available_filled b r
  obtain ⟨hlf, hnul⟩ := getLast_of_prefix hl hpre
  have hxlen : x.length ≤ l.length + 1 := by simpa using hpre.length_le
  have hfit := hl.fits
  obtain ⟨c, x', rfl⟩ := List.exists_cons_of_ne_nil hx
  constructor
  · rw [hc, List.getLast?_append_of_ne_nil _ hx]
    exact fun h => hlf (List.mem_of_getLast? h)
  · rw [show (front ++ l :: rest).length = front.length + rest.length + 1 by simp; omega,
      watchLines_filled hat hcnt hr hlen]
    by_cases hfront : front = []
    · subst hfront
      rw [List.length_nil, Nat.zero_add]
      exact watchLines_phantom hat' (x := c :: x') (by rw [hav, hc]; rfl) hlf _ (by omega)
        (by simp [ReadBuffer.filled, ReadBuffer.recv, hc]) passes _ buf
    · obtain ⟨-, b₁, hserved⟩ := watchLines_available hfront (w := c :: x' ++ [b.behind r])
        (by simp) hfits passes buf hat' (by rw [hav, hc]; simp) (filled_end b r) r.fits
      obtain ⟨buf₁, hadd⟩ := watchLines_add (passes + 1) len front.length (rest.length + 1)
        (s.put entry (b.filled r) incoming) buf
      have hc0 : c ≠ 0 := by rintro rfl; exact hnul (by simp)
      have hat₁ := hserved.at_skipNuls
      rw [skipNuls_of_ne (by rw [hserved.available]; rfl) hc0] at hat₁
      have hrec : (b₁.note .inspected).received = r.bytes.length := hserved.received
      have hend : (b₁.note .inspected).bufPointer + (c :: x').length =
          (b₁.note .inspected).received := by
        have hptr := hserved.bufPointer
        have hreceived := hserved.received
        simp only [ReadBuffer.note]
        simp at hptr
        rw [List.length_cons]
        omega
      have hstored := watchLines_phantom hat₁ (x := c :: x') hserved.available hlf len (by omega)
        hend passes rest.length buf₁
      rw [hrec] at hstored
      rw [Nat.add_assoc, hadd]
      exact hstored

/-- The calls that a chunk serves. It holds whole lines, and they are returned; or
    it ends inside a line, and the byte behind it is stored. -/
theorem watchLines_chunk {entry : ConnectionEntry} {incoming : List (Recv readBufSize)}
    {s : WatchState} {b : ReadBuffer} {r : Recv readBufSize} (hat : At entry b (r :: incoming) s)
    (hcnt : b.cnt = 0) (hr : r.IsChunk) {lines : List Bytes} {len : ℕ}
    (hfits : ∀ l ∈ lines, LineFits len l) {tail : Bytes} (hstream : streamOf lines = r.bytes ++ tail)
    (passes : ℕ) (buf : ℕ → Byte) :
    (∃ front rest b₁ s₁ buf₁ results, lines = front ++ rest ∧ front ≠ [] ∧
        r.bytes = streamOf front ∧ tail = streamOf rest ∧ ChunkServed entry b b₁ r incoming s₁ ∧
        ReturnsLines results front ∧
        watchLines (passes + 1) len lines.length s buf =
          (results ++ (watchLines (passes + 1) len rest.length s₁ buf₁).1,
            (watchLines (passes + 1) len rest.length s₁ buf₁).2)) ∨
      (r.bytes.getLast? ≠ some LF ∧
        ⟨.taken, r.bytes.length, r.bytes.length⟩ ∈
          (watchLines (passes + 1) len lines.length s buf).2.watch.buffer.reads) := by
  have hlines : lines ≠ [] := by
    rintro rfl
    exact hr.2 (List.append_eq_nil_iff.mp hstream.symm).1
  have hlen : 2 ≤ len := by
    obtain ⟨l, ls, rfl⟩ := List.exists_cons_of_ne_nil hlines
    have := (hfits l (by simp)).fits
    omega
  rcases streamOf_split hr.2 hstream with
    ⟨front, rest, rfl, hne, hc, htail⟩ | ⟨front, l, rest, x, rfl, hc, hx, hpre⟩
  · obtain ⟨b₁, s₁, buf₁, results, hserved, hret, hrun⟩ := watchLines_whole hat hcnt hr hlen
      (fun l hl => hfits l (by simp [hl])) hne hc passes buf rest
    exact Or.inl ⟨front, rest, b₁, s₁, buf₁, results, rfl, hne, hc, htail, hserved, hret, hrun⟩
  · exact Or.inr (watchLines_inside hat hcnt hr hlen (fun k hk => hfits k (by simp [hk]))
      (hfits l (by simp)) hx hc hpre passes buf rest)

/-! ## The calls on a connection -/

/-- The memory holds no NUL below `m`, and nothing but NUL from there to the end of
    `read_buf`. -/
structure StaleBelow (m : ℕ) (memory : ℕ → Byte) : Prop where
  stale : ∀ i < m, memory i ≠ 0
  clear : ∀ i, m ≤ i → i < readBufSize → memory i = 0

/-- What `apr_socket_recv` delivers, the timeouts left out. -/
def chunksOf (recv : List (Recv readBufSize)) : List Bytes :=
  (recv.map fun r => r.bytes).filter (· ≠ [])

/-- The chunks end with LF and leave room in `read_buf`, and each one but the last
    is as long as the one before it, the first one as long as `m`. -/
def ChunksFit : ℕ → List Bytes → Prop
  | _, [] => True
  | m, c :: cs =>
    c.getLast? = some LF ∧ c.length < readBufSize ∧ (cs ≠ [] → m ≤ c.length) ∧ ChunksFit c.length cs

theorem chunksOf_eq_nil {recv : List (Recv readBufSize)}
    (h : (recv.map fun r => r.bytes).flatten = []) : chunksOf recv = [] := by
  simp only [chunksOf, List.filter_eq_nil_iff]
  intro c hc
  simpa using List.flatten_eq_nil_iff.mp h c hc

theorem runMeets_nil {p : BufferRead → Prop} {passes len : ℕ} {s : WatchState} {buf : ℕ → Byte}
    (h : ∀ r ∈ s.watch.buffer.reads, p r) : RunMeets p passes len [] s buf :=
  ⟨List.Forall₂.nil, h⟩

theorem BufferRead.Sound.faithful {r : BufferRead} (h : r.Sound) : r.Faithful :=
  ⟨lt_of_lt_of_le h.1 h.2, fun _ => h.1⟩

/-- A timeout makes no difference to a run. -/
theorem runMeets_timeout {entry : ConnectionEntry} {incoming : List (Recv readBufSize)}
    {s : WatchState} {b : ReadBuffer} {r : Recv readBufSize} (hat : At entry b (r :: incoming) s)
    (hcnt : b.cnt = 0) (hr : r.IsTimeout) {lines : List Bytes} (hne : lines ≠ []) {len : ℕ}
    (hlen : 2 ≤ len) (hmax : len < 2 ^ 64) (p : BufferRead → Prop) (passes : ℕ) (buf : ℕ → Byte) :
    RunMeets p (passes + 1) len lines s buf ↔
      RunMeets p (passes + 1) len lines (s.put entry (b.recv r) incoming) buf := by
  obtain ⟨n, hn⟩ : ∃ n, lines.length = n + 1 :=
    Nat.exists_eq_succ_of_ne_zero (by simpa using hne)
  rw [RunMeets, RunMeets, hn,
    watchLines_congr hat (sockReadline_timeout hcnt hr incoming hlen hmax buf) passes n]

theorem recv_timeout_readBuf (b : ReadBuffer) {r : Recv readBufSize} (h : r.IsTimeout) :
    (b.recv r).readBuf = b.readBuf := by
  simp [ReadBuffer.recv, h.2]

theorem chunksOf_timeout {r : Recv readBufSize} (h : r.IsTimeout)
    (recv : List (Recv readBufSize)) : chunksOf (r :: recv) = chunksOf recv := by
  simp [chunksOf, h.2]

theorem chunksOf_chunk {r : Recv readBufSize} (h : r.IsChunk) (recv : List (Recv readBufSize)) :
    chunksOf (r :: recv) = r.bytes :: chunksOf recv := by
  simp [chunksOf, h.2]

theorem chunksOf_ne_nil {recv : List (Recv readBufSize)} {lines : List Bytes} (hne : lines ≠ [])
    (h : streamOf lines = (recv.map fun r => r.bytes).flatten) : chunksOf recv ≠ [] := by
  intro hnil
  refine streamOf_eq_nil.not.mpr hne ?_
  rw [h, List.flatten_eq_nil_iff]
  intro c hc
  by_contra hc0
  have : c ∈ chunksOf recv := by simp [chunksOf, hc, hc0]
  rw [hnil] at this
  cases this

/-- A byte of NUL behind a chunk without NUL: nothing longer has been received. -/
theorem StaleBelow.recv {m : ℕ} {b : ReadBuffer} (h : StaleBelow m b.readBuf)
    {r : Recv readBufSize} (hnul : (0 : Byte) ∉ r.bytes) (hbehind : b.behind r = 0) :
    m ≤ r.bytes.length ∧ StaleBelow r.bytes.length (b.recv r).readBuf := by
  have hm : m ≤ r.bytes.length := by
    by_contra hlt
    exact h.stale r.bytes.length (by omega) hbehind
  refine ⟨hm, fun i hi => ?_, fun i hi hmax => ?_⟩
  · simp only [ReadBuffer.recv, hi, if_true]
    rw [List.getD_eq_getElem _ _ hi]
    exact fun h0 => hnul (h0 ▸ List.getElem_mem hi)
  · simp only [ReadBuffer.recv]
    rw [if_neg (by omega)]
    exact h.clear i (by omega) hmax

/-- The byte that the loop over NULs looks at behind a chunk. -/
theorem ChunkServed.inspected {entry : ConnectionEntry} {b b₁ : ReadBuffer}
    {r : Recv readBufSize} {incoming : List (Recv readBufSize)} {s' : WatchState}
    (h : ChunkServed entry b b₁ r incoming s') :
    ⟨.inspected, r.bytes.length, r.bytes.length⟩ ∈ s'.watch.buffer.reads := by
  rw [h.at_skipNuls.buffer]
  have hnote : (b₁.note .inspected).reads = b₁.reads ++
      [⟨.inspected, r.bytes.length, r.bytes.length⟩] := by
    simp [ReadBuffer.note, h.bufPointer, h.received]
  by_cases hb : b.behind r = 0
  · rw [skipNuls_of_nul (by rw [h.available, hb])]
    simp [ReadBuffer.advance, ReadBuffer.note, h.bufPointer, h.received]
  · rw [skipNuls_of_ne h.available hb, hnote]
    simp

/-- A NUL behind the chunk is dropped, and the buffer is empty again. -/
theorem ChunkServed.skipped {entry : ConnectionEntry} {b b₁ : ReadBuffer} {r : Recv readBufSize}
    {incoming : List (Recv readBufSize)} {s' : WatchState}
    (h : ChunkServed entry b b₁ r incoming s') (hb : b.behind r = 0) :
    s'.watch.buffer.cnt = 0 ∧ s'.watch.buffer.readBuf = (b.recv r).readBuf ∧
      s'.watch.buffer.reads = b₁.reads ++ [⟨.inspected, r.bytes.length, r.bytes.length⟩,
        ⟨.skipped, r.bytes.length, r.bytes.length⟩] := by
  rw [h.at_skipNuls.buffer, skipNuls_of_nul (by rw [h.available, hb])]
  refine ⟨rfl, h.readBuf, ?_⟩
  simp [ReadBuffer.advance, ReadBuffer.note, h.bufPointer, h.received]

/-- Anything else stays in the buffer. -/
theorem ChunkServed.left {entry : ConnectionEntry} {b b₁ : ReadBuffer} {r : Recv readBufSize}
    {incoming : List (Recv readBufSize)} {s' : WatchState}
    (h : ChunkServed entry b b₁ r incoming s') (hb : b.behind r ≠ 0) :
    At entry (b₁.note .inspected) incoming s' := by
  have := h.at_skipNuls
  rwa [skipNuls_of_ne h.available hb] at this

/-- A chunk that leaves room in `read_buf` is served by faithful reads. -/
theorem ChunkServed.faithful {entry : ConnectionEntry} {b b₁ : ReadBuffer} {r : Recv readBufSize}
    {incoming : List (Recv readBufSize)} {s' : WatchState}
    (h : ChunkServed entry b b₁ r incoming s') (hshort : r.bytes.length < readBufSize)
    (hreads : ∀ r' ∈ b.reads, r'.Faithful) : ∀ r' ∈ s'.watch.buffer.reads, r'.Faithful := by
  obtain ⟨R, hR, hsound⟩ := h.reads
  have hb₁ : ∀ r' ∈ b₁.reads, r'.Faithful := by
    rw [hR]
    intro r' hr'
    rcases List.mem_append.mp hr' with hr' | hr'
    · exact hreads r' hr'
    · exact (hsound r' hr').faithful
  have hinside : ∀ kind, kind ≠ ReadKind.taken →
      BufferRead.Faithful ⟨kind, r.bytes.length, r.bytes.length⟩ :=
    fun kind hkind => ⟨hshort, fun h => absurd h hkind⟩
  intro r' hr'
  by_cases hb : b.behind r = 0
  · rw [(h.skipped hb).2.2] at hr'
    rcases List.mem_append.mp hr' with hr' | hr'
    · exact hb₁ r' hr'
    · rcases List.mem_cons.mp hr' with rfl | hr'
      · exact hinside _ (by decide)
      · rw [List.mem_singleton.mp hr']
        exact hinside _ (by decide)
  · rw [(h.left hb).buffer] at hr'
    rcases List.mem_append.mp hr' with hr' | hr'
    · exact hb₁ r' hr'
    · rw [List.mem_singleton.mp hr', h.bufPointer, h.received]
      exact hinside _ (by decide)

/-- Behind a chunk that fills `read_buf` the next byte is outside it. -/
theorem ChunkServed.not_faithful_of_full {entry : ConnectionEntry} {b b₁ : ReadBuffer}
    {r : Recv readBufSize} {incoming : List (Recv readBufSize)} {s' : WatchState}
    (h : ChunkServed entry b b₁ r incoming s') (hfull : readBufSize ≤ r.bytes.length)
    (passes len : ℕ) (lines : List Bytes) (buf : ℕ → Byte) :
    ¬ RunMeets BufferRead.Faithful passes len lines s' buf := by
  intro hmeets
  have hin := hmeets.2 _ ((watchLines_reads _ _ _ _ _).subset h.inspected)
  exact absurd hin.1 (Nat.not_lt.mpr hfull)

/-- A byte other than NUL behind the chunk goes in front of the next line. -/
theorem ChunkServed.not_faithful_of_left {entry : ConnectionEntry} {b b₁ : ReadBuffer}
    {r : Recv readBufSize} {incoming : List (Recv readBufSize)} {s' : WatchState}
    (h : ChunkServed entry b b₁ r incoming s') (hb : b.behind r ≠ 0) {lines : List Bytes}
    (hne : lines ≠ []) {len : ℕ} (hlen : 2 ≤ len) (passes : ℕ) (buf : ℕ → Byte) :
    ¬ RunMeets BufferRead.Faithful (passes + 1) len lines s' buf := by
  intro hmeets
  obtain ⟨n, hn⟩ : ∃ n, lines.length = n + 1 :=
    Nat.exists_eq_succ_of_ne_zero (by simpa using hne)
  have hphantom := watchLines_phantom (h.left hb) (x := []) h.available (by simp) len
    (by simpa using hlen) (by simp [ReadBuffer.note, h.bufPointer, h.received]) passes n buf
  rw [← hn] at hphantom
  exact absurd ((hmeets.2 _ hphantom).2 rfl) (lt_irrefl _)

/-- The calls for `lines` split at the lines of the first chunk. -/
theorem runMeets_append {p : BufferRead → Prop} {passes len : ℕ} {front rest : List Bytes}
    {s s₁ : WatchState} {buf buf₁ : ℕ → Byte} {results : List (Option AprStatus × (ℕ → Byte))}
    (hret : ReturnsLines results front)
    (hrun : watchLines passes len (front ++ rest).length s buf =
      (results ++ (watchLines passes len rest.length s₁ buf₁).1,
        (watchLines passes len rest.length s₁ buf₁).2)) :
    RunMeets p passes len (front ++ rest) s buf ↔ RunMeets p passes len rest s₁ buf₁ := by
  rw [RunMeets, RunMeets, hrun]
  simp only
  refine and_congr ⟨fun h => ?_, fun h => List.rel_append hret h⟩ Iff.rfl
  have hdrop := List.forall₂_drop front.length h
  rwa [List.drop_left, List.drop_left' hret.length_eq] at hdrop

/-- From an empty buffer whose memory is stale below `m`, the lines come out right
    and no undelivered byte is stored exactly when the chunks fit. By induction
    on what the connection answers. -/
theorem runMeets_faithful_iff {entry : ConnectionEntry} {len : ℕ} (hmax : len < 2 ^ 64)
    (passes : ℕ) {incoming : List (Recv readBufSize)}
    (hkinds : ∀ r ∈ incoming, r.IsTimeout ∨ r.IsChunk) :
    ∀ {s : WatchState} {b : ReadBuffer} {m : ℕ} {lines : List Bytes} (buf : ℕ → Byte),
      At entry b incoming s → b.cnt = 0 → StaleBelow m b.readBuf →
      (∀ l ∈ lines, LineFits len l) → streamOf lines = (incoming.map fun r => r.bytes).flatten →
      (∀ r ∈ b.reads, r.Faithful) →
      (RunMeets BufferRead.Faithful (passes + 1) len lines s buf ↔ ChunksFit m (chunksOf incoming)) := by
  induction incoming with
  | nil =>
    intro s b m lines buf hat _ _ _ hstream hreads
    obtain rfl := streamOf_eq_nil.mp hstream
    exact iff_of_true (runMeets_nil (by rw [hat.buffer]; exact hreads)) trivial
  | cons r incoming ih =>
    intro s b m lines buf hat hcnt hstale hfits hstream hreads
    by_cases hne : lines = []
    · subst hne
      rw [chunksOf_eq_nil hstream.symm]
      exact iff_of_true (runMeets_nil (by rw [hat.buffer]; exact hreads)) trivial
    have hlen : 2 ≤ len := by
      obtain ⟨l, ls, rfl⟩ := List.exists_cons_of_ne_nil hne
      have := (hfits l (by simp)).fits
      omega
    have hkinds' : ∀ r ∈ incoming, r.IsTimeout ∨ r.IsChunk := fun r hr => hkinds r (by simp [hr])
    rcases hkinds r (by simp) with hr | hr
    · rw [runMeets_timeout hat hcnt hr hne hlen hmax, chunksOf_timeout hr]
      refine ih hkinds' buf (at_put hat _ _) (by simp [ReadBuffer.recv, hr.2])
        (by rw [recv_timeout_readBuf b hr]; exact hstale) hfits ?_ hreads
      rw [hstream]; simp [hr.2]
    · rw [chunksOf_chunk hr]
      rcases watchLines_chunk hat hcnt hr hfits
        (hstream : _ = r.bytes ++ (incoming.map fun r => r.bytes).flatten) passes buf with
        ⟨front, rest, b₁, s₁, buf₁, results, rfl, hfront, hc, htail, hserved, hret, hrun⟩ |
        ⟨hlast, hmem⟩
      · rw [runMeets_append hret hrun]
        have hnul : (0 : Byte) ∉ r.bytes := by
          rw [hc]
          exact nul_notMem_streamOf fun l hl => hfits l (by simp [hl])
        have hrest : ∀ l ∈ rest, LineFits len l := fun l hl => hfits l (by simp [hl])
        have hlast : r.bytes.getLast? = some LF := by rw [hc]; exact getLast_streamOf hfront
        by_cases hfull : readBufSize ≤ r.bytes.length
        · refine iff_of_false (hserved.not_faithful_of_full hfull _ _ _ _) fun h => ?_
          have := h.2.1
          omega
        · have hreads' := hserved.faithful (by omega) hreads
          by_cases hb : b.behind r = 0
          · -- the buffer is empty again, and stale below the length of this chunk
            obtain ⟨hm, hstale'⟩ := hstale.recv hnul hb
            obtain ⟨hcnt', hbuf', -⟩ := hserved.skipped hb
            rw [ih hkinds' buf₁ ⟨hserved.at_skipNuls.connection, rfl, hserved.at_skipNuls.incoming⟩
              hcnt' (by rw [hbuf']; exact hstale') hrest htail.symm hreads']
            exact ⟨fun h => ⟨hlast, by omega, fun _ => hm, h⟩, fun h => h.2.2.2⟩
          · have hm : r.bytes.length < m := by
              by_contra hle
              exact hb (hstale.clear _ (by omega) (by omega))
            by_cases hrest0 : rest = []
            · subst hrest0
              rw [chunksOf_eq_nil htail]
              exact iff_of_true (runMeets_nil hreads') ⟨hlast, by omega, fun h => absurd rfl h, trivial⟩
            · have hchunks := chunksOf_ne_nil hrest0 htail.symm
              refine iff_of_false (hserved.not_faithful_of_left hb hrest0 hlen _ _) fun h => ?_
              have := h.2.2.1 hchunks
              omega
      · refine iff_of_false (fun h => ?_) fun h => hlast h.1
        exact absurd ((h.2 _ hmem).2 rfl) (lt_irrefl _)

/-- From an empty, cleared buffer the calls for one line or more consume an
    undelivered byte, or look behind `read_buf`. -/
theorem not_runMeets_strict {entry : ConnectionEntry} {len : ℕ} (hmax : len < 2 ^ 64) (passes : ℕ)
    {incoming : List (Recv readBufSize)} (hkinds : ∀ r ∈ incoming, r.IsTimeout ∨ r.IsChunk) :
    ∀ {s : WatchState} {b : ReadBuffer} {lines : List Bytes} (buf : ℕ → Byte),
      At entry b incoming s → b.cnt = 0 → StaleBelow 0 b.readBuf →
      (∀ l ∈ lines, LineFits len l) → streamOf lines = (incoming.map fun r => r.bytes).flatten →
      lines ≠ [] → ¬ RunMeets BufferRead.Strict (passes + 1) len lines s buf := by
  induction incoming with
  | nil =>
    intro s b lines buf _ _ _ _ hstream hne
    exact absurd (streamOf_eq_nil.mp hstream) hne
  | cons r incoming ih =>
    intro s b lines buf hat hcnt hstale hfits hstream hne h
    have hlen : 2 ≤ len := by
      obtain ⟨l, ls, rfl⟩ := List.exists_cons_of_ne_nil hne
      have := (hfits l (by simp)).fits
      omega
    rcases hkinds r (by simp) with hr | hr
    · rw [runMeets_timeout hat hcnt hr hne hlen hmax] at h
      refine ih (fun r hr => hkinds r (by simp [hr])) buf (at_put hat _ _)
        (by simp [ReadBuffer.recv, hr.2]) (by rw [recv_timeout_readBuf b hr]; exact hstale) hfits ?_
        hne h
      rw [hstream]; simp [hr.2]
    · rcases watchLines_chunk hat hcnt hr hfits
        (hstream : _ = r.bytes ++ (incoming.map fun r => r.bytes).flatten) passes buf with
        ⟨front, rest, b₁, s₁, buf₁, results, rfl, -, -, -, hserved, hret, hrun⟩ | ⟨-, hmem⟩
      · rw [runMeets_append hret hrun] at h
        have hinspected := h.2 _ ((watchLines_reads _ _ _ _ _).subset hserved.inspected)
        have hb : b.behind r = 0 := hstale.clear _ (Nat.zero_le _) hinspected.1
        have hskipped := h.2 ⟨.skipped, r.bytes.length, r.bytes.length⟩
          ((watchLines_reads _ _ _ _ _).subset (by rw [(hserved.skipped hb).2.2]; simp))
        exact absurd (hskipped.2 (by simp)) (lt_irrefl _)
      · exact absurd ((h.2 _ hmem).2 (by simp)) (lt_irrefl _)

/-! ## A fresh watch -/

/-- Lines and the way a connection delivers them: chunks of 1 to 5000 bytes, with
    timeouts in between. Each line fits in the caller's buffer of `len` bytes. -/
structure LineDelivery (len : ℕ) where
  lines : List Bytes
  recv : List (Recv readBufSize)
  len_lt : len < 2 ^ 31
  fits : ∀ l ∈ lines, LineFits len l
  kinds : ∀ r ∈ recv, r.IsTimeout ∨ r.IsChunk
  stream : streamOf lines = (recv.map fun r => r.bytes).flatten

/-- The first call gets the connection. -/
theorem getNextWatchLine_connect {s : WatchState} {entry : ConnectionEntry}
    (h : (connectWatch s).watch.connection = some entry) (passes : ℕ) (buf : ℕ → Byte) (len : ℕ) :
    getNextWatchLine true (passes + 1) s buf len =
      getNextWatchLine true (passes + 1) (connectWatch s) buf len := by
  rw [getNextWatchLine, getNextWatchLine, if_neg (by simp), if_neg (by simp)]
  simp only
  rw [connectWatch_of_some h]

theorem chunksFit_iff (m : ℕ) (cs : List Bytes) :
    ChunksFit m cs ↔ (∀ c ∈ cs, c.getLast? = some LF ∧ c.length < readBufSize) ∧
      (m :: cs.dropLast.map List.length).IsChain (· ≤ ·) := by
  induction cs generalizing m with
  | nil => simp [ChunksFit]
  | cons c cs ih =>
    rw [ChunksFit, ih]
    cases cs with
    | nil => simp
    | cons d cs =>
      simp only [List.dropLast_cons_cons, List.map_cons, List.isChain_cons_cons, List.forall_mem_cons,
        ne_eq, reduceCtorEq, not_false_eq_true, true_imp_iff]
      tauto

/-- The watch as `init_watch` leaves it. -/
def freshWatch (w : World) (trackerIndex : ℕ) (behind : ℕ → Byte)
    (incoming : ℕ → List (Recv readBufSize)) (send : Stream' AprStatus) : WatchState :=
  ⟨initWatch trackerIndex behind, w, incoming, send⟩

theorem connectWatch_freshWatch {w : World} {trackerIndex : ℕ} {entry : ConnectionEntry}
    (h : (mfsPoolGetConnection w trackerIndex true).1 = some entry) (behind : ℕ → Byte)
    (incoming : ℕ → List (Recv readBufSize)) (send : Stream' AprStatus) :
    At entry (initWatch trackerIndex behind).buffer (incoming entry.connection)
      (connectWatch (freshWatch w trackerIndex behind incoming send)) :=
  ⟨h, rfl, rfl⟩

theorem runMeets_connect {s : WatchState} {entry : ConnectionEntry}
    (h : (connectWatch s).watch.connection = some entry)
    (hbuffer : (connectWatch s).watch.buffer = s.watch.buffer) (p : BufferRead → Prop)
    (passes len : ℕ) (lines : List Bytes) (buf : ℕ → Byte) :
    RunMeets p (passes + 1) len lines s buf ↔
      RunMeets p (passes + 1) len lines (connectWatch s) buf := by
  cases lines with
  | nil => simp [RunMeets, watchLines, hbuffer]
  | cons l lines =>
    rw [RunMeets, RunMeets, List.length_cons, watchLines, watchLines, getNextWatchLine_connect h]

theorem staleBelow_initWatch (trackerIndex : ℕ) (behind : ℕ → Byte) :
    StaleBelow 0 (initWatch trackerIndex behind).buffer.readBuf :=
  ⟨fun i hi => absurd hi (Nat.not_lt_zero i), fun _ _ hi => if_pos hi⟩

/-- A fresh watch on a connection that delivers lines. No undelivered byte is
    consumed and nothing behind `read_buf` is read only when there is no line. And
    when a NUL dropped behind a newline does not count, the calls are right
    exactly when every chunk ends with a newline and is shorter than `read_buf`,
    and the lengths of the chunks, the last one apart, never decrease. -/
theorem watch_fidelity_iff (w : World) (trackerIndex : ℕ) (behind : ℕ → Byte)
    (incoming : ℕ → List (Recv readBufSize)) (send : Stream' AprStatus) {len : ℕ}
    (d : LineDelivery len) (entry : ConnectionEntry)
    (hconnection : (mfsPoolGetConnection w trackerIndex true).1 = some entry)
    (hincoming : incoming entry.connection = d.recv) (passes : ℕ) (buf : ℕ → Byte) :
    (RunMeets BufferRead.Strict (passes + 1) len d.lines
        (freshWatch w trackerIndex behind incoming send) buf ↔ d.lines = []) ∧
      (RunMeets BufferRead.Faithful (passes + 1) len d.lines
          (freshWatch w trackerIndex behind incoming send) buf ↔
        (∀ c ∈ chunksOf d.recv, c.getLast? = some LF ∧ c.length < readBufSize) ∧
          ((chunksOf d.recv).dropLast.map List.length).IsChain (· ≤ ·)) := by
  have hat := connectWatch_freshWatch hconnection behind incoming send
  rw [hincoming] at hat
  have hstale := staleBelow_initWatch trackerIndex behind
  have hlen := d.len_lt
  rw [runMeets_connect hat.connection hat.buffer, runMeets_connect hat.connection hat.buffer]
  constructor
  · refine ⟨fun h => ?_, fun h => ?_⟩
    · by_contra hne
      exact not_runMeets_strict (by omega) passes d.kinds buf hat rfl hstale d.fits d.stream hne h
    · rw [h]
      exact runMeets_nil (by rw [hat.buffer]; simp [initWatch])
  · rw [runMeets_faithful_iff (by omega) passes d.kinds buf hat rfl hstale d.fits d.stream
      (by simp [initWatch]), chunksFit_iff]
    cases (chunksOf d.recv).dropLast.map List.length with
    | nil => simp
    | cons n ns => simp [List.isChain_cons_cons]

/-- A line in a chunk of its own. -/
def lineChunk (l : Bytes) (h : LineFits 100 l) : Recv readBufSize where
  rv := .success
  bytes := l ++ [CR, LF]
  fits := by
    have := h.fits
    show (l ++ [CR, LF]).length ≤ 5000
    simp only [List.length_append, List.length_cons, List.length_nil]
    omega

/-- Three lines, each in a chunk of its own. -/
def threeLines (k l m : Bytes) (hk : LineFits 100 k) (hl : LineFits 100 l) (hm : LineFits 100 m) :
    LineDelivery 100 where
  lines := [k, l, m]
  recv := [lineChunk k hk, lineChunk l hl, lineChunk m hm]
  len_lt := by decide
  fits := by simp [hk, hl, hm]
  kinds := by simp [lineChunk, Recv.IsChunk]
  stream := by simp [streamOf, lineChunk]

theorem lineFits_abcd : LineFits 100 (str "abcd") := ⟨by decide, by decide, by decide⟩

theorem lineFits_x : LineFits 100 (str "x") := ⟨by decide, by decide, by decide⟩

theorem lineFits_y : LineFits 100 (str "y") := ⟨by decide, by decide, by decide⟩

/-- A watch on a new connection that delivers the lines. -/
def watchOf (d : LineDelivery 100) : WatchState :=
  freshWatch (oneTrackerWorld [] .success []) 0 (fun _ => 0) (fun _ => d.recv) (Stream'.const .success)

/-- Lengths 3, 6, 3: the watch returns the three lines. -/
theorem watch_fidelity_growing :
    RunMeets BufferRead.Faithful 1 100 [str "x", str "abcd", str "y"]
      (watchOf (threeLines _ _ _ lineFits_x lineFits_abcd lineFits_y)) (fun _ => 0) := by
  refine (watch_fidelity_iff _ 0 _ _ _ (threeLines _ _ _ lineFits_x lineFits_abcd lineFits_y) ⟨0, 0⟩
    (by decide +kernel) rfl 0 _).2.mpr ⟨?_, ?_⟩
  · decide +kernel
  · decide +kernel

/-- Lengths 6, 3, 3: behind the chunk of the second line stands the last letter of
    the first, and the third call returns `dy` for `y`. -/
theorem stale_byte_in_line :
    ((watchLines 1 100 3 (watchOf (threeLines _ _ _ lineFits_abcd lineFits_x lineFits_y))
        (fun _ => 0)).1.map fun r => (r.1, Cells.cells r.2 3)) =
        [(some .success, str "abc"), (some .success, str "x" ++ [0, LF]),
          (some .success, str "dy" ++ [0])] ∧
      (∀ p, ¬ RunMeets p 1 100 [str "abcd", str "x", str "y"]
        (watchOf (threeLines _ _ _ lineFits_abcd lineFits_x lineFits_y)) (fun _ => 0)) := by
  refine ⟨by decide +kernel, fun p h => ?_⟩
  have hthird := h.1.get (i := 2) (by decide +kernel) (by decide)
  have hd : (str "y").getD 0 0 = ch 'd' := by
    rw [← show _ = (str "y").getD 0 0 from hthird.2.1 0 (by decide)]
    decide +kernel
  revert hd
  decide

end MogileFs
