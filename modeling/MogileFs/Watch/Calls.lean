import MogileFs.Watch.Reader

/-!
# Successive calls of `get_next_watch_line`

`watchLines` makes one call after the other. Once the watch has its connection a
call depends on nothing but the buffer and what is still to come there (`At`).

Results:
* `watchLines_reads`: the record of reads only grows.
* `watchLines_congr`: a call goes by what its reader does.
* `streamOf_split`: a chunk holds whole lines, or ends inside one.
* `watchLines_available`: lines that are available are returned.
-/

namespace MogileFs

/-! ## Runs of calls -/

/-- `n` calls of `get_next_watch_line` into one buffer. -/
def watchLines (passes len : ℕ) :
    ℕ → WatchState → (ℕ → Byte) → List (Option AprStatus × (ℕ → Byte)) × WatchState
  | 0, s, _ => ([], s)
  | n + 1, s, buf =>
    let (rv, memory, s) := getNextWatchLine true passes s buf len
    let (results, s) := watchLines passes len n s memory
    ((rv, memory) :: results, s)

/-- Every call succeeded, and left the line as a C string. -/
def ReturnsLines (results : List (Option AprStatus × (ℕ → Byte))) (lines : List Bytes) : Prop :=
  List.Forall₂ (fun r l => r.1 = some .success ∧ HoldsString r.2 l) results lines

theorem connectWatch_keeps (s : WatchState) :
    (connectWatch s).watch.buffer = s.watch.buffer ∧ (connectWatch s).incoming = s.incoming := by
  unfold connectWatch
  cases s.watch.connection <;> exact ⟨rfl, rfl⟩

theorem getNextWatchLine_reads (allow : Bool) (passes : ℕ) (s : WatchState) (buf : ℕ → Byte)
    (len : ℕ) :
    s.watch.buffer.reads <+: (getNextWatchLine allow passes s buf len).2.2.watch.buffer.reads := by
  have hconnect : ∀ s : WatchState, (connectWatch s).watch.buffer = s.watch.buffer :=
    fun s => (connectWatch_keeps s).1
  induction passes generalizing s buf with
  | zero => exact List.prefix_rfl
  | succ passes ih =>
    unfold getNextWatchLine
    split_ifs
    · exact List.prefix_rfl
    · simp only
      cases hc : (connectWatch s).watch.connection with
      | none =>
        simp only
        rw [← hconnect s]
        exact ih _ _
      | some entry =>
        simp only
        have hread := sockReadline_reads allow buf len (connectWatch s).watch.buffer
          ((connectWatch s).incoming entry.connection)
        rw [hconnect s] at hread
        split
        · rw [hconnect s]; exact hread
        · rw [hconnect s]; exact hread
        · refine List.IsPrefix.trans ?_ (ih _ _)
          rw [hconnect s]
          exact hread

theorem watchLines_reads (passes len n : ℕ) (s : WatchState) (buf : ℕ → Byte) :
    s.watch.buffer.reads <+: (watchLines passes len n s buf).2.watch.buffer.reads := by
  induction n generalizing s buf with
  | zero => exact List.prefix_rfl
  | succ n ih => exact (getNextWatchLine_reads true passes s buf len).trans (ih _ _)

/-! ## An established connection -/

/-- The watch has connection `entry`, on which `incoming` is still to come. -/
structure At (entry : ConnectionEntry) (b : ReadBuffer) (incoming : List (Recv readBufSize))
    (s : WatchState) : Prop where
  connection : s.watch.connection = some entry
  buffer : s.watch.buffer = b
  incoming : s.incoming entry.connection = incoming

/-- Another buffer, and something else to come on connection `entry`. -/
def WatchState.put (s : WatchState) (entry : ConnectionEntry) (b : ReadBuffer)
    (incoming : List (Recv readBufSize)) : WatchState :=
  { s with
    watch := { s.watch with buffer := b }
    incoming := Function.update s.incoming entry.connection incoming }

theorem at_put {entry : ConnectionEntry} {b : ReadBuffer} {incoming : List (Recv readBufSize)}
    {s : WatchState} (h : At entry b incoming s) (b' : ReadBuffer)
    (incoming' : List (Recv readBufSize)) : At entry b' incoming' (s.put entry b' incoming') :=
  ⟨h.connection, rfl, by simp [WatchState.put]⟩

theorem connectWatch_of_some {s : WatchState} {entry : ConnectionEntry}
    (h : s.watch.connection = some entry) : connectWatch s = s := by
  unfold connectWatch
  rw [h]

/-- A call that the reader serves on the connection. -/
theorem getNextWatchLine_success {entry : ConnectionEntry} {b b' : ReadBuffer}
    {incoming incoming' : List (Recv readBufSize)} {s : WatchState} (h : At entry b incoming s)
    {buf : ℕ → Byte} {len : ℕ} {p : Cursor}
    (hread : sockReadline true buf len b incoming = ⟨some .success, p, b', incoming'⟩)
    (passes : ℕ) :
    getNextWatchLine true (passes + 1) s buf len =
      (some .success, p.memory, s.put entry b' incoming') := by
  rw [getNextWatchLine, if_neg (by simp)]
  simp only
  rw [connectWatch_of_some h.connection, h.connection]
  simp only
  rw [h.buffer, h.incoming, hread]
  simp only [WatchState.put, h.connection]

/-- Two readers that go on alike. -/
theorem getNextWatchLine_congr {entry : ConnectionEntry} {b b' : ReadBuffer}
    {incoming incoming' : List (Recv readBufSize)} {s : WatchState} (h : At entry b incoming s)
    {buf : ℕ → Byte} {len : ℕ}
    (hread : sockReadline true buf len b incoming = sockReadline true buf len b' incoming')
    (passes : ℕ) :
    getNextWatchLine true (passes + 1) s buf len =
      getNextWatchLine true (passes + 1) (s.put entry b' incoming') buf len := by
  have h' := at_put h b' incoming'
  rw [getNextWatchLine, getNextWatchLine, if_neg (by simp), if_neg (by simp)]
  simp only
  rw [connectWatch_of_some h.connection, connectWatch_of_some h'.connection, h.connection,
    h'.connection]
  simp only
  rw [h.buffer, h.incoming, h'.buffer, h'.incoming, hread]
  simp only [WatchState.put, Function.update_idem]

theorem watchLines_congr {entry : ConnectionEntry} {b b' : ReadBuffer}
    {incoming incoming' : List (Recv readBufSize)} {s : WatchState} (h : At entry b incoming s)
    {buf : ℕ → Byte} {len : ℕ}
    (hread : sockReadline true buf len b incoming = sockReadline true buf len b' incoming')
    (passes n : ℕ) :
    watchLines (passes + 1) len (n + 1) s buf =
      watchLines (passes + 1) len (n + 1) (s.put entry b' incoming') buf := by
  rw [watchLines, watchLines, getNextWatchLine_congr h hread]

theorem watchLines_add (passes len m n : ℕ) (s : WatchState) (buf : ℕ → Byte) :
    ∃ buf', watchLines passes len (m + n) s buf =
      ((watchLines passes len m s buf).1 ++
          (watchLines passes len n (watchLines passes len m s buf).2 buf').1,
        (watchLines passes len n (watchLines passes len m s buf).2 buf').2) := by
  induction m generalizing s buf with
  | zero => exact ⟨buf, by simp [watchLines]⟩
  | succ m ih =>
    obtain ⟨buf', h⟩ := ih (getNextWatchLine true passes s buf len).2.2
      (getNextWatchLine true passes s buf len).2.1
    refine ⟨buf', ?_⟩
    rw [Nat.succ_add, watchLines, watchLines]
    simp only
    rw [h]
    rfl

/-! ## Lines -/

/-- The bytes of the lines, each with its CRLF. -/
def streamOf (lines : List Bytes) : Bytes := lines.flatMap fun l => l ++ [CR, LF]

/-- A line without NUL and LF that fits in a buffer of `len` bytes. -/
structure LineFits (len : ℕ) (l : Bytes) : Prop where
  nul : (0 : Byte) ∉ l
  lf : LF ∉ l
  fits : l.length + 2 < len

@[simp] theorem streamOf_nil : streamOf [] = [] := rfl

theorem streamOf_cons (l : Bytes) (lines : List Bytes) :
    streamOf (l :: lines) = l ++ CR :: LF :: streamOf lines := by
  simp [streamOf]

theorem streamOf_append (as bs : List Bytes) : streamOf (as ++ bs) = streamOf as ++ streamOf bs :=
  List.flatMap_append

theorem streamOf_eq_nil {lines : List Bytes} : streamOf lines = [] ↔ lines = [] := by
  cases lines <;> simp [streamOf]

theorem nul_notMem_streamOf {lines : List Bytes} {len : ℕ} (h : ∀ l ∈ lines, LineFits len l) :
    (0 : Byte) ∉ streamOf lines := by
  intro hmem
  obtain ⟨l, hl, h0⟩ := List.mem_flatMap.mp hmem
  rcases List.mem_append.mp h0 with h0 | h0
  · exact (h l hl).nul h0
  · revert h0; decide

theorem getLast_streamOf {lines : List Bytes} (h : lines ≠ []) :
    (streamOf lines).getLast? = some LF := by
  rcases List.eq_nil_or_concat lines with rfl | ⟨front, l, rfl⟩
  · exact absurd rfl h
  · rw [List.concat_eq_append, streamOf_append, streamOf_cons]
    simp

/-- A chunk at the beginning of lines holds some of them whole, or ends inside one. -/
theorem streamOf_split {lines : List Bytes} {c tail : Bytes} (hc : c ≠ [])
    (h : streamOf lines = c ++ tail) :
    (∃ front rest, lines = front ++ rest ∧ front ≠ [] ∧ c = streamOf front ∧
        tail = streamOf rest) ∨
      ∃ front l rest x, lines = front ++ l :: rest ∧ c = streamOf front ++ x ∧ x ≠ [] ∧
        x <+: l ++ [CR] := by
  induction lines generalizing c with
  | nil => exact absurd (List.append_eq_nil_iff.mp h.symm).1 hc
  | cons l lines ih =>
    have hcons : (l ++ [CR, LF]) ++ streamOf lines = c ++ tail := by
      rw [← h, streamOf_cons]; simp
    rcases List.append_eq_append_iff.mp hcons with ⟨a, rfl, ha⟩ | ⟨d, hd, htail⟩
    · by_cases hnil : a = []
      · subst hnil
        exact Or.inl ⟨[l], lines, rfl, by simp, by simp [streamOf], by simpa using ha.symm⟩
      · rcases ih hnil ha with ⟨front, rest, rfl, -, rfl, rfl⟩ | ⟨front, m, rest, x, rfl, rfl, hx, hpre⟩
        · exact Or.inl ⟨l :: front, rest, rfl, by simp, by rw [streamOf_cons]; simp, rfl⟩
        · exact Or.inr ⟨l :: front, m, rest, x, rfl, by rw [streamOf_cons]; simp, hx, hpre⟩
    · rcases List.eq_nil_or_concat d with rfl | ⟨d', y, rfl⟩
      · rw [List.append_nil] at hd
        exact Or.inl ⟨[l], lines, rfl, by simp, by rw [← hd]; simp [streamOf], by simpa using htail⟩
      · have hd' : (l ++ [CR]) ++ [LF] = (c ++ d') ++ [y] := by
          rw [List.concat_eq_append] at hd
          simpa using hd
        exact Or.inr ⟨[], l, lines, c, rfl, rfl, hc, d', (List.append_inj' hd' rfl).1.symm⟩

/-- A chunk that ends inside a line does not end with LF. -/
theorem getLast_of_prefix {len : ℕ} {l x : Bytes} (hl : LineFits len l) (hx : x <+: l ++ [CR]) :
    LF ∉ x ∧ (0 : Byte) ∉ x := by
  constructor
  · intro h
    rcases List.mem_append.mp (hx.subset h) with h | h
    · exact hl.lf h
    · revert h; decide
  · intro h
    rcases List.mem_append.mp (hx.subset h) with h | h
    · exact hl.nul h
    · revert h; decide

/-! ## The calls that one chunk serves -/

/-- A read of a delivered byte of `read_buf`. -/
def BufferRead.Sound (r : BufferRead) : Prop := r.pos < r.received ∧ r.received ≤ readBufSize

theorem skipNuls_of_ne {b : ReadBuffer} {c : Byte} {rest : Bytes} (h : b.available = c :: rest)
    (hc : c ≠ 0) : skipNuls b = b.note .inspected := by
  obtain ⟨hpos, hcur, -⟩ := available_cons h
  rw [skipNuls, if_pos hpos, hcur, if_neg hc]

theorem skipNuls_of_nul {b : ReadBuffer} (h : b.available = [0]) :
    skipNuls b = { (b.note .inspected).advance .skipped with cnt := 0 } := by
  obtain ⟨hpos, hcur, -⟩ := available_cons h
  have hcnt : b.cnt = 1 := by simpa [h] using (length_available b).symm
  rw [skipNuls, if_pos hpos, if_pos hcur, skipNuls, if_neg (by simp [hcnt])]
  rw [hcnt]

/-- What the reader looks at while it serves lines that are available. -/
theorem takeMany_sound {b : ReadBuffer} {n : ℕ} (h : b.bufPointer + n ≤ b.received)
    (hmax : b.received ≤ readBufSize) :
    ∃ R, (b.takeMany n).reads = b.reads ++ R ∧ ∀ r ∈ R, r.Sound := by
  refine ⟨_, (takeMany_fields b n).2.2.2, fun r hr => ?_⟩
  obtain ⟨i, hi, rfl⟩ := List.mem_map.mp hr
  have := List.mem_range.mp hi
  exact ⟨by simp only; omega, hmax⟩

/-- The state in which whole lines of the buffer have been returned and `w` is left;
    the loop over NULs has still to run. -/
structure Served (entry : ConnectionEntry) (b b₁ : ReadBuffer) (w : Bytes)
    (incoming : List (Recv readBufSize)) (s' : WatchState) : Prop where
  at_skipNuls : At entry (skipNuls b₁) incoming s'
  available : b₁.available = w
  readBuf : b₁.readBuf = b.readBuf
  received : b₁.received = b.received
  bufPointer : b₁.bufPointer + w.length = b.received + 1
  reads : ∃ R, b₁.reads = b.reads ++ R ∧ ∀ r ∈ R, r.Sound

/-- The loop over NULs stops at once when another line follows. -/
theorem streamOf_head {lines : List Bytes} {len : ℕ} (hne : lines ≠ [])
    (hfits : ∀ l ∈ lines, LineFits len l) : ∃ c rest, streamOf lines = c :: rest ∧ c ≠ 0 := by
  obtain ⟨c, rest, hcr⟩ := List.exists_cons_of_ne_nil (streamOf_eq_nil.not.mpr hne)
  refine ⟨c, rest, hcr, ?_⟩
  rintro rfl
  exact nul_notMem_streamOf hfits (by rw [hcr]; simp)

/-- A line in front of those that have been served. -/
theorem Served.cons {entry : ConnectionEntry} {b b₁ : ReadBuffer} {w : Bytes} {n : ℕ}
    {incoming : List (Recv readBufSize)} {s' : WatchState}
    (h : Served entry ((b.takeMany n).note .inspected) b₁ w incoming s')
    (hend : b.bufPointer + n < b.received) (hmax : b.received ≤ readBufSize) :
    Served entry b b₁ w incoming s' := by
  obtain ⟨hbuf, hrec, hpos, -⟩ := takeMany_fields b n
  obtain ⟨R, hR, hsound⟩ := takeMany_sound (b := b) (n := n) (by omega) hmax
  obtain ⟨R', hR', hsound'⟩ := h.reads
  refine ⟨h.at_skipNuls, h.available, h.readBuf.trans hbuf, h.received.trans hrec, ?_,
    R ++ [⟨.inspected, (b.takeMany n).bufPointer, (b.takeMany n).received⟩] ++ R', ?_, ?_⟩
  · rw [h.bufPointer]
    show (b.takeMany n).received + 1 = _
    rw [hrec]
  · rw [hR']
    simp [ReadBuffer.note, hR]
  · intro r hr
    rcases List.mem_append.mp hr with hr | hr
    · rcases List.mem_append.mp hr with hr | hr
      · exact hsound r hr
      · rw [List.mem_singleton.mp hr]
        exact ⟨by simp only; omega, by simp only; omega⟩
    · exact hsound' r hr

/-- Lines that are available, with something behind them, are returned. -/
theorem watchLines_available {entry : ConnectionEntry} {incoming : List (Recv readBufSize)}
    {lines : List Bytes} {w : Bytes} {len : ℕ} (hne : lines ≠ []) (hw : w ≠ [])
    (hfits : ∀ l ∈ lines, LineFits len l) (passes : ℕ) :
    ∀ {s : WatchState} {b : ReadBuffer} (buf : ℕ → Byte), At entry b incoming s →
      b.available = streamOf lines ++ w → b.bufPointer + b.cnt = b.received + 1 →
      b.received ≤ readBufSize →
      ReturnsLines (watchLines (passes + 1) len lines.length s buf).1 lines ∧
        ∃ b₁, Served entry b b₁ w incoming (watchLines (passes + 1) len lines.length s buf).2 := by
  induction lines with
  | nil => exact absurd rfl hne
  | cons l lines ih =>
    intro s b buf hat hav hptr hmax
    have hl := hfits l (by simp)
    have hrest : ∀ k ∈ lines, LineFits len k := fun k hk => hfits k (List.mem_cons_of_mem _ hk)
    have hsplit : b.available = l ++ CR :: LF :: (streamOf lines ++ w) := by
      rw [hav, streamOf_cons]; simp
    obtain ⟨p, hread, hholds⟩ := sockReadline_line hsplit hl.lf hl.nul hl.fits buf incoming
    have hcall := getNextWatchLine_success hat hread passes
    have hnext := at_put hat (skipNuls (b.takeMany (l.length + 2))) incoming
    -- the state before the loop over NULs
    obtain ⟨hbuf, hrec, hpos, -⟩ := takeMany_fields b (l.length + 2)
    have hav₁ : (b.takeMany (l.length + 2)).available = streamOf lines ++ w := by
      have : b.available = (l ++ [CR, LF]) ++ (streamOf lines ++ w) := by rw [hsplit]; simp
      simpa using available_takeMany this
    have hcnt : b.cnt = l.length + 2 + ((streamOf lines).length + w.length) := by
      rw [← length_available, hsplit]; simp; omega
    have hwlen : 0 < w.length := List.length_pos_iff.mpr hw
    rw [List.length_cons, watchLines, hcall]
    simp only
    by_cases hlast : lines = []
    · subst hlast
      obtain ⟨R, hR, hsound⟩ := takeMany_sound (b := b) (n := l.length + 2) (by omega) hmax
      refine ⟨List.Forall₂.cons ⟨rfl, hholds⟩ List.Forall₂.nil, b.takeMany (l.length + 2), hnext,
        by simpa using hav₁, hbuf, hrec, ?_, R, hR, hsound⟩
      rw [hpos]
      simp at hcnt
      omega
    · -- the next byte belongs to the next line, and the loop over NULs stops at it
      obtain ⟨c, rest, hcr, hc⟩ := streamOf_head hlast hrest
      have hskip := skipNuls_of_ne (b := b.takeMany (l.length + 2))
        (by rw [hav₁, hcr]; rfl : _ = c :: (rest ++ w)) hc
      rw [hskip] at hnext
      have hcnt₁ := length_available (b.takeMany (l.length + 2))
      rw [hav₁, List.length_append] at hcnt₁
      have hptr₁ : ((b.takeMany (l.length + 2)).note .inspected).bufPointer +
          ((b.takeMany (l.length + 2)).note .inspected).cnt =
            ((b.takeMany (l.length + 2)).note .inspected).received + 1 := by
        show (b.takeMany (l.length + 2)).bufPointer + (b.takeMany (l.length + 2)).cnt =
          (b.takeMany (l.length + 2)).received + 1
        rw [hpos, hrec]
        omega
      obtain ⟨hret, b₁, hserved⟩ := ih hlast hrest p.memory hnext hav₁ hptr₁ (hrec.trans_le hmax)
      rw [← hskip] at hret
      have hstream : 0 < (streamOf lines).length := by rw [hcr]; simp
      have hcons := hserved.cons (by omega) hmax
      rw [← hskip] at hcons
      exact ⟨List.Forall₂.cons ⟨rfl, hholds⟩ hret, b₁, hcons⟩

end MogileFs
