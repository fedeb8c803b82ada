import MogileFs.Watch.CacheLines

/-!
# The lines of other clients

`get_next_watch_cache_line` (`src/watch.c`, lines 137–157) moves the text of a line to the front of
the caller's buffer, and skips lines, between two calls of `get_next_watch_line` into that same
buffer. What a call reads does not depend on what the buffer holds: `sock_readline` looks at nothing
there but the byte in front of a newline it has stored itself. So the lines are those of plain
calls one after the other, and a client is told of what others have done, all of it, in order.

Results:
* `getNextWatchLine_sameRead`: two calls into buffers with different contents.
* `feeds_of_returnsLines`: the lines that plain calls return are those of calls into any buffers.
* `getNextWatchCacheLine_feeds`, `watchCacheLines_feeds`: the texts of the lines, one call after the
  other.
* `watch_feed`: the texts of a connection, from a fresh watch on.
-/

namespace MogileFs

open Cells CheckedMemory

/-! ## The caller's buffer -/

/-- Two buffers hold the same string, up to a NUL in both. -/
def SameString (memory memory' : ℕ → Byte) : Prop :=
  ∃ n, memory n = 0 ∧ ∀ i ≤ n, memory' i = memory i

theorem SameString.holdsString {memory memory' : ℕ → Byte} (h : SameString memory memory')
    {l : Bytes} (hl : HoldsString memory l) : HoldsString memory' l := by
  obtain ⟨n, hnul, hsame⟩ := h
  obtain ⟨hbytes, hend, hfree⟩ := hl
  -- the string ends at that NUL, or before it
  have hlen : l.length ≤ n := by
    by_contra hlt
    have hn : n < l.length := by omega
    have hmem : l.getD n 0 ∈ l := by
      rw [List.getD_eq_getElem _ _ hn]
      exact List.getElem_mem hn
    rw [← hbytes n hn, hnul] at hmem
    exact hfree hmem
  refine ⟨fun i hi => ?_, ?_, hfree⟩
  · rw [hsame i (by omega)]
    exact hbytes i hi
  · rw [hsame _ hlen]
    exact hend

/-- Two cursors that have written the same. -/
structure Cursor.SameText (p p' : Cursor) : Prop where
  pos : p'.pos = p.pos
  below : ∀ i < p.pos, p'.memory i = p.memory i

theorem Cursor.SameText.put {p p' : Cursor} (h : p.SameText p') (c : Byte) :
    (p.put c).SameText (p'.put c) := by
  refine ⟨congrArg (· + 1) h.pos, fun i hi => ?_⟩
  have hle : i < p.pos + 1 := hi
  simp only [Cursor.put, h.pos]
  by_cases hlast : i = p.pos
  · rw [hlast, Function.update_self, Function.update_self]
  · rw [Function.update_of_ne hlast, Function.update_of_ne hlast]
    exact h.below i (by omega)

/-- The end of a line: what decides about its CR has been written. -/
theorem Cursor.SameText.terminateBuffer {p p' : Cursor} (h : p.SameText p') {size : ℕ}
    (hsize : size ≤ p.pos) :
    SameString (terminateBuffer p size).memory (terminateBuffer p' size).memory := by
  have hpoke : ∀ i ≤ p.pos, (p'.poke p'.pos 0).memory i = (p.poke p.pos 0).memory i := by
    intro i hi
    simp only [Cursor.poke, h.pos]
    by_cases hlast : i = p.pos
    · rw [hlast, Function.update_self, Function.update_self]
    · rw [Function.update_of_ne hlast, Function.update_of_ne hlast]
      exact h.below i (by omega)
  have hnul : (p.poke p.pos 0).memory p.pos = 0 := Function.update_self p.pos 0 p.memory
  have hpos : (p.poke p.pos 0).pos = p.pos := rfl
  have hpos' : (p'.poke p'.pos 0).pos = p.pos := h.pos
  unfold MogileFs.terminateBuffer
  simp only [hpos, hpos']
  by_cases hcr : size > 1 ∧ (p.poke p.pos 0).memory (p.pos - 2) = CR
  · have hcr' : size > 1 ∧ (p'.poke p'.pos 0).memory (p.pos - 2) = CR := by
      rw [hpoke _ (by omega)]
      exact hcr
    rw [if_pos hcr, if_pos hcr']
    refine ⟨p.pos, ?_, fun i hi => ?_⟩
    · have hne : p.pos ≠ p.pos - 2 := by omega
      exact (Function.update_of_ne hne 0 _).trans hnul
    · show Function.update _ _ _ i = Function.update _ _ _ i
      by_cases hlast : i = p.pos - 2
      · rw [hlast, Function.update_self, Function.update_self]
      · rw [Function.update_of_ne hlast, Function.update_of_ne hlast]
        exact hpoke i hi
  · have hcr' : ¬(size > 1 ∧ (p'.poke p'.pos 0).memory (p.pos - 2) = CR) := by
      rw [hpoke _ (by omega)]
      exact hcr
    rw [if_neg hcr, if_neg hcr']
    exact ⟨p.pos, hnul, hpoke⟩

/-- What two reads leave that differ in what the caller's buffer held. -/
structure ReadlineResult.SameRead (r r' : ReadlineResult) : Prop where
  rv : r'.rv = r.rv
  buffer : r'.buffer = r.buffer
  incoming : r'.incoming = r.incoming
  text : r.rv = some .success → SameString r.bufptr.memory r'.bufptr.memory

theorem readlineLoop_sameRead (allow : Bool) (p : Cursor) (size len : ℕ) (b : ReadBuffer)
    (incoming : List (Recv readBufSize)) (hsize : size = p.pos) :
    ∀ p', p.SameText p' → ReadlineResult.SameRead (readlineLoop allow p size len b incoming)
      (readlineLoop allow p' size len b incoming) := by
  induction p, size, len, b, incoming using readlineLoop.induct allow with
  | case1 p size len b incoming hgo hrefill =>
    intro p' h
    rw [readlineLoop, if_pos hgo, hrefill, readlineLoop, if_pos hgo, hrefill]
    exact ⟨rfl, rfl, rfl, fun hrv => by cases hrv⟩
  | case2 p size len b incoming hgo rv c rest hrefill =>
    intro p' h
    rw [readlineLoop, if_pos hgo, hrefill, readlineLoop, if_pos hgo, hrefill]
    exact ⟨rfl, rfl, rfl, fun hrv => absurd (Option.some.inj hrv) (refill_failed hrefill)⟩
  | case3 p size len b incoming hgo c rest hrefill ih =>
    intro p' h
    rw [readlineLoop, if_pos hgo, hrefill, readlineLoop, if_pos hgo, hrefill]
    exact ih hsize p' h
  | case4 p size len b incoming hgo c rest hrefill _ hch =>
    intro p' h
    rw [readlineLoop, if_pos hgo, hrefill, readlineLoop, if_pos hgo, hrefill]
    simp only
    rw [if_pos hch, if_pos hch]
    exact ⟨rfl, rfl, rfl, fun _ => (h.put _).terminateBuffer (le_of_eq (congrArg (· + 1) hsize))⟩
  | case5 p size len b incoming hgo c rest hrefill _ hch ih =>
    intro p' h
    rw [readlineLoop, if_pos hgo, hrefill, readlineLoop, if_pos hgo, hrefill]
    simp only
    rw [if_neg hch, if_neg hch]
    exact ih (congrArg (· + 1) hsize) _ (h.put _)
  | case6 p size len b incoming hgo =>
    intro p' h
    rw [readlineLoop, if_neg hgo, readlineLoop, if_neg hgo]
    exact ⟨rfl, rfl, rfl, fun hrv => by cases hrv⟩

/-- What a call does and what it returns do not depend on what the buffer holds. -/
theorem getNextWatchLine_sameRead (allow : Bool) (passes len : ℕ) (s : WatchState)
    (buf buf' : ℕ → Byte) :
    (getNextWatchLine allow passes s buf' len).1 = (getNextWatchLine allow passes s buf len).1 ∧
      (getNextWatchLine allow passes s buf' len).2.2 =
        (getNextWatchLine allow passes s buf len).2.2 ∧
      ((getNextWatchLine allow passes s buf len).1 = some .success →
        SameString (getNextWatchLine allow passes s buf len).2.1
          (getNextWatchLine allow passes s buf' len).2.1) := by
  induction passes generalizing s buf buf' with
  | zero => exact ⟨rfl, rfl, fun h => by cases h⟩
  | succ passes ih =>
    rw [getNextWatchLine, getNextWatchLine]
    split_ifs
    · exact ⟨rfl, rfl, fun h => by cases h⟩
    · simp only
      cases hconnection : (connectWatch s).watch.connection with
      | none => exact ih (connectWatch s) buf buf'
      | some entry =>
        have hread := readlineLoop_sameRead allow ⟨buf, 0, 0⟩ 0 len (connectWatch s).watch.buffer
          ((connectWatch s).incoming entry.connection) rfl ⟨buf', 0, 0⟩
          ⟨rfl, fun i hi => absurd hi (Nat.not_lt_zero i)⟩
        rw [← sockReadline, ← sockReadline] at hread
        simp only
        generalize sockReadline allow buf len (connectWatch s).watch.buffer
          ((connectWatch s).incoming entry.connection) = r at hread ⊢
        generalize sockReadline allow buf' len (connectWatch s).watch.buffer
          ((connectWatch s).incoming entry.connection) = r' at hread ⊢
        rw [hread.rv, hread.buffer, hread.incoming]
        cases hrv : r.rv with
        | none => exact ⟨rfl, rfl, fun h => by cases h⟩
        | some rv =>
          cases rv with
          | success => exact ⟨rfl, rfl, fun _ => hread.text hrv⟩
          | _ => exact ih _ _ _

/-! ## Lines to come -/

/-- Whatever a buffer of `len` bytes holds, the next calls return the lines. -/
def Feeds (passes len : ℕ) : List Bytes → WatchState → Prop
  | [], _ => True
  | l :: lines, s => ∃ s', (∀ buf, ∃ memory,
      getNextWatchLine true passes s buf len = (some .success, memory, s') ∧
        HoldsString memory l) ∧ Feeds passes len lines s'

/-- The lines that plain calls return into one buffer. -/
theorem feeds_of_returnsLines {passes len : ℕ} {lines : List Bytes} {s : WatchState}
    {buf : ℕ → Byte}
    (h : ReturnsLines (watchLines passes len lines.length s buf).1 lines) :
    Feeds passes len lines s := by
  induction lines generalizing s buf with
  | nil => trivial
  | cons l lines ih =>
    rw [List.length_cons, watchLines] at h
    obtain ⟨hfirst, hrest⟩ := List.forall₂_cons.mp h
    refine ⟨(getNextWatchLine true passes s buf len).2.2, fun buf' => ?_, ih hrest⟩
    obtain ⟨hrv, hstate, hstring⟩ := getNextWatchLine_sameRead true passes len s buf buf'
    refine ⟨(getNextWatchLine true passes s buf' len).2.1, ?_,
      (hstring hfirst.1).holdsString hfirst.2⟩
    rw [← hstate, ← hfirst.1]
    exact Prod.ext hrv rfl

/-! ## Calls of `get_next_watch_cache_line` -/

variable {clientId : Option Bytes} {len : ℕ}

/-- A buffer that holds a string shorter than itself. -/
theorem cells_of_holdsString {memory : ℕ → Byte} {l : Bytes} (h : HoldsString memory l)
    (hlen : l.length < len) : ∃ tail, cells memory len = l ++ 0 :: tail := by
  obtain ⟨hbytes, hend, hfree⟩ := h
  refine ⟨(cells memory len).drop (l.length + 1), ?_⟩
  have htake : (cells memory len).take (l.length + 1) = l ++ [0] := by
    refine List.ext_getElem ?_ fun i hi hi' => ?_
    · rw [List.length_take, length_cells, List.length_append, List.length_singleton]
      omega
    · rw [List.getElem_take]
      simp only [cells, List.getElem_map, List.getElem_range]
      rw [List.length_append, List.length_singleton] at hi'
      by_cases hlast : i < l.length
      · rw [hbytes i hlast, List.getD_eq_getElem _ _ hlast, List.getElem_append_left hlast]
      · obtain rfl : i = l.length := by omega
        rw [hend, List.getElem_concat_length rfl]
  rw [← List.take_append_drop (l.length + 1) (cells memory len), htake, List.append_assoc]
  simp

/-- A call passes over the lines that have no text, and returns the text of the first that has
    one. The lines behind it are left for the next call. -/
theorem getNextWatchCacheLine_feeds {passes : ℕ} {skipped rest : List Bytes} {l text : Bytes}
    {s : WatchState} (h : Feeds passes len (skipped ++ l :: rest) s)
    (hfits : ∀ k ∈ skipped ++ [l], (0 : Byte) ∉ k ∧ k.length < len)
    (hskipped : ∀ k ∈ skipped, cacheText clientId k = none)
    (htext : cacheText clientId l = some text) (hclosed : IdClosed clientId l) {lines : ℕ}
    (hlines : skipped.length < lines) (buf : ℕ → Byte) :
    ∃ memory s', getNextWatchCacheLine true clientId passes len lines s buf =
        ⟨.ok (some .success), memory, s', skipped ++ [l]⟩ ∧
      cstr (cells memory len) = text ∧ Feeds passes len rest s' := by
  induction skipped generalizing s buf lines with
  | nil =>
    obtain ⟨lines, rfl⟩ : ∃ n, lines = n + 1 := Nat.exists_eq_succ_of_ne_zero (by omega)
    obtain ⟨s', hcall, hrest⟩ := h
    obtain ⟨memory, hgot, hstring⟩ := hcall buf
    obtain ⟨hfree, hshort⟩ := hfits l (List.mem_singleton_self l)
    obtain ⟨tail, hcells⟩ := cells_of_holdsString hstring hshort
    obtain ⟨rest', hrun, hlength⟩ := cacheLine_returned tail hfree htext hclosed
    rw [← hcells, length_cells] at hlength
    have htextFree : (0 : Byte) ∉ text := fun hmem => hfree ((cacheText_suffix htext).subset hmem)
    refine ⟨fun i => (text ++ 0 :: rest').getD i (memory i), s', ?_, ?_, hrest⟩
    · rw [getNextWatchCacheLine_succ, hgot]
      simp only
      rw [if_pos trivial, hcells, hrun, cstr_append_nul hfree]
      rfl
    · rw [cells_getD hlength, cstr_append_nul htextFree]
  | cons k skipped ih =>
    obtain ⟨lines, rfl⟩ : ∃ n, lines = n + 1 := Nat.exists_eq_succ_of_ne_zero (by omega)
    obtain ⟨s', hcall, hrest⟩ := h
    obtain ⟨memory, hgot, hstring⟩ := hcall buf
    obtain ⟨hfree, hshort⟩ := hfits k List.mem_cons_self
    obtain ⟨tail, hcells⟩ := cells_of_holdsString hstring hshort
    have hskip : cacheLine clientId (k ++ 0 :: tail) = .ok none :=
      cacheLine_skipped hfree (hskipped k List.mem_cons_self)
    have hleft : skipped.length < lines := Nat.lt_of_succ_lt_succ hlines
    obtain ⟨memory', s'', hnext, htext', hrest'⟩ := ih hrest
      (fun j hj => hfits j (List.mem_cons_of_mem k hj))
      (fun j hj => hskipped j (List.mem_cons_of_mem k hj)) hleft memory
    refine ⟨memory', s'', ?_, htext', hrest'⟩
    rw [getNextWatchCacheLine_succ, hgot]
    simp only
    rw [if_pos trivial, hcells, hskip, cstr_append_nul hfree]
    simp only
    rw [hnext]
    rfl

/-- Successive calls return the texts, one each. -/
theorem watchCacheLines_feeds {passes : ℕ} {delivered : List Bytes} {s : WatchState}
    (h : Feeds passes len delivered s) (hfits : ∀ l ∈ delivered, (0 : Byte) ∉ l ∧ l.length < len)
    (hclosed : ∀ l ∈ delivered, IdClosed clientId l) {lines : ℕ} (hlines : delivered.length ≤ lines)
    {n : ℕ} (hn : n ≤ (delivered.filterMap (cacheText clientId)).length) (buf : ℕ → Byte) :
    (watchCacheLines clientId passes len lines n s buf).map (·.returned len) =
      ((delivered.filterMap (cacheText clientId)).take n).map some := by
  induction n generalizing delivered s buf with
  | zero => rfl
  | succ n ih =>
    have hpos : 0 < (delivered.filterMap (cacheText clientId)).length := by omega
    obtain ⟨text, texts, htexts⟩ := List.exists_cons_of_length_pos hpos
    obtain ⟨skipped, l, rest, rfl, hskipped, htext, hrest⟩ := List.filterMap_eq_cons_iff.mp htexts
    rw [List.length_append, List.length_cons] at hlines
    have hfitsFirst : ∀ k ∈ skipped ++ [l], (0 : Byte) ∉ k ∧ k.length < len := by
      intro k hk
      refine hfits k ?_
      rw [List.append_cons]
      exact List.mem_append_left rest hk
    have hleft : skipped.length < lines := by omega
    obtain ⟨memory, s', hcall, hstring, hfeeds⟩ := getNextWatchCacheLine_feeds h hfitsFirst
      hskipped htext (hclosed l (List.mem_append_right _ List.mem_cons_self)) hleft buf
    rw [htexts, List.length_cons] at hn
    have hnext := ih hfeeds
      (fun k hk => hfits k (List.mem_append_right _ (List.mem_cons_of_mem l hk)))
      (fun k hk => hclosed k (List.mem_append_right _ (List.mem_cons_of_mem l hk))) (by omega)
      (by rw [hrest]; omega) memory
    have hreturned : CacheLineResult.returned len
        ⟨.ok (some .success), memory, s', skipped ++ [l]⟩ = some text := congrArg some hstring
    rw [watchCacheLines, hcall]
    simp only
    rw [List.map_cons, hreturned, hnext, hrest, htexts, List.take_succ_cons, List.map_cons]

/-! ## A connection -/

/-- A fresh watch on a connection that delivers lines without NUL that fit the caller's buffer, in
    chunks that end with a newline and leave room in `read_buf` and of which none but the last is
    shorter than the one before it. Two characters follow the id in every line of another client.
    Whatever timeouts come in between and wherever the texts are moved to, the calls return the text
    of every line that another client has caused, in order, and none of the client's own. -/
theorem watch_feed (w : World) (trackerIndex : ℕ) (behind : ℕ → Byte)
    (incoming : ℕ → List (Recv readBufSize)) (send : Stream' AprStatus) {len : ℕ}
    (d : LineDelivery len) (entry : ConnectionEntry)
    (hconnection : (mfsPoolGetConnection w trackerIndex true).1 = some entry)
    (hincoming : incoming entry.connection = d.recv)
    (hchunks : ∀ c ∈ chunksOf d.recv, c.getLast? = some LF ∧ c.length < readBufSize)
    (hlengths : ((chunksOf d.recv).dropLast.map List.length).IsChain (· ≤ ·))
    (clientId : Option Bytes) (hclosed : ∀ l ∈ d.lines, IdClosed clientId l) (passes : ℕ)
    {lines : ℕ} (hlines : d.lines.length ≤ lines) {n : ℕ}
    (hn : n ≤ (d.lines.filterMap (cacheText clientId)).length) (buf : ℕ → Byte) :
    (watchCacheLines clientId (passes + 1) len lines n
        (freshWatch w trackerIndex behind incoming send) buf).map (·.returned len) =
      ((d.lines.filterMap (cacheText clientId)).take n).map some := by
  have hat := connectWatch_freshWatch hconnection behind incoming send
  rw [hincoming] at hat
  have hlen := d.len_lt
  have hfit : ChunksFit 0 (chunksOf d.recv) := by
    refine (chunksFit_iff 0 _).mpr ⟨hchunks, ?_⟩
    cases hsizes : (chunksOf d.recv).dropLast.map List.length with
    | nil => exact .singleton 0
    | cons size sizes =>
      rw [hsizes] at hlengths
      exact List.isChain_cons_cons.mpr ⟨Nat.zero_le size, hlengths⟩
  have hrun : RunMeets BufferRead.Faithful (passes + 1) len d.lines
      (freshWatch w trackerIndex behind incoming send) buf := by
    rw [runMeets_connect hat.connection hat.buffer]
    refine (runMeets_faithful_iff (by omega) passes d.kinds buf hat rfl
      (staleBelow_initWatch trackerIndex behind) d.fits d.stream ?_).mpr hfit
    intro r hr
    exact absurd hr List.not_mem_nil
  refine watchCacheLines_feeds (feeds_of_returnsLines hrun.1) (fun l hl => ?_) hclosed hlines hn buf
  have hfits := d.fits l hl
  have hshort := hfits.fits
  exact ⟨hfits.nul, by omega⟩

theorem idClosed_of_behindFirst {l t : Bytes} (h : behindFirst (str "[cache][") l = some t)
    (hlength : (cacheId t).length + 2 ≤ t.length) : IdClosed clientId l := by
  intro t' ht' _
  rw [h, Option.some.injEq] at ht'
  rw [← ht']
  exact hlength

theorem hundred_lt : 100 < 2 ^ 31 := by decide

def cacheLines : List Bytes := [str "[cache][42] a", str "[cache][7] b", str "[cache][42] c"]

/-- A line of the client `7` itself between two of client `42`, behind a timeout and in one
    chunk. -/
def oneChunk : LineDelivery 100 where
  lines := cacheLines
  recv := [⟨.timeup, [], Nat.zero_le _⟩, ⟨.success, streamOf cacheLines, by decide +kernel⟩]
  len_lt := hundred_lt
  fits := by
    have hfits : ∀ l ∈ cacheLines, (0 : Byte) ∉ l ∧ LF ∉ l ∧ l.length + 2 < 100 := by
      decide +kernel
    exact fun l hl => ⟨(hfits l hl).1, (hfits l hl).2.1, (hfits l hl).2.2⟩
  kinds := by
    intro r hr
    rcases List.mem_cons.mp hr with rfl | hr
    · exact Or.inl ⟨rfl, rfl⟩
    · rw [List.mem_singleton.mp hr]
      exact Or.inr ⟨rfl, by decide +kernel⟩
  stream := by decide +kernel

theorem idClosed_cacheLines : ∀ l ∈ cacheLines, IdClosed clientId l := by
  intro l hl
  simp only [cacheLines, List.mem_cons, List.not_mem_nil, or_false] at hl
  rcases hl with rfl | rfl | rfl
  · exact idClosed_of_behindFirst (show _ = some (str "42] a") by decide +kernel) (by decide)
  · exact idClosed_of_behindFirst (show _ = some (str "7] b") by decide +kernel) (by decide)
  · exact idClosed_of_behindFirst (show _ = some (str "42] c") by decide +kernel) (by decide)

theorem watch_feed_three :
    (watchCacheLines (some (str "7")) 1 100 3 2 (watchOf oneChunk) fun _ => 0).map
      (·.returned 100) = [some (str "a"), some (str "c")] :=
  (watch_feed _ 0 _ _ _ oneChunk ⟨0, 0⟩ (by decide +kernel) rfl (by decide +kernel)
    (by decide +kernel) (some (str "7")) idClosed_cacheLines 0 (by decide) (by decide +kernel)
      _).trans (by decide +kernel)

end MogileFs
