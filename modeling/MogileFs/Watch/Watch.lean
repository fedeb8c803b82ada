import MogileFs.Common.Cursor
import MogileFs.Library.Cells
import MogileFs.Pool.TrackerPool

/-!
# The watch

`sock_readline` and `get_next_watch_line` of `src/watch.c` (lines 59–135).
`read_buf` is memory `ℕ → Byte`, of which the first `readBufSize` bytes are the
array and the rest is whatever lies behind it. `received` and `reads` are not in
the source: they keep the number of bytes the last `apr_socket_recv` delivered
and every position the reader looks at.

A connection is the list of what its `apr_socket_recv` calls answer. When the
list is used up the reader waits for the socket, with one timeout after the
other, and has no result.
-/

namespace MogileFs

/-- `sizeof(watch->read_buf)`. -/
abbrev readBufSize : ℕ := 5000

/-- How a byte of `read_buf` is read: stored into the caller's buffer, dropped by
    the loop after a newline, or only compared there. -/
inductive ReadKind
  | taken
  | skipped
  | inspected
deriving DecidableEq

/-- A read at `pos` when the last `apr_socket_recv` had delivered `received` bytes. -/
structure BufferRead where
  kind : ReadKind
  pos : ℕ
  received : ℕ
deriving DecidableEq

/-- The reading side of `watch_data`; `bufPointer` is an offset into `readBuf`. -/
structure ReadBuffer where
  readBuf : ℕ → Byte
  bufPointer : ℕ
  cnt : ℕ
  received : ℕ
  reads : List BufferRead

/-- The call of `apr_socket_recv`: it stores its bytes and their number. -/
def ReadBuffer.recv (b : ReadBuffer) (r : Recv readBufSize) : ReadBuffer :=
  { b with
    readBuf := fun i => if i < r.bytes.length then r.bytes.getD i 0 else b.readBuf i
    cnt := r.bytes.length
    received := r.bytes.length }

/-- The byte under `buf_pointer`. -/
def ReadBuffer.current (b : ReadBuffer) : Byte := b.readBuf b.bufPointer

/-- A read of the byte under `buf_pointer`, noted. -/
def ReadBuffer.note (b : ReadBuffer) (kind : ReadKind) : ReadBuffer :=
  { b with reads := b.reads ++ [⟨kind, b.bufPointer, b.received⟩] }

/-- `*watch->buf_pointer++`. -/
def ReadBuffer.advance (b : ReadBuffer) (kind : ReadKind) : ReadBuffer :=
  { b.note kind with bufPointer := b.bufPointer + 1 }

/-! ## `sock_readline` -/

/-- What the loop finds before it reads a byte. -/
inductive Refill
  | waiting
  | again (b : ReadBuffer) (incoming : List (Recv readBufSize))
  | failed (rv : AprStatus) (b : ReadBuffer) (incoming : List (Recv readBufSize))
  | ready (b : ReadBuffer) (incoming : List (Recv readBufSize))

/-- The `if(watch->cnt == 0)` statement (lines 66–82). After a refill `cnt` is left
    at the number of bytes received, although the next byte read is the first
    of them; otherwise it is decremented. -/
def refill (b : ReadBuffer) (incoming : List (Recv readBufSize)) : Refill :=
  if b.cnt = 0 then
    match incoming with
    | [] => .waiting
    | r :: incoming =>
      let b := b.recv r
      if r.rv = .timeup then .again b incoming
      else if r.rv ≠ .success ∧ b.cnt = 0 then .failed r.rv b incoming
      else if b.cnt = 0 then .failed .eof b incoming
      else .ready { b with bufPointer := 0 } incoming
  else .ready { b with cnt := b.cnt - 1 } incoming

/-- How many bytes can still be read, and one more for every pending `recv`. -/
def readMeasure (b : ReadBuffer) (incoming : List (Recv readBufSize)) : ℕ :=
  (incoming.map fun r => r.bytes.length + 1).sum + b.cnt

theorem readMeasure_again {b b' : ReadBuffer} {incoming incoming' : List (Recv readBufSize)}
    (h : refill b incoming = .again b' incoming') :
    readMeasure b' incoming' < readMeasure b incoming := by
  unfold refill at h
  split_ifs at h with hcnt
  cases incoming with
  | nil => cases h
  | cons r incoming =>
    simp only at h
    split_ifs at h
    cases h
    simp only [readMeasure, ReadBuffer.recv, List.map_cons, List.sum_cons]
    omega

theorem readMeasure_ready {b b' : ReadBuffer} {incoming incoming' : List (Recv readBufSize)}
    (h : refill b incoming = .ready b' incoming') :
    readMeasure b' incoming' < readMeasure b incoming := by
  unfold refill at h
  split_ifs at h with hcnt
  · cases incoming with
    | nil => cases h
    | cons r incoming =>
      simp only at h
      split_ifs at h
      cases h
      simp only [readMeasure, ReadBuffer.recv, List.map_cons, List.sum_cons]
      omega
  · cases h
    simp only [readMeasure]
    omega

/-- The loop over NULs after a newline (lines 96–99). -/
def skipNuls (b : ReadBuffer) : ReadBuffer :=
  if 0 < b.cnt then
    if b.current = 0 then
      skipNuls { (b.note .inspected).advance .skipped with cnt := b.cnt - 1 }
    else b.note .inspected
  else b
termination_by b.cnt
decreasing_by
  show b.cnt - 1 < b.cnt
  omega

/-- A newline has been stored (lines 87–95): the line is terminated, and its CR
    overwritten. -/
def terminateBuffer (bufptr : Cursor) (size : ℕ) : Cursor :=
  let bufptr := bufptr.poke bufptr.pos 0
  if size > 1 ∧ bufptr.memory (bufptr.pos - 2) = CR then bufptr.poke (bufptr.pos - 2) 0
  else bufptr

/-- What `sock_readline` leaves; `rv` is `none` while it waits for the socket. -/
structure ReadlineResult where
  rv : Option AprStatus
  bufptr : Cursor
  buffer : ReadBuffer
  incoming : List (Recv readBufSize)

/-- `--len` of a `size_t`. -/
def decSize (len : ℕ) : ℕ := if len = 0 then 2 ^ 64 - 1 else len - 1

/-- `len++` of a `size_t`. -/
def incSize (len : ℕ) : ℕ := (len + 1) % 2 ^ 64

/-- The loop of `sock_readline` (lines 64–103). -/
def readlineLoop (allowWatching : Bool) (bufptr : Cursor) (size len : ℕ) (b : ReadBuffer)
    (incoming : List (Recv readBufSize)) : ReadlineResult :=
  if allowWatching ∧ 0 < decSize len then
    match _h : refill b incoming with
    | .waiting => ⟨none, bufptr, b, incoming⟩
    | .failed rv b incoming => ⟨some rv, bufptr, b, incoming⟩
    | .again b incoming =>
      readlineLoop allowWatching bufptr size (incSize (decSize len)) b incoming
    | .ready b incoming =>
      let c := b.current
      if c = LF then
        ⟨some .success, terminateBuffer (bufptr.put c) (size + 1), skipNuls (b.advance .taken),
          incoming⟩
      else
        readlineLoop allowWatching (bufptr.put c) (size + 1) (decSize len) (b.advance .taken)
          incoming
  else ⟨some .enomem, bufptr, b, incoming⟩
termination_by readMeasure b incoming
decreasing_by
  · exact readMeasure_again _h
  · exact (readMeasure_ready _h : readMeasure _ incoming < _)

/-- `sock_readline` (lines 59–104) into the memory `buf`. -/
def sockReadline (allowWatching : Bool) (buf : ℕ → Byte) (len : ℕ) (b : ReadBuffer)
    (incoming : List (Recv readBufSize)) : ReadlineResult :=
  readlineLoop allowWatching ⟨buf, 0, 0⟩ 0 len b incoming

/-! ## `get_next_watch_line` -/

/-- `watch_data`, without the client id. -/
structure WatchData where
  trackerIndex : ℕ
  connection : Option ConnectionEntry
  buffer : ReadBuffer

/-- The watch, the pool, and what the sockets of the connections do: `incoming`
    is what is still to be received on each, `send` the outcome of the next
    `apr_socket_send`. -/
structure WatchState where
  watch : WatchData
  w : World
  incoming : ℕ → List (Recv readBufSize)
  send : Stream' AprStatus

/-- `init_watch` (lines 43–57): `apr_pcalloc` clears the array, and `behind` is what
    lies behind it. -/
def initWatch (trackerIndex : ℕ) (behind : ℕ → Byte) : WatchData where
  trackerIndex := trackerIndex
  connection := none
  buffer := ⟨fun i => if i < readBufSize then 0 else behind i, 0, 0, 0, []⟩

/-- Lines 109–116: a connection is got when there is none; a failure to send
    `!watch` is only logged. -/
def connectWatch (s : WatchState) : WatchState :=
  match s.watch.connection with
  | some _ => s
  | none =>
    let (connection, w) := mfsPoolGetConnection s.w s.watch.trackerIndex true
    { s with
      watch := { s.watch with connection := connection }
      w := w
      send := if connection.isSome then s.send.tail else s.send }

/-- `get_next_watch_line` (lines 106–135) with at most `passes` passes of its loop;
    `none` when it is still trying after them, or waits for the socket. -/
def getNextWatchLine (allowWatching : Bool) (passes : ℕ) (s : WatchState) (buf : ℕ → Byte)
    (len : ℕ) : Option AprStatus × (ℕ → Byte) × WatchState :=
  match passes with
  | 0 => (none, buf, s)
  | passes + 1 =>
    if !allowWatching then (some .egeneral, buf, s)
    else
      let s := connectWatch s
      match s.watch.connection with
      | none => getNextWatchLine allowWatching passes s buf len
      | some entry =>
        let r := sockReadline allowWatching buf len s.watch.buffer (s.incoming entry.connection)
        let s := { s with
          watch := { s.watch with buffer := r.buffer }
          incoming := Function.update s.incoming entry.connection r.incoming }
        match r.rv with
        | none => (none, r.bufptr.memory, s)
        | some .success => (some .success, r.bufptr.memory, s)
        | some _ =>
          -- the failed connection is destroyed
          getNextWatchLine allowWatching passes
            { s with
              watch := { s.watch with connection := none }
              w := mfsPoolDestroyConnection s.w entry }
            r.bufptr.memory len

end MogileFs
