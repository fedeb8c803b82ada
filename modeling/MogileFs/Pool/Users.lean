import MogileFs.Pool.Expiry
import MogileFs.Pool.Iteration
import MogileFs.Pool.Registration
import MogileFs.Pool.Snapshots
import MogileFs.Tracker.RequestLine
import MogileFs.Tracker.Wire

/-!
# The users of the pool

The functions of the library that take connections from the pool: `mfs_request_do`
(`src/request.c`, lines 23–75), `mfs_pool_deactivate`, `mfs_pool_test_inactive_trackers`,
`mfs_pool_expire_active_trackers` (`src/pool.c`, lines 234–257 and 395–441) and
`get_next_watch_line` (`src/watch.c`, lines 106–135). A thread runs one of them at a time, and
other threads run between any two of its steps: a step is one section of a pool call, one call of
`apr_socket_send` or `apr_socket_recv`, or one connection destroyed, with the tests that follow.
The functions that work through a list of trackers look at the count of an array before they lock
the pool and copy it, so the copy can be empty.

What the watch reads after its `!watch` does not concern the pool; a whole `sock_readline` is one
step that returns any status.

Results:
* `raw_copyList`, `rawNextTracker_copied`: the lists of the threads are the integers of the source.
* `next_outside`: an empty copy can be one that has no end.
-/

namespace MogileFs

/-! ## Requests -/

/-- What `mfs_tracker_request` is given to send: LF ends it or is not in it. -/
structure RequestArgs where
  action : Bytes
  parameters : RequestParameters
  palloc : ℕ → Byte
  oneLine : LF ∉ (requestBytes action parameters palloc).dropLast

/-- The bytes of the request. -/
def RequestArgs.bytes (request : RequestArgs) : Bytes :=
  requestBytes request.action request.parameters request.palloc

/-- Any command without LF, with parameters the library has put together. -/
def RequestArgs.collected {action : Bytes} (haction : LF ∉ action)
    {parameters : RequestParameters} {pairs : List (Bytes × Bytes)} {metaCount : ℕ}
    (h : Collected parameters pairs metaCount) (palloc : ℕ → Byte) : RequestArgs :=
  ⟨action, parameters, palloc, requestBytes_oneLine h haction palloc⟩

/-- The faux `get_paths` (`src/pool.c`, lines 399–402 and 409). -/
def pingRequest (palloc : ℕ → Byte) : RequestArgs :=
  @RequestArgs.collected (str "get_paths") (by decide +kernel) _ _ _
    (runCalls_collected [.parameter (str "domain") (str "ping_domain"),
      .parameter (str "key") (str "ping_key"), .parameter (str "noverify") (str "1")]) palloc

/-! ## Lists -/

/-- The copy of an index array. Where the array was empty by then, nothing has been copied, and
    `index` is what stands in memory next to the copy, in front of it or at its end; the source takes
    it for a tracker. -/
inductive CopiedList
  | inside (list : TrackerList)
  | outside (list : RawTrackerList) (index : ℕ)

/-- The integers of the source. -/
def CopiedList.raw : CopiedList → RawTrackerList
  | .inside list => list.raw
  | .outside list _ => list

/-- `mfs_pool_next_tracker` and the index it stands at. -/
def CopiedList.next : CopiedList → Option ℕ × CopiedList
  | .inside list => ((mfsPoolNextTracker list).1, .inside (mfsPoolNextTracker list).2)
  | .outside list index =>
    (if (rawNextTracker list).1 then some index else none, .outside (rawNextTracker list).2 index)

/-- `mfs_pool_current_tracker_index`. -/
def CopiedList.trackerIndex : CopiedList → ℕ
  | .inside list => mfsPoolCurrentTrackerIndex list
  | .outside _ index => index

/-- The locked part of `mfs_pool_list_active_trackers` and `mfs_pool_list_inactive_trackers`
    (`src/pool.c`, lines 146–160 and 166–180). -/
def copyList (kind : ListKind) (pool : TrackerPool) (factor : Factor) (index : ℕ) : CopiedList :=
  match listTrackers (kind.indexes pool) (kind.count pool) factor with
  | some list => .inside list
  | none => .outside (copyTrackers (kind.indexes pool) (kind.count pool) factor) index

theorem raw_copyList (kind : ListKind) (pool : TrackerPool) (factor : Factor) (index : ℕ) :
    (copyList kind pool factor index).raw =
      copyTrackers (kind.indexes pool) (kind.count pool) factor := by
  unfold copyList
  cases hlist : listTrackers (kind.indexes pool) (kind.count pool) factor with
  | none => rfl
  | some list =>
    have hcount : 0 < kind.count pool := by
      by_contra hzero
      rw [listTrackers, dif_neg hzero] at hlist
      cases hlist
    have hraw := copyTrackers_raw (kind.indexes pool) hcount factor
    rw [hlist] at hraw
    exact Option.some.inj hraw

/-- Every list goes on as the integers do. -/
theorem rawNextTracker_copied (list : CopiedList) :
    rawNextTracker list.raw = (list.next.1.isSome, list.next.2.raw) := by
  cases list with
  | inside list => exact rawNextTracker_raw list
  | outside list index =>
    refine Prod.ext ?_ rfl
    show (rawNextTracker list).1 = Option.isSome (if (rawNextTracker list).1 then some index else none)
    cases (rawNextTracker list).1 <;> rfl

/-- An empty copy that starts in front of its array stays there, and NULL never comes. -/
theorem next_outside {list : RawTrackerList} (hstart : list.startPostion = -1)
    (hcurrent : list.currentPosition = -1) (index : ℕ) :
    (CopiedList.outside list index).next = (some index, .outside list index) := by
  obtain ⟨indexes, count, start, current⟩ := list
  obtain rfl : start = -1 := hstart
  obtain rfl : current = -1 := hcurrent
  rfl

/-- What calls of `mfs_pool_next_tracker` have still to return of the array. -/
def CopiedList.unvisited : CopiedList → List ℕ
  | .inside list => list.unvisited
  | .outside _ _ => []

theorem CopiedList.unvisited_of_none {list list' : CopiedList} (h : list.next = (none, list')) :
    list.unvisited = [] := by
  cases list with
  | inside list =>
    rw [CopiedList.next, Prod.mk.injEq] at h
    exact MogileFs.unvisited_of_none (Prod.ext h.1 rfl)
  | outside list index => rfl

/-- The next tracker of the array. -/
theorem CopiedList.unvisited_of_some {list list' : CopiedList} {tracker : ℕ}
    (h : list.next = (some tracker, list')) : list'.trackerIndex = tracker ∧
      (list.unvisited = [] ∨ list.unvisited = tracker :: list'.unvisited) := by
  cases list with
  | inside list =>
    rw [CopiedList.next, Prod.mk.injEq] at h
    obtain ⟨htracker, rfl⟩ := h
    have hnext : mfsPoolNextTracker list = (some tracker, (mfsPoolNextTracker list).2) :=
      Prod.ext htracker rfl
    exact ⟨currentTrackerIndex_of_some hnext, Or.inr (MogileFs.unvisited_of_some hnext)⟩
  | outside list index =>
    simp only [CopiedList.next, Prod.mk.injEq] at h
    obtain ⟨hmore, rfl⟩ := h
    split_ifs at hmore
    exact ⟨Option.some.inj hmore, Or.inl rfl⟩

/-- The indices of an array that are in use. -/
def ListKind.members (pool : TrackerPool) (kind : ListKind) : List ℕ :=
  Cells.cells (kind.indexes pool) (kind.count pool)

/-- A copy has all of the array ahead of it. -/
theorem unvisited_copyList (kind : ListKind) (pool : TrackerPool) (factor : Factor) (index : ℕ) :
    (copyList kind pool factor index).unvisited.Perm (kind.members pool) := by
  unfold copyList
  cases hlist : listTrackers (kind.indexes pool) (kind.count pool) factor with
  | none =>
    rw [ListKind.members, listTrackers_none.mp hlist]
    exact .refl _
  | some list => exact listTrackers_unvisited hlist

/-! ## Threads -/

/-- The two functions that send a request to one tracker of a list after the other. -/
inductive AskerKind
  | requestDo
  | testInactive
deriving DecidableEq

/-- One call of such a function: its request and its list. -/
structure Asker where
  kind : AskerKind
  request : RequestArgs
  list : CopiedList

/-- `mfs_pool_current_tracker_index` of the list. -/
def Asker.trackerIndex (a : Asker) : ℕ := a.list.trackerIndex

/-- Who copies a list of trackers. -/
inductive Copier
  | asker (kind : AskerKind) (request : RequestArgs)
  | expireActive

/-- The array it copies. -/
def Copier.list : Copier → ListKind
  | .asker .requestDo _ => .active
  | .asker .testInactive _ => .inactive
  | .expireActive => .active

/-- Who has called the pool. -/
inductive Caller
  | asker (a : Asker)
  | watch
  | deactivate

/-- Where a thread stands, in front of its next step. -/
inductive Point
  /-- Outside of the library. -/
  | idle
  /-- In front of the lock under which an array is copied (`src/pool.c`, lines 147 and 167). -/
  | copy (copier : Copier)
  /-- Inside `mfs_pool_get_connection_ex` or `mfs_pool_deactivate`. -/
  | pool (call : PoolCall) (caller : Caller)
  /-- `apr_socket_send` in `mfs_tracker_request` (`src/tracker.c`, line 156). -/
  | send (a : Asker) (entry : ConnectionEntry) (isNew : Bool)
  /-- `apr_socket_recv` there (line 173). -/
  | receive (a : Asker) (entry : ConnectionEntry) (isNew : Bool) (finalBuffer : Option Bytes)
  /-- `mfs_pool_destroy_connection` after an error. -/
  | destroy (a : Asker) (entry : ConnectionEntry) (isNew : Bool)
  /-- `mfs_pool_activate` in `mfs_pool_test_inactive_trackers` (line 413). -/
  | activate (a : Asker) (entry : ConnectionEntry)
  /-- `mfs_pool_return_connection` after an answer. -/
  | giveBack (a : Asker) (entry : ConnectionEntry)
  /-- The loop of `mfs_pool_expire_active_trackers` (lines 429–432). -/
  | expire (list : CopiedList)
  /-- Its inner loop (lines 434–438). -/
  | destroyExpired (list : CopiedList) (entries : List ConnectionEntry)
  /-- The loop of `get_next_watch_line` (lines 108–110). -/
  | watch
  /-- `apr_socket_send` of `!watch` there (line 113). -/
  | sendWatch
  /-- `sock_readline` there (line 119). -/
  | readline
  /-- `mfs_pool_destroy_connection` there (line 123). -/
  | destroyWatch

/-- An answer `mfs_tracker_request` has returned `APR_SUCCESS` for: the connection, the request
    the thread had sent and the line that was parsed. -/
structure Response where
  connection : ℕ
  request : RequestArgs
  line : Bytes

/-- A thread, its `watch_data` and the answers it has got. -/
structure Thread where
  point : Point
  watchTracker : ℕ
  watchConnection : Option ConnectionEntry
  responses : List Response

/-- The pool and the connections. -/
structure Shared where
  w : World
  wires : ℕ → Wire

/-- What a step meets outside: the status of the call, how many bytes it moved, `allow_watching`,
    and the number that is in memory next to an empty copy. -/
structure Net where
  rv : AprStatus
  count : ℕ
  allowWatching : Bool
  beside : ℕ

/-! ## The loops -/

/-- `mfs_pool_next_tracker`, and the call for a connection of that tracker. -/
def Asker.next (a : Asker) : Point :=
  match a.list.next with
  | (none, _) => .idle
  | (some _, list) =>
    let a := { a with list := list }
    .pool (.getConnection a.trackerIndex true) (.asker a)

/-- The copier goes to the first tracker of its list. -/
def Copier.start (list : CopiedList) : Copier → Point
  | .asker kind request => Asker.next ⟨kind, request, list⟩
  | .expireActive => .expire list

/-- After the connection was destroyed: `mfs_request_do` keeps trying a tracker as long as the
    connection was a cached one. -/
def Asker.afterFailure (a : Asker) (isNew : Bool) : Point :=
  match a.kind, isNew with
  | .requestDo, false => .pool (.getConnection a.trackerIndex true) (.asker a)
  | _, _ => a.next

/-- After `mfs_tracker_request` has returned `APR_SUCCESS`. -/
def Asker.answered (a : Asker) (entry : ConnectionEntry) : Point :=
  match a.kind with
  | .requestDo => .giveBack a entry
  | .testInactive => .activate a entry

/-- After the connection was returned: `connection_finished`, or the next tracker. -/
def Asker.afterReturn (a : Asker) : Point :=
  match a.kind with
  | .requestDo => .idle
  | .testInactive => a.next

/-- The caller goes on with the entry the pool has returned, if any. -/
def Thread.resume (thread : Thread) (entry : Option ConnectionEntry) (isNew : Bool) :
    Caller → Thread
  | .asker a =>
    match entry with
    | some entry => { thread with point := .send a entry isNew }
    | none => { thread with point := a.next }
  | .watch =>
    match entry with
    | some entry => { thread with point := .sendWatch, watchConnection := some entry }
    | none => { thread with point := .watch }
  | .deactivate => { thread with point := .idle }

/-! ## Steps -/

/-- The tracker a call of the pool is about. -/
def PoolCall.trackerIndex : PoolCall → ℕ
  | .getConnection i _ => i
  | .connect i => i
  | .deactivate i => i
  | .drain i => i
  | .drained i _ => i

/-- The connections after a section: `mfs_tracker_connect` has made a new one. -/
def PoolStep.wires (out : PoolStep) (trackerIndex : ℕ) (wires : ℕ → Wire) : ℕ → Wire :=
  match out with
  | .done (some entry) true => Function.update wires entry.connection (.connected trackerIndex)
  | _ => wires

def Shared.setWire (s : Shared) (entry : ConnectionEntry) (wire : Wire) : Shared :=
  { s with wires := Function.update s.wires entry.connection wire }

@[simp] theorem wires_setWire_self (s : Shared) (entry : ConnectionEntry) (wire : Wire) :
    (s.setWire entry wire).wires entry.connection = wire := Function.update_self ..

theorem wires_setWire_of_ne (s : Shared) {entry : ConnectionEntry} {c : ℕ}
    (h : c ≠ entry.connection) (wire : Wire) : (s.setWire entry wire).wires c = s.wires c :=
  Function.update_of_ne h ..

def Shared.destroy (s : Shared) (entry : ConnectionEntry) : Shared :=
  { s with w := mfsPoolDestroyConnection s.w entry }

/-- One call of `apr_socket_recv`. -/
def Wire.recv (wire : Wire) (net : Net) : Recv mfsReadBufferSize :=
  ⟨net.rv, wire.chunk net.count, length_chunk_le wire net.count⟩

/-- What a received chunk leads to. -/
def Thread.received (thread : Thread) (a : Asker) (entry : ConnectionEntry) (isNew : Bool) :
    Received → Thread
  | .failed _ => { thread with point := .destroy a entry isNew }
  | .more multiBuffer => { thread with point := .receive a entry isNew (some multiBuffer) }
  | .line line =>
    if lineStatus line = .success then
      { thread with
        point := a.answered entry
        responses := thread.responses ++ [⟨entry.connection, a.request, line⟩] }
    else { thread with point := .destroy a entry isNew }

/-- The random factor of a list of trackers has been used. -/
def Shared.tookFactor (s : Shared) : Shared :=
  { s with w := { s.w with env := { s.w.env with rand := s.w.env.rand.tail } } }

/-- One step of a thread. -/
def Thread.step (net : Net) (s : Shared) (thread : Thread) : Shared × Thread :=
  match thread.point with
  | .idle => (s, thread)
  | .copy copier =>
    let list := copyList copier.list s.w.trackers s.w.env.rand.head net.beside
    (s.tookFactor, { thread with point := copier.start list })
  | .pool call caller =>
    let (w, out) := call.step s.w
    let s : Shared := ⟨w, out.wires call.trackerIndex s.wires⟩
    match out with
    | .next call => (s, { thread with point := .pool call caller })
    | .done entry isNew => (s, thread.resume entry isNew caller)
  | .send a entry isNew =>
    (s.setWire entry ((s.wires entry.connection).send (a.request.bytes.take net.count)),
      { thread with
        point := if net.rv = .success then .receive a entry isNew none
          else .destroy a entry isNew })
  | .receive a entry isNew finalBuffer =>
    let wire := s.wires entry.connection
    (s.setWire entry (wire.receive net.count),
      thread.received a entry isNew (receiveStep finalBuffer (wire.recv net)))
  | .destroy a entry isNew => (s.destroy entry, { thread with point := a.afterFailure isNew })
  | .activate a entry =>
    ({ s with w := mfsPoolActivate s.w a.trackerIndex }, { thread with point := .giveBack a entry })
  | .giveBack a entry =>
    ({ s with w := mfsPoolReturnConnection s.w a.trackerIndex entry },
      { thread with point := a.afterReturn })
  | .expire list =>
    match list.next with
    | (none, _) => (s, { thread with point := .idle })
    | (some _, list) =>
      let (entries, w) := mfsPoolGetExpiredTrackers s.w list.trackerIndex
      ({ s with w := w }, { thread with point := .destroyExpired list entries })
  | .destroyExpired list [] => (s, { thread with point := .expire list })
  | .destroyExpired list (toDelete :: entries) =>
    (s.destroy toDelete, { thread with point := .destroyExpired list entries })
  | .watch =>
    if net.allowWatching then
      match thread.watchConnection with
      | none => (s, { thread with point := .pool (.getConnection thread.watchTracker true) .watch })
      | some _ => (s, { thread with point := .readline })
    else (s, { thread with point := .idle })
  | .sendWatch =>
    match thread.watchConnection with
    | none => (s, { thread with point := .watch })
    | some entry =>
      -- the status of `apr_socket_send` is only logged
      (s.setWire entry ((s.wires entry.connection).send ((str "!watch\r\n").take net.count)),
        { thread with point := .readline })
  | .readline =>
    (s, { thread with point := if net.rv = .success then .idle else .destroyWatch })
  | .destroyWatch =>
    match thread.watchConnection with
    | none => (s, { thread with point := .watch })
    | some entry => (s.destroy entry, { thread with point := .watch, watchConnection := none })

/-! ## Calls -/

/-- What a thread calls. -/
inductive UserCall
  | requestDo (request : RequestArgs)
  | testInactive (palloc : ℕ → Byte)
  | expireActive
  | deactivate (trackerIndex : ℕ)
  | watchLine

/-- The test of the two `mfs_pool_list_*` functions, without the lock (`src/pool.c`, lines 144 and
    164): NULL is returned for an empty array, and the function that has called returns too. -/
def Copier.test (s : Shared) (thread : Thread) (copier : Copier) : Thread :=
  if copier.list.count s.w.trackers = 0 then thread else { thread with point := .copy copier }

/-- The call begins. -/
def UserCall.begin (s : Shared) (thread : Thread) : UserCall → Thread
  | .requestDo request => Copier.test s thread (.asker .requestDo request)
  | .testInactive palloc => Copier.test s thread (.asker .testInactive (pingRequest palloc))
  | .expireActive => Copier.test s thread .expireActive
  | .deactivate trackerIndex =>
    { thread with point := .pool (.deactivate trackerIndex) .deactivate }
  | .watchLine => { thread with point := .watch }

/-! ## Interleavings -/

/-- The pool, the connections and all threads. -/
structure Users (T : Type*) where
  shared : Shared
  threads : T → Thread

/-- A thread makes a call, a thread makes a step, or a tracker answers on a connection. -/
inductive UserMove (T : Type*)
  | call (thread : T) (made : UserCall)
  | step (thread : T) (net : Net)
  | answer (connection : ℕ) (text : AnswerText)

variable {T : Type*} [DecidableEq T]

/-- What one thread has done. -/
def Users.did (s : Users T) (t : T) (out : Shared × Thread) : Users T :=
  ⟨out.1, Function.update s.threads t out.2⟩

@[simp] theorem threads_did_self (s : Users T) (t : T) (out : Shared × Thread) :
    (s.did t out).threads t = out.2 := Function.update_self ..

theorem threads_did_of_ne (s : Users T) {t t' : T} (h : t' ≠ t) (out : Shared × Thread) :
    (s.did t out).threads t' = s.threads t' := Function.update_of_ne h ..

def UserMove.apply (s : Users T) : UserMove T → Users T
  | .call t made =>
    match (s.threads t).point with
    | .idle => s.did t (s.shared, made.begin s.shared (s.threads t))
    | _ => s
  | .step t net => s.did t ((s.threads t).step net s.shared)
  | .answer connection text =>
    { s with
      shared := { s.shared with
        wires := Function.update s.shared.wires connection
          ((s.shared.wires connection).answer text) } }

/-- No connection has been made, and no thread has called anything. -/
def Users.start (pool : TrackerPool) (env : Env) (watchTracker : T → ℕ) : Users T where
  shared := ⟨⟨pool, env, 0, []⟩, fun _ => .connected 0⟩
  threads := fun t => ⟨.idle, watchTracker t, none, []⟩

end MogileFs
