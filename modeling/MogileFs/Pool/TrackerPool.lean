import MogileFs.Library.Cells
import MogileFs.Tracker.Response

/-!
# The tracker pool

`tracker_pool`, the tracker lists and the connection stacks of `src/pool.c`
(lines 59–336). The arrays `active_trackers` and `inactive_trackers` are memory
`ℕ → ℕ` with the counts beside them, as in the source: what lies above a count
is whatever the memory held. A tracker is named by its index, and a pooled
connection by a number that no other connection of the run has.

What the pool meets outside is in `Env`, one stream for each kind of call: the
random factor of `mfs_pool_list_active_trackers`, the outcome of the next
`mfs_tracker_connect`, the socket's side of the next `mfs_tracker_request`, the
next reading of the clock. Locks of registered trackers and `apr_pool_create`
of a connection's own pool succeed.
-/

namespace MogileFs

open Cells

/-! ## Data -/

/-- `tracker_info`, without the resolved socket address. -/
structure TrackerInfo where
  address : Bytes
  port : ℤ

/-- `tracker_connection_pool_entry`. -/
structure ConnectionEntry where
  connection : ℕ
  lastUsed : ℤ
deriving DecidableEq

/-- `tracker_connection_pool`; `lock` says that the mutex has been created, and
    the head of `connectionStack` is `APR_RING_FIRST`. -/
structure ConnectionPool where
  lock : Bool
  connectionCount : ℤ
  connectionStack : List ConnectionEntry

/-- `tracker_pool`; `maintenanceStarts` counts the maintenance threads started. -/
structure TrackerPool where
  trackers : ℕ → TrackerInfo
  trackerCount : ℕ
  activeTrackers : ℕ → ℕ
  activeTrackerCount : ℕ
  inactiveTrackers : ℕ → ℕ
  inactiveTrackerCount : ℕ
  maxTrackerCount : ℕ
  connectionPools : ℕ → ConnectionPool
  maintenanceStarts : ℕ

/-- The indexes in use of `active_trackers`. -/
def TrackerPool.active (pool : TrackerPool) : List ℕ :=
  cells pool.activeTrackers pool.activeTrackerCount

/-- The indexes in use of `inactive_trackers`. -/
def TrackerPool.inactive (pool : TrackerPool) : List ℕ :=
  cells pool.inactiveTrackers pool.inactiveTrackerCount

/-- The connection stack of tracker `i`. -/
def TrackerPool.stack (pool : TrackerPool) (i : ℕ) : List ConnectionEntry :=
  (pool.connectionPools i).connectionStack

/-- The random factor `(float)rand() / RAND_MAX`, taken as exact. -/
abbrev Factor := { q : ℚ // 0 ≤ q ∧ q ≤ 1 }

structure Env where
  rand : Stream' Factor
  connect : Stream' AprStatus
  exchange : Stream' Exchange
  clock : Stream' ℤ

/-- What a run does to connections. `obtained` takes an entry from a stack,
    `connect` is a call of `mfs_tracker_connect`, `exchange` a call of
    `mfs_tracker_request` on a cached or a new connection. -/
inductive Event
  | obtained (tracker : ℕ) (entry : ConnectionEntry)
  | connect (tracker : ℕ) (rv : AprStatus)
  | exchange (tracker : ℕ) (entry : ConnectionEntry) (isNew : Bool) (x : Exchange)
  | returned (tracker : ℕ) (entry : ConnectionEntry)
  | destroyed (entry : ConnectionEntry)
deriving DecidableEq

/-- The pool, what is still to come from outside, the next unused connection
    number and what has happened so far. -/
structure World where
  trackers : TrackerPool
  env : Env
  nextConnection : ℕ
  log : List Event

def World.record (w : World) (event : Event) : World := { w with log := w.log ++ [event] }

/-! ## Initialisation and registration -/

/-- The memory `apr_palloc` hands out for the three arrays; it is not cleared. -/
structure PoolMemory where
  trackers : ℕ → TrackerInfo
  active : ℕ → ℕ
  inactive : ℕ → ℕ

/-- `mfs_pool_init` (lines 59–93). -/
def mfsPoolInit (trackerCount : ℕ) (palloc : PoolMemory) : TrackerPool where
  trackers := palloc.trackers
  trackerCount := 0
  activeTrackers := palloc.active
  activeTrackerCount := 0
  inactiveTrackers := palloc.inactive
  inactiveTrackerCount := 0
  maxTrackerCount := trackerCount
  connectionPools := fun _ => ⟨false, 0, []⟩
  maintenanceStarts := 0

/-- `mfs_pool_start_maintenance_thread` (lines 346–356). -/
def mfsPoolStartMaintenanceThread (allowMaintenanceThread : Bool) (pool : TrackerPool) :
    TrackerPool :=
  if allowMaintenanceThread then { pool with maintenanceStarts := pool.maintenanceStarts + 1 }
  else pool

/-- What `mfs_pool_register_tracker` meets outside: the address lookup of
    `mfs_tracker_init2`, the creation of the mutex, and the global
    `mfs_allow_maintenance_thread`. -/
structure Registration where
  address : Bytes
  port : ℤ
  sockaddrInfoGet : AprStatus
  mutexCreate : AprStatus
  allowMaintenanceThread : Bool

/-- `mfs_pool_register_tracker` (lines 118–140). -/
def mfsPoolRegisterTracker (pool : TrackerPool) (r : Registration) : TrackerPool :=
  if pool.trackerCount = pool.maxTrackerCount then pool
  else if r.sockaddrInfoGet ≠ .success then pool
  else
    let count := pool.trackerCount
    let pool := { pool with
      trackers := Function.update pool.trackers count ⟨r.address, r.port⟩ }
    if r.mutexCreate ≠ .success then pool
    else
      let cp := pool.connectionPools count
      let pool := { pool with
        connectionPools := Function.update pool.connectionPools count
          { cp with lock := true, connectionStack := [] }
        -- the source indexes by `tracker_count`, not by `active_tracker_count`
        activeTrackers := Function.update pool.activeTrackers count count
        activeTrackerCount := pool.activeTrackerCount + 1
        trackerCount := pool.trackerCount + 1 }
      if pool.trackerCount = pool.maxTrackerCount then
        mfsPoolStartMaintenanceThread r.allowMaintenanceThread pool
      else pool

/-! ## Tracker lists -/

/-- `rint`: the nearest integer, and the even one of two. -/
def rint (q : ℚ) : ℤ :=
  if q - ⌊q⌋ < 1 / 2 then ⌊q⌋
  else if 1 / 2 < q - ⌊q⌋ then ⌊q⌋ + 1
  else if ⌊q⌋ % 2 = 0 then ⌊q⌋ else ⌊q⌋ + 1

/-- `start_postion` (lines 158 and 178). -/
def startPostion (factor : Factor) (trackerCount : ℤ) : ℤ := rint (factor * (trackerCount - 1))

theorem rint_le {q : ℚ} {n : ℤ} (h : q ≤ n) : rint q ≤ n := by
  have hf : ⌊q⌋ ≤ n := Int.floor_le_iff.mpr (by linarith)
  have hstep : ¬ q - ⌊q⌋ < 1 / 2 → ⌊q⌋ + 1 ≤ n := fun hq => by
    by_contra hn
    have : (⌊q⌋ : ℚ) = n := by exact_mod_cast (by omega : ⌊q⌋ = n)
    rw [this] at hq; linarith
  unfold rint
  split_ifs with h1 h2 h3
  · exact hf
  · exact hstep h1
  · exact hf
  · exact hstep h1

theorem le_rint {q : ℚ} {n : ℤ} (h : n ≤ q) : n ≤ rint q := by
  have hf : n ≤ ⌊q⌋ := Int.le_floor.mpr h
  unfold rint
  split_ifs <;> omega

theorem startPostion_nonneg (factor : Factor) {n : ℕ} (h : 0 < n) :
    0 ≤ startPostion factor n := by
  refine le_rint ?_
  have h1 : (1 : ℚ) ≤ n := by exact_mod_cast h
  have := mul_nonneg factor.2.1 (by linarith : (0 : ℚ) ≤ n - 1)
  push_cast; linarith

theorem startPostion_lt (factor : Factor) {n : ℕ} (h : 0 < n) : startPostion factor n < n := by
  have h1 : (1 : ℚ) ≤ n := by exact_mod_cast h
  have h2 : (factor : ℚ) * ((n : ℤ) - 1 : ℚ) ≤ ((n - 1 : ℤ) : ℚ) := by
    push_cast
    exact mul_le_of_le_one_left (by linarith) factor.2.2
  have := rint_le h2
  unfold startPostion
  push_cast at this ⊢
  omega

/-- `tracker_list`: a copy of one of the index arrays and a cursor.
    `currentPosition` is `none` for the source's -1, the list not started. -/
structure TrackerList where
  trackerIndexes : List ℕ
  startPostion : ℕ
  currentPosition : Option ℕ
  start_lt : startPostion < trackerIndexes.length
  current_lt : ∀ c ∈ currentPosition, c < trackerIndexes.length

/-- What the two `mfs_pool_list_*` functions share: NULL for an empty array, or
    a copy with a random start. -/
def listTrackers (indexes : ℕ → ℕ) (count : ℕ) (factor : Factor) : Option TrackerList :=
  if h : 0 < count then
    some
      { trackerIndexes := cells indexes count
        startPostion := (startPostion factor count).toNat
        currentPosition := none
        start_lt := by
          have := startPostion_nonneg factor h
          have := startPostion_lt factor h
          rw [length_cells]; omega
        current_lt := by simp }
  else none

/-- `mfs_pool_list_active_trackers` (lines 143–161). -/
def mfsPoolListActiveTrackers (pool : TrackerPool) (factor : Factor) : Option TrackerList :=
  listTrackers pool.activeTrackers pool.activeTrackerCount factor

/-- `mfs_pool_list_inactive_trackers` (lines 163–181). -/
def mfsPoolListInactiveTrackers (pool : TrackerPool) (factor : Factor) : Option TrackerList :=
  listTrackers pool.inactiveTrackers pool.inactiveTrackerCount factor

/-- `mfs_pool_current_tracker_index` (lines 194–200). -/
def mfsPoolCurrentTrackerIndex (list : TrackerList) : ℕ :=
  match list.currentPosition with
  | none => list.trackerIndexes.getD list.startPostion 0
  | some position => list.trackerIndexes.getD position 0

/-- The cursor set to a position inside the list. -/
def TrackerList.moveTo (list : TrackerList) (position : ℕ)
    (h : position < list.trackerIndexes.length) : TrackerList :=
  { list with currentPosition := some position, current_lt := by rintro c ⟨⟩; exact h }

/-- `mfs_pool_next_tracker` (lines 183–192): the tracker, or NULL when the list
    is back at its start. -/
def mfsPoolNextTracker (list : TrackerList) : Option ℕ × TrackerList :=
  match list.currentPosition with
  | none =>
    let list := list.moveTo list.startPostion list.start_lt
    (some (mfsPoolCurrentTrackerIndex list), list)
  | some position =>
    if h : position + 1 < list.trackerIndexes.length then
      let next := list.moveTo (position + 1) h
      if position + 1 = list.startPostion then (none, next)
      else (some (mfsPoolCurrentTrackerIndex next), next)
    else -- we have looped
      let next := list.moveTo 0 (by have := list.start_lt; omega)
      if 0 = list.startPostion then (none, next)
      else (some (mfsPoolCurrentTrackerIndex next), next)

/-! ## Connections -/

/-- `mfs_pool_destroy_connection` (lines 334–336). -/
def mfsPoolDestroyConnection (w : World) (entry : ConnectionEntry) : World :=
  w.record (.destroyed entry)

/-- The pool with the connection pool of tracker `i` replaced. -/
def TrackerPool.setConnectionPool (pool : TrackerPool) (i : ℕ) (cp : ConnectionPool) :
    TrackerPool :=
  { pool with connectionPools := Function.update pool.connectionPools i cp }

/-- `APR_RING_REMOVE` of the first entry. -/
def ConnectionPool.removeFirst (cp : ConnectionPool) : ConnectionPool :=
  { cp with
    connectionStack := cp.connectionStack.tail
    connectionCount := cp.connectionCount - 1 }

/-- `APR_RING_INSERT_HEAD`. -/
def ConnectionPool.insertHead (cp : ConnectionPool) (entry : ConnectionEntry) : ConnectionPool :=
  { cp with
    connectionStack := entry :: cp.connectionStack
    connectionCount := cp.connectionCount + 1 }

/-- The locked section of `mfs_pool_get_connection_ex` (lines 264–285): the
    first entry of the stack. -/
def popConnection (w : World) (trackerIndex : ℕ) : Option ConnectionEntry × World :=
  let cp := w.trackers.connectionPools trackerIndex
  match cp.connectionStack with
  | [] => (none, w)
  | entry :: _ =>
    let w := { w with trackers := w.trackers.setConnectionPool trackerIndex cp.removeFirst }
    (some entry, w.record (.obtained trackerIndex entry))

theorem connectionPools_setConnectionPool_self (pool : TrackerPool) (i : ℕ)
    (cp : ConnectionPool) : (pool.setConnectionPool i cp).connectionPools i = cp :=
  Function.update_self ..

theorem connectionPools_setConnectionPool_of_ne (pool : TrackerPool) {i j : ℕ}
    (cp : ConnectionPool) (h : j ≠ i) :
    (pool.setConnectionPool i cp).connectionPools j = pool.connectionPools j :=
  Function.update_of_ne h _ _

@[simp] theorem stack_setConnectionPool_self (pool : TrackerPool) (i : ℕ) (cp : ConnectionPool) :
    (pool.setConnectionPool i cp).stack i = cp.connectionStack := by
  simp [TrackerPool.stack, TrackerPool.setConnectionPool]

theorem stack_setConnectionPool_of_ne (pool : TrackerPool) {i j : ℕ} (cp : ConnectionPool)
    (h : j ≠ i) : (pool.setConnectionPool i cp).stack j = pool.stack j := by
  simp [TrackerPool.stack, TrackerPool.setConnectionPool, h]

theorem popConnection_nil {w : World} {i : ℕ} (h : w.trackers.stack i = []) :
    popConnection w i = (none, w) := by
  unfold popConnection
  simp only
  rw [show (w.trackers.connectionPools i).connectionStack = [] from h]

/-- `w` without the first entry of the stack of tracker `i`. -/
def World.withoutFirst (w : World) (i : ℕ) : World :=
  { w with trackers := w.trackers.setConnectionPool i (w.trackers.connectionPools i).removeFirst }

theorem popConnection_cons {w : World} {i : ℕ} {entry : ConnectionEntry}
    {rest : List ConnectionEntry} (h : w.trackers.stack i = entry :: rest) :
    popConnection w i = (some entry, (w.withoutFirst i).record (.obtained i entry)) := by
  unfold popConnection
  simp only
  rw [show (w.trackers.connectionPools i).connectionStack = entry :: rest from h]
  rfl

theorem stack_withoutFirst (w : World) (i : ℕ) :
    (w.withoutFirst i).trackers.stack i = (w.trackers.stack i).tail :=
  stack_setConnectionPool_self w.trackers i _

theorem stack_withoutFirst_of_ne (w : World) {i j : ℕ} (h : j ≠ i) :
    (w.withoutFirst i).trackers.stack j = w.trackers.stack j :=
  stack_setConnectionPool_of_ne w.trackers _ h

/-- The loop of `mfs_pool_deactivate` (lines 252–255): every entry of the stack
    is taken, with `create_new` false, and destroyed. -/
def drainConnections (w : World) (trackerIndex : ℕ) : World :=
  match _h : popConnection w trackerIndex with
  | (none, w') => w'
  | (some entry, w') => drainConnections (mfsPoolDestroyConnection w' entry) trackerIndex
termination_by (w.trackers.stack trackerIndex).length
decreasing_by
  cases hs : w.trackers.stack trackerIndex with
  | nil => rw [popConnection_nil hs] at _h; cases _h
  | cons entry rest =>
    rw [popConnection_cons hs] at _h
    cases _h
    simp [mfsPoolDestroyConnection, World.record, stack_withoutFirst, hs]

/-! ## Activation -/

/-- One pass of the loop of `remove_from_array` (lines 206–213), on `found` and
    the array. -/
def removeFromArrayBody (test : ℕ) (s : Bool × (ℕ → ℕ)) (i : ℕ) : Bool × (ℕ → ℕ) :=
  if s.1 then (true, Function.update s.2 i (s.2 (i + 1)))
  else if s.2 i = test then (true, Function.update s.2 i (s.2 (i + 1)))
  else s

/-- `remove_from_array` (lines 203–215). -/
def removeFromArray (values : ℕ → ℕ) (length test : ℕ) : Bool × (ℕ → ℕ) :=
  (List.range length).foldl (removeFromArrayBody test) (false, values)

/-- `mfs_pool_activate` (lines 217–232). -/
def mfsPoolActivate (w : World) (trackerIndex : ℕ) : World :=
  let pool := w.trackers
  let (removed, inactiveTrackers) :=
    removeFromArray pool.inactiveTrackers pool.inactiveTrackerCount trackerIndex
  if removed then
    { w with trackers :=
      { pool with
        inactiveTrackers := inactiveTrackers
        inactiveTrackerCount := pool.inactiveTrackerCount - 1
        activeTrackers := Function.update pool.activeTrackers pool.activeTrackerCount trackerIndex
        activeTrackerCount := pool.activeTrackerCount + 1 } }
  else w

/-- The index moved to the end of the inactive list (lines 242–244);
    `activeTrackers` is what `remove_from_array` left. -/
def TrackerPool.markInactive (pool : TrackerPool) (activeTrackers : ℕ → ℕ) (trackerIndex : ℕ) :
    TrackerPool :=
  { pool with
    activeTrackers := activeTrackers
    activeTrackerCount := pool.activeTrackerCount - 1
    inactiveTrackers := Function.update pool.inactiveTrackers pool.inactiveTrackerCount trackerIndex
    inactiveTrackerCount := pool.inactiveTrackerCount + 1 }

/-- `mfs_pool_deactivate` (lines 234–257). -/
def mfsPoolDeactivate (w : World) (trackerIndex : ℕ) : World :=
  let pool := w.trackers
  let (trackerRemoved, activeTrackers) :=
    removeFromArray pool.activeTrackers pool.activeTrackerCount trackerIndex
  if trackerRemoved then
    drainConnections { w with trackers := pool.markInactive activeTrackers trackerIndex } trackerIndex
  else w

theorem drainConnections_of_nil {w : World} {i : ℕ} (h : w.trackers.stack i = []) :
    drainConnections w i = w := by
  rw [drainConnections, popConnection_nil h]

/-- What taking an entry out and destroying one keep holds when the stack has been drained. -/
theorem drainConnections_keeps {P : World → Prop} {i : ℕ}
    (hpop : ∀ w, P w → P (popConnection w i).2)
    (hdestroy : ∀ w entry, P w → P (mfsPoolDestroyConnection w entry)) {w : World} (h : P w) :
    P (drainConnections w i) := by
  induction w using drainConnections.induct i with
  | case1 w w' hnone =>
    have hnext := hpop w h
    rw [hnone] at hnext
    rwa [drainConnections, hnone]
  | case2 w entry w' hsome ih =>
    have hnext := hpop w h
    rw [hsome] at hnext
    rw [drainConnections, hsome]
    exact ih (hdestroy w' entry hnext)

/-- Two pools with the same connection stacks. -/
def TrackerPool.SameStacks (p q : TrackerPool) : Prop := ∀ i, q.stack i = p.stack i

/-- Activating a tracker touches no connection. -/
theorem sameStacks_mfsPoolActivate (w : World) (i : ℕ) :
    w.trackers.SameStacks (mfsPoolActivate w i).trackers ∧ (mfsPoolActivate w i).log = w.log ∧
      (mfsPoolActivate w i).nextConnection = w.nextConnection := by
  unfold mfsPoolActivate
  simp only
  split_ifs
  · exact ⟨fun _ => rfl, rfl, rfl⟩
  · exact ⟨fun _ => rfl, rfl, rfl⟩

theorem env_mfsPoolActivate (w : World) (i : ℕ) : (mfsPoolActivate w i).env = w.env := by
  unfold mfsPoolActivate
  simp only
  split_ifs <;> rfl

/-- Deactivating a tracker that has no pooled connection only moves its index. -/
theorem mfsPoolDeactivate_of_nil {w : World} {i : ℕ} (h : w.trackers.stack i = []) :
    (mfsPoolDeactivate w i).log = w.log ∧ (mfsPoolDeactivate w i).env = w.env ∧
      (mfsPoolDeactivate w i).nextConnection = w.nextConnection ∧
      w.trackers.SameStacks (mfsPoolDeactivate w i).trackers := by
  unfold mfsPoolDeactivate
  simp only
  split_ifs
  · rw [drainConnections_of_nil (w := { w with trackers := w.trackers.markInactive _ i }) h]
    exact ⟨rfl, rfl, rfl, fun _ => rfl⟩
  · exact ⟨rfl, rfl, rfl, fun _ => rfl⟩

/-! ## Getting and returning a connection -/

/-- The call of `mfs_tracker_connect` in `mfs_pool_get_connection_ex`. -/
def mfsTrackerConnect (w : World) (trackerIndex : ℕ) : AprStatus × World :=
  let rv := w.env.connect.head
  (rv, { w with env := { w.env with connect := w.env.connect.tail } }.record
    (.connect trackerIndex rv))

/-- `mfs_pool_get_connection_ex` (lines 263–311): the entry (`none` is NULL) and
    `*create_new`. -/
def mfsPoolGetConnectionEx (w : World) (trackerIndex : ℕ) (createNew : Bool) :
    Option ConnectionEntry × Bool × World :=
  let (nextConnectionEntry, w) := popConnection w trackerIndex
  if !createNew || nextConnectionEntry.isSome then (nextConnectionEntry, false, w)
  else
    let (rv, w) := mfsTrackerConnect w trackerIndex
    if rv ≠ .success then (none, true, mfsPoolDeactivate w trackerIndex)
    else (some ⟨w.nextConnection, 0⟩, true, { w with nextConnection := w.nextConnection + 1 })

theorem mfsPoolGetConnectionEx_cons {w : World} {i : ℕ} {entry : ConnectionEntry}
    {rest : List ConnectionEntry} (h : w.trackers.stack i = entry :: rest) (createNew : Bool) :
    mfsPoolGetConnectionEx w i createNew =
      (some entry, false, (w.withoutFirst i).record (.obtained i entry)) := by
  unfold mfsPoolGetConnectionEx
  rw [popConnection_cons h]
  simp

/-- An empty stack, and the connection cannot be made. -/
theorem mfsPoolGetConnectionEx_unreachable {w : World} {i : ℕ} (h : w.trackers.stack i = [])
    (hrv : w.env.connect.head ≠ .success) :
    mfsPoolGetConnectionEx w i true =
      (none, true, mfsPoolDeactivate (mfsTrackerConnect w i).2 i) := by
  unfold mfsPoolGetConnectionEx
  rw [popConnection_nil h]
  exact if_pos hrv

/-- An empty stack, and a new connection. -/
theorem mfsPoolGetConnectionEx_new {w : World} {i : ℕ} (h : w.trackers.stack i = [])
    (hrv : w.env.connect.head = .success) :
    mfsPoolGetConnectionEx w i true = (some ⟨w.nextConnection, 0⟩, true,
      { (mfsTrackerConnect w i).2 with nextConnection := w.nextConnection + 1 }) := by
  unfold mfsPoolGetConnectionEx
  rw [popConnection_nil h]
  exact if_neg (not_not.mpr hrv)

/-- `mfs_pool_get_connection` (lines 259–261). -/
def mfsPoolGetConnection (w : World) (trackerIndex : ℕ) (createNew : Bool) :
    Option ConnectionEntry × World :=
  let (entry, _, w) := mfsPoolGetConnectionEx w trackerIndex createNew
  (entry, w)

/-- `mfs_pool_return_connection` (lines 313–332). -/
def mfsPoolReturnConnection (w : World) (trackerIndex : ℕ) (entry : ConnectionEntry) : World :=
  let entry := { entry with lastUsed := w.env.clock.head }
  let cp := w.trackers.connectionPools trackerIndex
  let w := { w with
    env := { w.env with clock := w.env.clock.tail }
    trackers := w.trackers.setConnectionPool trackerIndex (cp.insertHead entry) }
  w.record (.returned trackerIndex entry)

/-! ## A small pool -/

/-- Arrays that happen to hold zeros. -/
def zeroMemory : PoolMemory := ⟨fun _ => ⟨[], 0⟩, fun _ => 0, fun _ => 0⟩

/-- A pool with one active tracker, its stack, the outcome of every connect and
    the exchanges to come. -/
def oneTrackerWorld (stack : List ConnectionEntry) (connect : AprStatus) (xs : List Exchange) :
    World where
  trackers := { mfsPoolInit 1 zeroMemory with
    trackerCount := 1
    activeTrackerCount := 1
    connectionPools := fun _ => ⟨true, stack.length, stack⟩ }
  env := ⟨Stream'.const ⟨0, by decide +kernel⟩, Stream'.const connect,
    xs ++ₛ Stream'.const ⟨.success, []⟩, Stream'.const 0⟩
  nextConnection := stack.length
  log := []

end MogileFs
