import MogileFs.Library.Runs
import MogileFs.Pool.Partition

/-!
# Maintenance threads

The life of a pool with maintenance allowed: `mfs_pool_init`, any registrations, one
`mfs_init_file_system` among them, then `mfs_close_file_system` (`src/file.c`, lines 32–108), and
the maintenance threads these start (`src/pool.c`, lines 346–393). The pool has one handle for its
maintenance thread: `mfs_init_file_system` starts a thread, and the registration that fills the
pool starts another one.

Results:
* `lifeInv_apply`: how many threads there are, and which one is joined.
* `oneThread_iff`: the lives of which every interleaving has one thread at a time.
-/

namespace MogileFs

/-! ## The parties -/

/-- Where a maintenance thread stands, in front of its next step (`mfs_pool_maintenance`,
    lines 369–393). -/
inductive MaintenancePoint
  /-- Just created. -/
  | start
  /-- `while(trackers->pool_running)`. -/
  | test
  /-- `mfs_pool_test_inactive_trackers` and `mfs_pool_expire_active_trackers`. -/
  | maintain
  /-- `apr_thread_mutex_lock` (line 387). -/
  | lock
  /-- `apr_thread_cond_timedwait` with the mutex. -/
  | timedwait
  /-- Waiting there, without the mutex. -/
  | waiting
  /-- Woken, by a signal, by the time or for no reason: takes the mutex again. -/
  | woken
  /-- `apr_thread_mutex_unlock` (line 389). -/
  | unlock
  /-- After `apr_thread_exit`. -/
  | exited
deriving DecidableEq

/-- What the application calls before `mfs_close_file_system`. -/
inductive LifeCall
  | registerTracker (r : Registration)
  | initFileSystem

/-- Where the application's thread stands. -/
inductive MainPoint
  /-- These calls are still to come, and `mfs_close_file_system` after them. -/
  | calls (calls : List LifeCall)
  /-- `mfs_pool_stop_maintenance_thread`, lines 359–360. -/
  | stop
  /-- `apr_thread_mutex_lock` (line 361). -/
  | stopLock
  /-- `apr_thread_cond_signal`. -/
  | stopSignal
  /-- `apr_thread_mutex_unlock`. -/
  | stopUnlock
  /-- `apr_thread_join`. -/
  | stopJoin
  /-- `mfs_destroy_pool`. -/
  | destroyPool
  | closed

/-- The pool; `mutex` says that `maintenance_mutex` is held, `maintenanceThread` is the handle
    (`none` is NULL), a thread is its number in `threads`. -/
structure PoolLife where
  trackers : TrackerPool
  poolRunning : Bool
  maintenanceThread : Option ℕ
  mutex : Bool
  threads : List MaintenancePoint
  main : MainPoint

/-! ## Steps -/

/-- The pool after a call, and the thread the call has started, if it has
    (`mfs_pool_start_maintenance_thread`, lines 346–356). -/
def PoolLife.after (s : PoolLife) (trackers : TrackerPool) : PoolLife :=
  if trackers.maintenanceStarts = s.trackers.maintenanceStarts then { s with trackers := trackers }
  else
    { s with
      trackers := trackers
      poolRunning := true
      maintenanceThread := some s.threads.length
      threads := s.threads ++ [.start] }

/-- The call with maintenance allowed. -/
def LifeCall.run (trackers : TrackerPool) : LifeCall → TrackerPool
  | .registerTracker r => mfsPoolRegisterTracker trackers { r with allowMaintenanceThread := true }
  | .initFileSystem => mfsPoolStartMaintenanceThread true trackers

/-- A signal wakes `waiter`; when that thread does not wait, the first one that does. -/
def wake (threads : List MaintenancePoint) (waiter : ℕ) : List MaintenancePoint :=
  if threads[waiter]? = some .waiting then threads.set waiter .woken
  else threads.set (threads.idxOf .waiting) .woken

/-- A step of the application's thread. -/
def PoolLife.mainStep (s : PoolLife) (waiter : ℕ) : PoolLife :=
  match s.main with
  | .calls [] => { s with main := .stop }
  | .calls (call :: calls) => { s.after (call.run s.trackers) with main := .calls calls }
  | .stop =>
    match s.maintenanceThread with
    | none => { s with main := .destroyPool }
    | some _ => { s with poolRunning := false, main := .stopLock }
  | .stopLock => if s.mutex then s else { s with mutex := true, main := .stopSignal }
  | .stopSignal => { s with threads := wake s.threads waiter, main := .stopUnlock }
  | .stopUnlock => { s with mutex := false, main := .stopJoin }
  | .stopJoin =>
    match s.maintenanceThread with
    | none => s
    | some k => if s.threads[k]? = some .exited then { s with main := .destroyPool } else s
  | .destroyPool => { s with main := .closed }
  | .closed => s

def PoolLife.moveTo (s : PoolLife) (k : ℕ) (point : MaintenancePoint) : PoolLife :=
  { s with threads := s.threads.set k point }

/-- A step of maintenance thread `k`. -/
def PoolLife.threadStep (s : PoolLife) (k : ℕ) : PoolLife :=
  match s.threads[k]? with
  | none => s
  | some .start => s.moveTo k .test
  | some .test => s.moveTo k (if s.poolRunning then .maintain else .exited)
  | some .maintain => s.moveTo k .lock
  | some .lock => if s.mutex then s else { s.moveTo k .timedwait with mutex := true }
  | some .timedwait => { s.moveTo k .waiting with mutex := false }
  | some .waiting => s.moveTo k .woken
  | some .woken => if s.mutex then s else { s.moveTo k .unlock with mutex := true }
  | some .unlock => { s.moveTo k .test with mutex := false }
  | some .exited => s

/-- Whose step is next; `waiter` is the thread a signal would wake. -/
inductive LifeMove
  | main (waiter : ℕ)
  | thread (k : ℕ)

def LifeMove.apply (s : PoolLife) : LifeMove → PoolLife
  | .main waiter => s.mainStep waiter
  | .thread k => s.threadStep k

/-! ## Lives -/

/-- `mfs_pool_init(trackerCount)`, and the registrations before and after
    `mfs_init_file_system`. -/
structure Life where
  trackerCount : ℕ
  palloc : PoolMemory
  before : List Registration
  after : List Registration

def Life.calls (life : Life) : List LifeCall :=
  life.before.map .registerTracker ++ .initFileSystem :: life.after.map .registerTracker

def Life.start (life : Life) : PoolLife where
  trackers := mfsPoolInit life.trackerCount life.palloc
  poolRunning := true
  maintenanceThread := none
  mutex := false
  threads := []
  main := .calls life.calls

/-- The maintenance threads that have not exited. -/
def PoolLife.alive (s : PoolLife) : ℕ := s.threads.countP (· ≠ .exited)

/-- At most one maintenance thread is alive, and none when `mfs_destroy_pool` runs. -/
structure PoolLife.OneThread (s : PoolLife) : Prop where
  one : s.alive ≤ 1
  stopped : s.main = .destroyPool → s.alive = 0

/-- The registrations that succeed as long as there is room. -/
def Life.successes (life : Life) : ℕ := (life.before ++ life.after).countP (·.Succeeds)

/-- Some registration makes `tracker_count` equal to `max_tracker_count`. -/
def Life.Fills (life : Life) : Prop := 0 < life.trackerCount ∧ life.trackerCount ≤ life.successes

/-! ## Calls -/

/-- A registration that succeeds as long as there is room. -/
def LifeCall.succeeds : LifeCall → Bool
  | .registerTracker r => r.Succeeds
  | .initFileSystem => false

def LifeCall.isInit : LifeCall → Bool
  | .registerTracker _ => false
  | .initFileSystem => true

/-- The pool is full, and not because it has room for no tracker at all. -/
def TrackerPool.Filled (pool : TrackerPool) : Prop :=
  0 < pool.maxTrackerCount ∧ pool.trackerCount = pool.maxTrackerCount

instance (pool : TrackerPool) : Decidable pool.Filled := inferInstanceAs (Decidable (_ ∧ _))

/-- A registration starts a thread when it fills the pool. -/
theorem maintenanceStarts_register (pool : TrackerPool) (r : Registration) :
    (LifeCall.run pool (.registerTracker r)).maintenanceStarts = pool.maintenanceStarts +
      if pool.Registers r ∧ pool.trackerCount + 1 = pool.maxTrackerCount then 1 else 0 := by
  by_cases hr : pool.Registers r
  · obtain ⟨hcount, haddr, hmutex⟩ := hr
    have hregisters : pool.Registers r := ⟨hcount, haddr, hmutex⟩
    simp only [LifeCall.run, mfsPoolRegisterTracker, mfsPoolStartMaintenanceThread, hcount, haddr,
      hmutex, hregisters, true_and, ne_eq, not_true_eq_false, if_false, if_true]
    split_ifs <;> rfl
  · rw [if_neg fun h => hr h.1]
    unfold LifeCall.run mfsPoolRegisterTracker
    simp only
    split_ifs with hcount haddr hmutex
    · rfl
    · rfl
    · rfl
    · exact absurd ⟨hcount, not_not.mp haddr, not_not.mp hmutex⟩ hr
    · exact absurd ⟨hcount, not_not.mp haddr, not_not.mp hmutex⟩ hr

/-- What a call does to the counts: a thread is started by `mfs_init_file_system`, and by the
    registration that fills the pool. -/
structure LifeCall.Effect (call : LifeCall) (pool pool' : TrackerPool) : Prop where
  max : pool'.maxTrackerCount = pool.maxTrackerCount
  count : pool'.trackerCount = pool.trackerCount +
    if call.succeeds ∧ pool.trackerCount ≠ pool.maxTrackerCount then 1 else 0
  starts : pool'.maintenanceStarts + (if pool.Filled then 1 else 0) =
    pool.maintenanceStarts + (if call.isInit then 1 else 0) + (if pool'.Filled then 1 else 0)

theorem LifeCall.run_effect (call : LifeCall) (pool : TrackerPool) :
    call.Effect pool (call.run pool) := by
  cases call with
  | initFileSystem => exact ⟨rfl, rfl, rfl⟩
  | registerTracker r =>
    have hstarts := maintenanceStarts_register pool r
    by_cases hr : pool.Registers r
    · have hlists := @mfsPoolRegisterTracker_lists pool { r with allowMaintenanceThread := true } hr
      have hcount : (LifeCall.run pool (.registerTracker r)).trackerCount =
          pool.trackerCount + 1 := hlists.2.2.1
      have hmax : (LifeCall.run pool (.registerTracker r)).maxTrackerCount =
          pool.maxTrackerCount := hlists.2.2.2
      have hsucceeds : (LifeCall.registerTracker r).succeeds = true := decide_eq_true hr.2
      refine ⟨hmax, ?_, ?_⟩
      · rw [hcount, if_pos ⟨hsucceeds, hr.1⟩]
      · have hfilled : (LifeCall.run pool (.registerTracker r)).Filled ↔
            pool.trackerCount + 1 = pool.maxTrackerCount := by
          rw [TrackerPool.Filled, hcount, hmax]
          omega
        rw [hstarts, if_neg fun h : pool.Filled => hr.1 h.2]
        simp only [hr, hfilled, true_and, LifeCall.isInit, Bool.false_eq_true, if_false, add_zero]
    · have hlists := @mfsPoolRegisterTracker_sameLists pool
        { r with allowMaintenanceThread := true } hr
      have hcount : (LifeCall.run pool (.registerTracker r)).trackerCount = pool.trackerCount :=
        hlists.1
      have hmax : (LifeCall.run pool (.registerTracker r)).maxTrackerCount =
          pool.maxTrackerCount := hlists.2.1
      refine ⟨hmax, ?_, ?_⟩
      · have hno : ¬((LifeCall.registerTracker r).succeeds = true ∧
            pool.trackerCount ≠ pool.maxTrackerCount) := fun h =>
          hr ⟨h.2, of_decide_eq_true h.1⟩
        rw [hcount, if_neg hno, add_zero]
      · have hfilled : (LifeCall.run pool (.registerTracker r)).Filled ↔ pool.Filled := by
          rw [TrackerPool.Filled, TrackerPool.Filled, hcount, hmax]
        rw [hstarts, if_neg fun h => hr h.1]
        simp only [hfilled, LifeCall.isInit, Bool.false_eq_true, if_false, add_zero]

/-! ## All interleavings of a life -/

/-- The calls still to come. -/
def PoolLife.remaining (s : PoolLife) : List LifeCall :=
  match s.main with
  | .calls calls => calls
  | _ => []

/-- The handle is that of the last thread started. -/
def PoolLife.HandleLast (s : PoolLife) : Prop :=
  s.threads.length = (s.maintenanceThread.map (· + 1)).getD 0

/-- What holds in every interleaving of a life. -/
structure LifeInv (life : Life) (s : PoolLife) : Prop where
  max : s.trackers.maxTrackerCount = life.trackerCount
  count_le : s.trackers.trackerCount ≤ life.trackerCount
  /-- How full the pool will be. -/
  filling : min life.trackerCount (s.trackers.trackerCount + s.remaining.countP LifeCall.succeeds) =
    min life.trackerCount life.successes
  /-- The start of `mfs_init_file_system`, now or later, and that of the last registration. -/
  starts : s.trackers.maintenanceStarts + s.remaining.countP LifeCall.isInit =
    1 + if s.trackers.Filled then 1 else 0
  threads : s.threads.length = s.trackers.maintenanceStarts
  handle : s.HandleLast
  /-- The thread of the handle has been joined. -/
  joined : s.main = .destroyPool ∨ s.main = .closed →
    ∀ k ∈ s.maintenanceThread, s.threads[k]? = some .exited

theorem lifeInv_start (life : Life) : LifeInv life life.start where
  max := rfl
  count_le := Nat.zero_le _
  filling := by
    have hregister : ∀ rs : List Registration,
        (rs.map LifeCall.registerTracker).countP LifeCall.succeeds = rs.countP (·.Succeeds) :=
      fun rs => List.countP_map ..
    have hcalls : life.calls.countP LifeCall.succeeds = life.successes := by
      rw [Life.calls, Life.successes, List.countP_append, List.countP_append, hregister,
        List.countP_cons_of_neg (by exact Bool.false_ne_true), hregister]
    show min life.trackerCount (0 + life.calls.countP LifeCall.succeeds) = _
    rw [hcalls, Nat.zero_add]
  starts := by
    have hregister : ∀ rs : List Registration,
        (rs.map LifeCall.registerTracker).countP LifeCall.isInit = 0 := fun rs => by
      rw [List.countP_map]
      exact List.countP_eq_zero.mpr fun _ _ => Bool.false_ne_true
    have hcalls : life.calls.countP LifeCall.isInit = 1 := by
      rw [Life.calls, List.countP_append, hregister, List.countP_cons_of_pos rfl, hregister]
    have hempty : ¬life.start.trackers.Filled := fun h => by
      have := h.1
      have := h.2
      simp only [Life.start, mfsPoolInit] at *
      omega
    show 0 + life.calls.countP LifeCall.isInit = _
    rw [hcalls, if_neg hempty]
  threads := rfl
  handle := rfl
  joined h := by
    rcases h with h | h
    · cases h
    · cases h

/-! ### Steps of the application -/

theorem after_trackers (s : PoolLife) (trackers : TrackerPool) :
    (s.after trackers).trackers = trackers := by
  unfold PoolLife.after
  split_ifs <;> rfl

/-- A thread is started when `maintenanceStarts` goes up. -/
theorem after_threads {s : PoolLife} (h : s.threads.length = s.trackers.maintenanceStarts)
    (hhandle : s.HandleLast) {trackers : TrackerPool} {n : ℕ}
    (hstarts : trackers.maintenanceStarts = s.trackers.maintenanceStarts + n) (hn : n ≤ 1) :
    (s.after trackers).threads.length = trackers.maintenanceStarts ∧ (s.after trackers).HandleLast := by
  unfold PoolLife.after
  split_ifs with hsame
  · exact ⟨h.trans hsame.symm, hhandle⟩
  · refine ⟨?_, ?_⟩
    · rw [List.length_append, List.length_singleton]
      omega
    · rw [PoolLife.HandleLast, List.length_append, List.length_singleton, Option.map_some,
        Option.getD_some]

/-- One call. -/
theorem lifeInv_call {life : Life} {s : PoolLife} (h : LifeInv life s) {call : LifeCall}
    {calls : List LifeCall} (hmain : s.main = .calls (call :: calls)) :
    LifeInv life { s.after (call.run s.trackers) with main := .calls calls } := by
  have heffect := call.run_effect s.trackers
  have hremaining : s.remaining = call :: calls := by rw [PoolLife.remaining, hmain]
  have hfilling := h.filling
  have hstarts := h.starts
  have hcount := heffect.count
  have heff := heffect.starts
  rw [hremaining, List.countP_cons] at hfilling hstarts
  have hle := h.count_le
  have hmax := h.max
  have hone : ∃ n, n ≤ 1 ∧ (call.run s.trackers).maintenanceStarts =
      s.trackers.maintenanceStarts + n := by
    cases call with
    | initFileSystem => exact ⟨1, le_rfl, rfl⟩
    | registerTracker r =>
      refine ⟨_, ?_, maintenanceStarts_register s.trackers r⟩
      split_ifs
      · exact le_rfl
      · exact Nat.zero_le 1
  obtain ⟨n, hn, hmore⟩ := hone
  obtain ⟨hthreads, hhandle⟩ := after_threads h.threads h.handle hmore hn
  refine ⟨?_, ?_, ?_, ?_, ?_, hhandle, ?_⟩
  · simp only [after_trackers]
    exact heffect.max.trans h.max
  · simp only [after_trackers]
    rw [hcount]
    split_ifs with hroom
    · have := hroom.2
      omega
    · exact hle
  · simp only [after_trackers, PoolLife.remaining]
    rw [← hfilling, hcount]
    by_cases hroom : s.trackers.trackerCount = s.trackers.maxTrackerCount
    · rw [if_neg fun h => h.2 hroom]
      omega
    · simp only [hroom, ne_eq, not_false_eq_true, and_true]
      omega
  · simp only [after_trackers, PoolLife.remaining]
    omega
  · simp only [after_trackers]
    exact hthreads
  · rintro (h | h)
    · cases h
    · cases h

/-- Nothing has been called or started. -/
theorem LifeInv.congr {life : Life} {s s' : PoolLife} (h : LifeInv life s)
    (htrackers : s'.trackers = s.trackers) (hremaining : s'.remaining = s.remaining)
    (hthreads : s'.threads.length = s.threads.length)
    (hhandle : s'.maintenanceThread = s.maintenanceThread)
    (hjoined : s'.main = .destroyPool ∨ s'.main = .closed →
      ∀ k ∈ s.maintenanceThread, s'.threads[k]? = some .exited) : LifeInv life s' where
  max := by rw [htrackers, h.max]
  count_le := by rw [htrackers]; exact h.count_le
  filling := by rw [htrackers, hremaining, h.filling]
  starts := by
    rw [hremaining]
    simp only [htrackers]
    exact h.starts
  threads := by rw [hthreads, htrackers, h.threads]
  handle := by rw [PoolLife.HandleLast, hthreads, hhandle]; exact h.handle
  joined hmain k hk := hjoined hmain k (hhandle ▸ hk)

theorem length_wake (threads : List MaintenancePoint) (waiter : ℕ) :
    (wake threads waiter).length = threads.length := by
  unfold wake
  split_ifs
  · exact List.length_set
  · exact List.length_set

theorem lifeInv_mainStep {life : Life} {s : PoolLife} (h : LifeInv life s) (waiter : ℕ) :
    LifeInv life (s.mainStep waiter) := by
  cases hmain : s.main with
  | calls calls =>
    cases calls with
    | nil =>
      simp only [PoolLife.mainStep, hmain]
      exact h.congr rfl (by rw [PoolLife.remaining, PoolLife.remaining, hmain]) rfl rfl nofun
    | cons call calls =>
      simp only [PoolLife.mainStep, hmain]
      exact lifeInv_call h hmain
  | stop =>
    cases hhandle : s.maintenanceThread with
    | none =>
      simp only [PoolLife.mainStep, hmain, hhandle]
      refine h.congr rfl (by rw [PoolLife.remaining, PoolLife.remaining, hmain]) rfl hhandle.symm ?_
      intro _ k hk
      rw [hhandle] at hk
      cases hk
    | some k =>
      simp only [PoolLife.mainStep, hmain, hhandle]
      exact h.congr rfl (by rw [PoolLife.remaining, PoolLife.remaining, hmain]) rfl hhandle.symm
        nofun
  | stopLock =>
    simp only [PoolLife.mainStep, hmain]
    split_ifs
    · exact h
    · exact h.congr rfl (by rw [PoolLife.remaining, PoolLife.remaining, hmain]) rfl rfl nofun
  | stopSignal =>
    simp only [PoolLife.mainStep, hmain]
    exact h.congr rfl (by rw [PoolLife.remaining, PoolLife.remaining, hmain])
      (length_wake s.threads waiter) rfl nofun
  | stopUnlock =>
    simp only [PoolLife.mainStep, hmain]
    exact h.congr rfl (by rw [PoolLife.remaining, PoolLife.remaining, hmain]) rfl rfl nofun
  | stopJoin =>
    cases hhandle : s.maintenanceThread with
    | none => simpa only [PoolLife.mainStep, hmain, hhandle] using h
    | some k =>
      by_cases hexited : s.threads[k]? = some .exited
      · simp only [PoolLife.mainStep, hmain, hhandle, if_pos hexited]
        refine h.congr rfl (by rw [PoolLife.remaining, PoolLife.remaining, hmain]) rfl hhandle.symm ?_
        intro _ k' hk'
        rw [hhandle] at hk'
        cases hk'
        exact hexited
      · simpa only [PoolLife.mainStep, hmain, hhandle, if_neg hexited] using h
  | destroyPool =>
    simp only [PoolLife.mainStep, hmain]
    exact h.congr rfl (by rw [PoolLife.remaining, PoolLife.remaining, hmain]) rfl rfl fun _ =>
      h.joined (Or.inl hmain)
  | closed => simpa only [PoolLife.mainStep, hmain] using h

/-! ### Steps of the maintenance threads -/

/-- A thread that has not exited goes on. -/
theorem lifeInv_moveTo {life : Life} {s s' : PoolLife} (h : LifeInv life s) {k : ℕ}
    (hk : s.threads[k]? ≠ some .exited) {point : MaintenancePoint}
    (htrackers : s'.trackers = s.trackers) (hmain : s'.main = s.main)
    (hhandle : s'.maintenanceThread = s.maintenanceThread)
    (hthreads : s'.threads = s.threads.set k point) : LifeInv life s' := by
  refine h.congr htrackers (by rw [PoolLife.remaining, PoolLife.remaining, hmain])
    (by rw [hthreads, List.length_set]) hhandle fun hdone k' hk' => ?_
  rw [hmain] at hdone
  have hexited := h.joined hdone k' hk'
  have hne : k ≠ k' := by
    rintro rfl
    exact hk hexited
  rw [hthreads, List.getElem?_set_ne hne]
  exact hexited

theorem lifeInv_threadStep {life : Life} {s : PoolLife} (h : LifeInv life s) (k : ℕ) :
    LifeInv life (s.threadStep k) := by
  cases hk : s.threads[k]? with
  | none => simpa only [PoolLife.threadStep, hk] using h
  | some point =>
    cases point with
    | exited => simpa only [PoolLife.threadStep, hk] using h
    | lock =>
      simp only [PoolLife.threadStep, hk]
      split_ifs
      · exact h
      · exact lifeInv_moveTo h (by rw [hk]; nofun) rfl rfl rfl rfl
    | woken =>
      simp only [PoolLife.threadStep, hk]
      split_ifs
      · exact h
      · exact lifeInv_moveTo h (by rw [hk]; nofun) rfl rfl rfl rfl
    | _ =>
      simp only [PoolLife.threadStep, hk]
      exact lifeInv_moveTo h (by rw [hk]; nofun) rfl rfl rfl rfl

theorem lifeInv_apply {life : Life} (s : PoolLife) (move : LifeMove) (h : LifeInv life s) :
    LifeInv life (move.apply s) := by
  cases move with
  | main waiter => exact lifeInv_mainStep h waiter
  | thread k => exact lifeInv_threadStep h k

/-! ## One thread at a time -/

theorem LifeInv.not_filled {life : Life} {s : PoolLife} (h : LifeInv life s)
    (hlife : ¬life.Fills) : ¬s.trackers.Filled := by
  rintro ⟨hpos, hfull⟩
  have := h.max
  have := h.filling
  rw [Life.Fills] at hlife
  omega

theorem LifeInv.oneThread {life : Life} {s : PoolLife} (h : LifeInv life s)
    (hlife : ¬life.Fills) : s.OneThread where
  one := by
    have hstarts := h.starts
    rw [if_neg (h.not_filled hlife)] at hstarts
    have hlength := h.threads
    have hcount : s.alive ≤ s.threads.length := List.countP_le_length
    omega
  stopped hmain := by
    have hstarts := h.starts
    rw [if_neg (h.not_filled hlife), PoolLife.remaining, hmain, List.countP_nil] at hstarts
    -- the only thread has been joined
    obtain ⟨point, hpoint⟩ := List.length_eq_one_iff.mp (h.threads.trans hstarts)
    have hhandle := h.handle
    rw [PoolLife.HandleLast, hpoint] at hhandle
    cases hthread : s.maintenanceThread with
    | none =>
      rw [hthread] at hhandle
      cases hhandle
    | some k =>
      rw [hthread] at hhandle
      obtain rfl : k = 0 := by simpa using hhandle.symm
      have hexited := h.joined (Or.inl hmain) 0 hthread
      rw [hpoint] at hexited
      cases hexited
      rw [PoolLife.alive, hpoint]
      rfl

/-- The application alone: after its calls, no maintenance thread has made a step. -/
theorem calls_alone {s : PoolLife} {calls : List LifeCall} (hmain : s.main = .calls calls)
    (hstart : ∀ point ∈ s.threads, point = .start) :
    (Runs.run LifeMove.apply s (calls.map fun _ => .main 0)).main = .calls [] ∧
      ∀ point ∈ (Runs.run LifeMove.apply s (calls.map fun _ => .main 0)).threads,
        point = .start := by
  induction calls generalizing s with
  | nil => exact ⟨hmain, hstart⟩
  | cons call calls ih =>
    rw [List.map_cons, Runs.run_cons]
    have hstep : LifeMove.apply s (.main 0) =
        { s.after (call.run s.trackers) with main := .calls calls } := by
      simp only [LifeMove.apply, PoolLife.mainStep, hmain]
    rw [hstep]
    refine ih rfl fun point hpoint => ?_
    simp only [PoolLife.after] at hpoint
    split_ifs at hpoint
    · exact hstart point hpoint
    · rcases List.mem_append.mp hpoint with hpoint | hpoint
      · exact hstart point hpoint
      · exact List.mem_singleton.mp hpoint

/-- In a life that fills the pool, two threads are alive after the calls. -/
theorem alive_of_fills {life : Life} (hlife : life.Fills) :
    (Runs.run LifeMove.apply life.start (life.calls.map fun _ => .main 0)).alive = 2 := by
  obtain ⟨hmain, hstart⟩ := @calls_alone life.start life.calls rfl nofun
  have hinv : Runs.Throughout LifeMove.apply (LifeInv life) life.start
      (life.calls.map fun _ => .main 0) := Runs.throughout_of_steps lifeInv_apply (lifeInv_start life)
  have hlast := hinv (life.calls.map fun _ => LifeMove.main 0).length
  rw [List.take_length] at hlast
  generalize Runs.run LifeMove.apply life.start (life.calls.map fun _ => .main 0) = s at *
  have hfilled : s.trackers.Filled := by
    have hfilling := hlast.filling
    have hmax := hlast.max
    have hle := hlast.count_le
    rw [PoolLife.remaining, hmain, List.countP_nil] at hfilling
    obtain ⟨hpos, hfits⟩ := hlife
    exact ⟨by omega, by omega⟩
  have hstarts := hlast.starts
  rw [if_pos hfilled, PoolLife.remaining, hmain, List.countP_nil] at hstarts
  have hall : s.alive = s.threads.length := by
    refine List.countP_eq_length.mpr fun point hpoint => ?_
    rw [hstart point hpoint]
    rfl
  rw [hall, hlast.threads]
  omega

/-- In every interleaving of a life at most one maintenance thread is alive, and none when the
    pool is destroyed, exactly when no registration fills the pool. -/
theorem oneThread_iff (life : Life) :
    (∀ moves, Runs.Throughout LifeMove.apply PoolLife.OneThread life.start moves) ↔
      ¬life.Fills := by
  constructor
  · intro h hlife
    have hlast := (h (life.calls.map fun _ => .main 0)
      (life.calls.map fun _ => LifeMove.main 0).length).one
    rw [List.take_length, alive_of_fills hlife] at hlast
    omega
  · intro hlife moves
    have hinv : Runs.Throughout LifeMove.apply (LifeInv life) life.start moves :=
      Runs.throughout_of_steps lifeInv_apply (lifeInv_start life)
    exact fun k => (hinv k).oneThread hlife

/-- One tracker, registered before `mfs_init_file_system`. The signal wakes the second thread, which
    is joined; the first one still waits when the pool is destroyed. -/
theorem thread_outlives_pool :
    ¬Runs.Throughout LifeMove.apply PoolLife.OneThread
      (Life.start ⟨1, zeroMemory, [plainRegistration], []⟩)
      [.main 0, .main 0, .thread 0, .thread 0, .thread 0, .thread 0, .thread 0, .thread 1, .thread 1,
        .thread 1, .thread 1, .thread 1, .main 0, .main 0, .main 0, .main 1, .main 0, .thread 1,
        .thread 1, .thread 1, .main 0] := by
  intro h
  have halive := (h 21).stopped rfl
  exact absurd halive (by decide +kernel)

end MogileFs
