import MogileFs.Library.Runs
import MogileFs.Pool.ConnectionStack
import MogileFs.Pool.Iteration
import MogileFs.Pool.Partition
import MogileFs.Pool.Registration

/-!
# The connection counts

`tracker_connection_pool` has a `connection_count` beside its stack (`src/mogile_fs.h`, line 150).
`mfs_pool_get_connection_ex` and `mfs_pool_return_connection` count (`src/pool.c`, lines 279 and
326); `mfs_pool_get_expired_trackers` takes entries out of a stack without counting them.

Results:
* `countsAgree_getConnection`, `countsAgree_returnConnection`, `countsAgree_deactivate`: these keep
  the counts.
* `countsAgree_expireTrackers_iff`: when going over trackers to expire their connections does.
* `connectionCount_iff`: the runs in which every count is the number of entries.
-/

namespace MogileFs

open Runs

/-! ## `mfs_pool_expire_active_trackers` -/

/-- One pass of its outer loop (lines 430–438): the expired entries of a tracker are destroyed. -/
def expireTracker (w : World) (trackerIndex : ℕ) : World :=
  let (entries, w) := mfsPoolGetExpiredTrackers w trackerIndex
  entries.foldl mfsPoolDestroyConnection w

/-- Its outer loop (lines 429–439). -/
def expireLoop (w : World) (list : TrackerList) : World :=
  match _h : mfsPoolNextTracker list with
  | (none, _) => w
  | (some _, list') => expireLoop (expireTracker w (mfsPoolCurrentTrackerIndex list')) list'
termination_by list.unvisited.length
decreasing_by rw [unvisited_of_some _h]; simp

/-- `mfs_pool_expire_active_trackers` (lines 424–441). -/
def mfsPoolExpireActiveTrackers (w : World) : World :=
  match mfsPoolListActiveTrackers w.trackers w.env.rand.head with
  | none => w
  | some list => expireLoop { w with env := { w.env with rand := w.env.rand.tail } } list

/-- The trackers are visited in the order of the list. -/
theorem expireLoop_eq (w : World) (list : TrackerList) :
    expireLoop w list = list.unvisited.foldl expireTracker w := by
  induction w, list using expireLoop.induct with
  | case1 w list list' h =>
    rw [expireLoop, h, unvisited_of_none h]
    rfl
  | case2 w list tracker list' h ih =>
    rw [expireLoop, h, unvisited_of_some h]
    simp only [List.foldl_cons]
    rw [ih, currentTrackerIndex_of_some h]

/-! ## Runs of a pool -/

inductive CountMove
  | getConnection (trackerIndex : ℕ) (createNew : Bool)
  | returnConnection (trackerIndex : ℕ) (entry : ConnectionEntry)
  | deactivate (trackerIndex : ℕ)
  | getExpired (trackerIndex : ℕ)
  | expireActive

def CountMove.apply (w : World) : CountMove → World
  | .getConnection trackerIndex createNew => (mfsPoolGetConnectionEx w trackerIndex createNew).2.2
  | .returnConnection trackerIndex entry => mfsPoolReturnConnection w trackerIndex entry
  | .deactivate trackerIndex => mfsPoolDeactivate w trackerIndex
  | .getExpired trackerIndex => (mfsPoolGetExpiredTrackers w trackerIndex).2
  | .expireActive => mfsPoolExpireActiveTrackers w

/-- Every count is the number of entries of the stack, so that none is negative. -/
structure TrackerPool.CountsAgree (pool : TrackerPool) : Prop where
  eq : ∀ i, (pool.connectionPools i).connectionCount = (pool.stack i).length
  nonneg : ∀ i, 0 ≤ (pool.connectionPools i).connectionCount

/-- The least recently used entry of the tracker, if it has one, is not expired at `now`. -/
def NothingExpired (pool : TrackerPool) (trackerIndex : ℕ) (now : ℤ) : Prop :=
  ∀ entry ∈ (pool.stack trackerIndex).getLast?, entry.isExpired now = false

/-- No entry expires; each tracker that is visited is looked at with the next reading of the
    clock. -/
def CountMove.NoneExpires (w : World) : CountMove → Prop
  | .getExpired trackerIndex => NothingExpired w.trackers trackerIndex w.env.clock.head
  | .expireActive => ∀ list, mfsPoolListActiveTrackers w.trackers w.env.rand.head = some list →
    ∀ k trackerIndex, list.unvisited[k]? = some trackerIndex →
      NothingExpired w.trackers trackerIndex (w.env.clock.get k)
  | _ => True

/-! ## Operations that count -/

theorem countsAgree_of_eq {pool : TrackerPool}
    (h : ∀ i, (pool.connectionPools i).connectionCount = (pool.stack i).length) :
    pool.CountsAgree :=
  ⟨h, fun i => by rw [h]; exact Int.natCast_nonneg _⟩

theorem countsAgree_setConnectionPool {pool : TrackerPool} (h : pool.CountsAgree) {i : ℕ}
    {cp : ConnectionPool} (hcp : cp.connectionCount = cp.connectionStack.length) :
    (pool.setConnectionPool i cp).CountsAgree := by
  refine countsAgree_of_eq fun j => ?_
  by_cases hj : j = i
  · subst hj
    rw [stack_setConnectionPool_self, connectionPools_setConnectionPool_self]
    exact hcp
  · rw [stack_setConnectionPool_of_ne _ _ hj, connectionPools_setConnectionPool_of_ne _ _ hj]
    exact h.eq j

theorem countsAgree_popConnection {w : World} (h : w.trackers.CountsAgree) (i : ℕ) :
    (popConnection w i).2.trackers.CountsAgree := by
  cases hs : w.trackers.stack i with
  | nil => rwa [popConnection_nil hs]
  | cons entry rest =>
    have hcount := h.eq i
    rw [popConnection_cons hs]
    refine countsAgree_setConnectionPool h ?_
    rw [hs, List.length_cons, Nat.cast_succ] at hcount
    have hstack : (w.trackers.connectionPools i).connectionStack = entry :: rest := hs
    simp only [ConnectionPool.removeFirst, hstack, List.tail_cons]
    omega

theorem countsAgree_drainConnections {w : World} (h : w.trackers.CountsAgree) (i : ℕ) :
    (drainConnections w i).trackers.CountsAgree :=
  drainConnections_keeps (P := fun w => w.trackers.CountsAgree)
    (fun _ h => countsAgree_popConnection h i) (fun _ _ h => h) h

theorem countsAgree_deactivate {w : World} (h : w.trackers.CountsAgree) (i : ℕ) :
    (mfsPoolDeactivate w i).trackers.CountsAgree := by
  unfold mfsPoolDeactivate
  simp only
  split_ifs
  · exact countsAgree_drainConnections (w := { w with trackers := w.trackers.markInactive _ i })
      ⟨h.eq, h.nonneg⟩ i
  · exact h

theorem countsAgree_getConnection {w : World} (h : w.trackers.CountsAgree) (i : ℕ)
    (createNew : Bool) : (mfsPoolGetConnectionEx w i createNew).2.2.trackers.CountsAgree := by
  have hpop := countsAgree_popConnection h i
  unfold mfsPoolGetConnectionEx
  simp only
  split_ifs
  · exact hpop
  · exact countsAgree_deactivate (w := (mfsTrackerConnect (popConnection w i).2 i).2) hpop i
  · exact hpop

theorem countsAgree_returnConnection {w : World} (h : w.trackers.CountsAgree) (i : ℕ)
    (entry : ConnectionEntry) : (mfsPoolReturnConnection w i entry).trackers.CountsAgree := by
  refine countsAgree_setConnectionPool h ?_
  have hcount := h.eq i
  rw [TrackerPool.stack] at hcount
  simp only [ConnectionPool.insertHead, List.length_cons]
  omega

/-! ## Operations that do not -/

theorem trackers_destroyAll (w : World) (entries : List ConnectionEntry) :
    (entries.foldl mfsPoolDestroyConnection w).trackers = w.trackers ∧
      (entries.foldl mfsPoolDestroyConnection w).env = w.env := by
  induction entries generalizing w with
  | nil => exact ⟨rfl, rfl⟩
  | cons entry entries ih => exact ih (mfsPoolDestroyConnection w entry)

/-- The entries that are destroyed make no difference to the pool. -/
theorem trackers_expireTracker (w : World) (i : ℕ) :
    (expireTracker w i).trackers = (mfsPoolGetExpiredTrackers w i).2.trackers :=
  (trackers_destroyAll _ _).1

theorem clock_expireTracker (w : World) (i : ℕ) :
    (expireTracker w i).env.clock = w.env.clock.tail :=
  congrArg Env.clock (trackers_destroyAll _ _).2

theorem connectionCount_getExpired (w : World) (i j : ℕ) :
    ((mfsPoolGetExpiredTrackers w i).2.trackers.connectionPools j).connectionCount =
      (w.trackers.connectionPools j).connectionCount := by
  by_cases hj : j = i
  · subst hj
    rw [(mfsPoolGetExpiredTrackers_eq w j).2]
    rfl
  · exact congrArg _ (connectionPools_setConnectionPool_of_ne _ _ hj)

theorem length_getExpired_le (w : World) (i j : ℕ) :
    ((mfsPoolGetExpiredTrackers w i).2.trackers.stack j).length ≤
      (w.trackers.stack j).length := by
  by_cases hj : j = i
  · subst hj
    rw [← stack_getExpiredTrackers w j, List.length_append]
    omega
  · rw [stack_getExpiredTrackers_of_ne w hj]

/-- Nothing is returned exactly when the last entry is not expired. -/
theorem getExpired_eq_nil_iff (w : World) (i : ℕ) :
    (mfsPoolGetExpiredTrackers w i).1 = [] ↔ NothingExpired w.trackers i w.env.clock.head := by
  rw [(mfsPoolGetExpiredTrackers_eq w i).1, ConnectionPool.expired, List.rtakeWhile_eq_nil_iff]
  constructor
  · intro h entry hentry
    obtain ⟨hne, rfl⟩ := List.mem_getLast?_eq_getLast hentry
    exact Bool.eq_false_iff.mpr (h hne)
  · intro h hne
    exact Bool.eq_false_iff.mp (h _ (List.getLast_mem_getLast? hne))

theorem trackers_getExpired {w : World} {i : ℕ}
    (h : NothingExpired w.trackers i w.env.clock.head) :
    (mfsPoolGetExpiredTrackers w i).2.trackers = w.trackers := by
  have hnil := (getExpired_eq_nil_iff w i).mpr h
  have hstack : ((w.trackers.connectionPools i).withoutExpired w.env.clock.head).connectionStack =
      w.trackers.stack i := by
    rw [← stack_getExpiredTrackers w i, hnil, List.append_nil, TrackerPool.stack,
      (mfsPoolGetExpiredTrackers_eq w i).2]
  have hsame : (w.trackers.connectionPools i).withoutExpired w.env.clock.head =
      w.trackers.connectionPools i :=
    congrArg (fun stack => { w.trackers.connectionPools i with connectionStack := stack }) hstack
  change w.trackers.setConnectionPool i
    ((w.trackers.connectionPools i).withoutExpired w.env.clock.head) = w.trackers
  rw [hsame, TrackerPool.setConnectionPool, Function.update_eq_self]

/-- What is taken out is not counted. -/
theorem tooLarge_getExpired {w : World} (h : w.trackers.CountsAgree) {i : ℕ}
    (hexpired : ¬NothingExpired w.trackers i w.env.clock.head) :
    ((mfsPoolGetExpiredTrackers w i).2.trackers.stack i).length <
      ((mfsPoolGetExpiredTrackers w i).2.trackers.connectionPools i).connectionCount := by
  rw [← getExpired_eq_nil_iff] at hexpired
  have hpos := List.length_pos_of_ne_nil hexpired
  have hsplit := congrArg List.length (stack_getExpiredTrackers w i)
  rw [List.length_append] at hsplit
  have hcount := h.eq i
  rw [connectionCount_getExpired]
  omega

theorem not_countsAgree_of_tooLarge {pool : TrackerPool} {j : ℕ}
    (h : (pool.stack j).length < (pool.connectionPools j).connectionCount) : ¬pool.CountsAgree :=
  fun hagree => absurd (hagree.eq j) (ne_of_gt h)

theorem countsAgree_getExpired_iff {w : World} (h : w.trackers.CountsAgree) (i : ℕ) :
    (mfsPoolGetExpiredTrackers w i).2.trackers.CountsAgree ↔
      NothingExpired w.trackers i w.env.clock.head := by
  by_cases hexpired : NothingExpired w.trackers i w.env.clock.head
  · rw [trackers_getExpired hexpired]
    exact iff_of_true h hexpired
  · exact iff_of_false (not_countsAgree_of_tooLarge (tooLarge_getExpired h hexpired)) hexpired

/-- A count that is too large stays so while trackers are visited. -/
theorem tooLarge_expireTrackers {w : World} {j : ℕ}
    (h : (w.trackers.stack j).length < (w.trackers.connectionPools j).connectionCount)
    (trackerIndexes : List ℕ) :
    ¬(trackerIndexes.foldl expireTracker w).trackers.CountsAgree := by
  induction trackerIndexes generalizing w with
  | nil => exact not_countsAgree_of_tooLarge h
  | cons i trackerIndexes ih =>
    refine ih ?_
    have hle := length_getExpired_le w i j
    rw [trackers_expireTracker, connectionCount_getExpired]
    omega

/-- Going over trackers keeps the counts exactly when no entry expires on the way. -/
theorem countsAgree_expireTrackers_iff {w : World} (h : w.trackers.CountsAgree)
    (trackerIndexes : List ℕ) :
    (trackerIndexes.foldl expireTracker w).trackers.CountsAgree ↔
      ∀ k i, trackerIndexes[k]? = some i → NothingExpired w.trackers i (w.env.clock.get k) := by
  induction trackerIndexes generalizing w with
  | nil => exact iff_of_true h nofun
  | cons i trackerIndexes ih =>
    by_cases hexpired : NothingExpired w.trackers i w.env.clock.head
    · have hsame : (expireTracker w i).trackers = w.trackers := by
        rw [trackers_expireTracker, trackers_getExpired hexpired]
      have hrest := ih (hsame.symm ▸ h : (expireTracker w i).trackers.CountsAgree)
      rw [List.foldl_cons, hrest, hsame, clock_expireTracker]
      constructor
      · intro hlater k j hk
        cases k with
        | zero =>
          obtain rfl : i = j := by simpa using hk
          exact hexpired
        | succ k => exact hlater k j hk
      · exact fun hall k j hk => hall (k + 1) j hk
    · have hlarge := tooLarge_getExpired h hexpired
      rw [← trackers_expireTracker] at hlarge
      exact iff_of_false (tooLarge_expireTrackers hlarge trackerIndexes)
        fun hall => hexpired (hall 0 i rfl)

theorem countsAgree_expireActive_iff {w : World} (h : w.trackers.CountsAgree) :
    (mfsPoolExpireActiveTrackers w).trackers.CountsAgree ↔
      CountMove.NoneExpires w .expireActive := by
  unfold mfsPoolExpireActiveTrackers CountMove.NoneExpires
  cases hlist : mfsPoolListActiveTrackers w.trackers w.env.rand.head with
  | none => exact iff_of_true h nofun
  | some list =>
    simp only [Option.some.injEq, forall_eq', expireLoop_eq]
    exact countsAgree_expireTrackers_iff
      (w := { w with env := { w.env with rand := w.env.rand.tail } }) h list.unvisited

/-! ## Runs -/

theorem countsAgree_apply_iff (w : World) (move : CountMove) (h : w.trackers.CountsAgree) :
    (move.apply w).trackers.CountsAgree ↔ move.NoneExpires w := by
  cases move with
  | getConnection i createNew => exact iff_of_true (countsAgree_getConnection h i createNew) trivial
  | returnConnection i entry => exact iff_of_true (countsAgree_returnConnection h i entry) trivial
  | deactivate i => exact iff_of_true (countsAgree_deactivate h i) trivial
  | getExpired i => exact countsAgree_getExpired_iff h i
  | expireActive => exact countsAgree_expireActive_iff h

theorem connectionCount_mfsPoolRegisterTracker (pool : TrackerPool) (r : Registration) (i : ℕ) :
    ((mfsPoolRegisterTracker pool r).connectionPools i).connectionCount =
      (pool.connectionPools i).connectionCount := by
  by_cases hr : pool.Registers r
  · rw [mfsPoolRegisterTracker_connectionPools hr]
    by_cases hi : i = pool.trackerCount
    · rw [hi, Function.update_self]
    · rw [Function.update_of_ne hi]
  · rw [mfsPoolRegisterTracker_connectionPools_of_not hr]

theorem countsAgree_registeredPool (n : ℕ) (palloc : PoolMemory)
    (registrations : List Registration) : (registeredPool n palloc registrations).CountsAgree := by
  refine countsAgree_of_eq fun i => ?_
  rw [stack_registeredPool, List.length_nil, registeredPool]
  have hfold : ∀ (registrations : List Registration) (pool : TrackerPool),
      ((registrations.foldl mfsPoolRegisterTracker pool).connectionPools i).connectionCount =
        (pool.connectionPools i).connectionCount := by
    intro registrations
    induction registrations with
    | nil => exact fun _ => rfl
    | cons r registrations ih =>
      exact fun pool => (ih _).trans (connectionCount_mfsPoolRegisterTracker pool r i)
  exact hfold registrations _

/-- In every state of a run every count is the number of entries exactly as long as no entry
    expires. -/
theorem connectionCount_iff (n : ℕ) (palloc : PoolMemory) (registrations : List Registration)
    (env : Env) (moves : List CountMove) :
    Throughout CountMove.apply (fun w => w.trackers.CountsAgree)
        ⟨registeredPool n palloc registrations, env, 0, []⟩ moves ↔
      Meets CountMove.apply (fun w move => move.NoneExpires w)
        ⟨registeredPool n palloc registrations, env, 0, []⟩ moves :=
  invariant_iff_meets countsAgree_apply_iff (countsAgree_registeredPool n palloc registrations)

/-- The clock of a pool whose only tracker has a connection returned at time 0, which expires after
    100 seconds. -/
def expiringEnv : Env :=
  { (oneTrackerWorld [] .success []).env with
    clock := Stream'.cons 0 (Stream'.const 100000000) }

/-- The connection is gone, and still counted. -/
theorem expired_still_counted :
    ¬Throughout CountMove.apply (fun w => w.trackers.CountsAgree)
        ⟨registeredPool 1 zeroMemory [plainRegistration], expiringEnv, 0, []⟩
        [.getConnection 0 true, .returnConnection 0 ⟨0, 0⟩, .getExpired 0] ∧
      ((run CountMove.apply ⟨registeredPool 1 zeroMemory [plainRegistration], expiringEnv, 0, []⟩
        [.getConnection 0 true, .returnConnection 0 ⟨0, 0⟩, .getExpired 0]).trackers.connectionPools
          0).connectionCount = 1 ∧
      (run CountMove.apply ⟨registeredPool 1 zeroMemory [plainRegistration], expiringEnv, 0, []⟩
        [.getConnection 0 true, .returnConnection 0 ⟨0, 0⟩, .getExpired 0]).trackers.stack 0 = [] :=
  ⟨fun h => absurd ((h 3).eq 0) (by decide +kernel), by decide +kernel, by decide +kernel⟩

end MogileFs
