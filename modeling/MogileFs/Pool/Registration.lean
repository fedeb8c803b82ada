import MogileFs.Pool.Partition
import MogileFs.Tracker.Decimal

/-!
# Pools and their registrations

A pool is made by `mfs_pool_init` and filled by `mfs_pool_register_tracker`, or both are done by
`mfs_pool_init_quick` (`src/pool.c`, lines 32–57) from a list `address:port,address:port…`.

Results:
* `stack_registeredPool`: no registration puts anything into a stack.
* `mfsPoolInitQuick_eq`: `mfs_pool_init_quick` makes a pool for one tracker more than there are
  commas, and one registration for every token.
-/

namespace MogileFs

/-- A pool of `n` trackers after the registrations. -/
def registeredPool (n : ℕ) (palloc : PoolMemory) (registrations : List Registration) :
    TrackerPool :=
  registrations.foldl mfsPoolRegisterTracker (mfsPoolInit n palloc)

theorem stack_mfsPoolRegisterTracker {pool : TrackerPool} (h : ∀ i, pool.stack i = [])
    (r : Registration) (i : ℕ) : (mfsPoolRegisterTracker pool r).stack i = [] := by
  by_cases hr : pool.Registers r
  · rw [TrackerPool.stack, mfsPoolRegisterTracker_connectionPools hr]
    by_cases hi : i = pool.trackerCount
    · rw [hi, Function.update_self]
    · rw [Function.update_of_ne hi]
      exact h i
  · rw [TrackerPool.stack, mfsPoolRegisterTracker_connectionPools_of_not hr]
    exact h i

theorem stack_registeredPool (n : ℕ) (palloc : PoolMemory) (registrations : List Registration)
    (i : ℕ) : (registeredPool n palloc registrations).stack i = [] := by
  have hfold : ∀ (registrations : List Registration) (pool : TrackerPool),
      (∀ i, pool.stack i = []) → (registrations.foldl mfsPoolRegisterTracker pool).stack i = [] := by
    intro registrations
    induction registrations with
    | nil => exact fun pool h => h i
    | cons r registrations ih =>
      exact fun pool h => ih _ (stack_mfsPoolRegisterTracker h r)
  exact hfold registrations _ fun _ => rfl

/-! ## `mfs_pool_init_quick` -/

/-- What one registration meets outside. -/
structure Lookup where
  sockaddrInfoGet : AprStatus
  mutexCreate : AprStatus

/-- A token up to its `:`, and the number behind it. -/
def tokenRegistration (token : Bytes) (lookup : Lookup) (allowMaintenanceThread : Bool) :
    Registration where
  address := token.takeWhile (· ≠ ch ':')
  port := atoi ((token.dropWhile (· ≠ ch ':')).drop 1)
  sockaddrInfoGet := lookup.sockaddrInfoGet
  mutexCreate := lookup.mutexCreate
  allowMaintenanceThread := allowMaintenanceThread

/-- The loop (lines 44–55) on what is left of the list; `none` is NULL. -/
def mfsPoolInitQuickLoop (allowMaintenanceThread : Bool) (trackers : TrackerPool)
    (trackerList : Bytes) (lookups : Stream' Lookup) : Option TrackerPool :=
  match _h : aprStrtok trackerList (ch ',') with
  | none => some trackers
  | some (token, rest) =>
    if ch ':' ∈ token then
      let r := tokenRegistration token lookups.head allowMaintenanceThread
      mfsPoolInitQuickLoop allowMaintenanceThread (mfsPoolRegisterTracker trackers r) rest
        lookups.tail
    else none
termination_by trackerList.length
decreasing_by exact aprStrtok_length _h

/-- `mfs_pool_init_quick` (lines 32–57). -/
def mfsPoolInitQuick (allowMaintenanceThread : Bool) (trackerList : Bytes) (palloc : PoolMemory)
    (lookups : Stream' Lookup) : Option TrackerPool :=
  let commaCount := trackerList.count (ch ',')
  mfsPoolInitQuickLoop allowMaintenanceThread (mfsPoolInit (commaCount + 1) palloc) trackerList
    lookups

/-- The registrations of the tokens, unless one has no `:`. -/
def quickRegistrations (allowMaintenanceThread : Bool) (trackerList : Bytes)
    (lookups : Stream' Lookup) : Option (List Registration) :=
  match _h : aprStrtok trackerList (ch ',') with
  | none => some []
  | some (token, rest) =>
    if ch ':' ∈ token then
      (quickRegistrations allowMaintenanceThread rest lookups.tail).map
        (tokenRegistration token lookups.head allowMaintenanceThread :: ·)
    else none
termination_by trackerList.length
decreasing_by exact aprStrtok_length _h

theorem mfsPoolInitQuickLoop_eq (allow : Bool) (trackers : TrackerPool) (trackerList : Bytes)
    (lookups : Stream' Lookup) :
    mfsPoolInitQuickLoop allow trackers trackerList lookups =
      (quickRegistrations allow trackerList lookups).map (·.foldl mfsPoolRegisterTracker trackers) := by
  induction trackers, trackerList, lookups using mfsPoolInitQuickLoop.induct allow with
  | case1 trackers trackerList lookups h =>
    rw [mfsPoolInitQuickLoop, quickRegistrations, h]
    rfl
  | case2 trackers trackerList lookups token rest h hcolon r ih =>
    rw [mfsPoolInitQuickLoop, quickRegistrations, h]
    simp only [if_pos hcolon]
    rw [ih, Option.map_map]
    rfl
  | case3 trackers trackerList lookups token rest h hcolon =>
    rw [mfsPoolInitQuickLoop, quickRegistrations, h]
    simp only [if_neg hcolon]
    rfl

theorem mfsPoolInitQuick_eq (allow : Bool) (trackerList : Bytes) (palloc : PoolMemory)
    (lookups : Stream' Lookup) :
    mfsPoolInitQuick allow trackerList palloc lookups =
      (quickRegistrations allow trackerList lookups).map
        (registeredPool (trackerList.count (ch ',') + 1) palloc) :=
  mfsPoolInitQuickLoop_eq allow _ trackerList lookups

end MogileFs
