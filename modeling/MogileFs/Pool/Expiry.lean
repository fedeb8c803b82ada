import MogileFs.Pool.TrackerPool

/-!
# Connections that have not been used for a while

`mfs_pool_get_expired_trackers` (`src/pool.c`, lines 443–469) unlinks the end of a stack: from the
last entry backwards, those last used before the cutoff.

Results:
* `stack_getExpiredTrackers`: the stack is split between what stays and what is returned.
-/

namespace MogileFs

/-- `MFS_CONNECTION_EXPIRE_TIME`, in seconds. -/
def mfsConnectionExpireTime : ℤ := 60

/-- `mfs_pool_get_expired_trackers` (lines 443–469): the entries in the order in which the caller
    destroys them. `connection_count` is left as it is. -/
def mfsPoolGetExpiredTrackers (w : World) (trackerIndex : ℕ) : List ConnectionEntry × World :=
  let cp := w.trackers.connectionPools trackerIndex
  let cutoff := w.env.clock.head - aprTimeFromSec mfsConnectionExpireTime
  let rest := cp.connectionStack.rdropWhile (·.lastUsed < cutoff)
  (cp.connectionStack.rtakeWhile (·.lastUsed < cutoff),
    { w with
      env := { w.env with clock := w.env.clock.tail }
      trackers := w.trackers.setConnectionPool trackerIndex { cp with connectionStack := rest } })

/-- What is returned was the end of the stack. -/
theorem stack_getExpiredTrackers (w : World) (i : ℕ) :
    (mfsPoolGetExpiredTrackers w i).2.trackers.stack i ++ (mfsPoolGetExpiredTrackers w i).1 =
      w.trackers.stack i := by
  simp only [mfsPoolGetExpiredTrackers, stack_setConnectionPool_self]
  exact List.rdropWhile_append_rtakeWhile

theorem stack_getExpiredTrackers_of_ne (w : World) {i j : ℕ} (h : j ≠ i) :
    (mfsPoolGetExpiredTrackers w i).2.trackers.stack j = w.trackers.stack j :=
  stack_setConnectionPool_of_ne w.trackers _ h

end MogileFs
