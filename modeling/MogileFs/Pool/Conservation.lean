import MogileFs.Pool.Matching

/-!
# No connection is lost

The users of the pool take connections from the stacks, make new ones, return them and destroy
them; `mfs_pool_expire_active_trackers` destroys what it has unlinked outside of the lock
(`src/pool.c`, lines 424–441).

Results:
* `used_subset_held`: a step acts on connections its thread holds.
* `connections_conserved`: where every connection is, in every state of every run.
-/

namespace MogileFs

open Ledger

/-- The entry the next step of a thread sends or receives on, returns or destroys, if it does. -/
def Thread.used (thread : Thread) : List ConnectionEntry :=
  match thread.point with
  | .sendWatch => thread.watchConnection.toList
  | .readline => thread.watchConnection.toList
  | .destroyWatch => thread.watchConnection.toList
  | point => point.held.take 1

theorem used_subset_held (thread : Thread) : thread.used ⊆ thread.held := by
  have hpoint : thread.point.held.take 1 ⊆ thread.held := fun _ hentry =>
    List.mem_append_right _ (List.mem_of_mem_take hentry)
  have hwatch : thread.watchConnection.toList ⊆ thread.held := List.subset_append_left ..
  unfold Thread.used
  split
  · exact hwatch
  · exact hwatch
  · exact hwatch
  · exact hpoint

variable {T : Type*} [DecidableEq T]

/-- Every connection made is in exactly one place, and once there: in the stack of the tracker it
    leads to, in the hands of one thread, or destroyed. No thread is about to use a destroyed one,
    and a thread outside of the library has kept nothing but the connection of its watch. -/
structure Users.Conserved (s : Users T) : Prop where
  onePlace : ∀ c, s.shared.w.Created c → ∃! place, c ∈ s.contents place
  once : ∀ place, (s.contents place).Nodup
  created : ∀ place, ∀ c ∈ s.contents place, s.shared.w.Created c
  home : ∀ i, ∀ c ∈ s.contents (.stack i), (s.shared.wires c).tracker = i
  live : ∀ t, ∀ entry ∈ (s.threads t).used, entry.connection ∉ s.contents .destroyed
  complete : ∀ t, (s.threads t).point = .idle →
    (s.threads t).held = (s.threads t).watchConnection.toList

omit [DecidableEq T] in
theorem Users.Matched.conserved {s : Users T} (h : s.Matched) : s.Conserved where
  onePlace _ hc := h.owned.exclusive.existsUnique hc
  once := h.owned.exclusive.nodup
  created _ _ hc := h.owned.created_of_mem hc
  home i c hc := (h.stacked i c hc).tracker
  live t entry hentry hdestroyed := by
    have hheld : entry.connection ∈ s.contents (.held t) :=
      List.mem_map_of_mem (used_subset_held _ hentry)
    exact nomatch h.owned.exclusive.unique (.held t) .destroyed _ hheld hdestroyed
  complete t hidle := by
    rw [Thread.held, hidle]
    exact List.append_nil _

/-- A pool after its registrations, and any interleaving of any number of threads that call
    `mfs_request_do`, `mfs_pool_test_inactive_trackers`, `mfs_pool_expire_active_trackers`,
    `mfs_pool_deactivate` and `get_next_watch_line`. -/
theorem connections_conserved (n : ℕ) (palloc : PoolMemory) (registrations : List Registration)
    (env : Env) (watchTracker : T → ℕ) (moves : List (UserMove T)) :
    Runs.Throughout UserMove.apply Users.Conserved
      (Users.start (registeredPool n palloc registrations) env watchTracker) moves := by
  have hmatched : Runs.Throughout UserMove.apply Users.Matched
      (Users.start (registeredPool n palloc registrations) env watchTracker) moves :=
    Runs.throughout_of_steps matched_apply (matched_start n palloc registrations env watchTracker)
  exact fun k => (hmatched k).conserved

end MogileFs
