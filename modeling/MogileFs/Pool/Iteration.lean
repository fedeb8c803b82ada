import MogileFs.Pool.TrackerPool

/-!
# Walking a tracker list

`mfs_pool_next_tracker` goes from the random start to the end of the copied
index array, on from its beginning, and stops back at the start.
`TrackerList.unvisited` is what it has still to return.

Results:
* `mfsPoolNextTracker_unvisited`: a call returns the head of `unvisited` and
  leaves its tail; NULL means that nothing is left.
* `unvisited_perm`: a fresh list has every index of its array ahead of it, once.
-/

namespace MogileFs

/-- The trackers that calls of `mfs_pool_next_tracker` have still to return. -/
def TrackerList.unvisited (list : TrackerList) : List ℕ :=
  match list.currentPosition with
  | none =>
    list.trackerIndexes.drop list.startPostion ++ list.trackerIndexes.take list.startPostion
  | some position =>
    if list.startPostion ≤ position then
      list.trackerIndexes.drop (position + 1) ++ list.trackerIndexes.take list.startPostion
    else (list.trackerIndexes.take list.startPostion).drop (position + 1)

@[simp] theorem startPostion_moveTo (list : TrackerList) {p : ℕ}
    (h : p < list.trackerIndexes.length) : (list.moveTo p h).startPostion = list.startPostion := rfl

@[simp] theorem trackerIndexes_moveTo (list : TrackerList) {p : ℕ}
    (h : p < list.trackerIndexes.length) :
    (list.moveTo p h).trackerIndexes = list.trackerIndexes := rfl

theorem mfsPoolCurrentTrackerIndex_moveTo (list : TrackerList) {p : ℕ}
    (h : p < list.trackerIndexes.length) :
    mfsPoolCurrentTrackerIndex (list.moveTo p h) = list.trackerIndexes[p] :=
  List.getD_eq_getElem _ _ h

/-- At or behind the start, the rest of the array comes first. -/
theorem unvisited_moveTo_of_le (list : TrackerList) {p : ℕ} (h : p < list.trackerIndexes.length)
    (hs : list.startPostion ≤ p) : (list.moveTo p h).unvisited =
      list.trackerIndexes.drop (p + 1) ++ list.trackerIndexes.take list.startPostion :=
  if_pos hs

/-- Before the start, only what stands before it is left. -/
theorem unvisited_moveTo_of_lt (list : TrackerList) {p : ℕ} (h : p < list.trackerIndexes.length)
    (hs : p < list.startPostion) : (list.moveTo p h).unvisited =
      (list.trackerIndexes.take list.startPostion).drop (p + 1) :=
  if_neg (by simpa using hs)

/-- Before the start, the tracker at the cursor heads what was left. -/
theorem take_drop_cons (list : TrackerList) {p : ℕ} (h : p < list.trackerIndexes.length)
    (hs : p < list.startPostion) :
    (list.trackerIndexes.take list.startPostion).drop p =
      list.trackerIndexes[p] :: (list.trackerIndexes.take list.startPostion).drop (p + 1) := by
  rw [List.drop_eq_getElem_cons (by rw [List.length_take]; omega), List.getElem_take]

/-- One call of `mfs_pool_next_tracker`. -/
theorem mfsPoolNextTracker_unvisited (list : TrackerList) :
    match mfsPoolNextTracker list with
    | (none, _) => list.unvisited = []
    | (some tracker, list') => list.unvisited = tracker :: list'.unvisited ∧
        mfsPoolCurrentTrackerIndex list' = tracker := by
  have hstart := list.start_lt
  unfold mfsPoolNextTracker
  cases hc : list.currentPosition with
  | none =>
    -- the first call: the cursor goes to the start
    refine ⟨?_, rfl⟩
    rw [unvisited_moveTo_of_le _ hstart le_rfl, mfsPoolCurrentTrackerIndex_moveTo,
      TrackerList.unvisited, hc]
    simp only
    rw [List.drop_eq_getElem_cons hstart, List.cons_append]
  | some p =>
    have hp := list.current_lt p hc
    simp only
    split_ifs with hnext hback hback
    · simp only [TrackerList.unvisited, hc, ← hback]
      rw [if_neg (by omega), List.drop_take_self]
    · refine ⟨?_, rfl⟩
      rw [mfsPoolCurrentTrackerIndex_moveTo, TrackerList.unvisited, hc]
      simp only
      by_cases hle : list.startPostion ≤ p
      · rw [if_pos hle, unvisited_moveTo_of_le _ hnext (by omega),
          List.drop_eq_getElem_cons hnext, List.cons_append]
      · rw [if_neg hle, unvisited_moveTo_of_lt _ hnext (by omega), take_drop_cons _ hnext (by omega)]
    · -- the end of the array, and the start is at its beginning
      simp only [TrackerList.unvisited, hc, ← hback]
      rw [if_pos (Nat.zero_le _), List.drop_eq_nil_of_le (by omega)]
      simp
    · refine ⟨?_, rfl⟩
      have hzero : 0 < list.trackerIndexes.length := by omega
      rw [mfsPoolCurrentTrackerIndex_moveTo, unvisited_moveTo_of_lt _ hzero (by omega),
        ← take_drop_cons _ hzero (by omega), TrackerList.unvisited, hc]
      simp only
      rw [if_pos (by omega), List.drop_eq_nil_of_le (by omega)]
      simp

theorem unvisited_of_none {list list' : TrackerList} (h : mfsPoolNextTracker list = (none, list')) :
    list.unvisited = [] := by
  have := mfsPoolNextTracker_unvisited list
  rwa [h] at this

theorem unvisited_of_some {list list' : TrackerList} {tracker : ℕ}
    (h : mfsPoolNextTracker list = (some tracker, list')) :
    list.unvisited = tracker :: list'.unvisited := by
  have := mfsPoolNextTracker_unvisited list
  rw [h] at this
  exact this.1

theorem currentTrackerIndex_of_some {list list' : TrackerList} {tracker : ℕ}
    (h : mfsPoolNextTracker list = (some tracker, list')) :
    mfsPoolCurrentTrackerIndex list' = tracker := by
  have := mfsPoolNextTracker_unvisited list
  rw [h] at this
  exact this.2

/-- A list not started yet has all of its array ahead of it. -/
theorem unvisited_perm {list : TrackerList} (h : list.currentPosition = none) :
    list.unvisited.Perm list.trackerIndexes := by
  rw [TrackerList.unvisited, h]
  exact List.perm_append_comm.trans (by rw [List.take_append_drop])

/-- The copy has every index in use ahead of it. -/
theorem listTrackers_unvisited {indexes : ℕ → ℕ} {count : ℕ} {factor : Factor} {list : TrackerList}
    (h : listTrackers indexes count factor = some list) :
    list.unvisited.Perm (Cells.cells indexes count) := by
  unfold listTrackers at h
  split_ifs at h
  cases h
  exact unvisited_perm rfl

theorem listTrackers_none {indexes : ℕ → ℕ} {count : ℕ} {factor : Factor} :
    listTrackers indexes count factor = none ↔ Cells.cells indexes count = [] := by
  rw [← List.length_eq_zero_iff, Cells.length_cells]
  unfold listTrackers
  split_ifs with h
  · simp; omega
  · simp; omega

theorem mfsPoolListActiveTrackers_unvisited {pool : TrackerPool} {factor : Factor}
    {list : TrackerList} (h : mfsPoolListActiveTrackers pool factor = some list) :
    list.unvisited.Perm pool.active :=
  listTrackers_unvisited h

theorem mfsPoolListActiveTrackers_none {pool : TrackerPool} {factor : Factor} :
    mfsPoolListActiveTrackers pool factor = none ↔ pool.active = [] :=
  listTrackers_none

theorem mfsPoolListInactiveTrackers_unvisited {pool : TrackerPool} {factor : Factor}
    {list : TrackerList} (h : mfsPoolListInactiveTrackers pool factor = some list) :
    list.unvisited.Perm pool.inactive :=
  listTrackers_unvisited h

theorem mfsPoolListInactiveTrackers_none {pool : TrackerPool} {factor : Factor} :
    mfsPoolListInactiveTrackers pool factor = none ↔ pool.inactive = [] :=
  listTrackers_none

end MogileFs
