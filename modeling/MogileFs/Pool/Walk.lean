import MogileFs.Pool.Iteration
import MogileFs.Pool.Partition

/-!
# A whole walk over a tracker list

A caller of `mfs_pool_next_tracker` (`src/pool.c`, lines 183–200) connects and
sends between its calls, and then the pool the list was copied from changes: a
tracker that cannot be reached is deactivated, one that answers is activated.
A run here is any order of calls on the list and operations on the pool.

Results:
* `mfsPoolNextTracker_fresh`, `mfsPoolNextTracker_cyclic`: where one call goes.
* `walk_visits`: the calls visit the snapshot from its start round to its
  start, every position once, and then return NULL.
-/

namespace MogileFs

open Runs

/-! ## Runs -/

/-- What one call shows: the tracker (`none` is NULL) and, behind it,
    `current_position` and `mfs_pool_current_tracker_index`. -/
structure WalkVisit where
  tracker : Option ℕ
  position : Option ℕ
  trackerIndex : ℕ
deriving DecidableEq

/-- A list being walked, the pool, and the calls so far. -/
structure Walk where
  list : TrackerList
  world : World
  visits : List WalkVisit

/-- A call of `mfs_pool_next_tracker`, or an operation on the pool. -/
inductive WalkMove
  | next
  | pool (op : PoolOp)

def WalkMove.isNext : WalkMove → Bool
  | .next => true
  | .pool _ => false

def Walk.step (s : Walk) : WalkMove → Walk
  | .next =>
    let (tracker, list) := mfsPoolNextTracker s.list
    { s with
      list := list
      visits := s.visits ++ [⟨tracker, list.currentPosition, mfsPoolCurrentTrackerIndex list⟩] }
  | .pool op => { s with world := op.step s.world }

/-! ## The positions in order -/

/-- The position `k` places behind the start, round the end of the array. -/
def TrackerList.cyclic (list : TrackerList) (k : ℕ) : ℕ :=
  (list.startPostion + k) % list.trackerIndexes.length

/-- The visit of a position. -/
def TrackerList.visitAt (list : TrackerList) (position : ℕ) : WalkVisit where
  tracker := list.trackerIndexes[position]?
  position := some position
  trackerIndex := list.trackerIndexes.getD position 0

/-- A walk to its end: every position from the start on, and then NULL with the
    cursor back at the start. -/
def TrackerList.visits (list : TrackerList) : List WalkVisit :=
  (List.range list.trackerIndexes.length).map (fun k => list.visitAt (list.cyclic k)) ++
    [{ list.visitAt list.startPostion with tracker := none }]

theorem TrackerList.cyclic_lt (list : TrackerList) (k : ℕ) :
    list.cyclic k < list.trackerIndexes.length :=
  Nat.mod_lt _ (Nat.zero_lt_of_lt list.start_lt)

theorem TrackerList.cyclic_zero (list : TrackerList) : list.cyclic 0 = list.startPostion :=
  Nat.mod_eq_of_lt list.start_lt

/-- The next position, before the end of the array and at it. -/
theorem TrackerList.cyclic_succ (list : TrackerList) (k : ℕ) :
    list.cyclic (k + 1) =
      if list.cyclic k + 1 < list.trackerIndexes.length then list.cyclic k + 1 else 0 := by
  have hlt := list.cyclic_lt k
  show (list.startPostion + (k + 1)) % _ = _
  rw [← Nat.add_assoc, Nat.add_mod, ← TrackerList.cyclic]
  split_ifs with hnext
  · rw [Nat.mod_eq_of_lt (b := list.trackerIndexes.length) (a := 1) (by omega),
      Nat.mod_eq_of_lt hnext]
  · have hend : list.cyclic k + 1 = list.trackerIndexes.length := by omega
    rw [Nat.add_mod_mod, hend, Nat.mod_self]

/-- The start comes again after one round, and not before. -/
theorem TrackerList.cyclic_eq_start_iff (list : TrackerList) {k : ℕ} (hpos : 0 < k)
    (hk : k ≤ list.trackerIndexes.length) :
    list.cyclic k = list.startPostion ↔ k = list.trackerIndexes.length := by
  have hstart := list.start_lt
  unfold TrackerList.cyclic
  constructor
  · intro h
    by_contra hne
    have hlt : k < list.trackerIndexes.length := by omega
    by_cases hwrap : list.startPostion + k < list.trackerIndexes.length
    · rw [Nat.mod_eq_of_lt hwrap] at h
      omega
    · rw [Nat.mod_eq_sub_mod (by omega), Nat.mod_eq_of_lt (by omega)] at h
      omega
  · intro h
    rw [h, Nat.add_mod_right, Nat.mod_eq_of_lt hstart]

/-- A round has every position once. -/
theorem TrackerList.cyclic_perm (list : TrackerList) :
    ((List.range list.trackerIndexes.length).map list.cyclic).Perm
      (List.range list.trackerIndexes.length) := by
  have hrotate : (List.range list.trackerIndexes.length).map list.cyclic =
      (List.range list.trackerIndexes.length).rotate list.startPostion := by
    refine List.ext_getElem (by simp) ?_
    intro k h1 h2
    rw [List.getElem_map, List.getElem_range, List.getElem_rotate, List.getElem_range,
      List.length_range, Nat.add_comm]
    rfl
  rw [hrotate]
  exact List.rotate_perm _ _

theorem TrackerList.visitAt_tracker {list : TrackerList} {position : ℕ}
    (h : position < list.trackerIndexes.length) :
    (list.visitAt position).tracker = some (list.visitAt position).trackerIndex := by
  show list.trackerIndexes[position]? = some (list.trackerIndexes.getD position 0)
  rw [List.getElem?_eq_getElem h, List.getD_eq_getElem _ _ h]

/-- The visit number `j` of a walk, counted from 0. -/
theorem TrackerList.visits_getElem? (list : TrackerList) {j : ℕ}
    (hj : j ≤ list.trackerIndexes.length) :
    list.visits[j]? = some { list.visitAt (list.cyclic j) with
      tracker := if j = list.trackerIndexes.length then none
        else list.trackerIndexes[list.cyclic j]? } := by
  unfold TrackerList.visits
  by_cases hend : j = list.trackerIndexes.length
  · have hstart : list.cyclic j = list.startPostion :=
      (list.cyclic_eq_start_iff (by have := list.start_lt; omega) hj).mpr hend
    rw [List.getElem?_append_right (by simp [hend]), hstart]
    simp [hend]
  · have hlt : j < list.trackerIndexes.length := by omega
    rw [List.getElem?_append_left (by simpa using hlt), if_neg hend]
    simp [hlt, TrackerList.visitAt]

/-! ## One call -/

/-- The list after `j` calls. -/
def TrackerList.after (list : TrackerList) : ℕ → TrackerList
  | 0 => list
  | k + 1 => list.moveTo (list.cyclic k) (list.cyclic_lt k)

/-- The first call goes to the start. -/
theorem mfsPoolNextTracker_fresh {list : TrackerList} (h : list.currentPosition = none) :
    mfsPoolNextTracker list =
      (list.trackerIndexes[list.startPostion]?, list.moveTo list.startPostion list.start_lt) := by
  unfold mfsPoolNextTracker
  rw [h]
  show (some (mfsPoolCurrentTrackerIndex (list.moveTo list.startPostion list.start_lt)), _) = _
  rw [mfsPoolCurrentTrackerIndex_moveTo, List.getElem?_eq_getElem list.start_lt]

/-- A later call goes one position on, and returns NULL back at the start. -/
theorem mfsPoolNextTracker_cyclic {list : TrackerList} {k : ℕ}
    (h : list.currentPosition = some (list.cyclic k)) :
    mfsPoolNextTracker list =
      (if list.cyclic (k + 1) = list.startPostion then none
        else list.trackerIndexes[list.cyclic (k + 1)]?,
        list.moveTo (list.cyclic (k + 1)) (list.cyclic_lt (k + 1))) := by
  have hlt := list.cyclic_lt (k + 1)
  have hsucc := list.cyclic_succ k
  unfold mfsPoolNextTracker
  rw [h]
  simp only
  split_ifs at hsucc with hnext
  · rw [dif_pos hnext]
    simp only [hsucc, mfsPoolCurrentTrackerIndex_moveTo, List.getElem?_eq_getElem hnext]
    split_ifs <;> rfl
  · rw [dif_neg hnext]
    have hzero : 0 < list.trackerIndexes.length := by omega
    simp only [hsucc, mfsPoolCurrentTrackerIndex_moveTo, List.getElem?_eq_getElem hzero]
    split_ifs <;> rfl

/-- Call number `j` on a list not started yet. -/
theorem mfsPoolNextTracker_after {list : TrackerList} (h : list.currentPosition = none) {j : ℕ}
    (hj : j ≤ list.trackerIndexes.length) :
    mfsPoolNextTracker (list.after j) =
      (if j = list.trackerIndexes.length then none else list.trackerIndexes[list.cyclic j]?,
        list.after (j + 1)) := by
  have hstart := list.start_lt
  rcases j with _ | k
  · show mfsPoolNextTracker list = (_, list.moveTo (list.cyclic 0) (list.cyclic_lt 0))
    rw [if_neg (show 0 ≠ list.trackerIndexes.length by omega)]
    simp only [list.cyclic_zero]
    exact mfsPoolNextTracker_fresh h
  · have hmoved : (list.after (k + 1)).currentPosition = some ((list.after (k + 1)).cyclic k) := rfl
    rw [mfsPoolNextTracker_cyclic hmoved]
    show (if list.cyclic (k + 1) = list.startPostion then none else _, _) = _
    simp only [list.cyclic_eq_start_iff (Nat.succ_pos k) hj]
    rfl

/-! ## The run -/

/-- Where the walk over `list` stands. The list is followed up to the call that
    returns NULL. -/
structure Walk.Along (list : TrackerList) (s : Walk) : Prop where
  cursor : s.visits.length ≤ list.trackerIndexes.length → s.list = list.after s.visits.length
  visits : s.visits.take (list.trackerIndexes.length + 1) = list.visits.take s.visits.length

theorem walk_along_step {list : TrackerList} (h : list.currentPosition = none) (s : Walk)
    (move : WalkMove) (hs : s.Along list) : (s.step move).Along list := by
  cases move with
  | pool op => exact ⟨hs.cursor, hs.visits⟩
  | next =>
    have hgrown : (s.step .next).visits.length = s.visits.length + 1 := List.length_append
    by_cases hj : s.visits.length ≤ list.trackerIndexes.length
    · have hcall := mfsPoolNextTracker_after h hj
      rw [← hs.cursor hj] at hcall
      have hlist : (s.step .next).list = list.after (s.visits.length + 1) := by
        show (mfsPoolNextTracker s.list).2 = _
        rw [hcall]
      refine ⟨fun _ => by rw [hgrown]; exact hlist, ?_⟩
      have htaken := hs.visits
      rw [List.take_of_length_le (by omega)] at htaken
      rw [List.take_of_length_le (by omega), hgrown, List.take_add_one,
        list.visits_getElem? hj, ← htaken]
      have hvisit : (s.step .next).visits = s.visits ++ [⟨(mfsPoolNextTracker s.list).1,
          (mfsPoolNextTracker s.list).2.currentPosition,
          mfsPoolCurrentTrackerIndex (mfsPoolNextTracker s.list).2⟩] := rfl
      rw [hvisit, hcall]
      rfl
    · -- what follows the NULL is not looked at
      refine ⟨fun hle => by omega, ?_⟩
      have hfull : list.visits.length = list.trackerIndexes.length + 1 := by
        simp [TrackerList.visits]
      have htaken := hs.visits
      rw [List.take_of_length_le (l := list.visits) (by omega)] at htaken
      rw [hgrown, List.take_of_length_le (l := list.visits) (by omega), ← htaken]
      show (s.visits ++ [_]).take _ = _
      rw [List.take_append_of_le_length (by omega)]

/-- Every call of `mfs_pool_next_tracker` is a visit. -/
theorem walk_visits_length (s : Walk) (moves : List WalkMove) :
    (run Walk.step s moves).visits.length = s.visits.length + moves.countP WalkMove.isNext := by
  induction moves generalizing s with
  | nil => rfl
  | cons move moves ih =>
    rw [run_cons, ih]
    cases move with
    | next =>
      show (s.visits ++ [_]).length + _ = _
      rw [List.length_append, List.countP_cons_of_pos rfl, List.length_singleton]
      omega
    | pool op =>
      rw [List.countP_cons_of_neg (by simp [WalkMove.isNext])]
      rfl

/-- Whatever happens to the pool between the calls, the calls on a list not
    started yet visit the positions of its copy from the start on, round the
    end, and the one behind these returns NULL. The positions visited are all
    positions, each once, and `mfs_pool_current_tracker_index` names the tracker
    just returned. -/
theorem walk_visits (list : TrackerList) (h : list.currentPosition = none) (w : World)
    (moves : List WalkMove) :
    (run Walk.step ⟨list, w, []⟩ moves).visits.length = moves.countP WalkMove.isNext ∧
    (run Walk.step ⟨list, w, []⟩ moves).visits.take (list.trackerIndexes.length + 1) =
      ((List.range list.trackerIndexes.length).map (fun k =>
        list.visitAt ((list.startPostion + k) % list.trackerIndexes.length)) ++
        [{ list.visitAt list.startPostion with tracker := none }]).take (moves.countP WalkMove.isNext) ∧
    ((List.range list.trackerIndexes.length).map (fun k =>
      (list.startPostion + k) % list.trackerIndexes.length)).Perm
        (List.range list.trackerIndexes.length) ∧
    ∀ position < list.trackerIndexes.length,
      (list.visitAt position).tracker = some (list.visitAt position).trackerIndex := by
  have hlength := walk_visits_length ⟨list, w, []⟩ moves
  rw [List.length_nil, Nat.zero_add] at hlength
  have hrun : Walk.Along list (run Walk.step ⟨list, w, []⟩ (moves.take moves.length)) :=
    throughout_of_steps (walk_along_step h) (s := ⟨list, w, []⟩)
      ⟨fun _ => rfl, rfl⟩ moves.length
  rw [List.take_length] at hrun
  refine ⟨hlength, ?_, list.cyclic_perm, fun position => TrackerList.visitAt_tracker⟩
  rw [hrun.visits, hlength]
  rfl

/-- A copy of three indexes, to be walked from the last one on. -/
def threeTrackers : TrackerList where
  trackerIndexes := [4, 7, 9]
  startPostion := 2
  currentPosition := none
  start_lt := by decide
  current_lt := by simp

/-- Its walk, while two trackers of the pool change lists. -/
theorem walk_visits_three :
    (run Walk.step ⟨threeTrackers, oneTrackerWorld [] .success [], []⟩
      [.next, .pool (.deactivate 0), .next, .pool (.activate 7), .next, .next]).visits.take 4 =
      [⟨some 9, some 2, 9⟩, ⟨some 4, some 0, 4⟩, ⟨some 7, some 1, 7⟩, ⟨none, some 2, 9⟩] :=
  (walk_visits threeTrackers rfl (oneTrackerWorld [] .success [])
    [.next, .pool (.deactivate 0), .next, .pool (.activate 7), .next, .next]).2.1.trans (by decide)

end MogileFs
