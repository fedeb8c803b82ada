import MogileFs.Library.Runs
import MogileFs.Pool.Calls

/-!
# Snapshots of the tracker lists

`mfs_pool_list_active_trackers` and `mfs_pool_list_inactive_trackers` (`src/pool.c`, lines 143–181)
look at the count of their array, lock the pool for reading and copy the array, "so we dont have to
worry about synchronisation later on". Between the look and the copy other threads can move the
last index out of the array. The list is modelled with the integers of the source here, since the
invariants of `TrackerList` are what is in question.

Results:
* `rawNextTracker_raw`: on a list with the invariants the integers do what `mfsPoolNextTracker`
  says.
* `run_alone`: without other threads the two steps give `listTrackers`.
* `snapshot_safe_iff`: the lists are safe exactly when no empty array is copied.
-/

namespace MogileFs

open Cells Runs

/-! ## The list -/

/-- `tracker_list`; -1 is a list that has not been started. -/
structure RawTrackerList where
  trackerIndexes : List ℕ
  trackerCount : ℤ
  startPostion : ℤ
  currentPosition : ℤ

/-- The position `mfs_pool_current_tracker_index` reads (lines 194–200). -/
def RawTrackerList.position (list : RawTrackerList) : ℤ :=
  if list.currentPosition = -1 then list.startPostion else list.currentPosition

/-- `mfs_pool_next_tracker` (lines 183–192): `false` is NULL, otherwise the index at `position` is
    read. -/
def rawNextTracker (list : RawTrackerList) : Bool × RawTrackerList :=
  if list.currentPosition = -1 then
    (true, { list with currentPosition := list.startPostion })
  else
    let position := list.currentPosition + 1
    -- we have looped
    let position := if position ≥ list.trackerCount then 0 else position
    (position ≠ list.startPostion, { list with currentPosition := position })

/-- The list after `n` calls of `mfs_pool_next_tracker`. -/
def RawTrackerList.after (list : RawTrackerList) : ℕ → RawTrackerList
  | 0 => list
  | n + 1 => (rawNextTracker (list.after n)).2

/-- The list is not empty, its start lies inside, and however far it is walked, so does what is
    read. -/
structure RawTrackerList.Safe (list : RawTrackerList) : Prop where
  count : 1 ≤ list.trackerCount
  start : 0 ≤ list.startPostion ∧ list.startPostion < list.trackerCount
  reads : ∀ n, 0 ≤ (list.after n).position ∧
    (list.after n).position < (list.after n).trackerIndexes.length

/-- The integers of a list that has the invariants. -/
def TrackerList.raw (list : TrackerList) : RawTrackerList where
  trackerIndexes := list.trackerIndexes
  trackerCount := list.trackerIndexes.length
  startPostion := list.startPostion
  currentPosition :=
    match list.currentPosition with
    | none => -1
    | some position => position

/-- What is read from such a list. -/
theorem position_raw (list : TrackerList) :
    ∃ position : ℕ, list.raw.position = position ∧
      list.trackerIndexes[position]? = some (mfsPoolCurrentTrackerIndex list) := by
  unfold RawTrackerList.position TrackerList.raw mfsPoolCurrentTrackerIndex
  cases hcurrent : list.currentPosition with
  | none =>
    refine ⟨list.startPostion, rfl, ?_⟩
    rw [List.getElem?_eq_getElem list.start_lt]
    exact congrArg some (List.getD_eq_getElem _ _ list.start_lt).symm
  | some position =>
    have hlt := list.current_lt position hcurrent
    refine ⟨position, if_neg (by simp only; omega), ?_⟩
    rw [List.getElem?_eq_getElem hlt]
    exact congrArg some (List.getD_eq_getElem _ _ hlt).symm

theorem rawNextTracker_raw (list : TrackerList) :
    rawNextTracker list.raw =
      ((mfsPoolNextTracker list).1.isSome, (mfsPoolNextTracker list).2.raw) := by
  unfold rawNextTracker mfsPoolNextTracker
  cases hcurrent : list.currentPosition with
  | none =>
    simp only [TrackerList.raw, hcurrent, if_true]
    rfl
  | some position =>
    have hstarted : ((position : ℤ) = -1) = False := eq_false (by omega)
    simp only [TrackerList.raw, hcurrent, hstarted, if_false]
    by_cases hnext : position + 1 < list.trackerIndexes.length
    · have hinside : ¬((position : ℤ) + 1 ≥ list.trackerIndexes.length) := by omega
      simp only [hnext, dif_pos, if_neg hinside]
      by_cases hback : position + 1 = list.startPostion
      · have hback' : (position : ℤ) + 1 = list.startPostion := by omega
        simp [hback, hback', TrackerList.moveTo]
      · have hback' : (position : ℤ) + 1 ≠ list.startPostion := by omega
        simp [hback, hback', TrackerList.moveTo]
    · have hlooped : (position : ℤ) + 1 ≥ list.trackerIndexes.length := by omega
      simp only [hnext, dif_neg, not_false_eq_true, if_pos hlooped]
      by_cases hback : 0 = list.startPostion
      · simp [← hback, TrackerList.moveTo]
      · have hback' : (0 : ℤ) ≠ list.startPostion := by omega
        simp [hback, hback', TrackerList.moveTo]

theorem after_raw (list : TrackerList) (n : ℕ) :
    ∃ list' : TrackerList, list.raw.after n = list'.raw := by
  induction n with
  | zero => exact ⟨list, rfl⟩
  | succ n ih =>
    obtain ⟨list', h⟩ := ih
    exact ⟨(mfsPoolNextTracker list').2, by rw [RawTrackerList.after, h, rawNextTracker_raw]⟩

/-- A list that has the invariants is safe. -/
theorem safe_raw (list : TrackerList) : list.raw.Safe := by
  have hstart := list.start_lt
  refine ⟨?_, ⟨?_, ?_⟩, fun n => ?_⟩
  · simp only [TrackerList.raw]
    omega
  · simp only [TrackerList.raw]
    omega
  · simp only [TrackerList.raw]
    omega
  · obtain ⟨list', h⟩ := after_raw list n
    obtain ⟨position, hposition, hread⟩ := position_raw list'
    have hlt : position < list'.raw.trackerIndexes.length :=
      (List.getElem?_eq_some_iff.mp hread).1
    rw [h, hposition]
    omega

/-! ## Taking the copy -/

/-- One of the two arrays of the pool. -/
inductive ListKind
  | active
  | inactive

def ListKind.indexes (pool : TrackerPool) : ListKind → ℕ → ℕ
  | .active => pool.activeTrackers
  | .inactive => pool.inactiveTrackers

def ListKind.count (pool : TrackerPool) : ListKind → ℕ
  | .active => pool.activeTrackerCount
  | .inactive => pool.inactiveTrackerCount

/-- The copy under the lock, and a start in it (lines 146–160 and 166–180). -/
def copyTrackers (indexes : ℕ → ℕ) (count : ℕ) (factor : Factor) : RawTrackerList where
  trackerIndexes := cells indexes count
  trackerCount := count
  startPostion := startPostion factor count
  currentPosition := -1

/-- Where the listing thread stands. -/
inductive ListerPoint
  /-- Before it looks at the count (lines 144 and 164). -/
  | test
  /-- Before it locks the pool. -/
  | copy
  /-- It has returned; `none` is NULL. -/
  | returned (list : Option RawTrackerList)

/-- The pool, and the thread that lists one of its arrays. -/
structure Lister where
  w : World
  point : ListerPoint

/-- A step of the listing thread, or a critical section of another one. -/
inductive ListerMove
  | step (factor : Factor)
  | activate (trackerIndex : ℕ)
  | deactivate (trackerIndex : ℕ)

def ListerMove.apply (kind : ListKind) (s : Lister) : ListerMove → Lister
  | .step factor =>
    match s.point with
    | .test =>
      if kind.count s.w.trackers = 0 then { s with point := .returned none }
      else { s with point := .copy }
    | .copy =>
      let list := copyTrackers (kind.indexes s.w.trackers) (kind.count s.w.trackers) factor
      { s with point := .returned (some list) }
    | .returned _ => s
  | .activate trackerIndex => { s with w := mfsPoolActivate s.w trackerIndex }
  | .deactivate trackerIndex => { s with w := (deactivateSection s.w trackerIndex).2 }

/-- A list that has been returned is safe. -/
def Lister.Safe (s : Lister) : Prop := ∀ list, s.point = .returned (some list) → list.Safe

/-- When the array is copied, it is not empty. -/
def ListerMove.CopiesNonEmpty (kind : ListKind) (s : Lister) : ListerMove → Prop
  | .step _ => s.point = .copy → kind.count s.w.trackers ≠ 0
  | _ => True

/-- A copy of an array that is not empty is the list of `listTrackers`. -/
theorem copyTrackers_raw (indexes : ℕ → ℕ) {count : ℕ} (h : 0 < count) (factor : Factor) :
    (listTrackers indexes count factor).map TrackerList.raw =
      some (copyTrackers indexes count factor) := by
  have hstart := startPostion_nonneg factor h
  rw [listTrackers, dif_pos h, Option.map_some, TrackerList.raw, copyTrackers]
  simp only [length_cells, Int.toNat_of_nonneg hstart]

theorem copyTrackers_safe_iff (indexes : ℕ → ℕ) (count : ℕ) (factor : Factor) :
    (copyTrackers indexes count factor).Safe ↔ count ≠ 0 := by
  constructor
  · rintro h rfl
    have hcount : (1 : ℤ) ≤ 0 := h.count
    omega
  · intro h
    have hraw := copyTrackers_raw indexes (Nat.pos_of_ne_zero h) factor
    obtain ⟨list, -, hlist⟩ := Option.map_eq_some_iff.mp hraw
    exact hlist ▸ safe_raw list

theorem run_alone (kind : ListKind) (w : World) (factor factor' : Factor) :
    run (ListerMove.apply kind) ⟨w, .test⟩ [.step factor, .step factor'] =
      ⟨w, .returned ((listTrackers (kind.indexes w.trackers) (kind.count w.trackers) factor').map
        TrackerList.raw)⟩ := by
  by_cases h : kind.count w.trackers = 0
  · simp only [run_cons, run_nil, ListerMove.apply, h, if_true, listTrackers, lt_irrefl, dif_neg,
      not_false_eq_true, Option.map_none]
  · simp only [run_cons, run_nil, ListerMove.apply, h, if_false,
      copyTrackers_raw _ (Nat.pos_of_ne_zero h)]

theorem safe_apply_iff {kind : ListKind} (s : Lister) (move : ListerMove) (h : s.Safe) :
    (move.apply kind s).Safe ↔ move.CopiesNonEmpty kind s := by
  cases move with
  | activate i => exact iff_of_true h trivial
  | deactivate i => exact iff_of_true h trivial
  | step factor =>
    obtain ⟨w, point⟩ := s
    cases point with
    | returned list => exact iff_of_true h nofun
    | test =>
      refine iff_of_true (fun list hlist => ?_) nofun
      simp only [ListerMove.apply] at hlist
      by_cases hcount : kind.count w.trackers = 0
      · rw [if_pos hcount] at hlist
        cases hlist
      · rw [if_neg hcount] at hlist
        cases hlist
    | copy =>
      have hsafe := copyTrackers_safe_iff (kind.indexes w.trackers) (kind.count w.trackers) factor
      constructor
      · exact fun hnext _ => hsafe.mp (hnext _ rfl)
      · rintro hcopy list hlist
        cases hlist
        exact hsafe.mpr (hcopy rfl)

/-- Whatever other threads do between the look and the copy, the lists that come back are safe
    exactly as long as no empty array is copied. -/
theorem snapshot_safe_iff (kind : ListKind) (w : World) (moves : List ListerMove) :
    Throughout (ListerMove.apply kind) Lister.Safe ⟨w, .test⟩ moves ↔
      Meets (ListerMove.apply kind) (fun s move => move.CopiesNonEmpty kind s) ⟨w, .test⟩ moves :=
  invariant_iff_meets safe_apply_iff fun _ h => by cases h

/-- The only active tracker is deactivated between the look and the copy. The list that comes back
    is empty, and it starts one place before its array. -/
theorem empty_snapshot :
    ¬Throughout (ListerMove.apply .active) Lister.Safe ⟨oneTrackerWorld [] .success [], .test⟩
        [.step ⟨1, by decide +kernel⟩, .deactivate 0, .step ⟨1, by decide +kernel⟩] ∧
      ∃ list, (run (ListerMove.apply .active) ⟨oneTrackerWorld [] .success [], .test⟩
          [.step ⟨1, by decide +kernel⟩, .deactivate 0, .step ⟨1, by decide +kernel⟩]).point =
          .returned (some list) ∧
        list.trackerIndexes = [] ∧ list.trackerCount = 0 ∧ (list.after 1).position = -1 := by
  have hlist : ∃ list, (run (ListerMove.apply .active) ⟨oneTrackerWorld [] .success [], .test⟩
      [.step ⟨1, by decide +kernel⟩, .deactivate 0, .step ⟨1, by decide +kernel⟩]).point =
        .returned (some list) ∧
      list.trackerIndexes = [] ∧ list.trackerCount = 0 ∧ (list.after 1).position = -1 :=
    ⟨_, rfl, rfl, rfl, by decide +kernel⟩
  refine ⟨fun h => ?_, hlist⟩
  obtain ⟨list, hreturned, -, hcount, -⟩ := hlist
  have hsafe := (h 3 list hreturned).count
  omega

end MogileFs
