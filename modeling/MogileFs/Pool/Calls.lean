import MogileFs.Pool.TrackerPool

/-!
# Calls of the pool, section by section

`mfs_pool_get_connection_ex` and `mfs_pool_deactivate` (`src/pool.c`, lines 234–311) lock twice
or more, and other threads run between their locked sections. `PoolCall.step` is one section:
what happens under one lock, or one call of `mfs_tracker_connect` or
`mfs_pool_destroy_connection`.

Results:
* `alone_mfsPoolDeactivate`, `alone_mfsPoolGetConnectionEx`: a call whose sections follow
  each other without interruption does what the function does.
-/

namespace MogileFs

/-- Where a call stands, in front of its next section. -/
inductive PoolCall
  /-- The locked section of `mfs_pool_get_connection_ex` (lines 267–285). -/
  | getConnection (trackerIndex : ℕ) (createNew : Bool)
  /-- `mfs_tracker_connect` (line 298). -/
  | connect (trackerIndex : ℕ)
  /-- The locked section of `mfs_pool_deactivate` (lines 235–248). -/
  | deactivate (trackerIndex : ℕ)
  /-- `mfs_pool_get_connection` in the loop of `mfs_pool_deactivate` (line 253). -/
  | drain (trackerIndex : ℕ)
  /-- `mfs_pool_destroy_connection` in that loop (line 254). -/
  | drained (trackerIndex : ℕ) (entry : ConnectionEntry)
deriving DecidableEq

/-- What a section leads to: the next one, or the return of the call with an entry (`none` is
    NULL) and `*create_new`. -/
inductive PoolStep
  | next (call : PoolCall)
  | done (entry : Option ConnectionEntry) (isNew : Bool)
deriving DecidableEq

/-- The write-locked section of `mfs_pool_deactivate`; `true` when the index was active. -/
def deactivateSection (w : World) (trackerIndex : ℕ) : Bool × World :=
  let pool := w.trackers
  let (trackerRemoved, activeTrackers) :=
    removeFromArray pool.activeTrackers pool.activeTrackerCount trackerIndex
  if trackerRemoved then
    (true, { w with trackers := pool.markInactive activeTrackers trackerIndex })
  else (false, w)

/-- One section. -/
def PoolCall.step (w : World) : PoolCall → World × PoolStep
  | .getConnection trackerIndex createNew =>
    let (nextConnectionEntry, w) := popConnection w trackerIndex
    if !createNew || nextConnectionEntry.isSome then (w, .done nextConnectionEntry false)
    else (w, .next (.connect trackerIndex))
  | .connect trackerIndex =>
    let (rv, w) := mfsTrackerConnect w trackerIndex
    if rv ≠ .success then (w, .next (.deactivate trackerIndex))
    else
      ({ w with nextConnection := w.nextConnection + 1 }, .done (some ⟨w.nextConnection, 0⟩) true)
  | .deactivate trackerIndex =>
    let (trackerRemoved, w) := deactivateSection w trackerIndex
    (w, if trackerRemoved then .next (.drain trackerIndex) else .done none true)
  | .drain trackerIndex =>
    match popConnection w trackerIndex with
    | (none, w) => (w, .done none true)
    | (some entry, w) => (w, .next (.drained trackerIndex entry))
  | .drained trackerIndex entry =>
    (mfsPoolDestroyConnection w entry, .next (.drain trackerIndex))

/-! ## A call alone -/

/-- From `w`, the sections of the call one after the other lead to `w'` and a return. -/
inductive Alone : World → PoolCall → World → Option ConnectionEntry → Bool → Prop
  | done {w w' : World} {call : PoolCall} {entry : Option ConnectionEntry} {isNew : Bool}
      (h : call.step w = (w', .done entry isNew)) : Alone w call w' entry isNew
  | next {w w₁ w' : World} {call call' : PoolCall} {entry : Option ConnectionEntry} {isNew : Bool}
      (h : call.step w = (w₁, .next call')) (hrest : Alone w₁ call' w' entry isNew) :
      Alone w call w' entry isNew

theorem alone_drainConnections (w : World) (i : ℕ) :
    Alone w (.drain i) (drainConnections w i) none true := by
  induction w using drainConnections.induct i with
  | case1 w w' h =>
    rw [drainConnections, h]
    exact .done (by rw [PoolCall.step, h])
  | case2 w entry w' h ih =>
    rw [drainConnections, h]
    exact .next (by rw [PoolCall.step, h]) (.next rfl ih)

theorem alone_mfsPoolDeactivate (w : World) (i : ℕ) :
    Alone w (.deactivate i) (mfsPoolDeactivate w i) none true := by
  unfold mfsPoolDeactivate
  simp only
  by_cases hremoved : (removeFromArray w.trackers.activeTrackers w.trackers.activeTrackerCount i).1
  · rw [if_pos hremoved]
    refine .next ?_ (alone_drainConnections _ i)
    simp only [PoolCall.step, deactivateSection, if_pos hremoved, if_true]
  · rw [if_neg hremoved]
    refine .done ?_
    simp only [PoolCall.step, deactivateSection, if_neg hremoved, Bool.false_eq_true, if_false]

theorem alone_mfsPoolGetConnectionEx (w : World) (i : ℕ) (createNew : Bool) :
    Alone w (.getConnection i createNew) (mfsPoolGetConnectionEx w i createNew).2.2
      (mfsPoolGetConnectionEx w i createNew).1 (mfsPoolGetConnectionEx w i createNew).2.1 := by
  unfold mfsPoolGetConnectionEx
  simp only
  by_cases hfound : (!createNew || (popConnection w i).1.isSome) = true
  · rw [if_pos hfound]
    exact .done (by simp only [PoolCall.step, if_pos hfound])
  · rw [if_neg hfound]
    refine .next (by simp only [PoolCall.step, if_neg hfound]; rfl) ?_
    by_cases hrv : (mfsTrackerConnect (popConnection w i).2 i).1 ≠ .success
    · rw [if_pos hrv]
      refine .next (by simp only [PoolCall.step, if_pos hrv]; rfl) ?_
      exact alone_mfsPoolDeactivate _ i
    · rw [if_neg hrv]
      exact .done (by simp only [PoolCall.step, if_neg hrv])

end MogileFs
