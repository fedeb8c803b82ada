import MogileFs.Pool.Partition

/-!
# The bounds of the index arrays

`active_trackers` and `inactive_trackers` have `max_tracker_count` slots each (`src/pool.c`, lines
77 and 79). `remove_from_array` (lines 203–215) moves down what is behind the value it has found,
the slot behind the last entry included, which is behind the array when the array is full.

Results:
* `mem_removeFromArrayTrace`: the slots that `remove_from_array` touches.
* `inBounds_iff`: the calls that stay inside the arrays.
* `arrays_inBounds_iff`: the same for the calls of a run.
-/

namespace MogileFs

open Cells Runs

/-! ## `remove_from_array` -/

/-- One pass of the loop of `remove_from_array` (lines 206–213), with the indexes it reads and
    writes. -/
def removeFromArrayPass (test : ℕ) (s : (Bool × (ℕ → ℕ)) × List ℕ) (i : ℕ) :
    (Bool × (ℕ → ℕ)) × List ℕ :=
  let ((found, values), touched) := s
  if found then ((true, Function.update values i (values (i + 1))), touched ++ [i + 1, i])
  else if values i = test then
    ((true, Function.update values i (values (i + 1))), touched ++ [i, i + 1, i])
  else ((found, values), touched ++ [i])

/-- `remove_from_array` (lines 203–215), with the indexes it reads and writes. -/
def removeFromArrayTrace (values : ℕ → ℕ) (length test : ℕ) : (Bool × (ℕ → ℕ)) × List ℕ :=
  (List.range length).foldl (removeFromArrayPass test) ((false, values), [])

theorem removeFromArrayTrace_succ (values : ℕ → ℕ) (length test : ℕ) :
    removeFromArrayTrace values (length + 1) test =
      removeFromArrayPass test (removeFromArrayTrace values length test) length := by
  rw [removeFromArrayTrace, List.range_succ, List.foldl_append]
  rfl

theorem removeFromArrayPass_fst (test : ℕ) (s : (Bool × (ℕ → ℕ)) × List ℕ) (i : ℕ) :
    (removeFromArrayPass test s i).1 = removeFromArrayBody test s.1 i := by
  obtain ⟨⟨found, values⟩, touched⟩ := s
  cases found with
  | true => rfl
  | false =>
    by_cases htest : values i = test
    · simp [removeFromArrayPass, removeFromArrayBody, htest]
    · simp [removeFromArrayPass, removeFromArrayBody, htest]

/-- With the indexes left out it is `remove_from_array`. -/
theorem removeFromArrayTrace_fst (values : ℕ → ℕ) (length test : ℕ) :
    (removeFromArrayTrace values length test).1 = removeFromArray values length test := by
  induction length with
  | zero => rfl
  | succ length ih =>
    rw [removeFromArrayTrace_succ, removeFromArrayPass_fst, ih, removeFromArray, removeFromArray,
      List.range_succ, List.foldl_append]
    rfl

/-- The indexes that are touched: all below the length, and the length itself when the value is
    found. -/
theorem mem_removeFromArrayTrace {values : ℕ → ℕ} {length test k : ℕ} :
    k ∈ (removeFromArrayTrace values length test).2 ↔
      k < length ∨ k = length ∧ test ∈ cells values length := by
  induction length with
  | zero => simp [removeFromArrayTrace]
  | succ length ih =>
    have hstate := removeFromArrayTrace_fst values length test
    cases htrace : removeFromArrayTrace values length test with
    | mk state touched =>
    rw [htrace] at hstate ih
    obtain rfl : state = removeFromArray values length test := hstate
    rw [removeFromArrayTrace_succ, htrace, cells_succ, List.mem_append, List.mem_singleton]
    by_cases hfound : test ∈ cells values length
    · -- the value has been found in an earlier pass
      obtain ⟨values', hremoved, -⟩ := removeFromArray_found hfound
      simp only [removeFromArrayPass, hremoved, if_true, List.mem_append, List.mem_cons,
        List.not_mem_nil, or_false, ih, hfound, and_true, true_or]
      omega
    · rw [removeFromArray_notFound hfound]
      by_cases htest : values length = test
      · simp only [removeFromArrayPass, htest, if_true, Bool.false_eq_true, if_false,
          List.mem_append, List.mem_cons, List.not_mem_nil, or_false, ih, hfound, and_false,
          or_true, and_true]
        omega
      · simp only [removeFromArrayPass, htest, if_false, Bool.false_eq_true, List.mem_append,
          List.mem_cons, List.not_mem_nil, or_false, ih, hfound, and_false, Ne.symm htest]
        omega

/-! ## The calls -/

/-- One element of an array that is read or written. -/
inductive Access
  | active (index : ℕ)
  | inactive (index : ℕ)
deriving DecidableEq

def Access.index : Access → ℕ
  | .active index => index
  | .inactive index => index

/-- The index `test` taken out of one array of `length` entries, and written behind the `count`
    entries of the other one if it was there. -/
def moveAccesses (source target : ℕ → Access) (values : ℕ → ℕ) (length count test : ℕ) :
    List Access :=
  let trace := removeFromArrayTrace values length test
  trace.2.map source ++ if trace.1.1 then [target count] else []

/-- `mfs_pool_activate` (lines 223–227). -/
def activateAccesses (pool : TrackerPool) (trackerIndex : ℕ) : List Access :=
  moveAccesses .inactive .active pool.inactiveTrackers pool.inactiveTrackerCount
    pool.activeTrackerCount trackerIndex

/-- `mfs_pool_deactivate` (lines 240–245). -/
def deactivateAccesses (pool : TrackerPool) (trackerIndex : ℕ) : List Access :=
  moveAccesses .active .inactive pool.activeTrackers pool.activeTrackerCount
    pool.inactiveTrackerCount trackerIndex

/-- The tracker that a call deactivates, if it does: in `mfs_pool_get_connection_ex` that is the one
    that cannot be reached. -/
def PoolOp.deactivates (w : World) : PoolOp → Option ℕ
  | .deactivate trackerIndex => some trackerIndex
  | .getConnection trackerIndex createNew =>
    if createNew ∧ w.trackers.stack trackerIndex = [] ∧ w.env.connect.head ≠ .success then
      some trackerIndex
    else none
  | _ => none

/-- The elements of the two arrays that a call reads and writes; `mfs_pool_register_tracker` writes
    one (line 134). -/
def PoolOp.accesses (w : World) (op : PoolOp) : List Access :=
  match op with
  | .register r => if w.trackers.Registers r then [.active w.trackers.trackerCount] else []
  | .activate trackerIndex => activateAccesses w.trackers trackerIndex
  | op => (op.deactivates w).elim [] (deactivateAccesses w.trackers)

/-- All of them lie in the `n` slots of their array. -/
def PoolOp.InBounds (n : ℕ) (w : World) (op : PoolOp) : Prop :=
  ∀ access ∈ op.accesses w, access.index < n

/-- No index is taken out of an array that is full with `n` entries. -/
def PoolOp.NotFromFull (n : ℕ) (w : World) (op : PoolOp) : Prop :=
  match op with
  | .register _ => True
  | .activate trackerIndex =>
    ¬(w.trackers.inactiveTrackerCount = n ∧ trackerIndex ∈ w.trackers.inactive)
  | op => ∀ trackerIndex ∈ op.deactivates w,
    ¬(w.trackers.activeTrackerCount = n ∧ trackerIndex ∈ w.trackers.active)

/-! ## Which calls stay inside -/

theorem removeFromArrayTrace_bounds_iff {values : ℕ → ℕ} {length test n : ℕ} (h : length ≤ n) :
    (∀ k ∈ (removeFromArrayTrace values length test).2, k < n) ↔
      ¬(length = n ∧ test ∈ cells values length) := by
  constructor
  · rintro hall ⟨rfl, hfound⟩
    exact lt_irrefl _ (hall length (mem_removeFromArrayTrace.mpr (.inr ⟨rfl, hfound⟩)))
  · intro hnot k hk
    rcases mem_removeFromArrayTrace.mp hk with hlt | ⟨rfl, hfound⟩
    · omega
    · exact lt_of_le_of_ne h fun hfull => hnot ⟨hfull, hfound⟩

/-- The other array has room for what is found. -/
theorem moveAccesses_iff {source target : ℕ → Access} (hsource : ∀ k, (source k).index = k)
    (htarget : ∀ k, (target k).index = k) {values : ℕ → ℕ} {length count test n : ℕ}
    (hlength : length ≤ n) (hcount : test ∈ cells values length → count < n) :
    (∀ access ∈ moveAccesses source target values length count test, access.index < n) ↔
      ¬(length = n ∧ test ∈ cells values length) := by
  rw [← removeFromArrayTrace_bounds_iff hlength]
  simp only [moveAccesses, removeFromArrayTrace_fst]
  constructor
  · intro h k hk
    have hlt := h (source k) (List.mem_append_left _ (List.mem_map_of_mem hk))
    rwa [hsource] at hlt
  · intro h access haccess
    rcases List.mem_append.mp haccess with haccess | haccess
    · obtain ⟨k, hk, rfl⟩ := List.mem_map.mp haccess
      rw [hsource]
      exact h k hk
    · by_cases hfound : test ∈ cells values length
      · obtain ⟨values', hremoved, -⟩ := removeFromArray_found hfound
        rw [hremoved, if_pos rfl, List.mem_singleton] at haccess
        rw [haccess, htarget]
        exact hcount hfound
      · rw [removeFromArray_notFound hfound] at haccess
        cases haccess

theorem activateAccesses_iff {pool : TrackerPool} (h : pool.Partition) (i : ℕ) :
    (∀ access ∈ activateAccesses pool i, access.index < pool.maxTrackerCount) ↔
      ¬(pool.inactiveTrackerCount = pool.maxTrackerCount ∧ i ∈ pool.inactive) := by
  have hcounts := h.counts
  have hle := h.count_le
  refine moveAccesses_iff (fun _ => rfl) (fun _ => rfl) (by omega) fun hfound => ?_
  have hpos := List.length_pos_of_mem hfound
  rw [length_cells] at hpos
  omega

theorem deactivateAccesses_iff {pool : TrackerPool} (h : pool.Partition) (i : ℕ) :
    (∀ access ∈ deactivateAccesses pool i, access.index < pool.maxTrackerCount) ↔
      ¬(pool.activeTrackerCount = pool.maxTrackerCount ∧ i ∈ pool.active) := by
  have hcounts := h.counts
  have hle := h.count_le
  refine moveAccesses_iff (fun _ => rfl) (fun _ => rfl) (by omega) fun hfound => ?_
  have hpos := List.length_pos_of_mem hfound
  rw [length_cells] at hpos
  omega

/-- The calls that stay inside the arrays are those that take nothing out of a full one. -/
theorem inBounds_iff {w : World} (h : w.trackers.Partition) (op : PoolOp) :
    op.InBounds w.trackers.maxTrackerCount w ↔ op.NotFromFull w.trackers.maxTrackerCount w := by
  cases op with
  | register r =>
    refine iff_of_true (fun access haccess => ?_) trivial
    simp only [PoolOp.accesses] at haccess
    split_ifs at haccess with hregisters
    · obtain rfl := List.mem_singleton.mp haccess
      exact lt_of_le_of_ne h.count_le hregisters.1
    · cases haccess
  | activate i => exact activateAccesses_iff h i
  | deactivate i =>
    refine (deactivateAccesses_iff h i).trans ?_
    simp [PoolOp.NotFromFull, PoolOp.deactivates]
  | getConnection i createNew =>
    simp only [PoolOp.InBounds, PoolOp.NotFromFull, PoolOp.accesses]
    cases hdeactivates : PoolOp.deactivates w (.getConnection i createNew) with
    | none => simp
    | some j => simpa using deactivateAccesses_iff h j

/-! ## Runs -/

/-- The size of the arrays stays what it was at the start. -/
theorem maxTrackerCount_step (w : World) (op : PoolOp) :
    (PoolOp.step w op).trackers.maxTrackerCount = w.trackers.maxTrackerCount := by
  have hdeactivate : ∀ (w : World) (i : ℕ),
      (mfsPoolDeactivate w i).trackers.maxTrackerCount = w.trackers.maxTrackerCount := by
    intro w i
    by_cases hi : i ∈ w.trackers.active
    · exact (mfsPoolDeactivate_lists hi).2.2.2
    · rw [mfsPoolDeactivate_of_notMem hi]
  cases op with
  | register r =>
    by_cases hr : w.trackers.Registers r
    · exact (mfsPoolRegisterTracker_lists hr).2.2.2
    · exact (mfsPoolRegisterTracker_sameLists hr).2.1
  | activate i =>
    by_cases hi : i ∈ w.trackers.inactive
    · exact (mfsPoolActivate_lists hi).2.2.2
    · rw [PoolOp.step, mfsPoolActivate_of_notMem hi]
  | deactivate i => exact hdeactivate w i
  | getConnection i createNew =>
    have hpop := (popConnection_sameLists w i).2.1
    simp only [PoolOp.step, mfsPoolGetConnectionEx]
    split_ifs
    · exact hpop
    · exact (hdeactivate _ i).trans hpop
    · exact hpop

/-- In every run of a pool of `n` trackers, the calls that meet the two lists as a partition of the
    registered indexes stay inside the arrays exactly when none of them takes an index out of a full
    array. -/
theorem arrays_inBounds_iff (n : ℕ) (palloc : PoolMemory) (env : Env) (ops : List PoolOp) :
    Meets PoolOp.step (fun w op => w.trackers.Partition → op.InBounds n w)
        ⟨mfsPoolInit n palloc, env, 0, []⟩ ops ↔
      Meets PoolOp.step (fun w op => w.trackers.Partition → op.NotFromFull n w)
        ⟨mfsPoolInit n palloc, env, 0, []⟩ ops := by
  have hguards : ∀ (w : World) (op : PoolOp), w.trackers.maxTrackerCount = n →
      ((w.trackers.Partition → op.InBounds n w) ↔ (w.trackers.Partition → op.NotFromFull n w)) := by
    rintro w op rfl
    exact forall_congr' fun h => inBounds_iff h op
  exact meets_congr (fun w op hn => (maxTrackerCount_step w op).trans hn) hguards rfl

/-- The only tracker is registered and deactivated: the slot behind the array is read. -/
theorem full_array_overrun :
    ¬Meets PoolOp.step (fun w op => w.trackers.Partition → op.InBounds 1 w)
        ⟨mfsPoolInit 1 zeroMemory, (oneTrackerWorld [] .success []).env, 0, []⟩
        [.register plainRegistration, .deactivate 0] ∧
      Access.active 1 ∈ (PoolOp.deactivate 0).accesses
        (PoolOp.step ⟨mfsPoolInit 1 zeroMemory, (oneTrackerWorld [] .success []).env, 0, []⟩
          (.register plainRegistration)) := by
  have haccess : Access.active 1 ∈ (PoolOp.deactivate 0).accesses
      (PoolOp.step ⟨mfsPoolInit 1 zeroMemory, (oneTrackerWorld [] .success []).env, 0, []⟩
        (.register plainRegistration)) := by decide +kernel
  refine ⟨fun h => ?_, haccess⟩
  have hpartition : (PoolOp.step ⟨mfsPoolInit 1 zeroMemory, (oneTrackerWorld [] .success []).env,
      0, []⟩ (.register plainRegistration)).trackers.Partition :=
    TrackerPool.partition_of_perm (by decide +kernel) (by decide +kernel)
  exact lt_irrefl _ (h.2.1 hpartition _ haccess)

end MogileFs
