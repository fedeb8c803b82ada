import MogileFs.Library.Runs
import MogileFs.Pool.TrackerPool

/-!
# The active and inactive lists partition the registered trackers

`Partition` says that the two lists of a pool together hold every registered
index once. `mfs_pool_activate` and `mfs_pool_deactivate` move one index from one
list to the other and keep it. `mfs_pool_register_tracker` stores the new index
at `active_trackers[tracker_count]` instead of
`active_trackers[active_tracker_count]`, so that, with a tracker inactive, the
active list takes in whatever its first unused slot held.

Results:
* `removeFromArray_found`, `removeFromArray_notFound`: the loop of
  `remove_from_array` erases the value from the list.
* `partition_register_iff`: when a successful registration keeps the partition.
* `partition_throughout_iff`: the runs in which the partition holds throughout.
-/

namespace MogileFs

open Cells

/-! ## `remove_from_array` -/

/-- The state of the loop of `remove_from_array` after `n` passes. -/
structure RemoveInv (values : ℕ → ℕ) (test n : ℕ) (s : Bool × (ℕ → ℕ)) : Prop where
  above : ∀ i, n ≤ i → s.2 i = values i
  notFound : s.1 = false → s.2 = values ∧ ∀ i < n, values i ≠ test
  found : s.1 = true → ∃ k < n, values k = test ∧ (∀ i < k, values i ≠ test) ∧
    (∀ i < k, s.2 i = values i) ∧ ∀ i, k ≤ i → i < n → s.2 i = values (i + 1)

theorem removeInv_body {values : ℕ → ℕ} {test n : ℕ} {s : Bool × (ℕ → ℕ)}
    (h : RemoveInv values test n s) :
    RemoveInv values test (n + 1) (removeFromArrayBody test s n) := by
  obtain ⟨found, a⟩ := s
  have habove := h.above
  simp only at habove
  cases found with
  | true =>
    obtain ⟨k, hkn, hk, hfirst, hlow, hhigh⟩ := h.found rfl
    refine ⟨fun i hi => ?_, by simp [removeFromArrayBody], fun _ => ?_⟩
    · simp only [removeFromArrayBody, ite_true]
      rw [Function.update_of_ne (by omega)]
      exact habove i (by omega)
    · refine ⟨k, by omega, hk, hfirst, fun i hi => ?_, fun i h1 h2 => ?_⟩
      · simp only [removeFromArrayBody, ite_true]
        rw [Function.update_of_ne (by omega)]
        exact hlow i hi
      · simp only [removeFromArrayBody, ite_true]
        by_cases hin : i = n
        · subst hin
          rw [Function.update_self, habove _ (by omega)]
        · rw [Function.update_of_ne hin]
          exact hhigh i h1 (by omega)
  | false =>
    obtain ⟨ha, hnot⟩ := h.notFound rfl
    simp only at ha
    subst ha
    by_cases htest : a n = test
    · refine ⟨fun i hi => ?_, by simp [removeFromArrayBody, htest], fun _ => ?_⟩
      · simp only [removeFromArrayBody, htest, ite_true, Bool.false_eq_true, ite_false]
        exact Function.update_of_ne (by omega) _ _
      · refine ⟨n, by omega, htest, hnot, fun i hi => ?_, fun i h1 h2 => ?_⟩
        · simp only [removeFromArrayBody, htest, ite_true, Bool.false_eq_true, ite_false]
          exact Function.update_of_ne (by omega) _ _
        · obtain rfl : i = n := by omega
          simp [removeFromArrayBody, htest]
    · simp only [removeFromArrayBody, htest, ite_false, Bool.false_eq_true]
      refine ⟨fun i _ => rfl, fun _ => ⟨rfl, fun i hi => ?_⟩, by simp⟩
      by_cases hin : i = n
      · subst hin; exact htest
      · exact hnot i (by omega)

theorem removeInv_removeFromArray (values : ℕ → ℕ) (length test : ℕ) :
    RemoveInv values test length (removeFromArray values length test) := by
  unfold removeFromArray
  induction length with
  | zero => exact ⟨fun i _ => rfl, fun _ => ⟨rfl, by simp⟩, by simp⟩
  | succ n ih =>
    rw [List.range_succ, List.foldl_append]
    exact removeInv_body ih

theorem removeFromArray_notFound {values : ℕ → ℕ} {length test : ℕ}
    (h : test ∉ cells values length) : removeFromArray values length test = (false, values) := by
  have hinv := removeInv_removeFromArray values length test
  cases hf : (removeFromArray values length test).1 with
  | true =>
    obtain ⟨k, hk, hv, -⟩ := hinv.found hf
    exact absurd (mem_cells.mpr ⟨k, hk, hv⟩) h
  | false => exact Prod.ext hf (hinv.notFound hf).1

theorem removeFromArray_found {values : ℕ → ℕ} {length test : ℕ} (h : test ∈ cells values length) :
    ∃ values', removeFromArray values length test = (true, values') ∧
      cells values' (length - 1) = (cells values length).erase test := by
  have hinv := removeInv_removeFromArray values length test
  cases hf : (removeFromArray values length test).1 with
  | true =>
    obtain ⟨k, hk, hv, hfirst, hlow, hhigh⟩ := hinv.found hf
    exact ⟨_, Prod.ext hf rfl, cells_shift_erase hk hv hfirst hlow hhigh⟩
  | false =>
    obtain ⟨i, hi, hv⟩ := mem_cells.mp h
    exact absurd hv ((hinv.notFound hf).2 i hi)

/-! ## What the operations do to the two lists -/

/-- Only connection stacks differ. -/
def TrackerPool.SameLists (p q : TrackerPool) : Prop :=
  q.trackerCount = p.trackerCount ∧ q.maxTrackerCount = p.maxTrackerCount ∧
    q.activeTrackers = p.activeTrackers ∧ q.activeTrackerCount = p.activeTrackerCount ∧
    q.inactiveTrackers = p.inactiveTrackers ∧ q.inactiveTrackerCount = p.inactiveTrackerCount

theorem TrackerPool.SameLists.trans {p q r : TrackerPool} (h : p.SameLists q) (h' : q.SameLists r) :
    p.SameLists r := by
  unfold TrackerPool.SameLists at *
  simp_all

theorem popConnection_sameLists (w : World) (i : ℕ) :
    w.trackers.SameLists (popConnection w i).2.trackers := by
  cases hs : w.trackers.stack i with
  | nil => rw [popConnection_nil hs]; simp [TrackerPool.SameLists]
  | cons entry rest =>
    rw [popConnection_cons hs]
    simp [TrackerPool.SameLists, World.record, World.withoutFirst, TrackerPool.setConnectionPool]

theorem drainConnections_sameLists (w : World) (i : ℕ) :
    w.trackers.SameLists (drainConnections w i).trackers :=
  drainConnections_keeps (P := fun w' => w.trackers.SameLists w'.trackers)
    (fun w' h => h.trans (popConnection_sameLists w' i)) (fun _ _ h => h)
    ⟨rfl, rfl, rfl, rfl, rfl, rfl⟩

theorem mfsPoolActivate_lists {w : World} {i : ℕ} (h : i ∈ w.trackers.inactive) :
    (mfsPoolActivate w i).trackers.active = w.trackers.active ++ [i] ∧
    (mfsPoolActivate w i).trackers.inactive = w.trackers.inactive.erase i ∧
    (mfsPoolActivate w i).trackers.trackerCount = w.trackers.trackerCount ∧
    (mfsPoolActivate w i).trackers.maxTrackerCount = w.trackers.maxTrackerCount := by
  obtain ⟨values, hr, hcells⟩ := removeFromArray_found h
  unfold mfsPoolActivate
  simp only [hr, ite_true, and_true]
  exact ⟨cells_update_end _ _ _, hcells⟩

theorem mfsPoolActivate_of_notMem {w : World} {i : ℕ} (h : i ∉ w.trackers.inactive) :
    mfsPoolActivate w i = w := by
  unfold mfsPoolActivate
  simp only [removeFromArray_notFound h, Bool.false_eq_true, ite_false]

theorem mfsPoolDeactivate_lists {w : World} {i : ℕ} (h : i ∈ w.trackers.active) :
    (mfsPoolDeactivate w i).trackers.active = w.trackers.active.erase i ∧
    (mfsPoolDeactivate w i).trackers.inactive = w.trackers.inactive ++ [i] ∧
    (mfsPoolDeactivate w i).trackers.trackerCount = w.trackers.trackerCount ∧
    (mfsPoolDeactivate w i).trackers.maxTrackerCount = w.trackers.maxTrackerCount := by
  obtain ⟨values, hr, hcells⟩ := removeFromArray_found h
  unfold mfsPoolDeactivate
  simp only [hr, ite_true]
  obtain ⟨h1, h2, h3, h4, h5, h6⟩ := drainConnections_sameLists
    { w with trackers := w.trackers.markInactive values i } i
  refine ⟨?_, ?_, h1, h2⟩
  · rw [TrackerPool.active, h3, h4]; exact hcells
  · rw [TrackerPool.inactive, h5, h6]; exact cells_update_end _ _ _

theorem mfsPoolDeactivate_of_notMem {w : World} {i : ℕ} (h : i ∉ w.trackers.active) :
    mfsPoolDeactivate w i = w := by
  unfold mfsPoolDeactivate
  simp only [removeFromArray_notFound h, Bool.false_eq_true, ite_false]

/-! ## The partition -/

/-- The active and the inactive list together hold the indexes
    `0 … tracker_count - 1`, each once, and there is room for them. -/
structure TrackerPool.Partition (pool : TrackerPool) : Prop where
  perm : (pool.active ++ pool.inactive).Perm (List.range pool.trackerCount)
  counts : pool.activeTrackerCount + pool.inactiveTrackerCount = pool.trackerCount
  count_le : pool.trackerCount ≤ pool.maxTrackerCount

theorem TrackerPool.partition_of_perm {pool : TrackerPool}
    (h : (pool.active ++ pool.inactive).Perm (List.range pool.trackerCount))
    (hle : pool.trackerCount ≤ pool.maxTrackerCount) : pool.Partition := by
  refine ⟨h, ?_, hle⟩
  have := h.length_eq
  simpa [TrackerPool.active, TrackerPool.inactive] using this

theorem TrackerPool.Partition.of_sameLists {p q : TrackerPool} (h : p.Partition)
    (hs : p.SameLists q) : q.Partition := by
  obtain ⟨h1, h2, h3, h4, h5, h6⟩ := hs
  refine ⟨?_, by rw [h4, h6, h1]; exact h.counts, by rw [h1, h2]; exact h.count_le⟩
  rw [TrackerPool.active, TrackerPool.inactive, h3, h4, h5, h6, h1]
  exact h.perm

theorem partition_mfsPoolInit (n : ℕ) (palloc : PoolMemory) : (mfsPoolInit n palloc).Partition :=
  TrackerPool.partition_of_perm (List.Perm.refl _) (Nat.zero_le _)

theorem partition_mfsPoolActivate {w : World} (h : w.trackers.Partition) (i : ℕ) :
    (mfsPoolActivate w i).trackers.Partition := by
  by_cases hi : i ∈ w.trackers.inactive
  · obtain ⟨ha, hin, hc, hm⟩ := mfsPoolActivate_lists hi
    refine TrackerPool.partition_of_perm ?_ (by rw [hc, hm]; exact h.count_le)
    rw [ha, hin, hc, List.append_assoc]
    exact ((List.perm_cons_erase hi).symm.append_left _).trans h.perm
  · rw [mfsPoolActivate_of_notMem hi]; exact h

theorem partition_mfsPoolDeactivate {w : World} (h : w.trackers.Partition) (i : ℕ) :
    (mfsPoolDeactivate w i).trackers.Partition := by
  by_cases hi : i ∈ w.trackers.active
  · obtain ⟨ha, hin, hc, hm⟩ := mfsPoolDeactivate_lists hi
    refine TrackerPool.partition_of_perm ?_ (by rw [hc, hm]; exact h.count_le)
    rw [ha, hin, hc]
    calc (w.trackers.active.erase i ++ (w.trackers.inactive ++ [i])).Perm
          (w.trackers.active.erase i ++ (i :: w.trackers.inactive)) :=
            (List.perm_append_singleton i w.trackers.inactive).append_left _
      _ |>.Perm (i :: w.trackers.active.erase i ++ w.trackers.inactive) := List.perm_middle
      _ |>.Perm (w.trackers.active ++ w.trackers.inactive) :=
            (List.perm_cons_erase hi).symm.append_right _
      _ |>.Perm _ := h.perm
  · rw [mfsPoolDeactivate_of_notMem hi]; exact h

theorem partition_mfsPoolGetConnectionEx {w : World} (h : w.trackers.Partition) (i : ℕ)
    (createNew : Bool) : (mfsPoolGetConnectionEx w i createNew).2.2.trackers.Partition := by
  have hpop := h.of_sameLists (popConnection_sameLists w i)
  unfold mfsPoolGetConnectionEx mfsTrackerConnect
  simp only
  split_ifs
  · exact hpop
  · refine partition_mfsPoolDeactivate ?_ i
    exact hpop
  · exact hpop

/-! ## Registration -/

/-- A registration that fails neither in `mfs_tracker_init2` nor at its mutex. -/
def Registration.Succeeds (r : Registration) : Prop :=
  r.sockaddrInfoGet = .success ∧ r.mutexCreate = .success

instance (r : Registration) : Decidable r.Succeeds := inferInstanceAs (Decidable (_ ∧ _))

/-- `mfs_pool_register_tracker` gets to the end. -/
def TrackerPool.Registers (pool : TrackerPool) (r : Registration) : Prop :=
  pool.trackerCount ≠ pool.maxTrackerCount ∧ r.Succeeds

instance (pool : TrackerPool) (r : Registration) : Decidable (pool.Registers r) :=
  inferInstanceAs (Decidable (_ ∧ _))

/-- The next registration takes the right index into the active list: no tracker
    is inactive, or the first unused slot happens to hold the new index. -/
def TrackerPool.SlotAgrees (pool : TrackerPool) : Prop :=
  pool.inactiveTrackerCount = 0 ∨
    pool.activeTrackers pool.activeTrackerCount = pool.trackerCount

theorem mfsPoolRegisterTracker_sameLists {pool : TrackerPool} {r : Registration}
    (h : ¬ pool.Registers r) : pool.SameLists (mfsPoolRegisterTracker pool r) := by
  unfold mfsPoolRegisterTracker
  simp only
  split_ifs with hcount haddr hmutex
  · simp [TrackerPool.SameLists]
  · simp [TrackerPool.SameLists]
  · simp [TrackerPool.SameLists]
  · exact absurd ⟨hcount, not_not.mp haddr, not_not.mp hmutex⟩ h
  · exact absurd ⟨hcount, not_not.mp haddr, not_not.mp hmutex⟩ h

/-- What a successful registration leaves in the lists. -/
theorem mfsPoolRegisterTracker_lists {pool : TrackerPool} {r : Registration}
    (h : pool.Registers r) :
    (mfsPoolRegisterTracker pool r).active =
      cells (Function.update pool.activeTrackers pool.trackerCount pool.trackerCount)
        (pool.activeTrackerCount + 1) ∧
    (mfsPoolRegisterTracker pool r).inactive = pool.inactive ∧
    (mfsPoolRegisterTracker pool r).trackerCount = pool.trackerCount + 1 ∧
    (mfsPoolRegisterTracker pool r).maxTrackerCount = pool.maxTrackerCount := by
  obtain ⟨hcount, haddr, hmutex⟩ := h
  unfold mfsPoolRegisterTracker mfsPoolStartMaintenanceThread
  simp only [hcount, haddr, hmutex, ne_eq, not_true_eq_false, ite_false]
  split_ifs <;> exact ⟨rfl, rfl, rfl, rfl⟩

/-- It makes the mutex and the empty stack of its tracker. -/
theorem mfsPoolRegisterTracker_connectionPools {pool : TrackerPool} {r : Registration}
    (h : pool.Registers r) : (mfsPoolRegisterTracker pool r).connectionPools =
      Function.update pool.connectionPools pool.trackerCount
        { pool.connectionPools pool.trackerCount with lock := true, connectionStack := [] } := by
  obtain ⟨hcount, haddr, hmutex⟩ := h
  unfold mfsPoolRegisterTracker mfsPoolStartMaintenanceThread
  simp only [hcount, haddr, hmutex, ne_eq, not_true_eq_false, ite_false]
  split_ifs <;> rfl

/-- A registration that fails leaves the connection pools as they are. -/
theorem mfsPoolRegisterTracker_connectionPools_of_not {pool : TrackerPool} {r : Registration}
    (h : ¬pool.Registers r) :
    (mfsPoolRegisterTracker pool r).connectionPools = pool.connectionPools := by
  unfold mfsPoolRegisterTracker
  simp only
  split_ifs with hcount haddr hmutex
  · rfl
  · rfl
  · rfl
  · exact absurd ⟨hcount, not_not.mp haddr, not_not.mp hmutex⟩ h
  · exact absurd ⟨hcount, not_not.mp haddr, not_not.mp hmutex⟩ h

theorem TrackerPool.perm_insert_iff {active inactive : List ℕ} {n x : ℕ}
    (h : (active ++ inactive).Perm (List.range n)) :
    (active ++ [x] ++ inactive).Perm (List.range (n + 1)) ↔ x = n := by
  have hleft : (active ++ [x] ++ inactive).Perm (x :: List.range n) := by
    rw [List.append_assoc]
    exact List.perm_middle.trans (h.cons x)
  have hright : (List.range (n + 1)).Perm (n :: List.range n) := by
    rw [List.range_succ]
    exact List.perm_append_singleton n _
  constructor
  · intro hp
    have hn : n ∈ x :: List.range n := ((hleft.symm.trans hp).trans hright).mem_iff.mpr (by simp)
    exact ((List.mem_cons.mp hn).resolve_right (by simp)).symm
  · rintro rfl
    exact hleft.trans hright.symm

/-- A successful registration keeps the partition exactly when the slot it takes
    into the active list holds the new index. -/
theorem partition_register_iff {pool : TrackerPool} (h : pool.Partition) {r : Registration}
    (hr : pool.Registers r) : (mfsPoolRegisterTracker pool r).Partition ↔ pool.SlotAgrees := by
  obtain ⟨ha, hin, hc, hm⟩ := mfsPoolRegisterTracker_lists hr
  have hcounts := h.counts
  have hle := h.count_le
  have hroom := hr.1
  have hactive : (mfsPoolRegisterTracker pool r).active = pool.active ++
      [Function.update pool.activeTrackers pool.trackerCount pool.trackerCount
        pool.activeTrackerCount] := by
    rw [ha, cells_succ, cells_update_of_le (by omega)]
    rfl
  have hperm := TrackerPool.perm_insert_iff
    (x := Function.update pool.activeTrackers pool.trackerCount pool.trackerCount
      pool.activeTrackerCount) h.perm
  rw [← hactive, ← hin, ← hc] at hperm
  have hpart : (mfsPoolRegisterTracker pool r).Partition ↔
      ((mfsPoolRegisterTracker pool r).active ++ (mfsPoolRegisterTracker pool r).inactive).Perm
        (List.range (mfsPoolRegisterTracker pool r).trackerCount) :=
    ⟨fun hp => hp.perm, fun hp => TrackerPool.partition_of_perm hp (by omega)⟩
  rw [hpart, hperm, TrackerPool.SlotAgrees]
  by_cases heq : pool.activeTrackerCount = pool.trackerCount
  · rw [heq, Function.update_self]
    exact iff_of_true rfl (Or.inl (by omega))
  · rw [Function.update_of_ne heq]
    exact ⟨Or.inr, fun hs => hs.resolve_left (by omega)⟩

/-! ## Runs -/

/-- The calls that change the lists; a connect failure happens inside
    `getConnection`. -/
inductive PoolOp
  | register (r : Registration)
  | activate (trackerIndex : ℕ)
  | deactivate (trackerIndex : ℕ)
  | getConnection (trackerIndex : ℕ) (createNew : Bool)

def PoolOp.step (w : World) : PoolOp → World
  | .register r => { w with trackers := mfsPoolRegisterTracker w.trackers r }
  | .activate trackerIndex => mfsPoolActivate w trackerIndex
  | .deactivate trackerIndex => mfsPoolDeactivate w trackerIndex
  | .getConnection trackerIndex createNew => (mfsPoolGetConnectionEx w trackerIndex createNew).2.2

/-- A registration that succeeds meets a slot that agrees. -/
def PoolOp.Guard (w : World) : PoolOp → Prop
  | .register r => w.trackers.Registers r → w.trackers.SlotAgrees
  | _ => True

theorem partition_step_iff {w : World} (h : w.trackers.Partition) (op : PoolOp) :
    (PoolOp.step w op).trackers.Partition ↔ op.Guard w := by
  cases op with
  | register r =>
    by_cases hr : w.trackers.Registers r
    · exact (partition_register_iff h hr).trans ⟨fun hs _ => hs, fun hg => hg hr⟩
    · exact iff_of_true (h.of_sameLists (mfsPoolRegisterTracker_sameLists hr)) fun hr' =>
        absurd hr' hr
  | activate i => exact iff_of_true (partition_mfsPoolActivate h i) trivial
  | deactivate i => exact iff_of_true (partition_mfsPoolDeactivate h i) trivial
  | getConnection i createNew => exact iff_of_true (partition_mfsPoolGetConnectionEx h i createNew) trivial

/-- From `mfs_pool_init` on, the two lists partition the registered trackers in
    every state of a run exactly when every successful registration of the run
    finds no tracker inactive, or the new index already in the first unused
    slot of `active_trackers`. -/
theorem partition_throughout_iff (n : ℕ) (palloc : PoolMemory) (env : Env) (ops : List PoolOp) :
    Runs.Throughout PoolOp.step (fun w => w.trackers.Partition)
        ⟨mfsPoolInit n palloc, env, 0, []⟩ ops ↔
      Runs.Meets PoolOp.step (fun w op => op.Guard w) ⟨mfsPoolInit n palloc, env, 0, []⟩ ops :=
  Runs.invariant_iff_meets (fun _ op h => partition_step_iff h op) (partition_mfsPoolInit n palloc)

/-- A registration in which every outside call succeeds. -/
def plainRegistration : Registration := ⟨str "tracker", 7001, .success, .success, false⟩

/-- One tracker is registered and deactivated, then a second one registered:
    tracker 1 is in neither list. -/
theorem partition_lost_after_late_registration :
    ¬ Runs.Throughout PoolOp.step (fun w => w.trackers.Partition)
      ⟨mfsPoolInit 2 zeroMemory, (oneTrackerWorld [] .success []).env, 0, []⟩
      [.register plainRegistration, .deactivate 0, .register plainRegistration] := fun h =>
  absurd (h 3).perm (by decide +kernel)

end MogileFs
