import MogileFs.Pool.Expiry
import MogileFs.Pool.Partition
import MogileFs.Pool.Registration

/-!
# Destroying a pool

`mfs_destroy_pool` (`src/pool.c`, lines 104–114) goes over `max_tracker_count` connection pools. The
mutex and the stack of a connection pool are made by the registration that succeeds, so that there
are `tracker_count` of them; the others are cleared memory, and a lock of theirs goes through NULL.

Results:
* `registered_run`: after any use of the pool the mutexes are those of the registered trackers, and
  only these have entries in their stacks.
* `destroy_registered`: what destroying the first connection pools does.
* `destroyPool_safe_iff`: a pool is destroyed safely exactly when as many registrations have
  succeeded as there is room for.
-/

namespace MogileFs

open Cells

/-! ## `mfs_destroy_pool` -/

/-- The connection pool of this tracker has no mutex. -/
structure Uninitialised where
  trackerIndex : ℕ
deriving DecidableEq

/-- `mfs_destroy_connection_pool` (lines 96–102); the loop is the one of `mfs_pool_deactivate`. -/
def mfsDestroyConnectionPool (w : World) (trackerIndex : ℕ) : Except Uninitialised World :=
  if (w.trackers.connectionPools trackerIndex).lock then
    let w := drainConnections w trackerIndex
    let cp := w.trackers.connectionPools trackerIndex
    .ok { w with trackers := w.trackers.setConnectionPool trackerIndex { cp with lock := false } }
  else .error ⟨trackerIndex⟩

/-- `mfs_destroy_pool` (lines 104–114). -/
def mfsDestroyPool (w : World) : Except Uninitialised World :=
  (List.range w.trackers.maxTrackerCount).foldlM mfsDestroyConnectionPool w

/-- Only initialised connection pools are locked, drained and destroyed, and every entry that was
    in a stack is destroyed. -/
def SafelyDestroyed (w : World) : Prop :=
  ∃ w', mfsDestroyPool w = .ok w' ∧ ∀ i, w'.trackers.stack i = [] ∧
    ∀ entry ∈ w.trackers.stack i, Event.destroyed entry ∈ w'.log.drop w.log.length

/-! ## The use of a pool -/

/-- An operation on a pool; what `pool.c` does to pools is made up of these. -/
inductive PoolUse
  | register (r : Registration)
  | activate (trackerIndex : ℕ)
  | deactivate (trackerIndex : ℕ)
  | getConnection (trackerIndex : ℕ) (createNew : Bool)
  | returnConnection (trackerIndex : ℕ) (entry : ConnectionEntry)
  | getExpired (trackerIndex : ℕ)
  | destroyConnection (entry : ConnectionEntry)

def PoolUse.step (w : World) : PoolUse → World
  | .register r => { w with trackers := mfsPoolRegisterTracker w.trackers r }
  | .activate trackerIndex => mfsPoolActivate w trackerIndex
  | .deactivate trackerIndex => mfsPoolDeactivate w trackerIndex
  | .getConnection trackerIndex createNew => (mfsPoolGetConnectionEx w trackerIndex createNew).2.2
  | .returnConnection trackerIndex entry => mfsPoolReturnConnection w trackerIndex entry
  | .getExpired trackerIndex => (mfsPoolGetExpiredTrackers w trackerIndex).2
  | .destroyConnection entry => mfsPoolDestroyConnection w entry

/-- The tracker whose connection pool is locked. -/
def PoolUse.locks (w : World) : PoolUse → Option ℕ
  | .deactivate trackerIndex =>
    if trackerIndex ∈ w.trackers.active then some trackerIndex else none
  | .getConnection trackerIndex _ => some trackerIndex
  | .returnConnection trackerIndex _ => some trackerIndex
  | .getExpired trackerIndex => some trackerIndex
  | _ => none

/-- An operation that finds no mutex goes through NULL. -/
def PoolUse.run (w : World) (use : PoolUse) : Except Uninitialised World :=
  match use.locks w with
  | none => .ok (use.step w)
  | some trackerIndex =>
    if (w.trackers.connectionPools trackerIndex).lock then .ok (use.step w)
    else .error ⟨trackerIndex⟩

/-- A history of operations. -/
def usePool (w : World) (uses : List PoolUse) : Except Uninitialised World :=
  uses.foldlM PoolUse.run w

def PoolUse.registers : PoolUse → Bool
  | .register r => r.Succeeds
  | _ => false

/-- A pool for `n` trackers that has seen the registrations. -/
inductive ObtainedPool : TrackerPool → ℕ → List Registration → Prop
  | init (n : ℕ) (palloc : PoolMemory) (registrations : List Registration) :
    ObtainedPool (registeredPool n palloc registrations) n registrations
  | quick {allow : Bool} {trackerList : Bytes} {palloc : PoolMemory} {lookups : Stream' Lookup}
    {pool : TrackerPool} {registrations : List Registration} :
    mfsPoolInitQuick allow trackerList palloc lookups = some pool →
    quickRegistrations allow trackerList lookups = some registrations →
    ObtainedPool pool (trackerList.count (ch ',') + 1) registrations

/-! ## The connection pools -/

/-- Nothing but the stack of one tracker differs in the connection pools. -/
structure TrackerPool.SamePools (p : TrackerPool) (touched : Option ℕ) (q : TrackerPool) :
    Prop where
  trackerCount : q.trackerCount = p.trackerCount
  maxTrackerCount : q.maxTrackerCount = p.maxTrackerCount
  lock : ∀ j, (q.connectionPools j).lock = (p.connectionPools j).lock
  stack : ∀ j, touched ≠ some j → q.stack j = p.stack j

theorem TrackerPool.SamePools.trans {p q r : TrackerPool} {touched : Option ℕ}
    (h : p.SamePools touched q) (h' : q.SamePools touched r) : p.SamePools touched r where
  trackerCount := h'.trackerCount.trans h.trackerCount
  maxTrackerCount := h'.maxTrackerCount.trans h.maxTrackerCount
  lock j := (h'.lock j).trans (h.lock j)
  stack j hj := (h'.stack j hj).trans (h.stack j hj)

theorem TrackerPool.SamePools.refl (p : TrackerPool) (touched : Option ℕ) :
    p.SamePools touched p :=
  ⟨rfl, rfl, fun _ => rfl, fun _ _ => rfl⟩

theorem samePools_setConnectionPool (p : TrackerPool) {i : ℕ} {cp : ConnectionPool}
    (h : cp.lock = (p.connectionPools i).lock) :
    p.SamePools (some i) (p.setConnectionPool i cp) where
  trackerCount := rfl
  maxTrackerCount := rfl
  lock j := by
    by_cases hj : j = i
    · subst hj
      simp [TrackerPool.setConnectionPool, h]
    · simp [TrackerPool.setConnectionPool, hj]
  stack j hj := stack_setConnectionPool_of_ne p cp fun heq => hj (heq ▸ rfl)

theorem popConnection_samePools (w : World) (i : ℕ) :
    w.trackers.SamePools (some i) (popConnection w i).2.trackers := by
  cases hs : w.trackers.stack i with
  | nil =>
    rw [popConnection_nil hs]
    exact .refl _ _
  | cons entry rest =>
    rw [popConnection_cons hs]
    exact samePools_setConnectionPool _ rfl

theorem drainConnections_samePools (w : World) (i : ℕ) :
    w.trackers.SamePools (some i) (drainConnections w i).trackers :=
  drainConnections_keeps (P := fun w' => w.trackers.SamePools (some i) w'.trackers)
    (fun w' h => h.trans (popConnection_samePools w' i)) (fun _ _ h => h) (.refl _ _)

theorem mfsPoolActivate_samePools (w : World) (i : ℕ) :
    w.trackers.SamePools none (mfsPoolActivate w i).trackers := by
  unfold mfsPoolActivate
  simp only
  split_ifs
  · exact ⟨rfl, rfl, fun _ => rfl, fun _ _ => rfl⟩
  · exact .refl _ _

theorem mfsPoolDeactivate_samePools (w : World) (i : ℕ) :
    w.trackers.SamePools (some i) (mfsPoolDeactivate w i).trackers := by
  unfold mfsPoolDeactivate
  simp only
  split_ifs
  · have hmarked : ∀ activeTrackers,
        w.trackers.SamePools (some i) (w.trackers.markInactive activeTrackers i) := fun _ =>
      ⟨rfl, rfl, fun _ => rfl, fun _ _ => rfl⟩
    exact (hmarked _).trans (drainConnections_samePools
      { w with trackers := w.trackers.markInactive _ i } i)
  · exact .refl _ _

theorem mfsPoolGetConnectionEx_samePools (w : World) (i : ℕ) (createNew : Bool) :
    w.trackers.SamePools (some i) (mfsPoolGetConnectionEx w i createNew).2.2.trackers := by
  have hpop := popConnection_samePools w i
  unfold mfsPoolGetConnectionEx
  simp only
  split_ifs
  · exact hpop
  · exact hpop.trans (mfsPoolDeactivate_samePools (mfsTrackerConnect (popConnection w i).2 i).2 i)
  · exact hpop

/-- An operation that is not a registration. -/
theorem step_samePools (w : World) {use : PoolUse} (h : ∀ r, use ≠ .register r) :
    w.trackers.SamePools (use.locks w) (use.step w).trackers := by
  cases use with
  | register r => exact absurd rfl (h r)
  | activate i => exact mfsPoolActivate_samePools w i
  | deactivate i =>
    by_cases hi : i ∈ w.trackers.active
    · rw [PoolUse.locks, if_pos hi]
      exact mfsPoolDeactivate_samePools w i
    · rw [PoolUse.locks, if_neg hi, PoolUse.step, mfsPoolDeactivate_of_notMem hi]
      exact .refl _ _
  | getConnection i createNew => exact mfsPoolGetConnectionEx_samePools w i createNew
  | returnConnection i entry => exact samePools_setConnectionPool _ rfl
  | getExpired i => exact samePools_setConnectionPool _ rfl
  | destroyConnection entry => exact .refl _ _

/-! ## Registered trackers -/

/-- A pool for `n` trackers after `k` registrations that succeeded, as far as there was room. -/
structure TrackerPool.Registered (pool : TrackerPool) (n k : ℕ) : Prop where
  maxTrackerCount : pool.maxTrackerCount = n
  trackerCount : pool.trackerCount = min n k
  lock : ∀ i, (pool.connectionPools i).lock = decide (i < pool.trackerCount)
  stack : ∀ i, pool.trackerCount ≤ i → pool.stack i = []

theorem registered_mfsPoolInit (n : ℕ) (palloc : PoolMemory) :
    (mfsPoolInit n palloc).Registered n 0 :=
  ⟨rfl, (Nat.min_zero n).symm, fun _ => rfl, fun _ _ => rfl⟩

theorem registered_of_samePools {p q : TrackerPool} {n k : ℕ} (h : p.Registered n k)
    {touched : Option ℕ} (hsame : p.SamePools touched q)
    (htouched : ∀ i ∈ touched, i < p.trackerCount) : q.Registered n k where
  maxTrackerCount := hsame.maxTrackerCount.trans h.maxTrackerCount
  trackerCount := hsame.trackerCount.trans h.trackerCount
  lock i := by rw [hsame.lock, h.lock, hsame.trackerCount]
  stack i hi := by
    rw [hsame.trackerCount] at hi
    rw [hsame.stack i fun heq => absurd (htouched i heq) (not_lt_of_ge hi)]
    exact h.stack i hi

theorem registered_register {pool : TrackerPool} {n k : ℕ} (h : pool.Registered n k)
    (r : Registration) :
    (mfsPoolRegisterTracker pool r).Registered n (k + if r.Succeeds then 1 else 0) := by
  have hmax := h.maxTrackerCount
  have hcount := h.trackerCount
  by_cases hr : pool.Registers r
  · obtain ⟨-, -, hcount', hmax'⟩ := mfsPoolRegisterTracker_lists hr
    have hpools := mfsPoolRegisterTracker_connectionPools hr
    have hsucceeds : r.Succeeds := hr.2
    have hroom := hr.1
    rw [if_pos hsucceeds]
    refine ⟨hmax'.trans hmax, by omega, fun i => ?_, fun i hi => ?_⟩
    · rw [hpools, hcount']
      by_cases hi : i = pool.trackerCount
      · rw [hi, Function.update_self, decide_eq_true (Nat.lt_succ_self _)]
      · rw [Function.update_of_ne hi, h.lock, decide_eq_decide]
        omega
    · rw [hcount'] at hi
      rw [TrackerPool.stack, hpools, Function.update_of_ne (by omega)]
      exact h.stack i (by omega)
  · obtain ⟨hcount', hmax', -⟩ := mfsPoolRegisterTracker_sameLists hr
    have hpools := mfsPoolRegisterTracker_connectionPools_of_not hr
    have hpool : pool.SamePools none (mfsPoolRegisterTracker pool r) :=
      ⟨hcount', hmax', fun _ => by rw [hpools], fun _ _ => by rw [TrackerPool.stack, hpools]; rfl⟩
    have hsame := registered_of_samePools h hpool fun _ hi => by cases hi
    by_cases hsucceeds : r.Succeeds
    · -- there is no room left
      have hfull : pool.trackerCount = pool.maxTrackerCount := by
        by_contra hne
        exact hr ⟨hne, hsucceeds⟩
      have hcount' := hsame.trackerCount
      rw [if_pos hsucceeds]
      exact ⟨hsame.maxTrackerCount, by omega, hsame.lock, hsame.stack⟩
    · rw [if_neg hsucceeds]
      exact hsame

theorem registered_registeredPool (n : ℕ) (palloc : PoolMemory)
    (registrations : List Registration) :
    (registeredPool n palloc registrations).Registered n
      (registrations.countP (·.Succeeds)) := by
  induction registrations using List.reverseRecOn with
  | nil => exact registered_mfsPoolInit n palloc
  | append_singleton registrations r ih =>
    rw [registeredPool, List.foldl_append, List.countP_append, List.countP_singleton]
    simp only [decide_eq_true_eq]
    exact registered_register ih r

theorem registered_obtained {pool : TrackerPool} {n : ℕ} {registrations : List Registration}
    (h : ObtainedPool pool n registrations) :
    pool.Registered n (registrations.countP (·.Succeeds)) := by
  cases h with
  | init => exact registered_registeredPool ..
  | quick hpool hregistrations =>
    rw [mfsPoolInitQuick_eq, hregistrations] at hpool
    obtain rfl := Option.some.inj hpool
    exact registered_registeredPool _ _ _

theorem PoolUse.registers_of_not {use : PoolUse} (h : ∀ r, use ≠ .register r) :
    use.registers = false := by
  cases use with
  | register r => exact absurd rfl (h r)
  | _ => rfl

/-- An operation on a registered tracker, whose mutex it locks. -/
theorem registered_run_of_not {w w' : World} {n k : ℕ} (h : w.trackers.Registered n k)
    {use : PoolUse} (hnot : ∀ r, use ≠ .register r) (hrun : use.run w = .ok w') :
    w'.trackers.Registered n k := by
  have hsame := step_samePools w hnot
  cases hlocks : use.locks w with
  | none =>
    rw [PoolUse.run, hlocks] at hrun
    obtain rfl := Except.ok.inj hrun
    rw [hlocks] at hsame
    exact registered_of_samePools h hsame fun _ hi => by cases hi
  | some i =>
    rw [hlocks] at hsame
    simp only [PoolUse.run, hlocks] at hrun
    by_cases hlock : (w.trackers.connectionPools i).lock = true
    · rw [if_pos hlock] at hrun
      obtain rfl := Except.ok.inj hrun
      rw [h.lock] at hlock
      refine registered_of_samePools h hsame fun j hj => ?_
      obtain rfl := Option.some.inj hj
      exact of_decide_eq_true hlock
    · rw [if_neg hlock] at hrun
      cases hrun

/-- One operation. -/
theorem registered_run {w w' : World} {n k : ℕ} (h : w.trackers.Registered n k) {use : PoolUse}
    (hrun : use.run w = .ok w') :
    w'.trackers.Registered n (k + if use.registers then 1 else 0) := by
  by_cases hregister : ∃ r, use = .register r
  · obtain ⟨r, rfl⟩ := hregister
    obtain rfl := Except.ok.inj hrun
    simp only [PoolUse.registers, decide_eq_true_eq]
    exact registered_register h r
  · have hnot := not_exists.mp hregister
    rw [PoolUse.registers_of_not hnot]
    exact registered_run_of_not h hnot hrun

/-- A history. -/
theorem registered_usePool {w w' : World} {n k : ℕ} (h : w.trackers.Registered n k)
    {uses : List PoolUse} (huses : usePool w uses = .ok w') :
    w'.trackers.Registered n (k + uses.countP PoolUse.registers) := by
  induction uses generalizing w k with
  | nil =>
    obtain rfl := Except.ok.inj huses
    exact h
  | cons use uses ih =>
    rw [usePool, List.foldlM_cons] at huses
    cases hrun : use.run w with
    | error missing =>
      rw [hrun] at huses
      cases huses
    | ok w₁ =>
      rw [hrun] at huses
      have hrest := ih (registered_run h hrun) huses
      rw [List.countP_cons]
      rwa [Nat.add_assoc, Nat.add_comm (if use.registers then 1 else 0)] at hrest

/-! ## Destroying -/

/-- Every entry of the stack is destroyed. -/
theorem drainConnections_destroys (w : World) (i : ℕ) :
    (drainConnections w i).trackers.stack i = [] ∧
      ∃ added, (drainConnections w i).log = w.log ++ added ∧
        ∀ entry ∈ w.trackers.stack i, Event.destroyed entry ∈ added := by
  induction w using drainConnections.induct i with
  | case1 w w' h =>
    cases hs : w.trackers.stack i with
    | nil =>
      rw [drainConnections_of_nil hs]
      exact ⟨hs, [], (List.append_nil _).symm, fun _ he => absurd he List.not_mem_nil⟩
    | cons entry rest =>
      rw [popConnection_cons hs] at h
      cases h
  | case2 w entry w' h ih =>
    rw [drainConnections, h]
    cases hs : w.trackers.stack i with
    | nil =>
      rw [popConnection_nil hs] at h
      cases h
    | cons first rest =>
      rw [popConnection_cons hs] at h
      obtain ⟨rfl, rfl⟩ : first = entry ∧ (w.withoutFirst i).record (.obtained i first) = w' := by
        simpa using h
      obtain ⟨hempty, added, hlog, hdestroyed⟩ := ih
      refine ⟨hempty, .obtained i first :: .destroyed first :: added, ?_, fun e he => ?_⟩
      · rw [hlog]
        simp [mfsPoolDestroyConnection, World.record, World.withoutFirst]
      · rcases List.mem_cons.mp he with rfl | he
        · exact List.mem_cons_of_mem _ List.mem_cons_self
        · refine List.mem_cons_of_mem _ (List.mem_cons_of_mem _ (hdestroyed e ?_))
          have hrest : (w.withoutFirst i).trackers.stack i = rest := by
            rw [stack_withoutFirst, hs, List.tail_cons]
          exact hrest.symm ▸ he

/-- The first `m` connection pools have been destroyed. -/
structure DestroyedUpTo (w w' : World) (m : ℕ) : Prop where
  lock : ∀ i, m ≤ i → (w'.trackers.connectionPools i).lock = (w.trackers.connectionPools i).lock
  stack : ∀ i, m ≤ i → w'.trackers.stack i = w.trackers.stack i
  empty : ∀ i < m, w'.trackers.stack i = []
  destroyed : ∃ added, w'.log = w.log ++ added ∧
    ∀ i < m, ∀ entry ∈ w.trackers.stack i, Event.destroyed entry ∈ added

/-- One connection pool is drained, and its mutex destroyed. -/
theorem destroyedUpTo_succ {w w₁ : World} {m : ℕ} (h : DestroyedUpTo w w₁ m)
    (hlock : (w.trackers.connectionPools m).lock = true) :
    ∃ w', mfsDestroyConnectionPool w₁ m = .ok w' ∧ DestroyedUpTo w w' (m + 1) := by
  have hlock₁ := (h.lock m le_rfl).trans hlock
  have hdrained := drainConnections_samePools w₁ m
  obtain ⟨hempty, drained, hlog₁, hentries⟩ := drainConnections_destroys w₁ m
  obtain ⟨added, hlog, hdestroyed⟩ := h.destroyed
  have hother : ∀ i, i ≠ m → (drainConnections w₁ m).trackers.stack i = w₁.trackers.stack i :=
    fun i hi => hdrained.stack i fun heq => hi (Option.some.inj heq).symm
  refine ⟨_, by rw [mfsDestroyConnectionPool, if_pos hlock₁],
    ⟨fun i hi => ?_, fun i hi => ?_, fun i hi => ?_, added ++ drained, ?_, fun i hi entry he => ?_⟩⟩
  · have hne : i ≠ m := by omega
    simp only [TrackerPool.setConnectionPool, Function.update_of_ne hne]
    exact (hdrained.lock i).trans (h.lock i (by omega))
  · have hne : i ≠ m := by omega
    rw [stack_setConnectionPool_of_ne _ _ hne, hother i hne]
    exact h.stack i (by omega)
  · by_cases hm : i = m
    · subst hm
      rw [stack_setConnectionPool_self]
      exact hempty
    · rw [stack_setConnectionPool_of_ne _ _ hm, hother i hm]
      exact h.empty i (by omega)
  · rw [hlog₁, hlog, List.append_assoc]
  · by_cases hm : i = m
    · subst hm
      rw [← h.stack i le_rfl] at he
      exact List.mem_append_right _ (hentries entry he)
    · exact List.mem_append_left _ (hdestroyed i (by omega) entry he)

theorem destroy_registered {w : World} {m : ℕ}
    (h : ∀ i < m, (w.trackers.connectionPools i).lock = true) :
    ∃ w', (List.range m).foldlM mfsDestroyConnectionPool w = .ok w' ∧ DestroyedUpTo w w' m := by
  induction m with
  | zero =>
    exact ⟨w, rfl, fun _ _ => rfl, fun _ _ => rfl, fun _ hi => absurd hi (Nat.not_lt_zero _), [],
      (List.append_nil _).symm, fun _ hi => absurd hi (Nat.not_lt_zero _)⟩
  | succ m ih =>
    obtain ⟨w₁, hfold, hupTo⟩ := ih fun i hi => h i (Nat.lt_succ_of_lt hi)
    obtain ⟨w', hdestroy, hnext⟩ := destroyedUpTo_succ hupTo (h m (Nat.lt_succ_self m))
    refine ⟨w', ?_, hnext⟩
    rw [List.range_succ, List.foldlM_append, hfold]
    change (mfsDestroyConnectionPool w₁ m >>= pure) = .ok w'
    rw [hdestroy]
    rfl

/-- The first connection pool without a mutex ends the destruction. -/
theorem destroy_uninitialised {w : World} {m n : ℕ}
    (h : ∀ i < m, (w.trackers.connectionPools i).lock = true) (hmn : m < n)
    (hlock : (w.trackers.connectionPools m).lock = false) :
    (List.range n).foldlM mfsDestroyConnectionPool w = .error ⟨m⟩ := by
  obtain ⟨w', hfold, hupTo⟩ := destroy_registered h
  obtain ⟨r, rfl⟩ : ∃ r, n = m + (r + 1) := ⟨n - m - 1, by omega⟩
  have hstops : mfsDestroyConnectionPool w' m = .error ⟨m⟩ := by
    rw [mfsDestroyConnectionPool, hupTo.lock m le_rfl, hlock]
    rfl
  rw [List.range_add, List.range_succ_eq_map, List.foldlM_append, hfold, List.map_cons,
    Nat.add_zero]
  change (mfsDestroyConnectionPool w' m >>= _) = _
  rw [hstops]
  rfl

theorem safelyDestroyed_iff {w : World} {n k : ℕ} (h : w.trackers.Registered n k) :
    SafelyDestroyed w ↔ n ≤ k := by
  have hmax := h.maxTrackerCount
  have hcount := h.trackerCount
  have hlock : ∀ i < w.trackers.trackerCount, (w.trackers.connectionPools i).lock = true :=
    fun i hi => by rw [h.lock, decide_eq_true hi]
  constructor
  · rintro ⟨w', hdestroy, -⟩
    by_contra hlt
    rw [mfsDestroyPool, destroy_uninitialised hlock (by omega)
      (by rw [h.lock, decide_eq_false (lt_irrefl _)])] at hdestroy
    cases hdestroy
  · intro hle
    have hfull : w.trackers.trackerCount = w.trackers.maxTrackerCount := by omega
    rw [hfull] at hlock
    obtain ⟨w', hdestroy, hupTo⟩ := destroy_registered hlock
    obtain ⟨added, hlog, hdestroyed⟩ := hupTo.destroyed
    refine ⟨w', hdestroy, fun i => ?_⟩
    rw [hlog, List.drop_left]
    by_cases hi : i < w.trackers.maxTrackerCount
    · exact ⟨hupTo.empty i hi, hdestroyed i hi⟩
    · have hempty := h.stack i (by omega)
      rw [hupTo.stack i (by omega), hempty]
      exact ⟨rfl, fun _ he => absurd he List.not_mem_nil⟩

/-- After any use of a pool, `mfs_destroy_pool` is safe exactly when as many registrations have
    succeeded as the pool has room for: those of the trackers of a list, if there is one, and later
    ones. -/
theorem destroyPool_safe_iff {pool : TrackerPool} {n : ℕ} {registrations : List Registration}
    (hpool : ObtainedPool pool n registrations) (env : Env) {uses : List PoolUse} {w : World}
    (huses : usePool ⟨pool, env, 0, []⟩ uses = .ok w) :
    SafelyDestroyed w ↔
      n ≤ registrations.countP (·.Succeeds) + uses.countP PoolUse.registers :=
  safelyDestroyed_iff (registered_usePool (registered_obtained hpool) huses)

/-- One tracker that is found, a connection to it that is returned, and nothing else. -/
theorem destroyPool_safe_iff_one :
    ∃ w, usePool ⟨registeredPool 1 zeroMemory [plainRegistration],
        (oneTrackerWorld [] .success []).env, 0, []⟩
        [.getConnection 0 true, .returnConnection 0 ⟨0, 0⟩] = .ok w ∧
      (SafelyDestroyed w ↔ 1 ≤ [plainRegistration].countP (·.Succeeds) +
        [PoolUse.getConnection 0 true, .returnConnection 0 ⟨0, 0⟩].countP PoolUse.registers) :=
  ⟨_, rfl, destroyPool_safe_iff (.init 1 zeroMemory [plainRegistration])
    (oneTrackerWorld [] .success []).env rfl⟩

/-- A registration whose address is not found. -/
def unresolvedRegistration : Registration :=
  { plainRegistration with sockaddrInfoGet := .egeneral }

/-- The address of the only tracker is not found: there is one connection pool without a mutex. -/
theorem destroy_without_mutex :
    ObtainedPool (registeredPool 1 zeroMemory [unresolvedRegistration]) 1
        [unresolvedRegistration] ∧
      mfsDestroyPool ⟨registeredPool 1 zeroMemory [unresolvedRegistration],
        (oneTrackerWorld [] .success []).env, 0, []⟩ = .error ⟨0⟩ ∧
      ¬SafelyDestroyed ⟨registeredPool 1 zeroMemory [unresolvedRegistration],
        (oneTrackerWorld [] .success []).env, 0, []⟩ := by
  have hdestroy : mfsDestroyPool ⟨registeredPool 1 zeroMemory [unresolvedRegistration],
      (oneTrackerWorld [] .success []).env, 0, []⟩ = .error ⟨0⟩ := rfl
  refine ⟨.init .., hdestroy, ?_⟩
  rintro ⟨w', hok, -⟩
  rw [hdestroy] at hok
  cases hok

end MogileFs
