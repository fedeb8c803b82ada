import MogileFs.Library.Potentials
import MogileFs.Pool.ConnectionCount
import MogileFs.Pool.Recovery

/-!
# The calls come to an end

`mfs_request_do` tries a tracker again as long as it is given cached connections, and other threads
return connections to the stacks all the time (`src/request.c`, lines 41–67, and `src/pool.c`, lines
234–311 and 395–422). Each connection that is taken is destroyed when it has failed, so a call only
goes on for as long as trackers and cached connections last, and for as long as others return more.

The potential of a call is made of the trackers that are still to come, the cached connections of
these and of its present tracker, and of where it stands.

Results:
* `Thread.step_work`: a step of the call takes from the potential.
* `Thread.step_cached`: a step of another thread adds to it by returning a connection only.
* `call_returns`: how many steps a call can make, those apart that receive, when the array it copies
  is not empty.
-/

namespace MogileFs

open Runs

/-! ## Cached connections -/

/-- The connections in the stacks of some trackers. -/
def TrackerPool.cached (pool : TrackerPool) (trackers : Finset ℕ) : ℕ :=
  ∑ i ∈ trackers, (pool.stack i).length

theorem cached_le_of_stacks {p q : TrackerPool} (h : ∀ i, (q.stack i).length ≤ (p.stack i).length)
    (trackers : Finset ℕ) : q.cached trackers ≤ p.cached trackers :=
  Finset.sum_le_sum fun i _ => h i

theorem cached_of_sameStacks {p q : TrackerPool} (h : p.SameStacks q) (trackers : Finset ℕ) :
    q.cached trackers = p.cached trackers :=
  Finset.sum_congr rfl fun i _ => by rw [h i]

theorem cached_mono (pool : TrackerPool) {trackers trackers' : Finset ℕ}
    (h : trackers ⊆ trackers') : pool.cached trackers ≤ pool.cached trackers' :=
  Finset.sum_le_sum_of_subset h

/-- An entry is taken. -/
theorem cached_withoutFirst {w : World} {i : ℕ} {entry : ConnectionEntry}
    {rest : List ConnectionEntry} (h : w.trackers.stack i = entry :: rest) {trackers : Finset ℕ}
    (hi : i ∈ trackers) :
    (w.withoutFirst i).trackers.cached trackers + 1 = w.trackers.cached trackers := by
  rw [TrackerPool.cached, TrackerPool.cached, ← Finset.add_sum_erase _ _ hi,
    ← Finset.add_sum_erase _ _ hi, stack_withoutFirst, h]
  have hothers : ∑ j ∈ trackers.erase i, ((w.withoutFirst i).trackers.stack j).length =
      ∑ j ∈ trackers.erase i, (w.trackers.stack j).length :=
    Finset.sum_congr rfl fun j hj => by rw [stack_withoutFirst_of_ne w (Finset.ne_of_mem_erase hj)]
  rw [hothers, List.tail_cons, List.length_cons]
  omega

theorem length_stack_withoutFirst (w : World) (i j : ℕ) :
    ((w.withoutFirst i).trackers.stack j).length ≤ (w.trackers.stack j).length := by
  by_cases hj : j = i
  · rw [hj, stack_withoutFirst, List.length_tail]
    exact Nat.sub_le _ _
  · rw [stack_withoutFirst_of_ne w hj]

/-- An entry is returned. -/
theorem cached_returned (w : World) (i : ℕ) (entry : ConnectionEntry) (trackers : Finset ℕ) :
    (mfsPoolReturnConnection w i entry).trackers.cached trackers ≤ w.trackers.cached trackers + 1 := by
  have hstack : ∀ j, ((mfsPoolReturnConnection w i entry).trackers.stack j).length =
      (w.trackers.stack j).length + if j = i then 1 else 0 := by
    intro j
    by_cases hj : j = i
    · rw [hj, if_pos rfl]
      show ((w.trackers.setConnectionPool i _).stack i).length = _
      rw [stack_setConnectionPool_self]
      rfl
    · rw [if_neg hj]
      show ((w.trackers.setConnectionPool i _).stack j).length = _
      rw [stack_setConnectionPool_of_ne _ _ hj]
      rfl
  simp only [TrackerPool.cached, hstack, Finset.sum_add_distrib, Finset.sum_ite_eq']
  split_ifs <;> omega

/-- A section of the pool returns nothing. -/
theorem PoolCall.length_stack_step (w : World) (call : PoolCall) (j : ℕ) :
    ((call.step w).1.trackers.stack j).length ≤ (w.trackers.stack j).length := by
  cases call with
  | getConnection i createNew =>
    have hpop : ((popConnection w i).2.trackers.stack j).length ≤ (w.trackers.stack j).length := by
      cases hstack : w.trackers.stack i with
      | nil => rw [popConnection_nil hstack]
      | cons entry rest =>
        rw [popConnection_cons hstack]
        exact length_stack_withoutFirst w i j
    simp only [PoolCall.step]
    split_ifs
    · exact hpop
    · exact hpop
  | connect i =>
    simp only [PoolCall.step]
    split_ifs <;> exact le_refl _
  | deactivate i =>
    simp only [PoolCall.step, deactivateSection]
    split_ifs <;> exact le_refl _
  | drain i =>
    cases hstack : w.trackers.stack i with
    | nil => simp only [PoolCall.step, popConnection_nil hstack, le_refl]
    | cons entry rest =>
      simp only [PoolCall.step, popConnection_cons hstack]
      exact length_stack_withoutFirst w i j
  | drained i entry => exact le_refl _

/-- The next step of the thread is `mfs_pool_return_connection`. -/
def Point.Returns : Point → Bool
  | .giveBack _ _ => true
  | _ => false

/-- What a step adds to the stacks. -/
theorem Thread.step_cached (net : Net) (s : Shared) (thread : Thread) (trackers : Finset ℕ) :
    (thread.step net s).1.w.trackers.cached trackers ≤
      s.w.trackers.cached trackers + thread.point.Returns.toNat := by
  cases thread.step_poolStep net s with
  | pool call _ _ h =>
    rw [h]
    exact Nat.le_add_right_of_le
      (cached_le_of_stacks (PoolCall.length_stack_step s.w call) trackers)
  | activate a _ _ h =>
    rw [h, cached_of_sameStacks (sameStacks_mfsPoolActivate s.w a.trackerIndex).1 trackers]
    exact Nat.le_add_right _ _
  | giveBack a entry hpoint h =>
    rw [h, hpoint]
    exact cached_returned s.w a.trackerIndex entry trackers
  | expire i h =>
    rw [h]
    exact Nat.le_add_right_of_le (cached_le_of_stacks (length_getExpired_le s.w i) trackers)
  | outside h =>
    rw [h]
    exact Nat.le_add_right _ _

/-! ## What a call has left to do -/

/-- The call of `mfs_request_do` or `mfs_pool_test_inactive_trackers` that a thread is in. -/
def Point.asker : Point → Option Asker
  | .pool _ (.asker a) => some a
  | .send a _ _ => some a
  | .receive a _ _ _ => some a
  | .destroy a _ _ => some a
  | .activate a _ => some a
  | .giveBack a _ => some a
  | _ => none

/-- The present tracker and those to come. -/
def Asker.ahead (a : Asker) : Finset ℕ := insert a.trackerIndex a.list.unvisited.toFinset

/-- How many steps there are to the next tracker, or to the next connection; one that was cached
    has three left to be tried again. -/
def PoolCall.left : PoolCall → ℕ
  | .getConnection _ _ => 10
  | .connect _ => 9
  | .deactivate _ => 8
  | .drain _ => 5
  | .drained _ _ => 6

def Point.left : Point → ℕ
  | .pool call _ => call.left
  | .send _ _ isNew => if isNew then 8 else 13
  | .receive _ _ isNew _ => if isNew then 7 else 12
  | .destroy _ _ isNew => if isNew then 6 else 11
  | .activate _ _ => 6
  | .giveBack _ _ => 5
  | _ => 0

/-- The potential of a call. Any tracker can be in a list that is not copied yet. -/
def Point.work (pool : TrackerPool) (point : Point) : ℕ :=
  match point with
  | .copy _ => 10 * pool.trackerCount + 4 * pool.cached (Finset.range pool.trackerCount) + 1
  | point =>
    match point.asker with
    | none => 0
    | some a => 10 * a.list.unvisited.length + 4 * pool.cached a.ahead + point.left

/-- The stacks are all that other threads change about it. -/
theorem Point.work_le {p q : TrackerPool} {n : ℕ} (hcount : q.trackerCount = p.trackerCount)
    (hcached : ∀ trackers, q.cached trackers ≤ p.cached trackers + n) (point : Point) :
    point.work q ≤ point.work p + 4 * n := by
  unfold Point.work
  split
  · have hrange := hcached (Finset.range p.trackerCount)
    rw [hcount]
    omega
  · split
    · exact Nat.zero_le _
    · next a _ =>
      have hahead := hcached a.ahead
      omega

/-- The array was not empty when it was copied. -/
def CopiedList.Inside : CopiedList → Prop
  | .inside _ => True
  | .outside _ _ => False

theorem inside_copyList {kind : ListKind} {pool : TrackerPool} (h : kind.members pool ≠ [])
    (factor : Factor) (index : ℕ) : (copyList kind pool factor index).Inside := by
  unfold copyList
  cases hlist : listTrackers (kind.indexes pool) (kind.count pool) factor with
  | none => exact absurd (listTrackers_none.mp hlist) h
  | some list => trivial

/-- The next tracker is one of the array. -/
theorem CopiedList.Inside.next {list list' : CopiedList} (h : list.Inside) {tracker : ℕ}
    (hnext : list.next = (some tracker, list')) :
    list'.Inside ∧ list.unvisited = tracker :: list'.unvisited := by
  cases list with
  | inside list =>
    rw [CopiedList.next, Prod.mk.injEq] at hnext
    obtain ⟨htracker, rfl⟩ := hnext
    exact ⟨trivial, MogileFs.unvisited_of_some (Prod.ext htracker rfl)⟩
  | outside list index => exact h.elim

/-- The trackers to come are all there is left. -/
theorem Asker.next_work_unvisited {a : Asker} (h : a.list.Inside) (pool : TrackerPool) :
    a.next.work pool ≤
      10 * a.list.unvisited.length + 4 * pool.cached a.list.unvisited.toFinset := by
  unfold Asker.next
  cases hnext : a.list.next with
  | mk tracker list =>
    cases tracker with
    | none => exact Nat.zero_le _
    | some j =>
      have hunvisited := (h.next hnext).2
      have hcurrent := (CopiedList.unvisited_of_some hnext).1
      have hahead : Asker.ahead { a with list := list } = a.list.unvisited.toFinset := by
        rw [Asker.ahead, hunvisited, List.toFinset_cons, Asker.trackerIndex, hcurrent]
      show 10 * list.unvisited.length + 4 * pool.cached (Asker.ahead { a with list := list }) + 10 ≤ _
      rw [hahead, hunvisited, List.length_cons]
      omega

theorem Asker.next_work {a : Asker} (h : a.list.Inside) (pool : TrackerPool) :
    a.next.work pool ≤ 10 * a.list.unvisited.length + 4 * pool.cached a.ahead := by
  have hunvisited := Asker.next_work_unvisited h pool
  have hahead := cached_mono pool (Finset.subset_insert a.trackerIndex a.list.unvisited.toFinset)
  rw [← Asker.ahead] at hahead
  omega

/-- After a failure a cached connection has been used up, or the next tracker comes. -/
theorem Asker.afterFailure_work {a : Asker} (h : a.list.Inside) (isNew : Bool)
    (pool : TrackerPool) : (a.afterFailure isNew).work pool + 1 ≤
      10 * a.list.unvisited.length + 4 * pool.cached a.ahead + if isNew then 6 else 11 := by
  have hnext := Asker.next_work h pool
  rcases a.afterFailure_eq isNew with ⟨hlast, hagain⟩ | ⟨-, hgone⟩
  · have hcached : isNew = false := by
      cases isNew with
      | false => rfl
      | true => simp [Asker.lastTry] at hlast
    rw [hagain, hcached]
    exact le_refl _
  · rw [hgone]
    split_ifs <;> omega

theorem Asker.afterReturn_work {a : Asker} (h : a.list.Inside) (pool : TrackerPool) :
    a.afterReturn.work pool ≤ 10 * a.list.unvisited.length + 4 * pool.cached a.ahead := by
  unfold Asker.afterReturn
  cases a.kind with
  | requestDo => exact Nat.zero_le _
  | testInactive => exact Asker.next_work h pool

theorem Asker.answered_work (a : Asker) (entry : ConnectionEntry) (pool : TrackerPool) :
    (a.answered entry).work pool ≤ 10 * a.list.unvisited.length + 4 * pool.cached a.ahead + 6 := by
  unfold Asker.answered
  cases a.kind with
  | requestDo => exact Nat.le_succ _
  | testInactive => exact le_refl _

/-- What is left after a section: the next one, or what is done with the connection. -/
def PoolStep.left : PoolStep → ℕ
  | .next call => call.left
  | .done (some _) isNew => if isNew then 8 else 13
  | .done none _ => 0

/-- A section of the pool for one of the trackers. A cached connection is taken out of its stack. -/
theorem PoolCall.step_left (w : World) {call : PoolCall} {trackers : Finset ℕ}
    (hindex : call.trackerIndex ∈ trackers) :
    4 * (call.step w).1.trackers.cached trackers + (call.step w).2.left + 1 ≤
      4 * w.trackers.cached trackers + call.left := by
  have hcached := cached_le_of_stacks (PoolCall.length_stack_step w call) trackers
  cases call with
  | getConnection i createNew =>
    cases hstack : w.trackers.stack i with
    | nil =>
      have hout : (PoolCall.step w (.getConnection i createNew)).2.left ≤ 9 := by
        simp only [PoolCall.step, popConnection_nil hstack]
        split_ifs
        · exact Nat.zero_le 9
        · exact le_refl 9
      show _ ≤ _ + 10
      omega
    | cons entry rest =>
      have htaken := cached_withoutFirst hstack hindex
      have hstep : PoolCall.step w (.getConnection i createNew) =
          ((w.withoutFirst i).record (.obtained i entry), .done (some entry) false) := by
        simp [PoolCall.step, popConnection_cons hstack]
      rw [hstep]
      show 4 * (w.withoutFirst i).trackers.cached trackers + 13 + 1 ≤ _ + 10
      omega
  | connect i =>
    have hout : (PoolCall.step w (.connect i)).2.left ≤ 8 := by
      simp only [PoolCall.step]
      split_ifs
      · exact le_refl 8
      · exact le_refl 8
    show _ ≤ _ + 9
    omega
  | deactivate i =>
    have hout : (PoolCall.step w (.deactivate i)).2.left ≤ 5 := by
      simp only [PoolCall.step]
      split_ifs
      · exact le_refl 5
      · exact Nat.zero_le 5
    show _ ≤ _ + 8
    omega
  | drain i =>
    cases hstack : w.trackers.stack i with
    | nil =>
      have hout : (PoolCall.step w (.drain i)).2.left = 0 := by
        simp only [PoolCall.step, popConnection_nil hstack]
        rfl
      show _ ≤ _ + 5
      omega
    | cons entry rest =>
      have htaken := cached_withoutFirst hstack hindex
      have hstep : PoolCall.step w (.drain i) =
          ((w.withoutFirst i).record (.obtained i entry), .next (.drained i entry)) := by
        simp only [PoolCall.step, popConnection_cons hstack]
      rw [hstep]
      show 4 * (w.withoutFirst i).trackers.cached trackers + 6 + 1 ≤ _ + 5
      omega
  | drained i entry => exact le_refl _

/-- It leads to the next section, to a connection, or to the next tracker. -/
theorem Asker.pool_work (net : Net) (s : Shared) {thread : Thread} {call : PoolCall} {a : Asker}
    (hpoint : thread.point = .pool call (.asker a)) (hinside : a.list.Inside)
    (hindex : call.trackerIndex = a.trackerIndex) :
    (thread.step net s).2.point.work (thread.step net s).1.w.trackers + 1 ≤
      thread.point.work s.w.trackers := by
  have hmem : call.trackerIndex ∈ a.ahead := by
    rw [hindex]
    exact Finset.mem_insert_self _ _
  have hleft := PoolCall.step_left s.w hmem
  have hbefore : thread.point.work s.w.trackers =
      10 * a.list.unvisited.length + 4 * s.w.trackers.cached a.ahead + call.left := by
    rw [hpoint]
    rfl
  rw [Thread.step_pool hpoint, hbefore]
  cases hout : (call.step s.w).2 with
  | next call' =>
    rw [hout] at hleft
    rw [Thread.step_next hpoint hout]
    show 10 * a.list.unvisited.length + 4 * (call.step s.w).1.trackers.cached a.ahead +
      (PoolStep.next call').left + 1 ≤ _
    omega
  | done entry isNew =>
    rw [hout] at hleft
    rw [Thread.step_done hpoint hout]
    cases entry with
    | none =>
      have hnext := Asker.next_work hinside (call.step s.w).1.trackers
      show a.next.work (call.step s.w).1.trackers + 1 ≤ _
      omega
    | some entry =>
      show 10 * a.list.unvisited.length + 4 * (call.step s.w).1.trackers.cached a.ahead +
        (PoolStep.done (some entry) isNew).left + 1 ≤ _
      omega

/-- The next step of the thread is a call of `apr_socket_recv`. -/
def Point.Receives : Point → Bool
  | .receive _ _ _ _ => true
  | _ => false

/-- What has been received leaves no more to do. -/
theorem Thread.received_work (thread : Thread) (a : Asker) (entry : ConnectionEntry) (isNew : Bool)
    (pool : TrackerPool) (out : Received) (finalBuffer : Option Bytes) :
    (thread.received a entry isNew out).point.work pool ≤
      (Point.receive a entry isNew finalBuffer).work pool := by
  have hdestroy : (Point.destroy a entry isNew).work pool ≤
      (Point.receive a entry isNew finalBuffer).work pool := by
    show _ + (if isNew then 6 else 11) ≤ _ + (if isNew then 7 else 12)
    cases isNew <;> exact Nat.le_succ _
  cases out with
  | failed rv => exact hdestroy
  | more multiBuffer => exact le_refl _
  | line text =>
    simp only [Thread.received]
    split_ifs
    · refine (a.answered_work entry pool).trans ?_
      show _ + 6 ≤ _ + (if isNew then 7 else 12)
      split_ifs <;> omega
    · exact hdestroy

/-- A call has copied its list, and that was not empty. -/
def Point.Asks (point : Point) : Prop :=
  match point.asker with
  | none => False
  | some a => a.list.Inside

/-- A step of a call, unless it receives, takes from the potential. -/
theorem Thread.step_work (net : Net) (s : Shared) {thread : Thread} (hwell : thread.Wellformed)
    (hasks : thread.point.Asks) :
    (thread.step net s).2.point.work (thread.step net s).1.w.trackers +
        (!thread.point.Receives).toNat ≤ thread.point.work s.w.trackers := by
  cases hpoint : thread.point with
  | pool call caller =>
    rw [hpoint] at hasks
    cases caller with
    | asker a =>
      rw [← hpoint, show (!thread.point.Receives).toNat = 1 by rw [hpoint]; rfl]
      exact Asker.pool_work net s hpoint hasks (hwell call _ hpoint)
    | watch => exact hasks.elim
    | deactivate => exact hasks.elim
  | send a entry isNew =>
    simp only [Thread.step, hpoint]
    split_ifs
    · show _ + (if isNew then 7 else 12) + 1 ≤ _ + (if isNew then 8 else 13)
      cases isNew <;> exact le_refl _
    · show _ + (if isNew then 6 else 11) + 1 ≤ _ + (if isNew then 8 else 13)
      cases isNew <;> exact Nat.le_succ _
  | receive a entry isNew finalBuffer =>
    simp only [Thread.step, hpoint]
    exact thread.received_work a entry isNew s.w.trackers _ finalBuffer
  | destroy a entry isNew =>
    rw [hpoint] at hasks
    simp only [Thread.step, hpoint]
    exact Asker.afterFailure_work hasks isNew s.w.trackers
  | activate a entry =>
    simp only [Thread.step, hpoint]
    have hcached := cached_of_sameStacks (sameStacks_mfsPoolActivate s.w a.trackerIndex).1 a.ahead
    show 10 * a.list.unvisited.length +
      4 * (mfsPoolActivate s.w a.trackerIndex).trackers.cached a.ahead + 5 + 1 ≤ _
    rw [hcached]
    exact le_refl _
  | giveBack a entry =>
    rw [hpoint] at hasks
    simp only [Thread.step, hpoint]
    have hreturned := cached_returned s.w a.trackerIndex entry a.ahead
    have hafter := Asker.afterReturn_work hasks
      (mfsPoolReturnConnection s.w a.trackerIndex entry).trackers
    show _ + 1 ≤ 10 * a.list.unvisited.length + 4 * s.w.trackers.cached a.ahead + 5
    omega
  | _ => rw [hpoint] at hasks; exact hasks.elim

/-- In front of the copy, behind it with a list that was not empty, or returned. -/
def Point.InCall (point : Point) : Prop :=
  (∃ kind request, point = .copy (.asker kind request)) ∨ point.Asks ∨ point = .idle

theorem Asker.next_inCall {a : Asker} (h : a.list.Inside) : a.next.InCall := by
  unfold Asker.next
  cases hnext : a.list.next with
  | mk tracker list =>
    cases tracker with
    | none => exact Or.inr (Or.inr rfl)
    | some j => exact Or.inr (Or.inl (h.next hnext).1)

theorem Thread.step_inCall (net : Net) (s : Shared) {thread : Thread} (hasks : thread.point.Asks) :
    (thread.step net s).2.point.InCall := by
  cases hpoint : thread.point with
  | pool call caller =>
    rw [hpoint] at hasks
    cases caller with
    | asker a =>
      cases hout : (call.step s.w).2 with
      | next call' =>
        rw [Thread.step_next hpoint hout]
        exact Or.inr (Or.inl hasks)
      | done entry isNew =>
        rw [Thread.step_done hpoint hout]
        cases entry with
        | none => exact Asker.next_inCall hasks
        | some entry => exact Or.inr (Or.inl hasks)
    | watch => exact hasks.elim
    | deactivate => exact hasks.elim
  | send a entry isNew =>
    rw [hpoint] at hasks
    simp only [Thread.step, hpoint]
    split_ifs
    · exact Or.inr (Or.inl hasks)
    · exact Or.inr (Or.inl hasks)
  | receive a entry isNew finalBuffer =>
    rw [hpoint] at hasks
    simp only [Thread.step, hpoint]
    cases receiveStep finalBuffer ((s.wires entry.connection).recv net) with
    | failed rv => exact Or.inr (Or.inl hasks)
    | more multiBuffer => exact Or.inr (Or.inl hasks)
    | line text =>
      simp only [Thread.received]
      split_ifs
      · refine Or.inr (Or.inl ?_)
        unfold Asker.answered
        cases a.kind
        · exact hasks
        · exact hasks
      · exact Or.inr (Or.inl hasks)
  | destroy a entry isNew =>
    rw [hpoint] at hasks
    simp only [Thread.step, hpoint]
    rcases a.afterFailure_eq isNew with ⟨-, hagain⟩ | ⟨-, hgone⟩
    · rw [hagain]
      exact Or.inr (Or.inl hasks)
    · rw [hgone]
      exact Asker.next_inCall hasks
  | activate a entry =>
    rw [hpoint] at hasks
    simp only [Thread.step, hpoint]
    exact Or.inr (Or.inl hasks)
  | giveBack a entry =>
    rw [hpoint] at hasks
    simp only [Thread.step, hpoint]
    unfold Asker.afterReturn
    cases a.kind with
    | requestDo => exact Or.inr (Or.inr rfl)
    | testInactive => exact Asker.next_inCall hasks
  | _ => rw [hpoint] at hasks; exact hasks.elim

/-- Trackers that are registered, each of them at most once. -/
theorem Asker.work_le_registered (pool : TrackerPool) {a : Asker} (hinside : a.list.Inside)
    {indexes rest : List ℕ} (hperm : a.list.unvisited.Perm indexes)
    (hregistered : (indexes ++ rest).Perm (List.range pool.trackerCount)) :
    a.next.work pool ≤
      10 * pool.trackerCount + 4 * pool.cached (Finset.range pool.trackerCount) := by
  have hwork := Asker.next_work_unvisited hinside pool
  have hlength : a.list.unvisited.length ≤ pool.trackerCount := by
    have htotal := hregistered.length_eq
    rw [List.length_append, List.length_range] at htotal
    rw [hperm.length_eq]
    omega
  have hsubset : a.list.unvisited.toFinset ⊆ Finset.range pool.trackerCount := by
    intro i hi
    have hmem : i ∈ indexes := hperm.mem_iff.mp (List.mem_toFinset.mp hi)
    have hrange := hregistered.mem_iff.mp (List.mem_append_left rest hmem)
    exact Finset.mem_range.mpr (List.mem_range.mp hrange)
  have hcached := cached_mono pool hsubset
  omega

/-- Both arrays hold registered trackers. -/
theorem members_registered {pool : TrackerPool} (h : pool.Partition) (kind : ListKind) :
    ∃ rest, (kind.members pool ++ rest).Perm (List.range pool.trackerCount) := by
  cases kind with
  | active => exact ⟨pool.inactive, h.perm⟩
  | inactive => exact ⟨pool.active, List.perm_append_comm.trans h.perm⟩

/-- An array that is not empty is copied. -/
theorem Thread.step_copy_work (net : Net) {s : Shared} {thread : Thread} {kind : AskerKind}
    {request : RequestArgs} (hpoint : thread.point = .copy (.asker kind request))
    (hpartition : s.w.trackers.Partition)
    (hcopies : (Copier.asker kind request).list.members s.w.trackers ≠ []) :
    (thread.step net s).2.point.InCall ∧
      (thread.step net s).2.point.work (thread.step net s).1.w.trackers + 1 ≤
        thread.point.work s.w.trackers := by
  have hinside := inside_copyList hcopies s.w.env.rand.head net.beside
  obtain ⟨rest, hrest⟩ := members_registered hpartition (Copier.asker kind request).list
  simp only [Thread.step, hpoint]
  refine ⟨Asker.next_inCall hinside, Nat.succ_le_succ ?_⟩
  exact Asker.work_le_registered s.w.trackers hinside (unvisited_copyList _ _ _ _) hrest

/-! ## Any interleaving -/

variable {T : Type*} [DecidableEq T]

/-- What `t` has left to do in its call. -/
def Users.work (t : T) (s : Users T) : ℕ := (s.threads t).point.work s.shared.w.trackers

/-- Thread `t` makes a step, and does not receive. -/
def Users.works (t : T) (s : Users T) : UserMove T → ℕ
  | .step t' _ => if t' = t then (!(s.threads t).point.Receives).toNat else 0
  | _ => 0

/-- Another thread returns a connection. -/
def Users.othersReturn (t : T) (s : Users T) : UserMove T → ℕ
  | .step t' _ => if t' = t then 0 else (s.threads t').point.Returns.toNat
  | _ => 0

/-- An array that `t` copies is not empty then. -/
def UserMove.CopiesNonEmpty (t : T) (s : Users T) : UserMove T → Prop
  | .step t' _ => t' = t → ∀ indexes ∈ (s.threads t).point.copied s.shared.w.trackers, indexes ≠ []
  | _ => True

instance (t : T) (s : Users T) : (move : UserMove T) → Decidable (move.CopiesNonEmpty t s)
  | .call _ _ => inferInstanceAs (Decidable True)
  | .step _ _ => inferInstanceAs (Decidable (_ → _))
  | .answer _ _ => inferInstanceAs (Decidable True)

/-- The threads are sound, and `t` is in its call. -/
structure Users.Working (t : T) (s : Users T) : Prop where
  owned : s.Owned
  partition : s.shared.w.trackers.Partition
  inCall : (s.threads t).point.InCall

theorem working_apply {t : T} (s : Users T) (move : UserMove T) (h : s.Working t)
    (hguard : (s.threads t).point ≠ .idle ∧ move.CopiesNonEmpty t s) :
    (move.apply s).Working t := by
  refine ⟨owned_apply s move h.owned, partition_apply s move h.partition, ?_⟩
  obtain ⟨hbusy, hcopies⟩ := hguard
  by_cases hown : ∃ net, move = .step t net
  · obtain ⟨net, rfl⟩ := hown
    show (((s.did t _).threads t).point).InCall
    rw [threads_did_self]
    rcases h.inCall with ⟨kind, request, hcopy⟩ | hasks | hidle
    · have hnonempty := hcopies rfl
      rw [hcopy] at hnonempty
      exact (Thread.step_copy_work net hcopy h.partition (hnonempty _ rfl)).1
    · exact Thread.step_inCall net s.shared hasks
    · exact absurd hidle hbusy
  · rw [UserMove.apply_thread hbusy (not_exists.mp hown)]
    exact h.inCall

omit [DecidableEq T] in
/-- A step of `t` takes what it costs from the potential. -/
theorem work_step {t : T} (s : Users T) (net : Net) (h : s.Working t)
    (hguard : (s.threads t).point ≠ .idle ∧ (UserMove.step t net).CopiesNonEmpty t s) :
    ((s.threads t).step net s.shared).2.point.work
        ((s.threads t).step net s.shared).1.w.trackers + (!(s.threads t).point.Receives).toNat ≤
      s.work t := by
  obtain ⟨hbusy, hcopies⟩ := hguard
  rcases h.inCall with ⟨kind, request, hcopy⟩ | hasks | hidle
  · have hnonempty := hcopies rfl
    rw [hcopy] at hnonempty
    rw [show (!(s.threads t).point.Receives).toNat = 1 by rw [hcopy]; rfl]
    exact (Thread.step_copy_work net hcopy h.partition (hnonempty _ rfl)).2
  · exact Thread.step_work net s.shared (h.owned.wellformed t) hasks
  · exact absurd hidle hbusy

/-- A move takes what it costs from the potential, and what others return adds to it. -/
theorem work_apply {t : T} (s : Users T) (move : UserMove T) (h : s.Working t)
    (hguard : (s.threads t).point ≠ .idle ∧ move.CopiesNonEmpty t s) :
    (move.apply s).work t + s.works t move ≤ s.work t + 4 * s.othersReturn t move := by
  cases move with
  | call t' made =>
    have hcall : ∀ net, UserMove.call t' made ≠ .step t net := by rintro net ⟨⟩
    have hthread := UserMove.apply_thread hguard.1 hcall
    have htrackers : (UserMove.apply s (.call t' made)).shared.w.trackers = s.shared.w.trackers := by
      simp only [UserMove.apply]
      split <;> rfl
    rw [Users.work, hthread, htrackers]
    exact le_refl _
  | step t' net =>
    by_cases ht : t' = t
    · subst ht
      show ((s.did t' _).threads t').point.work (s.did t' _).shared.w.trackers + _ ≤ _
      rw [threads_did_self, Users.works, if_pos rfl]
      exact (work_step s net h hguard).trans (Nat.le_add_right _ _)
    · have hother : ∀ net', UserMove.step t' net ≠ .step t net' := by
        rintro net' ⟨⟩
        exact ht rfl
      have hthread := UserMove.apply_thread hguard.1 hother
      rw [Users.work, hthread, Users.works, if_neg ht, Users.othersReturn, if_neg ht]
      exact Point.work_le (trackerCount_apply s (.step t' net))
        ((s.threads t').step_cached net s.shared) _
  | answer connection text => exact le_refl _

/-- The calls that send a request to one tracker after the other. -/
def UserCall.Asks : UserCall → Prop
  | .requestDo _ => True
  | .testInactive _ => True
  | _ => False

/-- What a call has to do when it begins. -/
theorem working_begin {s : Users T} (howned : s.Owned)
    (hpartition : s.shared.w.trackers.Partition) {t : T} (hidle : (s.threads t).point = .idle)
    {made : UserCall} (hmade : made.Asks) :
    (UserMove.apply s (.call t made)).Working t ∧
      (UserMove.apply s (.call t made)).work t ≤
        10 * s.shared.w.trackers.trackerCount +
          4 * s.shared.w.trackers.cached (Finset.range s.shared.w.trackers.trackerCount) + 1 := by
  have hbegun : UserMove.apply s (.call t made) =
      s.did t (s.shared, made.begin s.shared (s.threads t)) := by
    simp only [UserMove.apply, hidle]
  have htest : ∀ kind request, made.begin s.shared (s.threads t) =
      (Copier.asker kind request).test s.shared (s.threads t) →
      (made.begin s.shared (s.threads t)).point.InCall ∧
        (made.begin s.shared (s.threads t)).point.work s.shared.w.trackers ≤
          10 * s.shared.w.trackers.trackerCount +
            4 * s.shared.w.trackers.cached (Finset.range s.shared.w.trackers.trackerCount) + 1 := by
    intro kind request hbegin
    rw [hbegin]
    rcases (Copier.asker kind request).test_eq s.shared (s.threads t) with h | h
    · rw [h, hidle]
      exact ⟨Or.inr (Or.inr rfl), Nat.zero_le _⟩
    · rw [h]
      exact ⟨Or.inl ⟨kind, request, rfl⟩, le_refl _⟩
  have hcall : (made.begin s.shared (s.threads t)).point.InCall ∧
      (made.begin s.shared (s.threads t)).point.work s.shared.w.trackers ≤
        10 * s.shared.w.trackers.trackerCount +
          4 * s.shared.w.trackers.cached (Finset.range s.shared.w.trackers.trackerCount) + 1 := by
    cases made with
    | requestDo request => exact htest .requestDo request rfl
    | testInactive palloc => exact htest .testInactive (pingRequest palloc) rfl
    | _ => exact hmade.elim
  refine ⟨⟨owned_apply s _ howned, partition_apply s _ hpartition, ?_⟩, ?_⟩
  · rw [hbegun, threads_did_self]
    exact hcall.1
  · rw [Users.work, hbegun, threads_did_self]
    exact hcall.2

/-- After the registrations and any history since, and with any other threads going on: a call of
    `mfs_request_do` or `mfs_pool_test_inactive_trackers` returns, unless the array is empty when it
    is copied. It has done so once it has made more than ten steps for each tracker and four for
    each cached connection, those in the pool when it begins and those that others return meanwhile,
    and the copy; the calls of `apr_socket_recv` do not count, of which a tracker that goes on
    sending may cause any number. -/
theorem call_returns {s : Users T} (hs : s.Reachable) (t : T)
    (hidle : (s.threads t).point = .idle) {made : UserCall} (hmade : made.Asks)
    (moves : List (UserMove T))
    (hcopies : Meets UserMove.apply (fun s move => move.CopiesNonEmpty t s)
      (UserMove.apply s (.call t made)) moves)
    (hworked : 10 * s.shared.w.trackers.trackerCount +
        4 * s.shared.w.trackers.cached (Finset.range s.shared.w.trackers.trackerCount) + 1 +
        4 * total UserMove.apply (Users.othersReturn t) (UserMove.apply s (.call t made)) moves <
      total UserMove.apply (Users.works t) (UserMove.apply s (.call t made)) moves) :
    ∃ k < moves.length, ((Runs.run UserMove.apply s
      (.call t made :: moves.take k)).threads t).point = .idle := by
  obtain ⟨hmatched, hpartition⟩ := hs.matched_partition
  obtain ⟨hworking, hpotential⟩ := working_begin hmatched.owned hpartition hidle hmade
  have hreturns : ¬Runs.Meets UserMove.apply (fun s _ => (s.threads t).point ≠ .idle)
      (UserMove.apply s (.call t made)) moves := by
    intro hbusy
    have htotal : (Runs.run UserMove.apply (UserMove.apply s (.call t made)) moves).work t +
        total UserMove.apply (Users.works t) (UserMove.apply s (.call t made)) moves ≤
          (UserMove.apply s (.call t made)).work t +
            total UserMove.apply (fun s move => 4 * s.othersReturn t move)
              (UserMove.apply s (.call t made)) moves :=
      total_le_of_potential working_apply work_apply hworking (hbusy.and hcopies)
    rw [total_mul] at htotal
    omega
  obtain ⟨k, hk, hstate⟩ := exists_of_not_meets hreturns
  exact ⟨k, hk, not_not.mp hstate⟩

/-- Every send fails: the cached connection and a new one are used up, and the call returns. -/
def everySendFails : List (UserMove Unit) := List.replicate 20 (.step () ⟨.eof, 0, true, 0⟩)

theorem call_returns_failing : ∃ k < everySendFails.length, ((Runs.run UserMove.apply onePooled
    (.call () (.requestDo (pingRequest fun _ => 0)) :: everySendFails.take k)).threads ()).point =
      .idle :=
  call_returns ⟨1, _, _, _, _, _, rfl⟩ () (by decide +kernel)
    (show UserCall.Asks (.requestDo (pingRequest fun _ => 0)) from trivial) everySendFails
    (by decide +kernel) (by decide +kernel)

end MogileFs
