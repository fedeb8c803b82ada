import MogileFs.Library.Runs
import MogileFs.Pool.Matching
import MogileFs.Pool.Probing

/-!
# Recovery of a tracker

`mfs_pool_get_connection_ex` deactivates a tracker it cannot connect to,
`mfs_pool_test_inactive_trackers` activates one that replies again, and
`mfs_request_do` goes from one active tracker to the next (`src/pool.c`, lines
263–311 and 395–422, `src/request.c`, lines 40–71). Any number of threads do so
at the same time. From some moment on tracker `i` answers: connects to it
succeed, and so does an exchange with it that is the caller's last try.

Results:
* `Thread.step_poolStep`, `Thread.step_lists`: what a step of a thread does to
  the pool, and to its two lists.
* `Thread.step_pursues`: a caller gets to `i`, or stops at an answer before.
* `recovered_tracker_active`: once a probe of the inactive trackers has
  returned, `i` is active, and stays active.
* `request_answered_while_up`: a request begun while `i` is active is answered.
-/

namespace MogileFs

/-! ## The two lists -/

theorem TrackerPool.SameLists.refl (p : TrackerPool) : p.SameLists p :=
  ⟨rfl, rfl, rfl, rfl, rfl, rfl⟩

theorem TrackerPool.SameLists.symm {p q : TrackerPool} (h : p.SameLists q) : q.SameLists p := by
  obtain ⟨h1, h2, h3, h4, h5, h6⟩ := h
  exact ⟨h1.symm, h2.symm, h3.symm, h4.symm, h5.symm, h6.symm⟩

/-- The drain that follows in `mfs_pool_deactivate` leaves the lists alone. -/
theorem deactivateSection_sameLists (w : World) (i : ℕ) :
    (deactivateSection w i).2.trackers.SameLists (mfsPoolDeactivate w i).trackers := by
  unfold deactivateSection mfsPoolDeactivate
  simp only
  split_ifs
  · exact drainConnections_sameLists _ i
  · exact .refl _

theorem partition_deactivateSection {w : World} (h : w.trackers.Partition) (i : ℕ) :
    (deactivateSection w i).2.trackers.Partition :=
  (partition_mfsPoolDeactivate h i).of_sameLists (deactivateSection_sameLists w i).symm

theorem mem_active_deactivateSection {w : World} {i j : ℕ} (h : j ∈ w.trackers.active)
    (hne : j ≠ i) : j ∈ (deactivateSection w i).2.trackers.active := by
  rw [← (deactivateSection_sameLists w i).active]
  by_cases hi : i ∈ w.trackers.active
  · obtain ⟨hactive, -⟩ := mfsPoolDeactivate_lists hi
    rw [hactive]
    exact (List.mem_erase_of_ne hne).mpr h
  · rw [mfsPoolDeactivate_of_notMem hi]
    exact h

theorem mem_active_mfsPoolActivate {w : World} {j : ℕ} (h : j ∈ w.trackers.active) (i : ℕ) :
    j ∈ (mfsPoolActivate w i).trackers.active := by
  by_cases hi : i ∈ w.trackers.inactive
  · obtain ⟨hactive, -⟩ := mfsPoolActivate_lists hi
    rw [hactive]
    exact List.mem_append_left _ h
  · rw [mfsPoolActivate_of_notMem hi]
    exact h

/-- A registered tracker is active after `mfs_pool_activate`. -/
theorem mem_active_activated {w : World} (h : w.trackers.Partition) {i : ℕ}
    (hi : i < w.trackers.trackerCount) : i ∈ (mfsPoolActivate w i).trackers.active := by
  have hmem : i ∈ w.trackers.active ++ w.trackers.inactive :=
    h.perm.mem_iff.mpr (List.mem_range.mpr hi)
  rcases List.mem_append.mp hmem with hactive | hinactive
  · exact mem_active_mfsPoolActivate hactive i
  · obtain ⟨hactive, -⟩ := mfsPoolActivate_lists hinactive
    rw [hactive]
    exact List.mem_append_right _ (List.mem_singleton_self i)

theorem trackerCount_mfsPoolActivate (w : World) (i : ℕ) :
    (mfsPoolActivate w i).trackers.trackerCount = w.trackers.trackerCount := by
  by_cases hi : i ∈ w.trackers.inactive
  · exact (mfsPoolActivate_lists hi).2.2.1
  · rw [mfsPoolActivate_of_notMem hi]

theorem trackerCount_deactivateSection (w : World) (i : ℕ) :
    (deactivateSection w i).2.trackers.trackerCount = w.trackers.trackerCount := by
  unfold deactivateSection
  simp only
  split_ifs <;> rfl

/-- Only one section of a call of the pool changes the lists. -/
theorem PoolCall.step_sameLists (w : World) {call : PoolCall} (h : ∀ i, call ≠ .deactivate i) :
    w.trackers.SameLists (call.step w).1.trackers := by
  cases call with
  | getConnection i createNew =>
    simp only [PoolCall.step]
    split_ifs
    · exact popConnection_sameLists w i
    · exact popConnection_sameLists w i
  | connect i =>
    simp only [PoolCall.step]
    split_ifs
    · exact .refl _
    · exact .refl _
  | deactivate i => exact absurd rfl (h i)
  | drain i =>
    have hpop := popConnection_sameLists w i
    rw [PoolCall.step]
    split
    · next w' hw' => rw [hw'] at hpop; exact hpop
    · next entry w' hw' => rw [hw'] at hpop; exact hpop
  | drained i entry => exact .refl _

/-- A section of a call of the pool. -/
theorem Thread.step_pool {net : Net} {s : Shared} {thread : Thread} {call : PoolCall}
    {caller : Caller} (hpoint : thread.point = .pool call caller) :
    (thread.step net s).1.w = (call.step s.w).1 := by
  simp only [Thread.step, hpoint]
  cases (call.step s.w).2 <;> rfl

theorem Thread.step_next {net : Net} {s : Shared} {thread : Thread} {call call' : PoolCall}
    {caller : Caller} (hpoint : thread.point = .pool call caller)
    (hout : (call.step s.w).2 = .next call') :
    (thread.step net s).2 = { thread with point := .pool call' caller } := by
  simp only [Thread.step, hpoint, hout]

theorem Thread.step_done {net : Net} {s : Shared} {thread : Thread} {call : PoolCall}
    {caller : Caller} (hpoint : thread.point = .pool call caller)
    {entry : Option ConnectionEntry} {isNew : Bool}
    (hout : (call.step s.w).2 = .done entry isNew) :
    (thread.step net s).2 = thread.resume entry isNew caller := by
  simp only [Thread.step, hpoint, hout]

/-- Where a step of a thread enters the pool, and what it does there. -/
inductive Thread.PoolStep (thread : Thread) (w w' : World) : Prop
  | pool (call : PoolCall) (caller : Caller) (hpoint : thread.point = .pool call caller)
      (h : w' = (call.step w).1)
  | activate (a : Asker) (entry : ConnectionEntry) (hpoint : thread.point = .activate a entry)
      (h : w' = mfsPoolActivate w a.trackerIndex)
  | giveBack (a : Asker) (entry : ConnectionEntry) (hpoint : thread.point = .giveBack a entry)
      (h : w' = mfsPoolReturnConnection w a.trackerIndex entry)
  | expire (i : ℕ) (h : w' = (mfsPoolGetExpiredTrackers w i).2)
  | outside (h : w'.trackers = w.trackers)

theorem Thread.step_poolStep (net : Net) (s : Shared) (thread : Thread) :
    thread.PoolStep s.w (thread.step net s).1.w := by
  cases hpoint : thread.point with
  | pool call caller => exact .pool call caller hpoint (Thread.step_pool hpoint)
  | activate a entry => exact .activate a entry hpoint (by simp only [Thread.step, hpoint])
  | giveBack a entry => exact .giveBack a entry hpoint (by simp only [Thread.step, hpoint])
  | expire list =>
    simp only [Thread.step, hpoint]
    cases list.next with
    | mk tracker list' =>
      cases tracker with
      | none => exact .outside rfl
      | some _ => exact .expire list'.trackerIndex rfl
  | destroyExpired list entries =>
    cases entries <;>
    · simp only [Thread.step, hpoint]
      exact .outside rfl
  | watch =>
    simp only [Thread.step, hpoint]
    split_ifs
    · cases thread.watchConnection <;> exact .outside rfl
    · exact .outside rfl
  | sendWatch =>
    simp only [Thread.step, hpoint]
    cases thread.watchConnection <;> exact .outside rfl
  | destroyWatch =>
    simp only [Thread.step, hpoint]
    cases thread.watchConnection <;> exact .outside rfl
  | _ =>
    simp only [Thread.step, hpoint]
    exact .outside rfl

/-- What one step of a thread does to the lists: nothing, or the one section of
    `mfs_pool_activate` or of `mfs_pool_deactivate`. -/
inductive Thread.ListStep (thread : Thread) (w w' : World) : Prop
  | same (h : w.trackers.SameLists w'.trackers)
  | activate (a : Asker) (entry : ConnectionEntry) (hpoint : thread.point = .activate a entry)
      (h : w' = mfsPoolActivate w a.trackerIndex)
  | deactivate (i : ℕ) (caller : Caller) (hpoint : thread.point = .pool (.deactivate i) caller)
      (h : w' = (deactivateSection w i).2)

theorem Thread.step_lists (net : Net) (s : Shared) (thread : Thread) :
    thread.ListStep s.w (thread.step net s).1.w := by
  cases thread.step_poolStep net s with
  | pool call caller hpoint h =>
    rw [h]
    by_cases hcall : ∃ i, call = .deactivate i
    · obtain ⟨i, rfl⟩ := hcall
      exact .deactivate i caller hpoint rfl
    · exact .same (PoolCall.step_sameLists s.w fun i hi => hcall ⟨i, hi⟩)
  | activate a entry hpoint h => exact .activate a entry hpoint h
  | giveBack a entry _ h =>
    rw [h]
    exact .same ⟨rfl, rfl, rfl, rfl, rfl, rfl⟩
  | expire i h =>
    rw [h]
    exact .same ⟨rfl, rfl, rfl, rfl, rfl, rfl⟩
  | outside h => exact .same (h ▸ .refl _)

/-! ## A tracker that answers -/

/-- The caller goes on to the next tracker when this connection fails: a probe always, a
    request unless the connection was a cached one. -/
def Asker.lastTry (a : Asker) (isNew : Bool) : Bool := a.kind = .testInactive ∨ isNew = true

/-- The exchange goes on, or has ended with a valid reply. -/
def Received.Accepted : Received → Prop
  | .failed _ => False
  | .more _ => True
  | .line text => lineStatus text = .success

/-- What tracker `i` does in the next step of the thread: it takes a connect, and it
    does not fail the exchange that is the caller's last try. -/
def Thread.AnsweredBy (i : ℕ) (net : Net) (s : Shared) (thread : Thread) : Prop :=
  match thread.point with
  | .pool (.connect j) _ => j = i → s.w.env.connect.head = .success
  | .send a _ isNew => a.trackerIndex = i → a.lastTry isNew = true → net.rv = .success
  | .receive a entry isNew finalBuffer => a.trackerIndex = i → a.lastTry isNew = true →
      (receiveStep finalBuffer ((s.wires entry.connection).recv net)).Accepted
  | _ => True

instance (out : Received) : Decidable out.Accepted := by
  unfold Received.Accepted
  split <;> infer_instance

instance (i : ℕ) (net : Net) (s : Shared) (thread : Thread) :
    Decidable (thread.AnsweredBy i net s) := by
  unfold Thread.AnsweredBy
  split <;> infer_instance

/-- Tracker `i` is up in this move. -/
def UserMove.Up {T : Type*} (i : ℕ) (s : Users T) : UserMove T → Prop
  | .step t net => (s.threads t).AnsweredBy i net s.shared
  | _ => True

instance {T : Type*} (i : ℕ) (s : Users T) (move : UserMove T) : Decidable (move.Up i s) := by
  unfold UserMove.Up
  split <;> infer_instance

/-! ## The way to a tracker -/

/-- The pool is asked for a connection, a new one if there is no other. -/
def PoolCall.Connects : PoolCall → Prop
  | .getConnection _ createNew => createNew = true
  | .connect _ => True
  | _ => False

/-- A call for `request` has `i` ahead of it, or is at `i` and has not given it up. -/
structure Asker.Pursues (kind : AskerKind) (request : RequestArgs) (i : ℕ) (trying : Prop)
    (a : Asker) : Prop where
  kind : a.kind = kind
  request : a.request = request
  ahead : i ∈ a.list.unvisited ∨ (a.trackerIndex = i ∧ trying)

/-- The thread is on its way to `i`, without an answer that would end its call. -/
def Point.Pursues (kind : AskerKind) (request : RequestArgs) (i : ℕ) : Point → Prop
  | .pool call (.asker a) => a.Pursues kind request i call.Connects
  | .send a _ _ => a.Pursues kind request i True
  | .receive a _ _ _ => a.Pursues kind request i True
  | .destroy a _ isNew => a.Pursues kind request i (a.lastTry isNew = false)
  | .activate a _ => kind = .testInactive ∧ a.Pursues kind request i True
  | .giveBack a _ => kind = .testInactive ∧ a.Pursues kind request i False
  | _ => False

section Pursuit

variable {kind : AskerKind} {request : RequestArgs} {i : ℕ}

/-- The loop goes on to the next tracker, which is `i` or comes before it. -/
theorem Asker.next_pursues {a : Asker} (hkind : a.kind = kind) (hrequest : a.request = request)
    (h : i ∈ a.list.unvisited) : a.next.Pursues kind request i := by
  unfold Asker.next
  cases hnext : a.list.next with
  | mk tracker list =>
    cases tracker with
    | none =>
      rw [CopiedList.unvisited_of_none hnext] at h
      exact absurd h List.not_mem_nil
    | some j =>
      obtain ⟨hcurrent, hunvisited⟩ := CopiedList.unvisited_of_some hnext
      rcases hunvisited with hnil | hcons
      · rw [hnil] at h
        exact absurd h List.not_mem_nil
      · rw [hcons] at h
        refine ⟨hkind, hrequest, ?_⟩
        rcases List.mem_cons.mp h with hij | hmem
        · exact Or.inr ⟨hcurrent.trans hij.symm, rfl⟩
        · exact Or.inl hmem

/-- The thread is about to copy its list, or on its way to `i`. -/
def Point.Seeks (kind : AskerKind) (request : RequestArgs) (i : ℕ) (point : Point) : Prop :=
  point = .copy (.asker kind request) ∨ point.Pursues kind request i

theorem Point.Seeks.ne_idle {point : Point} (h : point.Seeks kind request i) : point ≠ .idle := by
  rintro rfl
  rcases h with hcopy | hpursues
  · cases hcopy
  · exact hpursues

/-- `i` is in the array that the thread copies. -/
theorem Thread.step_copy {net : Net} {s : Shared} {thread : Thread}
    (hpoint : thread.point = .copy (.asker kind request))
    (h : i ∈ (Copier.asker kind request).list.members s.w.trackers) :
    (thread.step net s).2.point.Pursues kind request i := by
  simp only [Thread.step, hpoint]
  exact Asker.next_pursues rfl rfl ((unvisited_copyList _ _ _ _).mem_iff.mpr h)

/-- After a failure: the same tracker again, or the next one. -/
theorem Asker.afterFailure_eq (a : Asker) (isNew : Bool) :
    (a.lastTry isNew = false ∧
        a.afterFailure isNew = .pool (.getConnection a.trackerIndex true) (.asker a)) ∨
      (a.lastTry isNew = true ∧ a.afterFailure isNew = a.next) := by
  obtain ⟨kind, request, list⟩ := a
  cases kind <;> cases isNew
  · exact Or.inl ⟨rfl, rfl⟩
  · exact Or.inr ⟨rfl, rfl⟩
  · exact Or.inr ⟨rfl, rfl⟩
  · exact Or.inr ⟨rfl, rfl⟩

theorem Asker.Pursues.afterFailure {a : Asker} {isNew : Bool}
    (h : a.Pursues kind request i (a.lastTry isNew = false)) :
    (a.afterFailure isNew).Pursues kind request i := by
  rcases a.afterFailure_eq isNew with ⟨-, heq⟩ | ⟨hlast, heq⟩
  · rw [heq]
    exact ⟨h.kind, h.request, h.ahead.imp_right fun hcurrent => ⟨hcurrent.1, rfl⟩⟩
  · rw [heq]
    rcases h.ahead with hahead | ⟨-, hnot⟩
    · exact a.next_pursues h.kind h.request hahead
    · rw [hlast] at hnot
      cases hnot

/-- A section of the pool: a connection is found or made, or the tracker cannot be reached and
    is not `i`. -/
theorem Asker.Pursues.pool {net : Net} {s : Shared} {thread : Thread} {call : PoolCall} {a : Asker}
    (hpoint : thread.point = .pool call (.asker a)) (hindex : call.trackerIndex = a.trackerIndex)
    (hup : thread.AnsweredBy i net s) (h : a.Pursues kind request i call.Connects) :
    (thread.step net s).2.point.Pursues kind request i := by
  rcases h.ahead with hahead | ⟨hcurrent, hconnects⟩
  · -- whatever becomes of this tracker, `i` is still to come
    cases hout : (call.step s.w).2 with
    | next call' =>
      rw [Thread.step_next hpoint hout]
      exact ⟨h.kind, h.request, Or.inl hahead⟩
    | done entry isNew =>
      rw [Thread.step_done hpoint hout]
      cases entry with
      | none => exact a.next_pursues h.kind h.request hahead
      | some entry => exact ⟨h.kind, h.request, Or.inl hahead⟩
  · cases call with
    | getConnection j createNew =>
      obtain rfl : createNew = true := hconnects
      cases hpop : (popConnection s.w j).1 with
      | none =>
        have hout : (PoolCall.step s.w (.getConnection j true)).2 = .next (.connect j) := by
          simp [PoolCall.step, hpop]
        rw [Thread.step_next hpoint hout]
        exact ⟨h.kind, h.request, Or.inr ⟨hcurrent, trivial⟩⟩
      | some entry =>
        have hout : (PoolCall.step s.w (.getConnection j true)).2 = .done (some entry) false := by
          simp [PoolCall.step, hpop]
        rw [Thread.step_done hpoint hout]
        exact ⟨h.kind, h.request, Or.inr ⟨hcurrent, trivial⟩⟩
    | connect j =>
      have hrv : (mfsTrackerConnect s.w j).1 = .success := by
        rw [Thread.AnsweredBy, hpoint] at hup
        exact hup (hindex.trans hcurrent)
      have hout : (PoolCall.step s.w (.connect j)).2 =
          .done (some ⟨(mfsTrackerConnect s.w j).2.nextConnection, 0⟩) true := by
        simp [PoolCall.step, hrv]
      rw [Thread.step_done hpoint hout]
      exact ⟨h.kind, h.request, Or.inr ⟨hcurrent, trivial⟩⟩
    | deactivate j => exact hconnects.elim
    | drain j => exact hconnects.elim
    | drained j entry => exact hconnects.elim

/-- What a step of a thread that pursues `i` leads to. -/
inductive Thread.PursuitStep (kind : AskerKind) (request : RequestArgs) (i : ℕ)
    (thread thread' : Thread) : Prop
  /-- It is still on its way, a request without an answer. -/
  | onItsWay (h : thread'.point.Pursues kind request i)
      (hresponses : kind = .requestDo → thread'.responses = thread.responses)
  /-- A request has been answered, by `i` or by a tracker before it. -/
  | answered (hkind : kind = .requestDo) (r : Response) (hrequest : r.request = request)
      (h : thread'.responses = thread.responses ++ [r])
  /-- A probe has activated `i`. -/
  | reached (a : Asker) (entry : ConnectionEntry) (hpoint : thread.point = .activate a entry)
      (hcurrent : a.trackerIndex = i)

/-- An exchange that failed was not the last try, if it was with `i`. -/
theorem Asker.Pursues.failed {a : Asker} (h : a.Pursues kind request i True) {isNew : Bool}
    (hlast : a.trackerIndex = i → a.lastTry isNew ≠ true) :
    a.Pursues kind request i (a.lastTry isNew = false) := by
  refine ⟨h.kind, h.request, h.ahead.imp_right ?_⟩
  intro hcurrent
  exact ⟨hcurrent.1, Bool.eq_false_of_not_eq_true (hlast hcurrent.1)⟩

/-- A chunk was received: more is to come, the exchange failed, or the line is the answer. -/
theorem Thread.received_pursues {thread : Thread} {a : Asker} {isNew : Bool} {out : Received}
    (h : a.Pursues kind request i True)
    (hup : a.trackerIndex = i → a.lastTry isNew = true → out.Accepted) (entry : ConnectionEntry) :
    thread.PursuitStep kind request i (thread.received a entry isNew out) := by
  cases out with
  | failed rv =>
    refine .onItsWay ?_ fun _ => rfl
    exact h.failed fun hcurrent hlast => hup hcurrent hlast
  | more multiBuffer => exact .onItsWay h fun _ => rfl
  | line text =>
    simp only [Thread.received]
    split_ifs with hstatus
    · cases hkind : kind with
      | requestDo => exact .answered rfl ⟨entry.connection, a.request, text⟩ h.request rfl
      | testInactive =>
        have hanswered : a.answered entry = .activate a entry := by
          rw [Asker.answered, h.kind, hkind]
        refine .onItsWay ?_ fun hrequest => by cases hrequest
        show (a.answered entry).Pursues .testInactive request i
        rw [hanswered]
        exact ⟨rfl, hkind ▸ h⟩
    · refine .onItsWay ?_ fun _ => rfl
      exact h.failed fun hcurrent hlast => hstatus (hup hcurrent hlast)

/-- A step of a thread that pursues `i`, while `i` is up. -/
theorem Thread.step_pursues {net : Net} {s : Shared} {thread : Thread} (hwell : thread.Wellformed)
    (hup : thread.AnsweredBy i net s) (h : thread.point.Pursues kind request i) :
    thread.PursuitStep kind request i (thread.step net s).2 := by
  cases hpoint : thread.point with
  | pool call caller =>
    rw [hpoint] at h
    cases caller with
    | asker a =>
      refine .onItsWay (h.pool hpoint (hwell call _ hpoint) hup) ?_
      intro _
      simp only [Thread.step, hpoint]
      cases (call.step s.w).2 with
      | next call' => rfl
      | done entry isNew => exact Thread.resume_responses thread entry isNew _
    | watch => exact h.elim
    | deactivate => exact h.elim
  | send a entry isNew =>
    rw [hpoint] at h
    rw [Thread.AnsweredBy, hpoint] at hup
    simp only [Thread.step, hpoint]
    split_ifs with hrv
    · exact .onItsWay h fun _ => rfl
    · refine .onItsWay ?_ fun _ => rfl
      exact h.failed fun hcurrent hlast => hrv (hup hcurrent hlast)
  | receive a entry isNew finalBuffer =>
    rw [hpoint] at h
    rw [Thread.AnsweredBy, hpoint] at hup
    simp only [Thread.step, hpoint]
    exact Thread.received_pursues h hup entry
  | destroy a entry isNew =>
    rw [hpoint] at h
    simp only [Thread.step, hpoint]
    exact .onItsWay h.afterFailure fun _ => rfl
  | activate a entry =>
    rw [hpoint] at h
    obtain ⟨hkind, h⟩ := h
    rcases h.ahead with hahead | ⟨hcurrent, -⟩
    · simp only [Thread.step, hpoint]
      exact .onItsWay ⟨hkind, h.kind, h.request, Or.inl hahead⟩ fun _ => rfl
    · exact .reached a entry hpoint hcurrent
  | giveBack a entry =>
    rw [hpoint] at h
    obtain ⟨hkind, h⟩ := h
    have hahead : i ∈ a.list.unvisited := h.ahead.resolve_right fun hcurrent => hcurrent.2
    have hreturn : a.afterReturn = a.next := by rw [Asker.afterReturn, h.kind, hkind]
    simp only [Thread.step, hpoint, hreturn]
    exact .onItsWay (a.next_pursues h.kind h.request hahead) fun _ => rfl
  | idle => rw [hpoint] at h; exact h.elim
  | copy copier => rw [hpoint] at h; exact h.elim
  | expire list => rw [hpoint] at h; exact h.elim
  | destroyExpired list entries => rw [hpoint] at h; exact h.elim
  | watch => rw [hpoint] at h; exact h.elim
  | sendWatch => rw [hpoint] at h; exact h.elim
  | readline => rw [hpoint] at h; exact h.elim
  | destroyWatch => rw [hpoint] at h; exact h.elim

end Pursuit

/-! ## Who deactivates a tracker -/

/-- In front of the section of `mfs_pool_deactivate` that moves `i`. -/
def Point.Deactivates (i : ℕ) : Point → Prop
  | .pool (.deactivate j) _ => j = i
  | _ => False

theorem Asker.next_keeps (a : Asker) (i : ℕ) : ¬a.next.Deactivates i := by
  intro h
  rcases a.next_eq with heq | ⟨a', heq⟩
  · rw [heq] at h
    exact h
  · rw [heq] at h
    exact h

theorem Copier.start_keeps (list : CopiedList) (copier : Copier) (i : ℕ) :
    ¬(copier.start list).Deactivates i := by
  cases copier with
  | asker kind request => exact Asker.next_keeps _ i
  | expireActive => exact id

theorem Thread.resume_keeps (thread : Thread) (entry : Option ConnectionEntry) (isNew : Bool)
    (caller : Caller) (i : ℕ) : ¬(thread.resume entry isNew caller).point.Deactivates i := by
  cases caller with
  | asker a =>
    cases entry with
    | none => exact a.next_keeps i
    | some entry => exact id
  | watch => cases entry <;> exact id
  | deactivate => exact id

/-- Only a connect that fails leads a thread there. -/
theorem PoolCall.step_keeps {w : World} {call call' : PoolCall} {caller : Caller} {i : ℕ}
    (hconnect : call = .connect i → w.env.connect.head = .success)
    (h : (call.step w).2 = .next call') : ¬(Point.pool call' caller).Deactivates i := by
  intro hdeactivates
  cases call with
  | getConnection j createNew =>
    simp only [PoolCall.step] at h
    split_ifs at h
    cases h
    exact hdeactivates
  | connect j =>
    simp only [PoolCall.step] at h
    split_ifs at h with hrv
    cases h
    obtain rfl : j = i := hdeactivates
    exact hrv (hconnect rfl)
  | deactivate j =>
    simp only [PoolCall.step] at h
    split_ifs at h
    cases h
    exact hdeactivates
  | drain j =>
    rw [PoolCall.step] at h
    split at h
    · cases h
    · cases h
      exact hdeactivates
  | drained j entry =>
    cases h
    exact hdeactivates

theorem Thread.received_keeps (thread : Thread) (a : Asker) (entry : ConnectionEntry)
    (isNew : Bool) (out : Received) (i : ℕ) :
    ¬(thread.received a entry isNew out).point.Deactivates i := by
  cases out with
  | failed rv => exact id
  | more multiBuffer => exact id
  | line text =>
    simp only [Thread.received]
    split_ifs
    · show ¬(a.answered entry).Deactivates i
      unfold Asker.answered
      split <;> exact id
    · exact id

theorem Thread.step_keeps {net : Net} {s : Shared} {thread : Thread} {i : ℕ}
    (hup : thread.AnsweredBy i net s) (h : ¬thread.point.Deactivates i) :
    ¬(thread.step net s).2.point.Deactivates i := by
  cases hpoint : thread.point with
  | idle => simpa only [Thread.step, hpoint] using h
  | copy copier =>
    simp only [Thread.step, hpoint]
    exact copier.start_keeps _ i
  | pool call caller =>
    simp only [Thread.step, hpoint]
    cases hout : (call.step s.w).2 with
    | next call' =>
      refine PoolCall.step_keeps ?_ hout
      rintro rfl
      rw [Thread.AnsweredBy, hpoint] at hup
      exact hup rfl
    | done entry isNew => exact thread.resume_keeps entry isNew caller i
  | send a entry isNew =>
    simp only [Thread.step, hpoint]
    split_ifs <;> exact id
  | receive a entry isNew finalBuffer =>
    simp only [Thread.step, hpoint]
    exact thread.received_keeps a entry isNew _ i
  | destroy a entry isNew =>
    simp only [Thread.step, hpoint]
    rcases a.afterFailure_eq isNew with ⟨-, heq⟩ | ⟨-, heq⟩
    · rw [heq]
      exact id
    · rw [heq]
      exact a.next_keeps i
  | activate a entry =>
    simp only [Thread.step, hpoint]
    exact id
  | giveBack a entry =>
    simp only [Thread.step, hpoint, Asker.afterReturn]
    split
    · exact id
    · exact a.next_keeps i
  | expire list =>
    simp only [Thread.step, hpoint]
    cases list.next with
    | mk tracker list' => cases tracker <;> exact id
  | destroyExpired list entries =>
    cases entries <;>
    · simp only [Thread.step, hpoint]
      exact id
  | watch =>
    simp only [Thread.step, hpoint]
    split_ifs
    · cases thread.watchConnection <;> exact id
    · exact id
  | sendWatch =>
    simp only [Thread.step, hpoint]
    cases thread.watchConnection <;> exact id
  | readline =>
    simp only [Thread.step, hpoint]
    split_ifs <;> exact id
  | destroyWatch =>
    simp only [Thread.step, hpoint]
    cases thread.watchConnection <;> exact id

/-- The test lets pass who finds a tracker in its array. -/
theorem Copier.test_of_mem {s : Shared} {thread : Thread} (copier : Copier) {i : ℕ}
    (h : i ∈ copier.list.members s.w.trackers) :
    copier.test s thread = { thread with point := .copy copier } := by
  rw [Copier.test, if_neg]
  intro hcount
  rw [ListKind.members, hcount] at h
  exact absurd h List.not_mem_nil

theorem UserCall.begin_keeps (s : Shared) {thread : Thread} (hidle : thread.point = .idle)
    {made : UserCall} {i : ℕ} (h : made ≠ .deactivate i) :
    ¬(made.begin s thread).point.Deactivates i := by
  have htest : ∀ copier : Copier, ¬(copier.test s thread).point.Deactivates i := by
    intro copier
    rcases copier.test_eq s thread with heq | heq
    · rw [heq, hidle]
      exact id
    · rw [heq]
      exact id
  cases made with
  | requestDo request => exact htest _
  | testInactive palloc => exact htest _
  | expireActive => exact htest _
  | deactivate j =>
    rintro rfl
    exact h rfl
  | watchLine => exact id

/-! ## Interleavings -/

section ListStep

variable {thread : Thread} {w w' : World} {i : ℕ}

theorem Thread.ListStep.partition (h : thread.ListStep w w') (hp : w.trackers.Partition) :
    w'.trackers.Partition := by
  cases h with
  | same h => exact hp.of_sameLists h
  | activate a entry hpoint h =>
    rw [h]
    exact partition_mfsPoolActivate hp a.trackerIndex
  | deactivate j caller hpoint h =>
    rw [h]
    exact partition_deactivateSection hp j

theorem Thread.ListStep.trackerCount (h : thread.ListStep w w') :
    w'.trackers.trackerCount = w.trackers.trackerCount := by
  cases h with
  | same h => exact h.1
  | activate a entry hpoint h =>
    rw [h]
    exact trackerCount_mfsPoolActivate w a.trackerIndex
  | deactivate j caller hpoint h =>
    rw [h]
    exact trackerCount_deactivateSection w j

/-- An active tracker stays active, unless the thread deactivates it. -/
theorem Thread.ListStep.mem_active (h : thread.ListStep w w')
    (hkeep : ¬thread.point.Deactivates i) (hi : i ∈ w.trackers.active) :
    i ∈ w'.trackers.active := by
  cases h with
  | same h =>
    rw [h.active]
    exact hi
  | activate a entry hpoint h =>
    rw [h]
    exact mem_active_mfsPoolActivate hi a.trackerIndex
  | deactivate j caller hpoint h =>
    rw [hpoint] at hkeep
    rw [h]
    exact mem_active_deactivateSection hi fun hij => hkeep hij.symm

end ListStep

variable {T : Type*} [DecidableEq T]

/-- Nobody calls `mfs_pool_deactivate` for tracker `i`. -/
def UserMove.Spares (i : ℕ) : UserMove T → Prop
  | .call _ (.deactivate j) => j ≠ i
  | _ => True

omit [DecidableEq T] in
instance (i : ℕ) (move : UserMove T) : Decidable (move.Spares i) := by
  unfold UserMove.Spares
  split <;> infer_instance

/-- A move changes the lists by a step of a thread, or not at all. -/
theorem UserMove.apply_lists (s : Users T) (move : UserMove T) :
    s.shared.w.trackers.SameLists (move.apply s).shared.w.trackers ∨
      ∃ t, (s.threads t).ListStep s.shared.w (move.apply s).shared.w := by
  cases move with
  | call t made =>
    refine Or.inl ?_
    simp only [UserMove.apply]
    split
    · exact .refl _
    · exact .refl _
  | step t net => exact Or.inr ⟨t, Thread.step_lists net s.shared (s.threads t)⟩
  | answer connection text => exact Or.inl (.refl _)

theorem partition_apply (s : Users T) (move : UserMove T) (h : s.shared.w.trackers.Partition) :
    (move.apply s).shared.w.trackers.Partition := by
  rcases move.apply_lists s with hsame | ⟨t, hstep⟩
  · exact h.of_sameLists hsame
  · exact hstep.partition h

theorem trackerCount_apply (s : Users T) (move : UserMove T) :
    (move.apply s).shared.w.trackers.trackerCount = s.shared.w.trackers.trackerCount := by
  rcases move.apply_lists s with hsame | ⟨t, hstep⟩
  · exact hsame.1
  · exact hstep.trackerCount

theorem mem_active_apply {s : Users T} {i : ℕ} (hkept : ∀ t, ¬(s.threads t).point.Deactivates i)
    (hi : i ∈ s.shared.w.trackers.active) (move : UserMove T) :
    i ∈ (move.apply s).shared.w.trackers.active := by
  rcases move.apply_lists s with hsame | ⟨t, hstep⟩
  · rw [hsame.active]
    exact hi
  · exact hstep.mem_active (hkept t) hi

/-- While `i` is up, no thread comes to deactivate it. -/
theorem kept_apply {s : Users T} {i : ℕ} (hkept : ∀ t, ¬(s.threads t).point.Deactivates i)
    {move : UserMove T} (hup : move.Up i s) (hspares : move.Spares i) (t : T) :
    ¬((move.apply s).threads t).point.Deactivates i := by
  cases move with
  | call t' made =>
    simp only [UserMove.apply]
    split
    · next hidle =>
      by_cases heq : t = t'
      · rw [heq, threads_did_self]
        refine UserCall.begin_keeps s.shared hidle ?_
        rintro rfl
        exact hspares rfl
      · rw [threads_did_of_ne s heq]
        exact hkept t
    · exact hkept t
  | step t' net =>
    show ¬((s.did t' ((s.threads t').step net s.shared)).threads t).point.Deactivates i
    by_cases heq : t = t'
    · rw [heq, threads_did_self]
      exact Thread.step_keeps hup (hkept t')
    · rw [threads_did_of_ne s heq]
      exact hkept t
  | answer connection text => exact hkept t

/-- A thread that is in its call is not reached by a call, nor by the steps of other threads. -/
theorem UserMove.apply_thread {s : Users T} {t : T} (hbusy : (s.threads t).point ≠ .idle)
    {move : UserMove T} (h : ∀ net, move ≠ .step t net) : (move.apply s).threads t = s.threads t := by
  cases move with
  | call t' made =>
    simp only [UserMove.apply]
    split
    · next hidle =>
      have hne : t ≠ t' := by
        rintro rfl
        exact hbusy hidle
      exact threads_did_of_ne s hne _
    · rfl
  | step t' net =>
    have hne : t ≠ t' := by
      rintro rfl
      exact h net rfl
    exact threads_did_of_ne s hne _
  | answer connection text => rfl

/-- A tracker that is registered is active, or will be in the copy of the inactive list. -/
theorem mem_active_or_inactive {pool : TrackerPool} (h : pool.Partition) {i : ℕ}
    (hi : i < pool.trackerCount) : i ∈ pool.active ∨ i ∈ pool.inactive :=
  List.mem_append.mp (h.perm.mem_iff.mpr (List.mem_range.mpr hi))

/-! ## A probe of the inactive trackers -/

/-- Thread `t` has probed the inactive trackers, or seeks `i` among them. -/
structure Users.Recovering (t : T) (request : RequestArgs) (i : ℕ) (s : Users T) : Prop where
  owned : s.Owned
  partition : s.shared.w.trackers.Partition
  registered : i < s.shared.w.trackers.trackerCount
  kept : ∀ t', ¬(s.threads t').point.Deactivates i
  way : i ∈ s.shared.w.trackers.active ∨ (s.threads t).point.Seeks .testInactive request i

theorem recovering_apply {t : T} {request : RequestArgs} {i : ℕ} (s : Users T) (move : UserMove T)
    (h : s.Recovering t request i) (hup : move.Up i s ∧ move.Spares i) :
    (move.apply s).Recovering t request i := by
  refine ⟨owned_apply s move h.owned, partition_apply s move h.partition, ?_,
    kept_apply h.kept hup.1 hup.2, ?_⟩
  · rw [trackerCount_apply]
    exact h.registered
  rcases h.way with hactive | hway
  · exact Or.inl (mem_active_apply h.kept hactive move)
  by_cases hown : ∃ net, move = .step t net
  · obtain ⟨net, rfl⟩ := hown
    show _ ∨ ((s.did t ((s.threads t).step net s.shared)).threads t).point.Seeks _ _ _
    rw [threads_did_self]
    rcases hway with hcopy | hpursues
    · -- the list is copied now, and `i` may have become active since the call
      rcases mem_active_or_inactive h.partition h.registered with hactive | hinactive
      · exact Or.inl (mem_active_apply h.kept hactive (.step t net))
      · exact Or.inr (Or.inr (Thread.step_copy hcopy hinactive))
    · cases Thread.step_pursues (h.owned.wellformed t) hup.1 hpursues with
      | onItsWay hpoint hresponses => exact Or.inr (Or.inr hpoint)
      | answered hkind r hrequest hresponses => cases hkind
      | reached a entry hpoint hcurrent =>
        refine Or.inl ?_
        have hworld : ((s.threads t).step net s.shared).1.w = mfsPoolActivate s.shared.w i := by
          simp only [Thread.step, hpoint, hcurrent]
        show i ∈ ((s.threads t).step net s.shared).1.w.trackers.active
        rw [hworld]
        exact mem_active_activated h.partition h.registered
  · rw [UserMove.apply_thread hway.ne_idle (not_exists.mp hown)]
    exact Or.inr hway

/-- The probe begins with a look at the inactive list. -/
theorem recovering_begin {t : T} {i : ℕ} {s : Users T} (howned : s.Owned)
    (hpartition : s.shared.w.trackers.Partition) (hidle : (s.threads t).point = .idle)
    (hregistered : i < s.shared.w.trackers.trackerCount)
    (hkept : ∀ t', ¬(s.threads t').point.Deactivates i) (palloc : ℕ → Byte) :
    (UserMove.apply s (.call t (.testInactive palloc))).Recovering t (pingRequest palloc) i := by
  refine ⟨owned_apply s _ howned, partition_apply s _ hpartition, ?_,
    kept_apply hkept trivial trivial, ?_⟩
  · rw [trackerCount_apply]
    exact hregistered
  rcases mem_active_or_inactive hpartition hregistered with hactive | hinactive
  · exact Or.inl (mem_active_apply hkept hactive _)
  · refine Or.inr (Or.inl ?_)
    simp only [UserMove.apply, hidle, threads_did_self, UserCall.begin]
    rw [Copier.test_of_mem (.asker .testInactive (pingRequest palloc)) hinactive]

/-! ## Pools from their registrations on -/

/-- A state of a run of the users of a pool, which begins when all registrations are made. -/
def Users.Reachable (s : Users T) : Prop :=
  ∃ (n : ℕ) (palloc : PoolMemory) (registrations : List Registration) (env : Env)
    (watchTracker : T → ℕ) (moves : List (UserMove T)),
    s = Runs.run UserMove.apply
      (Users.start (registeredPool n palloc registrations) env watchTracker) moves

/-- No tracker is inactive before the pool is used. -/
theorem partition_registeredPool (n : ℕ) (palloc : PoolMemory) (registrations : List Registration) :
    (registeredPool n palloc registrations).Partition ∧
      (registeredPool n palloc registrations).inactive = [] := by
  induction registrations using List.reverseRecOn with
  | nil => exact ⟨partition_mfsPoolInit n palloc, rfl⟩
  | append_singleton registrations r ih =>
    obtain ⟨hpartition, hinactive⟩ := ih
    rw [registeredPool, List.foldl_append]
    show (mfsPoolRegisterTracker (registeredPool n palloc registrations) r).Partition ∧
      (mfsPoolRegisterTracker (registeredPool n palloc registrations) r).inactive = []
    by_cases hr : (registeredPool n palloc registrations).Registers r
    · have hcount : (registeredPool n palloc registrations).inactiveTrackerCount = 0 := by
        have hlength := congrArg List.length hinactive
        rwa [TrackerPool.inactive, Cells.length_cells] at hlength
      refine ⟨(partition_register_iff hpartition hr).mpr (Or.inl hcount), ?_⟩
      rw [(mfsPoolRegisterTracker_lists hr).2.1]
      exact hinactive
    · have hsame := mfsPoolRegisterTracker_sameLists hr
      refine ⟨hpartition.of_sameLists hsame, ?_⟩
      rw [hsame.inactive]
      exact hinactive

theorem Users.Reachable.matched_partition {s : Users T} (h : s.Reachable) :
    s.Matched ∧ s.shared.w.trackers.Partition := by
  obtain ⟨n, palloc, registrations, env, watchTracker, moves, rfl⟩ := h
  have hrun : Runs.Throughout UserMove.apply
      (fun s : Users T => s.Matched ∧ s.shared.w.trackers.Partition)
      (Users.start (registeredPool n palloc registrations) env watchTracker) moves := by
    refine Runs.throughout_of_steps ?_ ?_
    · intro s move h
      exact ⟨matched_apply s move h.1, partition_apply s move h.2⟩
    · exact ⟨matched_start n palloc registrations env watchTracker,
        (partition_registeredPool n palloc registrations).1⟩
  have hend := hrun moves.length
  rwa [List.take_length] at hend

theorem Users.Reachable.run {s : Users T} (h : s.Reachable) (moves : List (UserMove T)) :
    (Runs.run UserMove.apply s moves).Reachable := by
  obtain ⟨n, palloc, registrations, env, watchTracker, before, rfl⟩ := h
  refine ⟨n, palloc, registrations, env, watchTracker, before ++ moves, ?_⟩
  rw [Runs.run_append]

/-- After the registrations and any history since, and with any other threads going on: tracker
    `i` is up from some moment on, nobody is about to deactivate it, and a thread calls
    `mfs_pool_test_inactive_trackers`. Once that call has returned `i` is active, and it stays
    active. -/
theorem recovered_tracker_active {s : Users T} (hs : s.Reachable) {i : ℕ}
    (hregistered : i < s.shared.w.trackers.trackerCount)
    (hkept : ∀ t, ¬(s.threads t).point.Deactivates i) (t : T) (palloc : ℕ → Byte)
    (hidle : (s.threads t).point = .idle) (during after : List (UserMove T))
    (hup : Runs.Meets UserMove.apply (fun s move => move.Up i s ∧ move.Spares i) s
      (.call t (.testInactive palloc) :: (during ++ after)))
    (hreturned : ((Runs.run UserMove.apply s
      (.call t (.testInactive palloc) :: during)).threads t).point = .idle) :
    i ∈ (Runs.run UserMove.apply s
      (.call t (.testInactive palloc) :: (during ++ after))).shared.w.trackers.active := by
  obtain ⟨hmatched, hpartition⟩ := hs.matched_partition
  have hbegun := recovering_begin (i := i) hmatched.owned hpartition hidle hregistered hkept palloc
  obtain ⟨-, hrest⟩ := hup
  obtain ⟨hduring, hafter⟩ := Runs.meets_append.mp hrest
  have hthroughout : Runs.Throughout UserMove.apply
      (Users.Recovering t (pingRequest palloc) i) _ during :=
    Runs.throughout_of_meets recovering_apply hbegun hduring
  have hwhile := hthroughout during.length
  rw [List.take_length] at hwhile
  rw [Runs.run_cons] at hreturned
  -- the thread is not on its way any more
  have hactive : i ∈ (Runs.run UserMove.apply
      (UserMove.apply s (.call t (.testInactive palloc))) during).shared.w.trackers.active :=
    hwhile.way.resolve_right fun hway => hway.ne_idle hreturned
  have hactives : Runs.Throughout UserMove.apply
      (fun s : Users T => (∀ t, ¬(s.threads t).point.Deactivates i) ∧
        i ∈ s.shared.w.trackers.active) _ after :=
    Runs.throughout_of_meets
      (fun s move h hmove =>
        ⟨kept_apply h.1 hmove.1 hmove.2, mem_active_apply h.1 h.2 move⟩)
      ⟨hwhile.kept, hactive⟩ hafter
  have hstays := hactives after.length
  rw [List.take_length] at hstays
  rw [Runs.run_cons, Runs.run_append]
  exact hstays.2

def Point.isIdle : Point → Bool
  | .idle => true
  | _ => false

theorem Point.isIdle_iff (point : Point) : point.isIdle = true ↔ point = .idle := by
  cases point <;> simp [Point.isIdle]

instance (point : Point) : Decidable (point = .idle) := decidable_of_iff _ point.isIdle_iff

/-- One tracker, deactivated. -/
def oneDeactivated : Users Unit :=
  Runs.run UserMove.apply
    (.start (registeredPool 1 zeroMemory [plainRegistration]) (oneTrackerWorld [] .success []).env
      fun _ => 0)
    [.call () (.deactivate 0), .step () ⟨.success, 0, true, 0⟩, .step () ⟨.success, 0, true, 0⟩]

/-- A probe: the list is copied, the pool has no connection, so one is made, the line is sent, the
    answer comes, the tracker is activated and the connection returned. -/
def oneProbe : List (UserMove Unit) :=
  [.step () ⟨.success, 0, true, 0⟩, .step () ⟨.success, 0, true, 0⟩,
    .step () ⟨.success, 0, true, 0⟩, .step () ⟨.success, 100, true, 0⟩,
    .answer 0 ⟨str "ERR unknown_key unknown+key\r", by decide +kernel⟩,
    .step () ⟨.success, 4096, true, 0⟩, .step () ⟨.success, 0, true, 0⟩,
    .step () ⟨.success, 0, true, 0⟩]

theorem recovered_tracker_active_one :
    0 ∈ (Runs.run UserMove.apply oneDeactivated
      (.call () (.testInactive fun _ => 0) :: (oneProbe ++ []))).shared.w.trackers.active := by
  refine recovered_tracker_active ⟨1, _, _, _, _, _, rfl⟩ (by decide +kernel) ?_ () (fun _ => 0)
    rfl oneProbe [] (by decide +kernel) ?_
  · intro t hdeactivates
    exact hdeactivates
  · decide +kernel

/-! ## A request while a tracker is up -/

/-- The array that the next step of the thread copies, if it does. -/
def Point.copied (pool : TrackerPool) : Point → Option (List ℕ)
  | .copy copier => some (copier.list.members pool)
  | _ => none

/-- Tracker `i` is up for thread `t` in this move: it is in a list that `t` copies, and it does not
    fail `t`. -/
def UserMove.UpFor (t : T) (i : ℕ) (s : Users T) : UserMove T → Prop
  | .step t' net => t' = t →
    (∀ indexes ∈ (s.threads t).point.copied s.shared.w.trackers, i ∈ indexes) ∧
      (s.threads t).AnsweredBy i net s.shared
  | _ => True

instance (t : T) (i : ℕ) (s : Users T) : (move : UserMove T) → Decidable (move.UpFor t i s)
  | .call _ _ => inferInstanceAs (Decidable True)
  | .step _ _ => inferInstanceAs (Decidable (_ → _))
  | .answer _ _ => inferInstanceAs (Decidable True)

/-- What a thread has been answered stays with it. -/
theorem Thread.step_responses (net : Net) (s : Shared) (thread : Thread) :
    thread.responses <+: (thread.step net s).2.responses := by
  cases hpoint : thread.point with
  | pool call caller =>
    simp only [Thread.step, hpoint]
    cases (call.step s.w).2 with
    | next call' => exact List.prefix_rfl
    | done entry isNew => rw [thread.resume_responses entry isNew caller]
  | receive a entry isNew finalBuffer =>
    simp only [Thread.step, hpoint]
    generalize receiveStep finalBuffer ((s.wires entry.connection).recv net) = out
    cases out with
    | failed rv => exact List.prefix_rfl
    | more multiBuffer => exact List.prefix_rfl
    | line text =>
      simp only [Thread.received]
      split_ifs
      · exact List.prefix_append _ _
      · exact List.prefix_rfl
  | expire list =>
    simp only [Thread.step, hpoint]
    cases list.next with
    | mk tracker list' => cases tracker <;> exact List.prefix_rfl
  | destroyExpired list entries =>
    cases entries <;>
    · simp only [Thread.step, hpoint]
      exact List.prefix_rfl
  | watch =>
    simp only [Thread.step, hpoint]
    split_ifs
    · cases thread.watchConnection <;> exact List.prefix_rfl
    · exact List.prefix_rfl
  | sendWatch =>
    simp only [Thread.step, hpoint]
    cases thread.watchConnection <;> exact List.prefix_rfl
  | destroyWatch =>
    simp only [Thread.step, hpoint]
    cases thread.watchConnection <;> exact List.prefix_rfl
  | _ =>
    simp only [Thread.step, hpoint]
    exact List.prefix_rfl

theorem UserCall.begin_responses (s : Shared) (thread : Thread) (made : UserCall) :
    (made.begin s thread).responses = thread.responses := by
  have htest : ∀ copier : Copier, (copier.test s thread).responses = thread.responses := by
    intro copier
    rcases copier.test_eq s thread with heq | heq <;> rw [heq]
  cases made with
  | requestDo request => exact htest _
  | testInactive palloc => exact htest _
  | expireActive => exact htest _
  | deactivate i => rfl
  | watchLine => rfl

theorem responses_apply (s : Users T) (move : UserMove T) (t : T) :
    (s.threads t).responses <+: ((move.apply s).threads t).responses := by
  cases move with
  | call t' made =>
    simp only [UserMove.apply]
    split
    · by_cases heq : t = t'
      · rw [heq, threads_did_self, made.begin_responses]
      · rw [threads_did_of_ne s heq]
    · exact List.prefix_rfl
  | step t' net =>
    show _ <+: ((s.did t' ((s.threads t').step net s.shared)).threads t).responses
    by_cases heq : t = t'
    · rw [heq, threads_did_self]
      exact (s.threads t').step_responses net s.shared
    · rw [threads_did_of_ne s heq]
  | answer connection text => exact List.prefix_rfl

/-- Thread `t` had the answers `before`: it has got the answer to `request` since, or seeks `i`
    among the active trackers. -/
structure Users.Asking (t : T) (request : RequestArgs) (i : ℕ) (before : List Response)
    (s : Users T) : Prop where
  owned : s.Owned
  way : ((s.threads t).responses = before ∧ (s.threads t).point.Seeks .requestDo request i) ∨
    ∃ r : Response, r.request = request ∧ before ++ [r] <+: (s.threads t).responses

theorem asking_apply {t : T} {request : RequestArgs} {i : ℕ} {before : List Response} (s : Users T)
    (move : UserMove T) (h : s.Asking t request i before) (hup : move.UpFor t i s) :
    (move.apply s).Asking t request i before := by
  refine ⟨owned_apply s move h.owned, ?_⟩
  rcases h.way with ⟨hbefore, hway⟩ | ⟨r, hrequest, hanswered⟩
  · by_cases hown : ∃ net, move = .step t net
    · obtain ⟨net, rfl⟩ := hown
      obtain ⟨hlisted, hanswered⟩ := hup rfl
      have hthread : ((UserMove.apply s (.step t net)).threads t) =
          ((s.threads t).step net s.shared).2 := threads_did_self s t _
      rw [hthread]
      rcases hway with hcopy | hpursues
      · rw [hcopy] at hlisted
        have hresponses : ((s.threads t).step net s.shared).2.responses = before := by
          simp only [Thread.step, hcopy]
          exact hbefore
        exact Or.inl ⟨hresponses, Or.inr (Thread.step_copy hcopy (hlisted _ rfl))⟩
      · cases Thread.step_pursues (h.owned.wellformed t) hanswered hpursues with
        | onItsWay hpoint hresponses =>
          exact Or.inl ⟨(hresponses rfl).trans hbefore, Or.inr hpoint⟩
        | answered hkind r hrequest hresponses =>
          refine Or.inr ⟨r, hrequest, ?_⟩
          rw [hresponses, hbefore]
        | reached a entry hpoint hcurrent =>
          rw [hpoint] at hpursues
          cases hpursues.1
    · rw [UserMove.apply_thread hway.ne_idle (not_exists.mp hown)]
      exact Or.inl ⟨hbefore, hway⟩
  · exact Or.inr ⟨r, hrequest, hanswered.trans (responses_apply s move t)⟩

/-- The request begins with a look at the active list. -/
theorem asking_begin {t : T} {i : ℕ} {s : Users T} (howned : s.Owned)
    (hidle : (s.threads t).point = .idle) (hactive : i ∈ s.shared.w.trackers.active)
    (request : RequestArgs) :
    (UserMove.apply s (.call t (.requestDo request))).Asking t request i
      (s.threads t).responses := by
  refine ⟨owned_apply s _ howned, Or.inl ?_⟩
  simp only [UserMove.apply, hidle, threads_did_self, UserCall.begin]
  rw [Copier.test_of_mem (.asker .requestDo request) hactive]
  exact ⟨rfl, Or.inl rfl⟩

/-- After the registrations and any history since, and with any other threads going on: a request
    that begins, and copies the active list, while `i` is active, and that `i` does not fail, has its
    answer when it returns, whatever the other trackers do and however many cached connections are stale. The
    answer is what a tracker has sent to this very request. -/
theorem request_answered_while_up {s : Users T} (hs : s.Reachable) {i : ℕ}
    (hactive : i ∈ s.shared.w.trackers.active) (t : T) (hidle : (s.threads t).point = .idle)
    (request : RequestArgs) (during : List (UserMove T))
    (hup : Runs.Meets UserMove.apply (fun s move => move.UpFor t i s) s
      (.call t (.requestDo request) :: during))
    (hreturned : ((Runs.run UserMove.apply s
      (.call t (.requestDo request) :: during)).threads t).point = .idle) :
    ∃ r : Response, r.request = request ∧
      (s.threads t).responses ++ [r] <+: ((Runs.run UserMove.apply s
        (.call t (.requestDo request) :: during)).threads t).responses ∧
      ((Runs.run UserMove.apply s
        (.call t (.requestDo request) :: during)).shared.wires r.connection).Answers
          request.bytes r.line := by
  have hbegun := asking_begin hs.matched_partition.1.owned hidle hactive request
  have hthroughout : Runs.Throughout UserMove.apply
      (Users.Asking t request i (s.threads t).responses) _ during :=
    Runs.throughout_of_meets asking_apply hbegun hup.2
  have hend := hthroughout during.length
  rw [List.take_length, ← Runs.run_cons] at hend
  have hmatched := (hs.run (.call t (.requestDo request) :: during)).matched_partition.1
  rcases hend.way with ⟨-, hway⟩ | ⟨r, hrequest, hprefix⟩
  · exact absurd hreturned hway.ne_idle
  · refine ⟨r, hrequest, hprefix, ?_⟩
    have hmem := hprefix.subset (List.mem_append_right _ (List.mem_singleton_self r))
    have hanswers := (hmatched.responses t r hmem).2
    rwa [hrequest] at hanswers

/-- One tracker, with a connection in its stack that a request has made. -/
def onePooled : Users Unit :=
  Runs.run UserMove.apply
    (.start (registeredPool 1 zeroMemory [plainRegistration]) (oneTrackerWorld [] .success []).env
      fun _ => 0)
    (.call () (.requestDo (pingRequest fun _ => 0)) :: oneProbe)

/-- The connection has gone stale; a new one is made, and its answer comes in two chunks. -/
def staleFirst : List (UserMove Unit) :=
  [.step () ⟨.success, 0, true, 0⟩, .step () ⟨.success, 0, true, 0⟩, .step () ⟨.eof, 0, true, 0⟩,
    .step () ⟨.success, 0, true, 0⟩, .step () ⟨.success, 0, true, 0⟩,
    .step () ⟨.success, 0, true, 0⟩, .step () ⟨.success, 100, true, 0⟩,
    .answer 1 ⟨str "OK 1 a=b\r", by decide +kernel⟩, .step () ⟨.success, 3, true, 0⟩,
    .step () ⟨.success, 4096, true, 0⟩, .step () ⟨.success, 0, true, 0⟩]

theorem request_answered_while_up_stale : ∃ r : Response, r.request = pingRequest (fun _ => 0) ∧
    (onePooled.threads ()).responses ++ [r] <+: ((Runs.run UserMove.apply onePooled
      (.call () (.requestDo (pingRequest fun _ => 0)) :: staleFirst)).threads ()).responses ∧
    ((Runs.run UserMove.apply onePooled
      (.call () (.requestDo (pingRequest fun _ => 0)) :: staleFirst)).shared.wires
        r.connection).Answers (pingRequest fun _ => 0).bytes r.line :=
  request_answered_while_up ⟨1, _, _, _, _, _, rfl⟩ (i := 0) (by decide +kernel) ()
    (by decide +kernel) _ staleFirst (by decide +kernel) (by decide +kernel)

end MogileFs
