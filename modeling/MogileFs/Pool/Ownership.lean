import MogileFs.Library.Ledger
import MogileFs.Pool.Deactivation
import MogileFs.Pool.Users

/-!
# Who owns a connection

A connection is in the stack of a tracker, in the hands of a thread, or destroyed. What a section
does is a step of the ledger of these places (`World.Steps`), first seen from the thread that runs
it and then among all threads.

Results:
* `PoolCall.step_ledger`, `Thread.step_ledger`: a section of the pool, a step of a thread.
* `owned_apply`: every connection made stays in exactly one place.
-/

namespace MogileFs

open Ledger

/-! ## Places -/

def World.stackConnections (w : World) (i : ℕ) : List ℕ :=
  (w.trackers.stack i).map ConnectionEntry.connection

def Event.destroyedConnection : Event → Option ℕ
  | .destroyed entry => some entry.connection
  | _ => none

/-- The connections destroyed, as often as that happened. -/
def World.destroyedConnections (w : World) : List ℕ := w.log.filterMap Event.destroyedConnection

def World.Created (w : World) (connection : ℕ) : Prop := connection < w.nextConnection

/-- The places a thread moves connections between; `caller` is the thread itself. -/
inductive Owner
  | stack (trackerIndex : ℕ)
  | caller
  | destroyed

def World.contents (w : World) (held : List ConnectionEntry) : Owner → List ℕ
  | .stack i => w.stackConnections i
  | .caller => held.map ConnectionEntry.connection
  | .destroyed => w.destroyedConnections

/-- From `w` to `w'`, and what the thread holds from `held` to `held'`. -/
def World.Steps (w w' : World) (held held' : List ConnectionEntry) : Prop :=
  Step w.Created w'.Created (w.contents held) (w'.contents held')

theorem steps_refl (w : World) (held : List ConnectionEntry) : w.Steps w held held :=
  .stay (fun _ => Iff.rfl) fun _ => .refl _

/-- `entries` in the hands of the thread, and nothing elsewhere. -/
def inHands (entries : List ConnectionEntry) : Owner → List ℕ
  | .caller => entries.map ConnectionEntry.connection
  | _ => []

/-- What else the thread holds stays. -/
theorem World.Steps.append {w w' : World} {held held' : List ConnectionEntry}
    (h : w.Steps w' held held') (rest : List ConnectionEntry) :
    w.Steps w' (rest ++ held) (rest ++ held') := by
  have hcontents : ∀ (v : World) (hs : List ConnectionEntry),
      v.contents (rest ++ hs) = fun p => inHands rest p ++ v.contents hs p := by
    intro v hs
    funext p
    cases p with
    | stack i => rfl
    | caller => exact List.map_append
    | destroyed => rfl
  have happend := Step.append h (inHands rest)
  rw [← hcontents, ← hcontents] at happend
  exact happend

/-! ## Sections of the pool -/

theorem destroyedConnections_record (w : World) (event : Event) :
    (w.record event).destroyedConnections =
      w.destroyedConnections ++ event.destroyedConnection.toList := by
  rw [World.destroyedConnections, World.record, List.filterMap_append]
  cases h : event.destroyedConnection with
  | none => simp [World.destroyedConnections, h]
  | some c => simp [World.destroyedConnections, h]

/-- The stacks and what is destroyed are the same. -/
theorem World.Steps.of_same {w w' : World} (hstack : w.trackers.SameStacks w'.trackers)
    (hdestroyed : w'.destroyedConnections = w.destroyedConnections)
    (hnext : w'.nextConnection = w.nextConnection) (held : List ConnectionEntry) :
    w.Steps w' held held := by
  refine .stay (fun c => by rw [World.Created, World.Created, hnext]) fun p => .of_eq ?_
  cases p with
  | stack i => exact congrArg (List.map ConnectionEntry.connection) (hstack i)
  | caller => rfl
  | destroyed => exact hdestroyed

/-- Entries `entries` leave stack `i`. -/
theorem World.Steps.taken {w w' : World} {i : ℕ} {entries : List ConnectionEntry}
    (hstack : (w.trackers.stack i).Perm (entries ++ w'.trackers.stack i))
    (hothers : ∀ j, j ≠ i → w'.trackers.stack j = w.trackers.stack j)
    (hdestroyed : w'.destroyedConnections = w.destroyedConnections)
    (hnext : w'.nextConnection = w.nextConnection) (held : List ConnectionEntry) :
    w.Steps w' held (entries ++ held) := by
  refine .move (.stack i) .caller (entries.map ConnectionEntry.connection)
    (fun c => by rw [World.Created, World.Created, hnext]) nofun ?_ (.of_eq List.map_append) ?_
  · exact (hstack.map _).trans (.of_eq List.map_append)
  · intro p hp hq
    cases p with
    | stack j =>
      have hj : j ≠ i := fun h => hp (congrArg Owner.stack h)
      exact .of_eq (congrArg (List.map ConnectionEntry.connection) (hothers j hj))
    | caller => exact absurd rfl hq
    | destroyed => exact .of_eq hdestroyed

theorem steps_popConnection (w : World) (i : ℕ) (held : List ConnectionEntry) :
    w.Steps (popConnection w i).2 held ((popConnection w i).1.toList ++ held) := by
  cases hs : w.trackers.stack i with
  | nil =>
    rw [popConnection_nil hs]
    exact steps_refl w held
  | cons entry rest =>
    rw [popConnection_cons hs]
    have hrest : ((w.withoutFirst i).record (.obtained i entry)).trackers.stack i = rest := by
      rw [World.record, stack_withoutFirst, hs, List.tail_cons]
    refine @World.Steps.taken w ((w.withoutFirst i).record (.obtained i entry)) i [entry] ?_
      (fun j hj => stack_withoutFirst_of_ne w hj) ?_ rfl held
    · rw [hrest, hs]
      exact .refl _
    · rw [destroyedConnections_record]
      exact List.append_nil _

theorem steps_getExpiredTrackers (w : World) (i : ℕ) (held : List ConnectionEntry) :
    w.Steps (mfsPoolGetExpiredTrackers w i).2 held ((mfsPoolGetExpiredTrackers w i).1 ++ held) := by
  refine .taken ?_ (fun j hj => stack_getExpiredTrackers_of_ne w hj) rfl rfl held
  rw [← stack_getExpiredTrackers w i]
  exact List.perm_append_comm

theorem steps_destroyConnection (w : World) (entry : ConnectionEntry)
    (held : List ConnectionEntry) :
    w.Steps (mfsPoolDestroyConnection w entry) (entry :: held) held := by
  refine .move .caller .destroyed [entry.connection] (fun _ => Iff.rfl) nofun (.refl _) ?_ ?_
  · show ((w.record (.destroyed entry)).destroyedConnections).Perm _
    rw [destroyedConnections_record]
    exact List.perm_append_comm
  · intro p hp hq
    cases p with
    | stack j => exact .refl _
    | caller => exact absurd rfl hp
    | destroyed => exact absurd rfl hq

theorem steps_returnConnection (w : World) (i : ℕ) (entry : ConnectionEntry)
    (held : List ConnectionEntry) :
    w.Steps (mfsPoolReturnConnection w i entry) (entry :: held) held := by
  refine .move .caller (.stack i) [entry.connection] (fun _ => Iff.rfl) nofun (.refl _) ?_ ?_
  · refine .of_eq ?_
    show ((mfsPoolReturnConnection w i entry).trackers.stack i).map _ = _
    rw [mfsPoolReturnConnection, World.record, stack_setConnectionPool_self]
    rfl
  · intro p hp hq
    cases p with
    | stack j =>
      have hj : j ≠ i := fun h => hq (congrArg Owner.stack h)
      exact .of_eq (congrArg (List.map ConnectionEntry.connection)
        (stack_setConnectionPool_of_ne w.trackers _ hj))
    | caller => exact absurd rfl hp
    | destroyed =>
      refine .of_eq ?_
      show (World.record _ _).destroyedConnections = w.destroyedConnections
      rw [destroyedConnections_record]
      exact List.append_nil _

/-- The entry a pool call is about to destroy. -/
def PoolCall.held : PoolCall → List ConnectionEntry
  | .drained _ entry => [entry]
  | _ => []

/-- What the thread has in its hands after a section. -/
def PoolStep.held : PoolStep → List ConnectionEntry
  | .next call => call.held
  | .done entry _ => entry.toList

theorem destroyedConnections_connect (w : World) (i : ℕ) :
    (mfsTrackerConnect w i).2.destroyedConnections = w.destroyedConnections := by
  rw [mfsTrackerConnect, destroyedConnections_record]
  exact List.append_nil _

theorem PoolCall.step_ledger (w : World) (call : PoolCall) :
    w.Steps (call.step w).1 call.held (call.step w).2.held := by
  cases call with
  | getConnection i createNew =>
    have hpop := steps_popConnection w i []
    simp only [PoolCall.step]
    split_ifs with hdone
    · rwa [List.append_nil] at hpop
    · -- nothing was in the stack
      simp only [Bool.or_eq_true, not_or] at hdone
      rw [Option.not_isSome_iff_eq_none.mp hdone.2] at hpop
      exact hpop
  | connect i =>
    simp only [PoolCall.step]
    split_ifs
    · exact @World.Steps.of_same w (mfsTrackerConnect w i).2 (fun _ => rfl)
        (destroyedConnections_connect w i) rfl []
    · refine .create .caller w.nextConnection (lt_irrefl _) (fun c => ?_) (.refl _) ?_
      · show c < w.nextConnection + 1 ↔ c < w.nextConnection ∨ c = w.nextConnection
        omega
      · intro p hp
        cases p with
        | stack j => exact .refl _
        | caller => exact absurd rfl hp
        | destroyed => exact .of_eq (destroyedConnections_connect w i)
  | deactivate i =>
    have hsame : w.Steps (deactivateSection w i).2 [] [] := by
      refine .of_same (stack_deactivateSection w i) ?_ ?_ []
      · unfold deactivateSection
        simp only
        split_ifs <;> rfl
      · unfold deactivateSection
        simp only
        split_ifs <;> rfl
    simp only [PoolCall.step]
    split_ifs
    · exact hsame
    · exact hsame
  | drain i =>
    have hpop := steps_popConnection w i []
    rw [List.append_nil] at hpop
    cases hs : w.trackers.stack i with
    | nil =>
      rw [popConnection_nil hs] at hpop
      rw [PoolCall.step, popConnection_nil hs]
      exact hpop
    | cons entry rest =>
      rw [popConnection_cons hs] at hpop
      rw [PoolCall.step, popConnection_cons hs]
      exact hpop
  | drained i entry => exact steps_destroyConnection w entry []

/-! ## Steps of a thread -/

/-- The entries a thread has at a point, its watch apart. -/
def Point.held : Point → List ConnectionEntry
  | .pool call _ => call.held
  | .send _ entry _ => [entry]
  | .receive _ entry _ _ => [entry]
  | .destroy _ entry _ => [entry]
  | .activate _ entry => [entry]
  | .giveBack _ entry => [entry]
  | .destroyExpired _ entries => entries
  | _ => []

def Thread.held (thread : Thread) : List ConnectionEntry :=
  thread.watchConnection.toList ++ thread.point.held

/-- The call of the pool is the caller's: for the tracker it asks, for a watch without
    connection, or one of `mfs_pool_deactivate`. -/
def Thread.Calls (thread : Thread) (call : PoolCall) : Caller → Prop
  | .asker a => call.trackerIndex = a.trackerIndex
  | .watch => thread.watchConnection = none
  | .deactivate => call.Deactivates

def Thread.Wellformed (thread : Thread) : Prop :=
  ∀ call caller, thread.point = .pool call caller → thread.Calls call caller

theorem Asker.next_eq (a : Asker) :
    a.next = .idle ∨ ∃ a' : Asker, a.next = .pool (.getConnection a'.trackerIndex true) (.asker a') := by
  unfold Asker.next
  cases a.list.next with
  | mk tracker list =>
    cases tracker with
    | none => exact Or.inl rfl
    | some _ => exact Or.inr ⟨_, rfl⟩

/-- A point at which nothing is held, and any call of the pool is for the asker's tracker. -/
structure Point.Between (point : Point) : Prop where
  held : point.held = []
  calls : ∀ call caller, point = .pool call caller →
    ∃ a, caller = .asker a ∧ call.trackerIndex = a.trackerIndex

theorem Point.Between.idle : Point.Between .idle := ⟨rfl, nofun⟩

theorem Point.Between.asks (a : Asker) :
    Point.Between (.pool (.getConnection a.trackerIndex true) (.asker a)) where
  held := rfl
  calls := by
    rintro _ _ ⟨⟩
    exact ⟨a, rfl, rfl⟩

theorem Asker.next_between (a : Asker) : a.next.Between := by
  rcases a.next_eq with h | ⟨a', h⟩
  · rw [h]
    exact .idle
  · rw [h]
    exact .asks a'

theorem Copier.start_between (list : CopiedList) (copier : Copier) :
    (copier.start list).Between := by
  cases copier with
  | asker kind request => exact Asker.next_between _
  | expireActive => exact ⟨rfl, nofun⟩

theorem Asker.afterFailure_between (a : Asker) (isNew : Bool) : (a.afterFailure isNew).Between := by
  unfold Asker.afterFailure
  split
  · exact .asks a
  · exact a.next_between

theorem Asker.afterReturn_between (a : Asker) : a.afterReturn.Between := by
  unfold Asker.afterReturn
  split
  · exact .idle
  · exact a.next_between

theorem Point.Between.wellformed {point : Point} (h : point.Between) (thread : Thread) :
    Thread.Wellformed { thread with point := point } := by
  intro call caller hpoint
  obtain ⟨a, rfl, hindex⟩ := h.calls call caller hpoint
  exact hindex

theorem Asker.answered_held (a : Asker) (entry : ConnectionEntry) :
    (a.answered entry).held = [entry] := by
  unfold Asker.answered
  split <;> rfl

theorem PoolCall.step_next {w : World} {call call' : PoolCall}
    (h : (call.step w).2 = .next call') :
    call'.trackerIndex = call.trackerIndex ∧ (call.Deactivates → call'.Deactivates) := by
  cases call with
  | getConnection i createNew =>
    simp only [PoolCall.step] at h
    split_ifs at h
    cases h
    exact ⟨rfl, id⟩
  | connect i =>
    simp only [PoolCall.step] at h
    split_ifs at h
    cases h
    exact ⟨rfl, fun _ => trivial⟩
  | deactivate i =>
    simp only [PoolCall.step] at h
    split_ifs at h
    cases h
    exact ⟨rfl, fun _ => trivial⟩
  | drain i =>
    rw [PoolCall.step] at h
    split at h
    · cases h
    · cases h
      exact ⟨rfl, fun _ => trivial⟩
  | drained i entry =>
    cases h
    exact ⟨rfl, fun _ => trivial⟩

/-- `mfs_pool_deactivate` does not return an entry. -/
theorem PoolCall.step_done_deactivates {w : World} {call : PoolCall}
    {entry : Option ConnectionEntry} {isNew : Bool} (h : (call.step w).2 = .done entry isNew)
    (hcall : call.Deactivates) : entry = none := by
  cases call with
  | getConnection i createNew => exact hcall.elim
  | connect i => exact hcall.elim
  | deactivate i =>
    simp only [PoolCall.step] at h
    split_ifs at h
    cases h
    rfl
  | drain i =>
    rw [PoolCall.step] at h
    split at h
    · cases h
      rfl
    · cases h
  | drained i entry => cases h

theorem Thread.resume_held {thread : Thread} {call : PoolCall} {caller : Caller}
    (hcalls : thread.Calls call caller) {entry : Option ConnectionEntry} (isNew : Bool)
    (hentry : call.Deactivates → entry = none) :
    (thread.resume entry isNew caller).held = thread.watchConnection.toList ++ entry.toList := by
  cases caller with
  | asker a =>
    cases entry with
    | none => exact congrArg (thread.watchConnection.toList ++ ·) a.next_between.held
    | some entry => rfl
  | watch =>
    have hwatch : thread.watchConnection = none := hcalls
    cases entry with
    | none => rfl
    | some entry =>
      rw [hwatch]
      rfl
  | deactivate =>
    rw [hentry hcalls]
    rfl

theorem Thread.received_held (thread : Thread) (a : Asker) (entry : ConnectionEntry) (isNew : Bool)
    (out : Received) :
    (thread.received a entry isNew out).held = thread.watchConnection.toList ++ [entry] := by
  cases out with
  | failed rv => rfl
  | more multiBuffer => rfl
  | line line =>
    simp only [Thread.received]
    split_ifs
    · exact congrArg (thread.watchConnection.toList ++ ·) (a.answered_held entry)
    · rfl

/-- A call of the pool, to its next section or to its return. -/
theorem Thread.step_ledger_pool (net : Net) (s : Shared) {thread : Thread} {call : PoolCall}
    {caller : Caller} (hpoint : thread.point = .pool call caller)
    (hcalls : thread.Calls call caller) :
    s.w.Steps (thread.step net s).1.w thread.held (thread.step net s).2.held := by
  have hstep := (call.step_ledger s.w).append thread.watchConnection.toList
  rw [Thread.held, hpoint]
  simp only [Thread.step, hpoint]
  cases hout : (call.step s.w).2 with
  | next call' =>
    rw [hout] at hstep
    exact hstep
  | done entry isNew =>
    rw [hout] at hstep
    simp only
    rw [Thread.resume_held hcalls isNew fun hd => PoolCall.step_done_deactivates hout hd]
    exact hstep

theorem Thread.step_ledger (net : Net) (s : Shared) {thread : Thread} (h : thread.Wellformed) :
    s.w.Steps (thread.step net s).1.w thread.held (thread.step net s).2.held := by
  cases hpoint : thread.point with
  | idle =>
    simp only [Thread.step, hpoint]
    exact steps_refl s.w thread.held
  | copy copier =>
    rw [Thread.held, Thread.held, hpoint]
    simp only [Thread.step, hpoint, (copier.start_between _).held]
    exact steps_refl s.w _
  | pool call caller => exact Thread.step_ledger_pool net s hpoint (h call caller hpoint)
  | send a entry isNew =>
    rw [Thread.held, hpoint]
    simp only [Thread.step, hpoint]
    split_ifs
    · exact steps_refl s.w _
    · exact steps_refl s.w _
  | receive a entry isNew finalBuffer =>
    rw [Thread.held, hpoint]
    simp only [Thread.step, hpoint]
    rw [Thread.received_held]
    exact steps_refl s.w _
  | destroy a entry isNew =>
    rw [Thread.held, Thread.held, hpoint]
    simp only [Thread.step, hpoint, (a.afterFailure_between isNew).held]
    exact (steps_destroyConnection s.w entry []).append thread.watchConnection.toList
  | activate a entry =>
    obtain ⟨hstacks, hlog, hnext⟩ := sameStacks_mfsPoolActivate s.w a.trackerIndex
    rw [Thread.held, hpoint]
    simp only [Thread.step, hpoint]
    exact .of_same hstacks (by rw [World.destroyedConnections, hlog]; rfl) hnext _
  | giveBack a entry =>
    rw [Thread.held, Thread.held, hpoint]
    simp only [Thread.step, hpoint, a.afterReturn_between.held]
    exact (steps_returnConnection s.w a.trackerIndex entry []).append thread.watchConnection.toList
  | expire list =>
    rw [Thread.held, hpoint]
    simp only [Thread.step, hpoint]
    cases list.next with
    | mk tracker list' =>
      cases tracker with
      | none => exact steps_refl s.w _
      | some i =>
        have hexpired := steps_getExpiredTrackers s.w list'.trackerIndex []
        rw [List.append_nil] at hexpired
        exact hexpired.append thread.watchConnection.toList
  | destroyExpired list entries =>
    rw [Thread.held, hpoint]
    cases entries with
    | nil =>
      simp only [Thread.step, hpoint]
      exact steps_refl s.w _
    | cons toDelete entries =>
      simp only [Thread.step, hpoint]
      exact (steps_destroyConnection s.w toDelete entries).append thread.watchConnection.toList
  | watch =>
    rw [Thread.held, hpoint]
    simp only [Thread.step, hpoint]
    cases hwatch : thread.watchConnection with
    | none =>
      split_ifs
      · exact steps_refl s.w _
      · exact steps_refl s.w _
    | some entry =>
      split_ifs
      · exact steps_refl s.w _
      · exact steps_refl s.w _
  | sendWatch =>
    rw [Thread.held, hpoint]
    cases hwatch : thread.watchConnection with
    | none =>
      simp only [Thread.step, hpoint, hwatch]
      exact steps_refl s.w _
    | some entry =>
      simp only [Thread.step, hpoint, hwatch]
      exact steps_refl s.w _
  | readline =>
    rw [Thread.held, hpoint]
    simp only [Thread.step, hpoint]
    split_ifs
    · exact steps_refl s.w _
    · exact steps_refl s.w _
  | destroyWatch =>
    rw [Thread.held, hpoint]
    cases hwatch : thread.watchConnection with
    | none =>
      simp only [Thread.step, hpoint, hwatch]
      exact steps_refl s.w _
    | some entry =>
      simp only [Thread.step, hpoint, hwatch]
      exact steps_destroyConnection s.w entry []

theorem Thread.resume_wellformed (thread : Thread) (entry : Option ConnectionEntry) (isNew : Bool)
    (caller : Caller) : (thread.resume entry isNew caller).Wellformed := by
  cases caller with
  | asker a =>
    cases entry with
    | none => exact a.next_between.wellformed thread
    | some entry => nofun
  | watch =>
    cases entry with
    | none => nofun
    | some entry => nofun
  | deactivate => nofun

theorem Asker.answered_ne_pool (a : Asker) (entry : ConnectionEntry) (call : PoolCall)
    (caller : Caller) : a.answered entry ≠ .pool call caller := by
  unfold Asker.answered
  split <;> nofun

theorem Thread.received_wellformed (thread : Thread) (a : Asker) (entry : ConnectionEntry)
    (isNew : Bool) (out : Received) : (thread.received a entry isNew out).Wellformed := by
  cases out with
  | failed rv => nofun
  | more multiBuffer => nofun
  | line line =>
    simp only [Thread.received]
    split_ifs
    · exact fun call caller h => absurd h (a.answered_ne_pool entry call caller)
    · nofun

theorem Thread.step_wellformed (net : Net) (s : Shared) {thread : Thread} (h : thread.Wellformed) :
    (thread.step net s).2.Wellformed := by
  cases hpoint : thread.point with
  | idle => simpa only [Thread.step, hpoint] using h
  | copy copier =>
    simp only [Thread.step, hpoint]
    exact (copier.start_between _).wellformed thread
  | pool call caller =>
    have hcalls := h call caller hpoint
    simp only [Thread.step, hpoint]
    cases hout : (call.step s.w).2 with
    | next call' =>
      obtain ⟨hindex, hdeactivates⟩ := PoolCall.step_next hout
      rintro _ _ ⟨⟩
      cases caller with
      | asker a => exact hindex.trans hcalls
      | watch => exact hcalls
      | deactivate => exact hdeactivates hcalls
    | done entry isNew => exact thread.resume_wellformed entry isNew caller
  | send a entry isNew =>
    simp only [Thread.step, hpoint]
    split_ifs <;> nofun
  | receive a entry isNew finalBuffer =>
    simp only [Thread.step, hpoint]
    exact thread.received_wellformed a entry isNew _
  | destroy a entry isNew =>
    simp only [Thread.step, hpoint]
    exact (a.afterFailure_between isNew).wellformed thread
  | activate a entry =>
    simp only [Thread.step, hpoint]
    nofun
  | giveBack a entry =>
    simp only [Thread.step, hpoint]
    exact a.afterReturn_between.wellformed thread
  | expire list =>
    simp only [Thread.step, hpoint]
    cases list.next with
    | mk tracker list' => cases tracker <;> nofun
  | destroyExpired list entries =>
    cases entries with
    | nil =>
      simp only [Thread.step, hpoint]
      nofun
    | cons toDelete entries =>
      simp only [Thread.step, hpoint]
      nofun
  | watch =>
    simp only [Thread.step, hpoint]
    split_ifs
    · cases hwatch : thread.watchConnection with
      | none =>
        rintro _ _ ⟨⟩
        rfl
      | some entry => nofun
    · nofun
  | sendWatch =>
    simp only [Thread.step, hpoint]
    cases thread.watchConnection <;> nofun
  | readline =>
    simp only [Thread.step, hpoint]
    split_ifs <;> nofun
  | destroyWatch =>
    simp only [Thread.step, hpoint]
    cases thread.watchConnection <;> nofun

/-! ## Calls -/

/-- Behind the test a thread stands in front of the lock, or where it was. -/
theorem Copier.test_eq (s : Shared) (thread : Thread) (copier : Copier) :
    copier.test s thread = thread ∨ copier.test s thread = { thread with point := .copy copier } := by
  unfold Copier.test
  split_ifs
  · exact Or.inl rfl
  · exact Or.inr rfl

/-- A call begins with what the thread held before. -/
theorem UserCall.begin_held (s : Shared) {thread : Thread} (hidle : thread.point = .idle)
    (made : UserCall) :
    (made.begin s thread).held = thread.held ∧ (made.begin s thread).Wellformed := by
  have htest : ∀ copier : Copier,
      (copier.test s thread).held = thread.held ∧ (copier.test s thread).Wellformed := by
    intro copier
    rcases copier.test_eq s thread with h | h
    · rw [h]
      exact ⟨rfl, fun _ _ hpool => nomatch hidle.symm.trans hpool⟩
    · rw [h, Thread.held, Thread.held, hidle]
      exact ⟨rfl, nofun⟩
  have hheld : thread.held = thread.watchConnection.toList ++ [] := by
    rw [Thread.held, hidle]
    rfl
  cases made with
  | requestDo request => exact htest _
  | testInactive palloc => exact htest _
  | expireActive => exact htest _
  | deactivate i =>
    refine ⟨hheld.symm, ?_⟩
    rintro _ _ ⟨⟩
    trivial
  | watchLine => exact ⟨hheld.symm, nofun⟩

/-! ## All threads -/

/-- Where a connection can be. -/
inductive Place (T : Type*)
  | stack (trackerIndex : ℕ)
  | held (thread : T)
  | destroyed

variable {T : Type*}

/-- The connections in a place. -/
def Users.contents (s : Users T) : Place T → List ℕ
  | .stack i => s.shared.w.stackConnections i
  | .held t => (s.threads t).held.map ConnectionEntry.connection
  | .destroyed => s.shared.w.destroyedConnections

/-- The places of one thread among all places. -/
def Owner.place (t : T) : Owner → Place T
  | .stack i => .stack i
  | .caller => .held t
  | .destroyed => .destroyed

theorem place_injective (t : T) : Function.Injective (Owner.place t) := by
  intro p q h
  cases p <;> cases q <;> simp_all [Owner.place]

theorem contents_place (s : Users T) (t : T) (p : Owner) :
    s.contents (p.place t) = s.shared.w.contents (s.threads t).held p := by
  cases p <;> rfl

/-- Every connection made is in one place, and once there. -/
structure Users.Owned (s : Users T) : Prop where
  exclusive : Exclusive s.shared.w.Created s.contents
  wellformed : ∀ t, (s.threads t).Wellformed

variable [DecidableEq T]

theorem owned_did {s : Users T} (h : s.Owned) (t : T) {out : Shared × Thread}
    (hsteps : s.shared.w.Steps out.1.w (s.threads t).held out.2.held)
    (hwell : out.2.Wellformed) : (s.did t out).Owned where
  exclusive := by
    refine h.exclusive.step (hsteps.lift (place_injective t) (contents_place s t) ?_ ?_)
    · intro p
      rw [contents_place, threads_did_self]
      rfl
    · intro p hp
      cases p with
      | stack i => exact absurd rfl (hp (.stack i))
      | destroyed => exact absurd rfl (hp .destroyed)
      | held t' =>
        have hne : t' ≠ t := fun heq => hp .caller (congrArg Place.held heq)
        simp only [Users.contents, threads_did_of_ne s hne]
  wellformed t' := by
    by_cases heq : t' = t
    · rw [heq, threads_did_self]
      exact hwell
    · rw [threads_did_of_ne s heq]
      exact h.wellformed t'

theorem owned_apply (s : Users T) (move : UserMove T) (h : s.Owned) : (move.apply s).Owned := by
  cases move with
  | call t made =>
    simp only [UserMove.apply]
    split
    · next hidle =>
      obtain ⟨hheld, hwell⟩ := made.begin_held s.shared hidle
      refine owned_did h t ?_ hwell
      rw [hheld]
      exact steps_refl s.shared.w _
    · exact h
  | step t net =>
    exact owned_did h t (Thread.step_ledger net s.shared (h.wellformed t))
      (Thread.step_wellformed net s.shared (h.wellformed t))
  | answer connection text => exact ⟨h.exclusive, h.wellformed⟩

omit [DecidableEq T] in
theorem owned_start (n : ℕ) (palloc : PoolMemory) (registrations : List Registration) (env : Env)
    (watchTracker : T → ℕ) :
    (Users.start (registeredPool n palloc registrations) env watchTracker).Owned where
  exclusive := by
    have hempty : ∀ p, (Users.start (registeredPool n palloc registrations) env
        watchTracker).contents p = [] := by
      intro p
      cases p with
      | stack i => exact congrArg (List.map _) (stack_registeredPool n palloc registrations i)
      | held t => rfl
      | destroyed => rfl
    refine ⟨fun c => ⟨fun hc => absurd hc (Nat.not_lt_zero c), ?_⟩, fun p => ?_, fun p q c hc => ?_⟩
    · rintro ⟨p, hp⟩
      rw [hempty p] at hp
      exact absurd hp List.not_mem_nil
    · rw [hempty p]
      exact List.nodup_nil
    · rw [hempty p] at hc
      exact absurd hc List.not_mem_nil
  wellformed _ := nofun

end MogileFs
