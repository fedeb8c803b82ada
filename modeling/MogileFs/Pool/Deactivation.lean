import MogileFs.Pool.Calls
import MogileFs.Pool.Partition

/-!
# The connections of a deactivated tracker

`mfs_pool_deactivate` removes the pooled connections of the tracker it moves to the inactive list
("we need to remove the connections from the deactivated tracker", `src/pool.c` line 251). The
clients here call `mfs_pool_get_connection`, `mfs_pool_return_connection`, `mfs_pool_activate` and
`mfs_pool_deactivate` in any order, and their sections are interleaved in any way. A connection
that was taken before the tracker was deactivated and is returned afterwards stays in its stack.

Results:
* `PoolCall.step_drains`: what one section does to the stack of an inactive tracker.
* `inactive_stacks_empty`: the runs in which no connection is returned to an inactive tracker.
-/

namespace MogileFs

open Cells

/-! ## Clients -/

/-- The pool and the calls under way, one for each client at most. -/
structure PoolClients (T : Type*) where
  w : World
  calls : T → Option PoolCall

/-- What a client does next. `mfs_pool_activate` and `mfs_pool_return_connection` are one locked
    section each; the two other calls are begun, and then go on section by section. -/
inductive ClientMove (T : Type*)
  | getConnection (client : T) (trackerIndex : ℕ) (createNew : Bool)
  | deactivate (client : T) (trackerIndex : ℕ)
  | step (client : T)
  | activate (trackerIndex : ℕ)
  | returnConnection (trackerIndex : ℕ) (entry : ConnectionEntry)

variable {T : Type*} [DecidableEq T]

/-- A client that is inside a call does not begin another one. -/
def PoolClients.begin (s : PoolClients T) (client : T) (call : PoolCall) : PoolClients T :=
  match s.calls client with
  | none => { s with calls := Function.update s.calls client (some call) }
  | some _ => s

/-- The call that goes on after a section. -/
def PoolStep.call : PoolStep → Option PoolCall
  | .next call => some call
  | .done _ _ => none

def ClientMove.apply (s : PoolClients T) : ClientMove T → PoolClients T
  | .getConnection client trackerIndex createNew =>
    s.begin client (.getConnection trackerIndex createNew)
  | .deactivate client trackerIndex => s.begin client (.deactivate trackerIndex)
  | .step client =>
    match s.calls client with
    | none => s
    | some call =>
      let (w, out) := call.step s.w
      ⟨w, Function.update s.calls client out.call⟩
  | .activate trackerIndex => { s with w := mfsPoolActivate s.w trackerIndex }
  | .returnConnection trackerIndex entry =>
    { s with w := mfsPoolReturnConnection s.w trackerIndex entry }

/-! ## Draining -/

/-- The call is in the loop of `mfs_pool_deactivate` for tracker `i`. -/
def PoolCall.Drains (i : ℕ) : PoolCall → Prop
  | .drain j => j = i
  | .drained j _ => j = i
  | _ => False

/-- The call is inside `mfs_pool_deactivate`. -/
def PoolCall.Deactivates : PoolCall → Prop
  | .getConnection _ _ => False
  | .connect _ => False
  | _ => True

theorem PoolCall.Drains.deactivates {call : PoolCall} {i : ℕ} (h : call.Drains i) :
    call.Deactivates := by
  cases call <;> trivial

theorem inactive_deactivateSection {w : World} {i j : ℕ}
    (h : j ∈ (deactivateSection w i).2.trackers.inactive) :
    (j ∈ w.trackers.inactive ∨ ((deactivateSection w i).1 ∧ j = i)) := by
  unfold deactivateSection at h ⊢
  simp only at h ⊢
  split_ifs at h ⊢ with hremoved
  · rw [TrackerPool.inactive, TrackerPool.markInactive, cells_update_end] at h
    rcases List.mem_append.mp h with h | h
    · exact Or.inl h
    · exact Or.inr ⟨rfl, List.mem_singleton.mp h⟩
  · exact Or.inl h

theorem stack_deactivateSection (w : World) (i j : ℕ) :
    (deactivateSection w i).2.trackers.stack j = w.trackers.stack j := by
  unfold deactivateSection
  simp only
  split_ifs <;> rfl

/-- A section and a tracker `i` that is inactive after it: the call drains `i` now, or `i` was
    inactive before, an empty stack has stayed empty, and a call that was draining `i` leaves the
    loop with the stack empty. -/
theorem PoolCall.step_drains (w : World) (call : PoolCall) {i : ℕ}
    (hi : i ∈ (call.step w).1.trackers.inactive) :
    (∃ call', (call.step w).2 = .next call' ∧ call'.Drains i) ∨
      (i ∈ w.trackers.inactive ∧
        (w.trackers.stack i = [] → (call.step w).1.trackers.stack i = []) ∧
        (call.Drains i → (call.step w).1.trackers.stack i = [])) := by
  have hpop : ∀ j, (popConnection w j).2.trackers.inactive = w.trackers.inactive ∧
      (w.trackers.stack i = [] → (popConnection w j).2.trackers.stack i = []) := by
    intro j
    obtain ⟨-, -, -, -, h₅, h₆⟩ := popConnection_sameLists w j
    refine ⟨by rw [TrackerPool.inactive, h₅, h₆]; rfl, fun hempty => ?_⟩
    cases hs : w.trackers.stack j with
    | nil => rw [popConnection_nil hs, hempty]
    | cons entry rest =>
      have hji : i ≠ j := by
        rintro rfl
        rw [hempty] at hs
        cases hs
      rw [popConnection_cons hs]
      exact (stack_withoutFirst_of_ne w hji).trans hempty
  cases call with
  | getConnection j createNew =>
    obtain ⟨hlist, hstack⟩ := hpop j
    simp only [PoolCall.step] at hi ⊢
    split_ifs at hi ⊢
    · exact Or.inr ⟨hlist ▸ hi, hstack, False.elim⟩
    · exact Or.inr ⟨hlist ▸ hi, hstack, False.elim⟩
  | connect j =>
    simp only [PoolCall.step] at hi ⊢
    split_ifs at hi ⊢
    · exact Or.inr ⟨hi, id, False.elim⟩
    · exact Or.inr ⟨hi, id, False.elim⟩
  | deactivate j =>
    simp only [PoolCall.step] at hi ⊢
    rcases inactive_deactivateSection hi with hi | ⟨hremoved, rfl⟩
    · exact Or.inr ⟨hi, fun h => (stack_deactivateSection w j i).trans h, False.elim⟩
    · exact Or.inl ⟨.drain i, by rw [if_pos hremoved], rfl⟩
  | drain j =>
    obtain ⟨hlist, hstack⟩ := hpop j
    cases hs : w.trackers.stack j with
    | nil =>
      rw [PoolCall.step, popConnection_nil hs] at hi ⊢
      exact Or.inr ⟨hi, id, fun h => by rw [← show j = i from h]; exact hs⟩
    | cons entry rest =>
      by_cases hji : j = i
      · refine Or.inl ⟨.drained j entry, ?_, hji⟩
        rw [PoolCall.step, popConnection_cons hs]
      · rw [PoolCall.step, popConnection_cons hs] at hi ⊢
        rw [popConnection_cons hs] at hlist hstack
        exact Or.inr ⟨hlist ▸ hi, hstack, fun h => absurd h hji⟩
  | drained j entry =>
    by_cases hji : j = i
    · exact Or.inl ⟨.drain j, rfl, hji⟩
    · exact Or.inr ⟨hi, id, fun h => absurd h hji⟩

/-! ## The invariant -/

/-- Every inactive tracker has an empty stack. -/
def TrackerPool.InactiveEmpty (pool : TrackerPool) : Prop := ∀ i ∈ pool.inactive, pool.stack i = []

/-- Every inactive tracker has an empty stack, or a client that is emptying it. -/
def PoolClients.InactiveDrained (s : PoolClients T) : Prop :=
  ∀ i ∈ s.w.trackers.inactive, s.w.trackers.stack i = [] ∨
    ∃ client call, s.calls client = some call ∧ call.Drains i

/-- No `mfs_pool_deactivate` is in progress. -/
def PoolClients.Settled (s : PoolClients T) : Prop :=
  ∀ client call, s.calls client = some call → ¬call.Deactivates

/-- No connection is returned to a tracker that is inactive at that moment. -/
def ClientMove.Guard (s : PoolClients T) : ClientMove T → Prop
  | .returnConnection trackerIndex _ => trackerIndex ∉ s.w.trackers.inactive
  | _ => True

omit [DecidableEq T] in
theorem PoolClients.InactiveDrained.empty {s : PoolClients T} (h : s.InactiveDrained)
    (hs : s.Settled) : s.w.trackers.InactiveEmpty := by
  intro i hi
  rcases h i hi with hempty | ⟨client, call, hcall, hdrains⟩
  · exact hempty
  · exact absurd hdrains.deactivates (hs client call hcall)

theorem inactiveDrained_begin {s : PoolClients T} (h : s.InactiveDrained) (client : T)
    (call : PoolCall) : (s.begin client call).InactiveDrained := by
  cases hclient : s.calls client with
  | some _ => simpa only [PoolClients.begin, hclient] using h
  | none =>
    simp only [PoolClients.begin, hclient]
    intro i hi
    refine (h i hi).imp id ?_
    rintro ⟨other, call', hcall, hdrains⟩
    have hne : other ≠ client := by
      rintro rfl
      rw [hclient] at hcall
      cases hcall
    exact ⟨other, call', by simp only [Function.update_of_ne hne, hcall], hdrains⟩

theorem inactiveDrained_step {s : PoolClients T} (h : s.InactiveDrained) (client : T) :
    (ClientMove.apply s (.step client)).InactiveDrained := by
  cases hclient : s.calls client with
  | none => simpa only [ClientMove.apply, hclient] using h
  | some call =>
    simp only [ClientMove.apply, hclient]
    intro i hi
    rcases call.step_drains s.w hi with ⟨call', hnext, hdrains⟩ | ⟨hinactive, hstack, hleaves⟩
    · exact Or.inr ⟨client, call', by simp only [Function.update_self, hnext, PoolStep.call], hdrains⟩
    · rcases h i hinactive with hempty | ⟨other, call', hcall, hdrains⟩
      · exact Or.inl (hstack hempty)
      · by_cases hsame : other = client
        · subst hsame
          obtain rfl : call = call' := Option.some.inj (hclient.symm.trans hcall)
          exact Or.inl (hleaves hdrains)
        · exact Or.inr ⟨other, call', by simp only [Function.update_of_ne hsame, hcall], hdrains⟩

theorem inactiveDrained_activate {s : PoolClients T} (h : s.InactiveDrained) (i : ℕ) :
    (ClientMove.apply s (.activate i)).InactiveDrained := by
  simp only [ClientMove.apply]
  by_cases hi : i ∈ s.w.trackers.inactive
  · intro j hj
    have hlist := (mfsPoolActivate_lists hi).2.1
    have hstack : (mfsPoolActivate s.w i).trackers.stack j = s.w.trackers.stack j := by
      unfold mfsPoolActivate
      simp only
      split_ifs <;> rfl
    simp only [hlist] at hj
    simp only [hstack]
    exact h j (List.mem_of_mem_erase hj)
  · rw [mfsPoolActivate_of_notMem hi]
    exact h

theorem inactiveDrained_returnConnection {s : PoolClients T} (h : s.InactiveDrained) {i : ℕ}
    (hi : i ∉ s.w.trackers.inactive) (entry : ConnectionEntry) :
    (ClientMove.apply s (.returnConnection i entry)).InactiveDrained := by
  intro j hj
  have hj' : j ∈ s.w.trackers.inactive := hj
  have hji : j ≠ i := by
    rintro rfl
    exact hi hj'
  have hstack : (mfsPoolReturnConnection s.w i entry).trackers.stack j = s.w.trackers.stack j :=
    stack_setConnectionPool_of_ne s.w.trackers _ hji
  simp only [ClientMove.apply, hstack]
  exact h j hj'

/-- A connection returned to an inactive tracker stays there, as one returned to an active one
    does. -/
theorem inactiveEmpty_returnConnection_iff {w : World} (h : w.trackers.InactiveEmpty) (i : ℕ)
    (entry : ConnectionEntry) :
    (mfsPoolReturnConnection w i entry).trackers.InactiveEmpty ↔ i ∉ w.trackers.inactive := by
  constructor
  · intro hempty hi
    have hstack := hempty i hi
    rw [mfsPoolReturnConnection, World.record, stack_setConnectionPool_self] at hstack
    cases hstack
  · intro hi j hj
    have hji : j ≠ i := by
      rintro rfl
      exact hi hj
    exact (stack_setConnectionPool_of_ne w.trackers _ hji).trans (h j hj)

theorem inactiveDrained_apply {s : PoolClients T} {move : ClientMove T} (h : s.InactiveDrained)
    (hguard : move.Guard s) : (move.apply s).InactiveDrained := by
  cases move with
  | getConnection client i createNew => exact inactiveDrained_begin h client _
  | deactivate client i => exact inactiveDrained_begin h client _
  | step client => exact inactiveDrained_step h client
  | activate i => exact inactiveDrained_activate h i
  | returnConnection i entry => exact inactiveDrained_returnConnection h hguard entry

/-! ## Runs -/

/-- As long as no connection is returned to an inactive tracker, every inactive tracker has an
    empty stack whenever no `mfs_pool_deactivate` is in progress. -/
theorem inactive_stacks_empty {w : World} (hw : w.trackers.InactiveEmpty)
    {moves : List (ClientMove T)}
    (h : Runs.Meets ClientMove.apply (fun s move => move.Guard s) ⟨w, fun _ => none⟩ moves) :
    Runs.Throughout ClientMove.apply (fun s => s.Settled → s.w.trackers.InactiveEmpty)
      ⟨w, fun _ => none⟩ moves := by
  have hinv : Runs.Throughout ClientMove.apply PoolClients.InactiveDrained
      ⟨w, fun _ => none⟩ moves :=
    Runs.throughout_of_meets (fun _ _ hs hguard => inactiveDrained_apply hs hguard)
      (fun i hi => Or.inl (hw i hi)) h
  exact fun k hsettled => (hinv k).empty hsettled

/-- Client `false` takes the pooled connection and returns it, then client `true` deactivates
    the tracker. -/
theorem inactive_stacks_empty_in_turn :
    Runs.Throughout ClientMove.apply (fun s : PoolClients Bool =>
        s.Settled → s.w.trackers.InactiveEmpty)
      ⟨oneTrackerWorld [⟨0, 0⟩] .success [], fun _ => none⟩
      [.getConnection false 0 true, .step false, .returnConnection 0 ⟨0, 0⟩, .deactivate true 0,
        .step true, .step true, .step true, .step true] :=
  inactive_stacks_empty (fun _ hi => absurd hi List.not_mem_nil)
    ⟨trivial, trivial, List.not_mem_nil, trivial, trivial, trivial, trivial, trivial, trivial⟩

/-- Client `true` deactivates the tracker while client `false` holds the connection, which is
    then returned. -/
theorem returned_after_deactivation :
    ¬Runs.Throughout ClientMove.apply (fun s : PoolClients Bool =>
        s.Settled → s.w.trackers.InactiveEmpty)
      ⟨oneTrackerWorld [⟨0, 0⟩] .success [], fun _ => none⟩
      [.getConnection false 0 true, .step false, .deactivate true 0, .step true, .step true,
        .returnConnection 0 ⟨0, 0⟩] := by
  intro h
  have hempty := h 6 (by
    intro client call hcall
    cases client with
    | false => exact absurd hcall (by rw [show _ = none from rfl]; nofun)
    | true => exact absurd hcall (by rw [show _ = none from rfl]; nofun))
  exact absurd (hempty 0 (by decide +kernel)) (by decide +kernel)

end MogileFs
