import MogileFs.Pool.Iteration

/-!
# `mfs_request_do`

The request with failover of `src/request.c` (lines 23–75). The outer loop goes
over a copy of the active list; the inner loop uses up the cached connections
of one tracker and then a new one. The inner loop ends because every cached
connection it takes leaves the stack, the outer one because the list does.
-/

namespace MogileFs

/-- What the two loops work on: `rv`, `*ok`, the hash `result`,
    `connection_finished` and the world. -/
structure RequestState where
  rv : AprStatus
  ok : Option Bool
  result : Hash
  connectionFinished : Bool
  w : World

/-- `mfs_tracker_request` on a connection of the pool. -/
def requestOn (tracker : ℕ) (entry : ConnectionEntry) (isNewConnection : Bool)
    (s : RequestState) : RequestState :=
  let x := s.w.env.exchange.head
  let w := { s.w with env := { s.w.env with exchange := s.w.env.exchange.tail } }.record
    (.exchange tracker entry isNewConnection x)
  let (rv, ok, result) := mfsTrackerRequest x s.ok s.result
  { s with rv := rv, ok := ok, result := result, w := w }

/-- What becomes of the connection (lines 55–65): it is destroyed after an
    error, and returned to its stack after the answer that ends the loops. -/
def settleConnection (trackerIndex : ℕ) (entry : ConnectionEntry) (s : RequestState) :
    RequestState :=
  if s.rv ≠ .success then { s with w := mfsPoolDestroyConnection s.w entry }
  else
    { s with
      w := mfsPoolReturnConnection s.w trackerIndex entry
      connectionFinished := true }

/-- The body of the inner loop (lines 45–69), with `keep_trying_tracker` as it
    is left; it is true on entry. -/
def requestBody (trackerIndex : ℕ) (s : RequestState) : Bool × RequestState :=
  let (connectionEntry, isNewConnection, w) := mfsPoolGetConnectionEx s.w trackerIndex true
  let s := { s with w := w }
  match connectionEntry with
  | some entry =>
    (!isNewConnection,
      settleConnection trackerIndex entry (requestOn trackerIndex entry isNewConnection s))
  | none => (false, s)

theorem requestBody_cons {i : ℕ} {s : RequestState} {entry : ConnectionEntry}
    {rest : List ConnectionEntry} (h : s.w.trackers.stack i = entry :: rest) :
    requestBody i s = (true, settleConnection i entry
      (requestOn i entry false
        { s with w := (s.w.withoutFirst i).record (.obtained i entry) })) := by
  unfold requestBody
  rw [mfsPoolGetConnectionEx_cons h]
  rfl

theorem requestBody_unreachable {i : ℕ} {s : RequestState} (h : s.w.trackers.stack i = [])
    (hrv : s.w.env.connect.head ≠ .success) :
    requestBody i s = (false, { s with w := mfsPoolDeactivate (mfsTrackerConnect s.w i).2 i }) := by
  unfold requestBody
  rw [mfsPoolGetConnectionEx_unreachable h hrv]

theorem requestBody_new {i : ℕ} {s : RequestState} (h : s.w.trackers.stack i = [])
    (hrv : s.w.env.connect.head = .success) :
    requestBody i s = (false, settleConnection i ⟨s.w.nextConnection, 0⟩
      (requestOn i ⟨s.w.nextConnection, 0⟩ true
        { s with
          w := { (mfsTrackerConnect s.w i).2 with nextConnection := s.w.nextConnection + 1 } })) := by
  unfold requestBody
  rw [mfsPoolGetConnectionEx_new h hrv]
  rfl

/-- A settled connection that did not finish the request was destroyed. -/
theorem settleConnection_of_not_finished {i : ℕ} {entry : ConnectionEntry} {s : RequestState}
    (h : (settleConnection i entry s).connectionFinished = false) :
    settleConnection i entry s = { s with w := mfsPoolDestroyConnection s.w entry } := by
  unfold settleConnection at *
  split_ifs at h ⊢
  rfl

/-- A cached connection that does not finish the request has left its stack. -/
theorem stack_requestBody_lt {i : ℕ} {s : RequestState} (hkeep : (requestBody i s).1 = true)
    (hfinished : (requestBody i s).2.connectionFinished = false) :
    ((requestBody i s).2.w.trackers.stack i).length < (s.w.trackers.stack i).length := by
  cases hs : s.w.trackers.stack i with
  | nil =>
    by_cases hrv : s.w.env.connect.head = .success
    · rw [requestBody_new hs hrv] at hkeep; cases hkeep
    · rw [requestBody_unreachable hs hrv] at hkeep; cases hkeep
  | cons entry rest =>
    rw [requestBody_cons hs] at hfinished ⊢
    simp only at hfinished ⊢
    rw [settleConnection_of_not_finished hfinished]
    simp [requestOn, mfsPoolDestroyConnection, World.record, stack_withoutFirst, hs]

/-- The inner loop (lines 44–70). -/
def requestLoop (trackerIndex : ℕ) (keepTryingTracker : Bool) (s : RequestState) : RequestState :=
  if keepTryingTracker && !s.connectionFinished then
    requestLoop trackerIndex (requestBody trackerIndex s).1 (requestBody trackerIndex s).2
  else s
termination_by
  if keepTryingTracker && !s.connectionFinished then (s.w.trackers.stack trackerIndex).length + 1
  else 0
decreasing_by
  rename_i h
  rw [if_pos h]
  split_ifs with h'
  · simp only [Bool.and_eq_true, Bool.not_eq_true'] at h'
    have := stack_requestBody_lt h'.1 h'.2
    omega
  · omega

/-- The outer loop (lines 41–71). -/
def requestTrackers (list : TrackerList) (s : RequestState) : RequestState :=
  if s.connectionFinished then s
  else
    match _h : mfsPoolNextTracker list with
    | (none, _) => s
    | (some _, list') =>
      requestTrackers list' (requestLoop (mfsPoolCurrentTrackerIndex list') true s)
termination_by list.unvisited.length
decreasing_by rw [unvisited_of_some _h]; simp

/-- The argument `pool`: given, or NULL, and then the status of the
    `apr_pool_create` that replaces it. -/
inductive PoolArg
  | given
  | null (create : AprStatus)
deriving DecidableEq

/-- `rv` when the list of trackers is asked for (lines 24–36): `apr_pool_create`
    has overwritten the initial `APR_ECONNREFUSED`. -/
def PoolArg.rv : PoolArg → AprStatus
  | .given => .econnrefused
  | .null create => create

/-- `apr_pool_create` has failed. -/
def PoolArg.failed : PoolArg → Bool
  | .given => false
  | .null create => create ≠ .success

/-- `mfs_request_do` (lines 23–75). The request line is the same for every
    tracker. -/
def mfsRequestDo (w : World) (pool : PoolArg) (ok : Option Bool) (result : Hash) : RequestState :=
  if pool.failed then ⟨pool.rv, ok, result, false, w⟩
  else
    match mfsPoolListActiveTrackers w.trackers w.env.rand.head with
    | none => ⟨.econnrefused, ok, result, false, w⟩
    | some list =>
      requestTrackers list
        ⟨pool.rv, ok, result, false, { w with env := { w.env with rand := w.env.rand.tail } }⟩

end MogileFs
