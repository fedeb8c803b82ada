import MogileFs.Request.Failover
import MogileFs.Tracker.Pairs

/-!
# Status and result of a request

`mfs_request_do` initialises `rv` with `APR_ECONNREFUSED`, for the case that no
server is called, and then reuses it for the `apr_pool_create` that replaces a
NULL pool: when that succeeds and no exchange is made, the call returns
`APR_SUCCESS`. And it hands the caller's hash to every exchange, also to those
whose response is rejected after some of its pairs have been stored.

Results:
* `successSound_iff`: when the status says whether an exchange succeeded.
* `result_of_accepted`: the hash after a call that was answered.
* `cleanResult_iff`: when that hash owes nothing to rejected responses.
-/

namespace MogileFs

/-- The exchange an event records. -/
def Event.exchangeOf : Event → Option Exchange
  | .exchange _ _ _ x => some x
  | _ => none

/-- The `mfs_tracker_request` calls made between the world `w` and `s`. -/
def exchangesOf (w : World) (s : RequestState) : List Exchange :=
  (s.w.log.drop w.log.length).filterMap Event.exchangeOf

theorem exchangeOf_events (attempts : List Attempt) :
    (attempts.flatMap Attempt.events).filterMap Event.exchangeOf = exchanges attempts := by
  induction attempts with
  | nil => rfl
  | cons a attempts ih =>
    rw [List.flatMap_cons, List.filterMap_append, ih]
    cases a with
    | answered t entry isNew x lastUsed => cases isNew <;> rfl
    | _ => rfl

theorem exchangesOf_segment {w : World} {s s' : RequestState} {attempts : List Attempt}
    (h : Segment s s' attempts) (hlog : s.w.log = w.log) :
    exchangesOf w s' = exchanges attempts := by
  rw [exchangesOf, h.log, hlog, List.drop_left, exchangeOf_events]

/-! ## The status -/

/-- The status is `APR_SUCCESS` exactly when an exchange of the call succeeded,
    and `*ok` is what that exchange stored. -/
def SuccessSound (w : World) (s : RequestState) : Prop :=
  (s.rv = .success ↔ ∃ x ∈ exchangesOf w s, (exchangeReply x).rv = .success) ∧
    ∀ x ∈ exchangesOf w s, (exchangeReply x).rv = .success →
      (exchangeReply x).ok.isSome ∧ s.ok = (exchangeReply x).ok

/-- A connection to some active tracker can be had: one stands in a stack, or one
    of the connects that the call makes in turn is accepted. -/
def Reachable (w : World) : Prop :=
  (∃ t ∈ w.trackers.active, w.trackers.stack t ≠ []) ∨
    ∃ n < w.trackers.active.length, w.env.connect.get n = .success

/-- An exchange that succeeds is the last one and leaves its `*ok`. -/
theorem Segment.ok_of_success {s s' : RequestState} {attempts : List Attempt}
    (h : Segment s s' attempts) {x : Exchange} (hx : x ∈ exchanges attempts)
    (hrv : (exchangeReply x).rv = .success) :
    s'.rv = .success ∧ (exchangeReply x).ok.isSome ∧ s'.ok = (exchangeReply x).ok := by
  cases hf : s'.connectionFinished with
  | false => exact absurd hrv (h.exchanges_failed hf x hx)
  | true =>
    obtain ⟨failed, t, entry, isNew, y, lastUsed, rfl, hnot, hy, hs⟩ := h.answered_last hf
    have hfailed : ∀ z ∈ exchanges failed, (exchangeReply z).rv ≠ .success := by
      intro z hz
      obtain ⟨a, ha, haz⟩ := List.mem_filterMap.mp hz
      have hright := h.right a (by simp [ha])
      have := hnot a ha
      cases a <;> simp_all [Attempt.exchange, Attempt.isAnswered, Attempt.Right]
    have hlist : exchanges (failed ++ [Attempt.answered t entry isNew y lastUsed]) =
        exchanges failed ++ [y] := by
      rw [exchanges_append]; rfl
    rw [hlist] at hx
    obtain rfl : x = y := by
      rcases List.mem_append.mp hx with hx | hx
      · exact absurd hrv (hfailed x hx)
      · simpa using hx
    have hsome := (exchangeReply_okIffSuccess x).mp hrv
    refine ⟨hs, hsome, ?_⟩
    rw [h.ok, hlist, List.foldl_append]
    simp only [List.foldl_cons, List.foldl_nil, Reply.okAfter]
    exact Option.or_of_isSome hsome

/-- With an exchange made, the status is sound. -/
theorem Segment.successSound {w : World} {s s' : RequestState} {attempts : List Attempt}
    (h : Segment s s' attempts) (hlog : s.w.log = w.log) (hne : exchanges attempts ≠ []) :
    SuccessSound w s' := by
  rw [SuccessSound, exchangesOf_segment h hlog]
  refine ⟨⟨fun hrv => ?_, fun ⟨x, hx, hxs⟩ => (h.ok_of_success hx hxs).1⟩,
    fun x hx hxs => (h.ok_of_success hx hxs).2⟩
  cases hf : s'.connectionFinished with
  | true =>
    obtain ⟨failed, t, entry, isNew, x, lastUsed, rfl, -, hx, -⟩ := h.answered_last hf
    exact ⟨x, by simp [exchanges, Attempt.exchange], hx⟩
  | false =>
    rcases h.rv_of_not_finished hf with ⟨h0, -⟩ | ⟨-, hns⟩
    · exact absurd h0 hne
    · exact absurd hrv hns

/-- Without an exchange, the status is sound when it was an error before. -/
theorem successSound_of_nil {w : World} {s : RequestState} (hnil : exchangesOf w s = []) :
    SuccessSound w s ↔ s.rv ≠ .success := by
  simp [SuccessSound, hnil]

/-- A call makes an exchange exactly when a tracker is reachable. -/
theorem Tour.exchanges_ne_nil_iff {w : World} {ts : List ℕ} {s s' : RequestState}
    {attempts : List Attempt} (htour : Tour ts s s' attempts) (hperm : ts.Perm w.trackers.active)
    (htrackers : s.w.trackers = w.trackers) (hconnect : s.w.env.connect = w.env.connect) :
    exchanges attempts ≠ [] ↔ Reachable w := by
  have hseg := htour.segment
  have hcs : w.env.connect = connects attempts ++ₛ s'.w.env.connect := by
    rw [← hconnect]; exact hseg.connect
  constructor
  · intro hne
    obtain ⟨x, hx⟩ := List.exists_mem_of_ne_nil _ hne
    obtain ⟨a, ha, hax⟩ := List.mem_filterMap.mp hx
    cases hc : a.cached with
    | some entry =>
      refine Or.inl ⟨a.tracker, hperm.mem_iff.mp (htour.tracker a ha), fun h0 => ?_⟩
      have hobt := htour.obtained a.tracker
      rw [htrackers, h0, List.prefix_nil] at hobt
      have : entry ∈ obtainedFrom a.tracker attempts :=
        List.mem_filterMap.mpr ⟨a, ha, by rw [if_pos rfl, hc]⟩
      rw [hobt] at this
      cases this
    | none =>
      have hconn : a.connect = some .success := by
        cases a with
        | answered t entry isNew y u => cases isNew <;> simp_all [Attempt.cached, Attempt.connect]
        | _ => simp_all [Attempt.cached, Attempt.connect, Attempt.exchange]
      have hmem : AprStatus.success ∈ connects attempts := List.mem_filterMap.mpr ⟨a, ha, hconn⟩
      obtain ⟨n, hn, hget⟩ := List.getElem_of_mem hmem
      have := htour.connects_le
      have := hperm.length_eq
      refine Or.inr ⟨n, by omega, ?_⟩
      rw [hcs, Stream'.get_append_left _ _ _ hn, hget]
  · intro hreach hnil
    have hno : ∀ a ∈ attempts, a.exchange = none := List.filterMap_eq_nil_iff.mp hnil
    have hf : s'.connectionFinished = false := by
      rw [hseg.finished, List.any_eq_false]
      intro a ha
      have := hno a ha
      cases a <;> simp_all [Attempt.exchange, Attempt.isAnswered]
    obtain ⟨hlen, hall⟩ := htour.exhausted hf
    rcases hreach with ⟨t, ht, hstack⟩ | ⟨n, hn, hget⟩
    · refine hstack ?_
      rw [← htrackers, ← (hall t (hperm.mem_iff.mpr ht)).1]
      refine List.filterMap_eq_nil_iff.mpr fun a ha => ?_
      have := hno a ha
      cases a <;> simp_all [Attempt.exchange, Attempt.cached]
    · have hlt : n < (connects attempts).length := by rw [hlen, hperm.length_eq]; exact hn
      rw [hcs, Stream'.get_append_left _ _ _ hlt] at hget
      obtain ⟨a, ha, hconn⟩ := List.mem_filterMap.mp (List.getElem_mem hlt)
      have hexch := hno a ha
      have hright := hseg.right a ha
      rw [hget] at hconn
      cases a <;> simp_all [Attempt.exchange, Attempt.connect, Attempt.Right]

/-- The status of `mfs_request_do` is sound unless a NULL pool was replaced and
    no connection to any of the active trackers could be had. -/
theorem successSound_iff (w : World) (pool : PoolArg) (ok : Option Bool) (result : Hash) :
    SuccessSound w (mfsRequestDo w pool ok result) ↔
      pool ≠ .null .success ∨ w.trackers.active = [] ∨ Reachable w := by
  cases hfailed : pool.failed with
  | true =>
    -- the pool could not be created, and the call ends there
    have hstate : mfsRequestDo w pool ok result = ⟨pool.rv, ok, result, false, w⟩ := by
      rw [mfsRequestDo, if_pos hfailed]
    rw [hstate, successSound_of_nil (by simp [exchangesOf])]
    cases pool with
    | given => cases hfailed
    | null create => simp_all [PoolArg.failed, PoolArg.rv]
  | false =>
    obtain ⟨ts, attempts, hperm, htour⟩ := mfsRequestDo_tour w _ ok result hfailed
    obtain ⟨-, -, -, htrackers, hlog, hconnect, -⟩ := requestStart_same w pool ok result
    have hiff := htour.exchanges_ne_nil_iff hperm htrackers hconnect
    by_cases hne : exchanges attempts = []
    · have hnot : ¬ Reachable w := fun h => hiff.mpr h hne
      have hsame : (mfsRequestDo w pool ok result).rv = (requestStart w pool ok result).rv := by
        rw [htour.segment.rv, hne]; rfl
      rw [successSound_of_nil (by rw [exchangesOf_segment htour.segment hlog, hne]), hsame,
        requestStart_rv]
      cases pool with
      | given => split_ifs <;> simp [PoolArg.rv]
      | null create =>
        obtain rfl : create = .success := by simpa [PoolArg.failed] using hfailed
        split_ifs with hactive <;> simp [PoolArg.rv, hactive, hnot]
    · exact iff_of_true (htour.segment.successSound hlog hne) (Or.inr (Or.inr (hiff.mp hne)))

/-- With the caller's pool the status is sound. -/
theorem mfsRequestDo_given_sound (w : World) (ok : Option Bool) (result : Hash) :
    SuccessSound w (mfsRequestDo w .given ok result) := by
  obtain ⟨ts, attempts, -, htour⟩ := mfsRequestDo_tour w .given ok result rfl
  obtain ⟨-, -, -, -, hlog, -, -⟩ := requestStart_same w .given ok result
  by_cases hne : exchanges attempts = []
  · have hrv : (mfsRequestDo w .given ok result).rv = .econnrefused := by
      rw [htour.segment.rv, hne, List.getLast?_nil, requestStart_rv]
      simp [PoolArg.rv]
    refine (successSound_of_nil ?_).mpr (by rw [hrv]; decide)
    rw [exchangesOf_segment htour.segment hlog, hne]
  · exact htour.segment.successSound hlog hne

/-- With a NULL pool and a tracker that refuses the connect, the call returns
    `APR_SUCCESS` without an exchange. -/
theorem success_without_exchange :
    (mfsRequestDo (oneTrackerWorld [] .econnrefused []) (.null .success) none aprHashMake).rv =
        .success ∧
      ¬ SuccessSound (oneTrackerWorld [] .econnrefused [])
        (mfsRequestDo (oneTrackerWorld [] .econnrefused []) (.null .success) none aprHashMake) := by
  have hrv : (mfsRequestDo (oneTrackerWorld [] .econnrefused []) (.null .success) none
      aprHashMake).rv = .success := by decide +kernel
  refine ⟨hrv, fun h => ?_⟩
  exact (successSound_of_nil (by decide +kernel)).mp h hrv

/-! ## The result -/

/-- The hash is the caller's, updated with the pairs of the accepted response and
    nothing else. -/
def CleanResult (result : Hash) (accepted : Exchange) (s : RequestState) : Prop :=
  s.result = KeyedUpdates.setAll result (exchangeReply accepted).sets

/-- The hash has been through the pairs of all exchanges of the call. -/
theorem result_of_exchanges (w : World) (pool : PoolArg) (ok : Option Bool) (result : Hash) :
    (mfsRequestDo w pool ok result).result =
      KeyedUpdates.setAll result
        ((exchangesOf w (mfsRequestDo w pool ok result)).flatMap fun x => (exchangeReply x).sets) := by
  cases hfailed : pool.failed with
  | true =>
    rw [mfsRequestDo, if_pos hfailed]
    simp [exchangesOf]
  | false =>
    obtain ⟨ts, attempts, -, htour⟩ := mfsRequestDo_tour w _ ok result hfailed
    obtain ⟨-, -, hresult, -, hlog, -, -⟩ := requestStart_same w pool ok result
    rw [exchangesOf_segment htour.segment hlog, htour.segment.result, hresult]

/-- All exchanges of a call but the last are rejected, the status is that of the
    last, and the hash has been through the pairs of all of them. -/
theorem result_of_accepted {w : World} {pool : PoolArg} {ok : Option Bool} {result : Hash}
    {rejected : List Exchange} {accepted : Exchange}
    (hcall : exchangesOf w (mfsRequestDo w pool ok result) = rejected ++ [accepted]) :
    (∀ x ∈ rejected, (exchangeReply x).rv ≠ .success) ∧
      (mfsRequestDo w pool ok result).rv = (exchangeReply accepted).rv ∧
      (mfsRequestDo w pool ok result).result =
        KeyedUpdates.setAll
          (KeyedUpdates.setAll result (rejected.flatMap fun x => (exchangeReply x).sets))
          (exchangeReply accepted).sets := by
  have hresult := result_of_exchanges w pool ok result
  rw [hcall, List.flatMap_append, KeyedUpdates.setAll_append, List.flatMap_singleton] at hresult
  cases hfailed : pool.failed with
  | true =>
    rw [mfsRequestDo, if_pos hfailed] at hcall
    simp [exchangesOf] at hcall
  | false =>
    obtain ⟨ts, attempts, -, htour⟩ := mfsRequestDo_tour w _ ok result hfailed
    have hseg := htour.segment
    obtain ⟨-, -, -, -, hlog, -, -⟩ := requestStart_same w pool ok result
    rw [exchangesOf_segment hseg hlog] at hcall
    refine ⟨?_, by rw [hseg.rv, hcall]; simp, hresult⟩
    · cases hf : (mfsRequestDo w pool ok result).connectionFinished with
      | false =>
        intro x hx
        exact hseg.exchanges_failed hf x (by rw [hcall]; simp [hx])
      | true =>
        obtain ⟨failed, t, entry, isNew, y, lastUsed, rfl, hnot, -, -⟩ := hseg.answered_last hf
        rw [exchanges_append] at hcall
        obtain ⟨hrej, -⟩ := List.append_inj' hcall rfl
        intro x hx
        rw [← hrej] at hx
        obtain ⟨a, ha, hax⟩ := List.mem_filterMap.mp hx
        have hright := hseg.right a (by simp [ha])
        have := hnot a ha
        cases a <;> simp_all [Attempt.exchange, Attempt.isAnswered, Attempt.Right]

/-- An answered call succeeds, and its hash owes nothing to the rejected responses
    exactly when each of their broken pairs is overwritten by the accepted
    response or repeats what the caller's hash held. -/
theorem cleanResult_iff (w : World) (pool : PoolArg) (ok : Option Bool) (result : Hash)
    (rejected : List Exchange) (accepted : Exchange)
    (hcall : exchangesOf w (mfsRequestDo w pool ok result) = rejected ++ [accepted])
    (haccepted : (exchangeReply accepted).rv = .success) :
    (mfsRequestDo w pool ok result).rv = .success ∧
      (CleanResult result accepted (mfsRequestDo w pool ok result) ↔
        ∀ key value, KeyedUpdates.lastValue (rejected.flatMap brokenPairs) key = some value →
          key ∈ (exchangeReply accepted).sets.map Prod.fst ∨ result key = some value) := by
  obtain ⟨hrejected, hrv, hresult⟩ := result_of_accepted hcall
  have hbroken : (rejected.flatMap fun x => (exchangeReply x).sets) = rejected.flatMap brokenPairs := by
    clear hcall hresult
    induction rejected with
    | nil => rfl
    | cons x rejected ih =>
      rw [List.flatMap_cons, List.flatMap_cons, sets_of_rejected (hrejected x (by simp)),
        ih fun y hy => hrejected y (by simp [hy])]
  rw [CleanResult, hresult, hbroken, hrv]
  exact ⟨haccepted, KeyedUpdates.setAll_setAll_eq_iff _ _ _⟩

/-- A tracker that answers with one line. -/
def lineExchange (line : Bytes) (h : line.length ≤ mfsReadBufferSize) : Exchange :=
  ⟨.success, [⟨.success, line, h⟩]⟩

/-- The second piece of the response has no `=`. -/
def brokenExchange : Exchange := lineExchange (str "OK 1 a=1&b\r\n") (by decide)

def soundExchange : Exchange := lineExchange (str "OK 1 b=2\r\n") (by decide)

/-- A broken response whose only pair the sound one overwrites. -/
def overwrittenExchange : Exchange := lineExchange (str "OK 1 b=1&c\r\n") (by decide)

theorem cleanResult_overwritten :
    CleanResult aprHashMake soundExchange
      (mfsRequestDo (oneTrackerWorld [⟨0, 0⟩] .success [overwrittenExchange, soundExchange]) .given
        none aprHashMake) := by
  refine (cleanResult_iff _ .given none aprHashMake [overwrittenExchange] soundExchange
    (by decide +kernel) (by decide +kernel)).2.mpr fun key value h => Or.inl ?_
  have hpairs : [overwrittenExchange].flatMap brokenPairs = [(str "b", str "1")] := by
    decide +kernel
  have hmem := KeyedUpdates.lastValue_mem h
  rw [hpairs, List.mem_singleton, Prod.mk.injEq] at hmem
  rw [hmem.1]
  decide +kernel

/-- A cached connection brings the broken response and a new one the sound one:
    the call succeeds and the key `a` of the broken response is in the hash. -/
theorem rejected_pair_in_result :
    (exchangeReply brokenExchange).rv ≠ .success ∧ (exchangeReply soundExchange).rv = .success ∧
      exchangesOf (oneTrackerWorld [⟨0, 0⟩] .success [brokenExchange, soundExchange])
        (mfsRequestDo (oneTrackerWorld [⟨0, 0⟩] .success [brokenExchange, soundExchange]) .given
          none aprHashMake) = [brokenExchange] ++ [soundExchange] ∧
      (mfsRequestDo (oneTrackerWorld [⟨0, 0⟩] .success [brokenExchange, soundExchange]) .given
          none aprHashMake).rv = .success ∧
      ¬ CleanResult aprHashMake soundExchange
        (mfsRequestDo (oneTrackerWorld [⟨0, 0⟩] .success [brokenExchange, soundExchange]) .given
          none aprHashMake) := by
  refine ⟨by decide +kernel, by decide +kernel, by decide +kernel, by decide +kernel, fun h => ?_⟩
  have ha := congrFun h (str "a")
  revert ha
  decide +kernel

end MogileFs
