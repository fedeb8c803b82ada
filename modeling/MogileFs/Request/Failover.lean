import MogileFs.Request.Request

/-!
# The attempts of a request

Every pass of the inner loop of `mfs_request_do` is an `Attempt`: a cached or a
new connection with the exchange made on it, or a connect that failed. A stretch
of the loops is described by the list of its attempts (`Segment`), from which
the events it logs and what it does to `rv`, `*ok` and `result` can be read.

Results:
* `requestBody_pass`, `requestLoop_visit`, `requestTrackers_tour`: the attempts
  of one pass, of one tracker, of the whole list.
* `mfsRequestDo_failover`: the request stops at its first answer, and without
  one has tried every active tracker afresh and every connection of their
  stacks once.
-/

namespace MogileFs

/-! ## Attempts -/

/-- One pass of the inner loop. `stale` and `refused` are failed exchanges, on
    a cached and on a new connection; `unreachable` is a failed connect. -/
inductive Attempt
  | stale (tracker : ℕ) (entry : ConnectionEntry) (x : Exchange)
  | unreachable (tracker : ℕ) (rv : AprStatus)
  | refused (tracker : ℕ) (entry : ConnectionEntry) (x : Exchange)
  | answered (tracker : ℕ) (entry : ConnectionEntry) (isNew : Bool) (x : Exchange) (lastUsed : ℤ)

namespace Attempt

def tracker : Attempt → ℕ
  | stale t _ _ | unreachable t _ | refused t _ _ | answered t _ _ _ _ => t

/-- What the attempt does to connections. -/
def events : Attempt → List Event
  | stale t e x => [.obtained t e, .exchange t e false x, .destroyed e]
  | unreachable t rv => [.connect t rv]
  | refused t e x => [.connect t .success, .exchange t e true x, .destroyed e]
  | answered t e isNew x lastUsed =>
    [if isNew then .connect t .success else .obtained t e, .exchange t e isNew x,
      .returned t { e with lastUsed := lastUsed }]

/-- The entry taken from a stack. -/
def cached : Attempt → Option ConnectionEntry
  | stale _ e _ => some e
  | unreachable _ _ | refused _ _ _ => none
  | answered _ e isNew _ _ => if isNew then none else some e

/-- The status of the `mfs_tracker_connect` call. -/
def connect : Attempt → Option AprStatus
  | stale _ _ _ => none
  | unreachable _ rv => some rv
  | refused _ _ _ => some .success
  | answered _ _ isNew _ _ => if isNew then some .success else none

def exchange : Attempt → Option Exchange
  | stale _ _ x | refused _ _ x | answered _ _ _ x _ => some x
  | unreachable _ _ => none

/-- The attempt ends the request. -/
def isAnswered : Attempt → Bool
  | answered _ _ _ _ _ => true
  | _ => false

/-- A fresh connection was attempted and the connect, or the request on it,
    failed. -/
def freshFailure : Attempt → Bool
  | unreachable _ _ | refused _ _ _ => true
  | _ => false

/-- The outcomes are those the name of the attempt says. -/
def Right : Attempt → Prop
  | stale _ _ x | refused _ _ x => (exchangeReply x).rv ≠ .success
  | unreachable _ rv => rv ≠ .success
  | answered _ _ _ x _ => (exchangeReply x).rv = .success

end Attempt

/-- The entries that attempts take from the stack of tracker `t`. -/
def obtainedFrom (t : ℕ) (attempts : List Attempt) : List ConnectionEntry :=
  attempts.filterMap fun a => if a.tracker = t then a.cached else none

def connects (attempts : List Attempt) : List AprStatus := attempts.filterMap Attempt.connect

def exchanges (attempts : List Attempt) : List Exchange := attempts.filterMap Attempt.exchange

theorem obtainedFrom_append (t : ℕ) (as bs : List Attempt) :
    obtainedFrom t (as ++ bs) = obtainedFrom t as ++ obtainedFrom t bs := List.filterMap_append

theorem connects_append (as bs : List Attempt) : connects (as ++ bs) = connects as ++ connects bs :=
  List.filterMap_append

theorem exchanges_append (as bs : List Attempt) :
    exchanges (as ++ bs) = exchanges as ++ exchanges bs := List.filterMap_append

theorem obtainedFrom_of_ne {t : ℕ} {attempts : List Attempt}
    (h : ∀ a ∈ attempts, a.tracker ≠ t) : obtainedFrom t attempts = [] :=
  List.filterMap_eq_nil_iff.mpr fun a ha => if_neg (h a ha)

/-! ## Segments -/

/-- The loops go from `s`, not finished, to `s'` by these attempts. -/
structure Segment (s s' : RequestState) (attempts : List Attempt) : Prop where
  log : s'.w.log = s.w.log ++ attempts.flatMap Attempt.events
  right : ∀ a ∈ attempts, a.Right
  stops : ∀ a ∈ attempts.dropLast, a.isAnswered = false
  finished : s'.connectionFinished = attempts.any Attempt.isAnswered
  connect : s.w.env.connect = connects attempts ++ₛ s'.w.env.connect
  exchange : s.w.env.exchange = exchanges attempts ++ₛ s'.w.env.exchange
  rv : s'.rv = ((exchanges attempts).getLast?.map fun x => (exchangeReply x).rv).getD s.rv
  ok : s'.ok = (exchanges attempts).foldl (fun ok x => (exchangeReply x).okAfter ok) s.ok
  result : s'.result =
    KeyedUpdates.setAll s.result ((exchanges attempts).flatMap fun x => (exchangeReply x).sets)

theorem Segment.nil {s : RequestState} (h : s.connectionFinished = false) : Segment s s [] where
  log := by simp
  right := by simp
  stops := by simp
  finished := by simpa using h
  connect := rfl
  exchange := rfl
  rv := rfl
  ok := rfl
  result := rfl

theorem Segment.append {s s₁ s₂ : RequestState} {as bs : List Attempt} (h : Segment s s₁ as)
    (h₁ : s₁.connectionFinished = false) (h' : Segment s₁ s₂ bs) : Segment s s₂ (as ++ bs) := by
  have hany : as.any Attempt.isAnswered = false := by rw [← h.finished]; exact h₁
  have hnot : ∀ a ∈ as, a.isAnswered = false := by simpa using hany
  refine ⟨?_, ?_, ?_, ?_, ?_, ?_, ?_, ?_, ?_⟩
  · rw [h'.log, h.log, List.flatMap_append, List.append_assoc]
  · intro a ha
    rcases List.mem_append.mp ha with ha | ha
    · exact h.right a ha
    · exact h'.right a ha
  · intro a ha
    cases bs with
    | nil => exact hnot a (List.dropLast_subset _ (by simpa using ha))
    | cons b bs =>
      rw [List.dropLast_append_of_ne_nil (by simp)] at ha
      rcases List.mem_append.mp ha with ha | ha
      · exact hnot a ha
      · exact h'.stops a ha
  · rw [h'.finished, List.any_append, hany, Bool.false_or]
  · rw [h.connect, h'.connect, connects_append, Stream'.append_append_stream]
  · rw [h.exchange, h'.exchange, exchanges_append, Stream'.append_append_stream]
  · rw [h'.rv, h.rv, exchanges_append]
    cases hx : exchanges bs with
    | nil => simp
    | cons x xs => simp [List.getLast?_append, List.getLast?_cons]
  · rw [h'.ok, h.ok, exchanges_append, List.foldl_append]
  · rw [h'.result, h.result, exchanges_append, List.flatMap_append, KeyedUpdates.setAll_append]

/-! ## One pass of the inner loop -/

/-- The attempt that an exchange on a connection makes. -/
def Attempt.settled (i : ℕ) (entry : ConnectionEntry) (isNew : Bool) (x : Exchange) (lastUsed : ℤ) :
    Attempt :=
  if (exchangeReply x).rv = .success then .answered i entry isNew x lastUsed
  else if isNew then .refused i entry x
  else .stale i entry x

theorem settled_cached (i : ℕ) (entry : ConnectionEntry) (isNew : Bool) (x : Exchange) (t : ℤ) :
    (Attempt.settled i entry isNew x t).cached = if isNew then none else some entry := by
  unfold Attempt.settled
  cases isNew <;> split_ifs <;> simp_all [Attempt.cached]

theorem settled_tracker (i : ℕ) (entry : ConnectionEntry) (isNew : Bool) (x : Exchange) (t : ℤ) :
    (Attempt.settled i entry isNew x t).tracker = i := by
  unfold Attempt.settled
  split_ifs <;> rfl

/-- The exchange on a connection, from a world `w` that differs from the one of
    `s` by how the connection was got. -/
theorem settleConnection_segment {s : RequestState} {w : World} {i : ℕ} {entry : ConnectionEntry}
    {isNew : Bool} (h : s.connectionFinished = false)
    (hlog : w.log = s.w.log ++ [if isNew then .connect i .success else .obtained i entry])
    (hconnect : s.w.env.connect = (if isNew then [.success] else []) ++ₛ w.env.connect)
    (hexchange : w.env.exchange = s.w.env.exchange) :
    Segment s (settleConnection i entry (requestOn i entry isNew { s with w := w }))
      [.settled i entry isNew s.w.env.exchange.head w.env.clock.head] := by
  have hhead : s.w.env.exchange =
      [s.w.env.exchange.head] ++ₛ s.w.env.exchange.tail :=
    (Stream'.append_stream_head_tail _).symm
  unfold settleConnection Attempt.settled
  by_cases hrv : (exchangeReply s.w.env.exchange.head).rv = .success
  · cases isNew <;>
    · simp only [requestOn, mfsTrackerRequest, World.record, hexchange, hrv, ne_eq,
        not_true_eq_false, ite_false, ite_true, Bool.false_eq_true]
      refine ⟨?_, ?_, by simp, rfl, ?_, hhead, ?_, rfl, ?_⟩
      · simp [mfsPoolReturnConnection, World.record, Attempt.events, hlog]
      · simpa [Attempt.Right] using hrv
      · exact hconnect
      · simp [exchanges, Attempt.exchange, hrv]
      · simp [exchanges, Attempt.exchange, Reply.resultAfter]
  · cases isNew <;>
    · simp only [requestOn, mfsTrackerRequest, World.record, hexchange, hrv, ne_eq,
        not_false_eq_true, ite_false, ite_true, Bool.false_eq_true]
      refine ⟨?_, ?_, by simp, h, ?_, hhead, ?_, rfl, ?_⟩
      · simp [mfsPoolDestroyConnection, World.record, Attempt.events, hlog]
      · simpa [Attempt.Right] using hrv
      · exact hconnect
      · simp [exchanges, Attempt.exchange]
      · simp [exchanges, Attempt.exchange, Reply.resultAfter]

theorem stack_settleConnection_of_ne {i t : ℕ} {entry : ConnectionEntry} {s : RequestState}
    (h : t ≠ i) :
    (settleConnection i entry s).w.trackers.stack t = s.w.trackers.stack t := by
  unfold settleConnection
  split_ifs
  · rfl
  · exact stack_setConnectionPool_of_ne s.w.trackers _ h

/-- What one pass for tracker `i` does: it takes the head of the stack, or
    connects when there is none, and only an answer puts the connection back. -/
structure Pass (i : ℕ) (s s' : RequestState) (keepTryingTracker : Bool) (a : Attempt) : Prop where
  segment : Segment s s' [a]
  tracker : a.tracker = i
  cached : a.cached = (s.w.trackers.stack i).head?
  keep : keepTryingTracker = a.cached.isSome
  others : ∀ t, t ≠ i → s'.w.trackers.stack t = s.w.trackers.stack t
  popped : s'.connectionFinished = false →
    s'.w.trackers.stack i = (s.w.trackers.stack i).tail

theorem pass_cached {i : ℕ} {s : RequestState} (h : s.connectionFinished = false)
    {entry : ConnectionEntry} {rest : List ConnectionEntry}
    (hs : s.w.trackers.stack i = entry :: rest) :
    ∃ a, Pass i s (requestBody i s).2 (requestBody i s).1 a := by
  rw [requestBody_cons hs]
  refine ⟨_, settleConnection_segment h rfl rfl rfl, settled_tracker _ _ _ _ _, ?_, ?_, ?_, ?_⟩
  · rw [settled_cached, hs]; rfl
  · rw [settled_cached]; rfl
  · intro t ht
    rw [stack_settleConnection_of_ne ht]
    exact stack_withoutFirst_of_ne s.w ht
  · intro hf
    rw [settleConnection_of_not_finished hf]
    exact stack_withoutFirst s.w i

theorem pass_new {i : ℕ} {s : RequestState} (h : s.connectionFinished = false)
    (hs : s.w.trackers.stack i = []) (hrv : s.w.env.connect.head = .success) :
    ∃ a, Pass i s (requestBody i s).2 (requestBody i s).1 a := by
  rw [requestBody_new hs hrv]
  refine ⟨_, settleConnection_segment h ?_ ?_ rfl, settled_tracker _ _ _ _ _, ?_, ?_, ?_, ?_⟩
  · simp [mfsTrackerConnect, World.record, hrv]
  · rw [if_pos rfl, ← hrv]
    exact (Stream'.append_stream_head_tail _).symm
  · rw [settled_cached, hs]; rfl
  · rw [settled_cached]; rfl
  · intro t ht
    rw [stack_settleConnection_of_ne ht]
    rfl
  · intro hf
    rw [settleConnection_of_not_finished hf, hs]
    exact hs

theorem pass_unreachable {i : ℕ} {s : RequestState} (h : s.connectionFinished = false)
    (hs : s.w.trackers.stack i = []) (hrv : s.w.env.connect.head ≠ .success) :
    ∃ a, Pass i s (requestBody i s).2 (requestBody i s).1 a := by
  rw [requestBody_unreachable hs hrv]
  -- the stack being empty, the deactivation drains nothing
  obtain ⟨hlog, henv, -, hstacks⟩ := mfsPoolDeactivate_of_nil (w := (mfsTrackerConnect s.w i).2) hs
  refine ⟨.unreachable i s.w.env.connect.head, ⟨?_, ?_, by simp, h, ?_, ?_, rfl, rfl, rfl⟩, rfl, ?_,
    rfl, ?_, ?_⟩
  · simp only [hlog]
    simp [mfsTrackerConnect, World.record, Attempt.events]
  · simpa [Attempt.Right] using hrv
  · rw [henv]
    exact (Stream'.append_stream_head_tail _).symm
  · rw [henv]; rfl
  · rw [hs]; rfl
  · exact fun t _ => hstacks t
  · intro _
    rw [hstacks, hs]
    exact hs

theorem requestBody_pass (i : ℕ) {s : RequestState} (h : s.connectionFinished = false) :
    ∃ a, Pass i s (requestBody i s).2 (requestBody i s).1 a := by
  cases hs : s.w.trackers.stack i with
  | nil =>
    by_cases hrv : s.w.env.connect.head = .success
    · exact pass_new h hs hrv
    · exact pass_unreachable h hs hrv
  | cons entry rest => exact pass_cached h hs

/-! ## The inner loop -/

/-- What the inner loop does for tracker `i`: without an answer it uses up the
    stack and then makes one fresh attempt. -/
structure Visit (i : ℕ) (s s' : RequestState) (attempts : List Attempt) : Prop where
  segment : Segment s s' attempts
  tracker : ∀ a ∈ attempts, a.tracker = i
  obtained : obtainedFrom i attempts <+: s.w.trackers.stack i
  length_le : attempts.length ≤ (s.w.trackers.stack i).length + 1
  connects_le : (connects attempts).length ≤ 1
  others : ∀ t, t ≠ i → s'.w.trackers.stack t = s.w.trackers.stack t
  exhausted : s'.connectionFinished = false →
    obtainedFrom i attempts = s.w.trackers.stack i ∧ s'.w.trackers.stack i = [] ∧
      (connects attempts).length = 1 ∧ ∃ a ∈ attempts, a.freshFailure = true

theorem Attempt.freshFailure_of_cached {a : Attempt} (h : a.cached = none)
    (h' : a.isAnswered = false) : a.freshFailure = true := by
  cases a <;> simp_all [Attempt.cached, Attempt.isAnswered, Attempt.freshFailure]

theorem Attempt.connects_of_freshFailure {a : Attempt} (h : a.freshFailure = true) :
    (connects [a]).length = 1 := by
  cases a <;> simp_all [Attempt.freshFailure, connects, Attempt.connect]

theorem Attempt.connect_of_cached {a : Attempt} {entry : ConnectionEntry}
    (h : a.cached = some entry) : a.connect = none := by
  cases a with
  | answered t e isNew x u => cases isNew <;> simp_all [Attempt.cached, Attempt.connect]
  | _ => simp_all [Attempt.cached, Attempt.connect]

theorem obtainedFrom_cons_self {a : Attempt} {attempts : List Attempt} {entry : ConnectionEntry}
    (h : a.cached = some entry) :
    obtainedFrom a.tracker (a :: attempts) = entry :: obtainedFrom a.tracker attempts := by
  simp [obtainedFrom, h]

/-- The stack is empty, or the connection answered: the pass ends the loop. -/
theorem Pass.visit {i : ℕ} {s s' : RequestState} {keep : Bool} {a : Attempt}
    (hpass : Pass i s s' keep a)
    (hend : s'.connectionFinished = true ∨ s.w.trackers.stack i = []) : Visit i s s' [a] := by
  obtain ⟨hseg, htracker, hcached, -, hothers, hpopped⟩ := hpass
  have hobt : obtainedFrom i [a] = (s.w.trackers.stack i).head?.toList := by
    rw [← hcached, ← htracker]
    cases hc : a.cached with
    | none => simp [obtainedFrom, hc]
    | some entry => simp [obtainedFrom, hc]
  refine ⟨hseg, by simpa using htracker, ?_, by simp, ?_, hothers, fun hf => ?_⟩
  · rw [hobt]
    cases s.w.trackers.stack i <;> simp
  · exact List.length_filterMap_le _ _
  · have hs := hend.resolve_left (by simp [hf])
    have hnot : a.isAnswered = false := by
      have := hseg.finished
      rw [hf] at this
      simpa using this.symm
    have hfresh := Attempt.freshFailure_of_cached (by rw [hcached, hs]; rfl) hnot
    refine ⟨by rw [hobt, hs]; rfl, by rw [hpopped hf, hs]; rfl, ?_, a, by simp, hfresh⟩
    exact Attempt.connects_of_freshFailure hfresh

/-- A cached connection failed, and the loop goes on with the rest of the stack. -/
theorem Pass.cons {i : ℕ} {s s₁ s' : RequestState} {keep : Bool} {a : Attempt}
    {attempts : List Attempt} {entry : ConnectionEntry} {rest : List ConnectionEntry}
    (hpass : Pass i s s₁ keep a) (hs : s.w.trackers.stack i = entry :: rest)
    (hf : s₁.connectionFinished = false) (hvisit : Visit i s₁ s' attempts) :
    Visit i s s' (a :: attempts) := by
  obtain ⟨hseg, htracker, hcached, -, hothers, hpopped⟩ := hpass
  rw [hs] at hcached
  have hrest : s₁.w.trackers.stack i = rest := by rw [hpopped hf, hs]; rfl
  have hobt : obtainedFrom i (a :: attempts) = entry :: obtainedFrom i attempts := by
    rw [← htracker]
    exact obtainedFrom_cons_self hcached
  refine ⟨hseg.append hf hvisit.segment, ?_, ?_, ?_, ?_, ?_, ?_⟩
  · intro b hb
    rcases List.mem_cons.mp hb with rfl | hb
    · exact htracker
    · exact hvisit.tracker b hb
  · have := hvisit.obtained
    rw [hrest] at this
    rw [hobt, hs]
    exact List.prefix_cons_inj _ |>.mpr this
  · have := hvisit.length_le
    rw [hrest] at this
    rw [hs]
    simpa using this
  · have := hvisit.connects_le
    simpa [connects, Attempt.connect_of_cached hcached] using this
  · intro t ht
    rw [hvisit.others t ht, hothers t ht]
  · intro hf'
    obtain ⟨h1, h2, h3, b, hb, hfresh⟩ := hvisit.exhausted hf'
    refine ⟨by rw [hobt, h1, hrest, hs], h2, ?_, b, List.mem_cons_of_mem _ hb, hfresh⟩
    simpa [connects, Attempt.connect_of_cached hcached] using h3

/-- The inner loop, by induction on the stack of the tracker. -/
theorem requestLoop_visit (i : ℕ) {s : RequestState} (h : s.connectionFinished = false) :
    ∃ attempts, Visit i s (requestLoop i true s) attempts := by
  generalize hstack : s.w.trackers.stack i = stack
  induction stack generalizing s with
  | nil =>
    obtain ⟨a, hpass⟩ := requestBody_pass i h
    rw [requestLoop, if_pos (by simp [h])]
    have hkeep : (requestBody i s).1 = false := by
      rw [hpass.keep, hpass.cached, hstack]; rfl
    rw [requestLoop, if_neg (by simp [hkeep])]
    exact ⟨_, hpass.visit (Or.inr hstack)⟩
  | cons entry rest ih =>
    obtain ⟨a, hpass⟩ := requestBody_pass i h
    rw [requestLoop, if_pos (by simp [h])]
    cases hf : (requestBody i s).2.connectionFinished with
    | true =>
      rw [requestLoop, if_neg (by simp [hf])]
      exact ⟨_, hpass.visit (Or.inl hf)⟩
    | false =>
      have hkeep : (requestBody i s).1 = true := by
        rw [hpass.keep, hpass.cached, hstack]; rfl
      obtain ⟨attempts, hvisit⟩ := ih hf (by rw [hpass.popped hf, hstack]; rfl)
      rw [hkeep]
      exact ⟨_, hpass.cons hstack hf hvisit⟩

/-! ## The outer loop -/

/-- What the outer loop does on the way over the trackers `ts`. -/
structure Tour (ts : List ℕ) (s s' : RequestState) (attempts : List Attempt) : Prop where
  segment : Segment s s' attempts
  tracker : ∀ a ∈ attempts, a.tracker ∈ ts
  obtained : ∀ t, obtainedFrom t attempts <+: s.w.trackers.stack t
  length_le : attempts.length ≤ (ts.map fun t => (s.w.trackers.stack t).length + 1).sum
  connects_le : (connects attempts).length ≤ ts.length
  exhausted : s'.connectionFinished = false →
    (connects attempts).length = ts.length ∧
      ∀ t ∈ ts, obtainedFrom t attempts = s.w.trackers.stack t ∧
        ∃ a ∈ attempts, a.tracker = t ∧ a.freshFailure = true

theorem Tour.nil {s : RequestState} (h : s.connectionFinished = false) : Tour [] s s [] :=
  ⟨Segment.nil h, by simp, fun _ => List.nil_prefix, by simp, by simp [connects],
    fun _ => ⟨rfl, by simp⟩⟩

/-- The answer came from the first tracker. -/
theorem Visit.tour {i : ℕ} {ts : List ℕ} {s s' : RequestState} {attempts : List Attempt}
    (hvisit : Visit i s s' attempts) (hf : s'.connectionFinished = true) :
    Tour (i :: ts) s s' attempts := by
  refine ⟨hvisit.segment, fun a ha => ?_, fun t => ?_, ?_, ?_, fun hf' => ?_⟩
  · rw [hvisit.tracker a ha]; simp
  · by_cases ht : t = i
    · subst ht; exact hvisit.obtained
    · rw [obtainedFrom_of_ne fun a ha => by rw [hvisit.tracker a ha]; exact Ne.symm ht]
      exact List.nil_prefix
  · have := hvisit.length_le
    rw [List.map_cons, List.sum_cons]
    omega
  · have := hvisit.connects_le
    rw [List.length_cons]
    omega
  · rw [hf] at hf'; cases hf'

/-- The first tracker gave no answer, and the loop goes on with the others. -/
theorem Visit.cons {i : ℕ} {ts : List ℕ} {s s₁ s' : RequestState} {as bs : List Attempt}
    (hvisit : Visit i s s₁ as) (hf : s₁.connectionFinished = false) (htour : Tour ts s₁ s' bs) :
    Tour (i :: ts) s s' (as ++ bs) := by
  obtain ⟨hall, hempty, hone, a, ha, hfresh⟩ := hvisit.exhausted hf
  have hother : ∀ t, t ≠ i → obtainedFrom t as = [] := fun t ht =>
    obtainedFrom_of_ne fun a ha => by rw [hvisit.tracker a ha]; exact Ne.symm ht
  -- nothing is left for a second visit of the same tracker
  have hself : obtainedFrom i (as ++ bs) = s.w.trackers.stack i := by
    have := htour.obtained i
    rw [hempty, List.prefix_nil] at this
    rw [obtainedFrom_append, this, List.append_nil, hall]
  have hne : ∀ t, t ≠ i → obtainedFrom t (as ++ bs) = obtainedFrom t bs := fun t ht => by
    rw [obtainedFrom_append, hother t ht, List.nil_append]
  refine ⟨hvisit.segment.append hf htour.segment, fun b hb => ?_, fun t => ?_, ?_, ?_, fun hf' => ?_⟩
  · rcases List.mem_append.mp hb with hb | hb
    · rw [hvisit.tracker b hb]; simp
    · exact List.mem_cons_of_mem _ (htour.tracker b hb)
  · by_cases ht : t = i
    · subst ht; rw [hself]
    · rw [hne t ht, ← hvisit.others t ht]
      exact htour.obtained t
  · have h1 := hvisit.length_le
    have h2 := htour.length_le
    have hle : (ts.map fun t => (s₁.w.trackers.stack t).length + 1).sum ≤
        (ts.map fun t => (s.w.trackers.stack t).length + 1).sum := by
      refine List.sum_le_sum fun t _ => ?_
      by_cases ht : t = i
      · subst ht; rw [hempty]; simp
      · rw [hvisit.others t ht]
    rw [List.length_append, List.map_cons, List.sum_cons]
    omega
  · have h1 := hvisit.connects_le
    have h2 := htour.connects_le
    rw [connects_append, List.length_append, List.length_cons]
    omega
  · obtain ⟨hlen, hrest⟩ := htour.exhausted hf'
    refine ⟨by rw [connects_append, List.length_append, hone, hlen, List.length_cons]; omega, ?_⟩
    intro t ht
    by_cases hti : t = i
    · subst hti
      exact ⟨hself, a, List.mem_append_left _ ha, hvisit.tracker a ha, hfresh⟩
    · obtain ⟨hobt, b, hb, hbt, hbf⟩ := hrest t ((List.mem_cons.mp ht).resolve_left hti)
      rw [hne t hti, hobt, hvisit.others t hti]
      exact ⟨rfl, b, List.mem_append_right _ hb, hbt, hbf⟩

theorem requestTrackers_finished (list : TrackerList) {s : RequestState}
    (h : s.connectionFinished = true) : requestTrackers list s = s := by
  rw [requestTrackers, if_pos h]

theorem requestTrackers_none {list list' : TrackerList} {s : RequestState}
    (hnext : mfsPoolNextTracker list = (none, list')) : requestTrackers list s = s := by
  rw [requestTrackers]
  split_ifs
  · rfl
  · rw [hnext]

theorem requestTrackers_some {list list' : TrackerList} {tracker : ℕ} {s : RequestState}
    (h : s.connectionFinished = false) (hnext : mfsPoolNextTracker list = (some tracker, list')) :
    requestTrackers list s = requestTrackers list' (requestLoop tracker true s) := by
  rw [requestTrackers, if_neg (by simp [h]), hnext]
  simp only
  rw [currentTrackerIndex_of_some hnext]

/-- The outer loop, by induction on the trackers still to be visited. -/
theorem requestTrackers_tour (list : TrackerList) {s : RequestState}
    (h : s.connectionFinished = false) :
    ∃ attempts, Tour list.unvisited s (requestTrackers list s) attempts := by
  generalize hts : list.unvisited = ts
  induction ts generalizing list s with
  | nil =>
    cases hnext : mfsPoolNextTracker list with
    | mk tracker list' =>
      cases tracker with
      | none => rw [requestTrackers_none hnext]; exact ⟨[], Tour.nil h⟩
      | some tracker => rw [unvisited_of_some hnext] at hts; cases hts
  | cons i ts ih =>
    cases hnext : mfsPoolNextTracker list with
    | mk tracker list' =>
      cases tracker with
      | none => rw [unvisited_of_none hnext] at hts; cases hts
      | some tracker =>
        rw [unvisited_of_some hnext] at hts
        obtain ⟨rfl, rfl⟩ := List.cons.inj hts
        rw [requestTrackers_some h hnext]
        obtain ⟨as, hvisit⟩ := requestLoop_visit tracker h
        cases hf : (requestLoop tracker true s).connectionFinished with
        | true =>
          rw [requestTrackers_finished _ hf]
          exact ⟨as, hvisit.tour hf⟩
        | false =>
          obtain ⟨bs, htour⟩ := ih list' hf rfl
          exact ⟨as ++ bs, hvisit.cons hf htour⟩

/-! ## The request -/

/-- The state in which `mfs_request_do` enters its loops, or returns because no
    tracker is active. -/
def requestStart (w : World) (pool : PoolArg) (ok : Option Bool) (result : Hash) : RequestState :=
  match mfsPoolListActiveTrackers w.trackers w.env.rand.head with
  | none => ⟨.econnrefused, ok, result, false, w⟩
  | some _ =>
    ⟨pool.rv, ok, result, false, { w with env := { w.env with rand := w.env.rand.tail } }⟩

/-- `requestStart` has only used up a random number. -/
theorem requestStart_same (w : World) (pool : PoolArg) (ok : Option Bool) (result : Hash) :
    (requestStart w pool ok result).connectionFinished = false ∧
      (requestStart w pool ok result).ok = ok ∧
      (requestStart w pool ok result).result = result ∧
      (requestStart w pool ok result).w.trackers = w.trackers ∧
      (requestStart w pool ok result).w.log = w.log ∧
      (requestStart w pool ok result).w.env.connect = w.env.connect ∧
      (requestStart w pool ok result).w.env.exchange = w.env.exchange := by
  unfold requestStart
  cases mfsPoolListActiveTrackers w.trackers w.env.rand.head <;> simp

/-- `rv` before the first exchange. -/
theorem requestStart_rv (w : World) (pool : PoolArg) (ok : Option Bool) (result : Hash) :
    (requestStart w pool ok result).rv =
      if w.trackers.active = [] then .econnrefused else pool.rv := by
  unfold requestStart
  cases hlist : mfsPoolListActiveTrackers w.trackers w.env.rand.head with
  | none => rw [if_pos (mfsPoolListActiveTrackers_none.mp hlist)]
  | some list =>
    rw [if_neg fun h => ?_]
    rw [mfsPoolListActiveTrackers_none.mpr h] at hlist
    cases hlist

theorem mfsRequestDo_tour (w : World) (pool : PoolArg) (ok : Option Bool) (result : Hash)
    (hpool : pool.failed = false) :
    ∃ ts attempts, ts.Perm w.trackers.active ∧
      Tour ts (requestStart w pool ok result) (mfsRequestDo w pool ok result) attempts := by
  unfold mfsRequestDo requestStart
  rw [hpool]
  cases hlist : mfsPoolListActiveTrackers w.trackers w.env.rand.head with
  | none =>
    rw [mfsPoolListActiveTrackers_none.mp hlist]
    exact ⟨[], [], List.Perm.refl _, Tour.nil rfl⟩
  | some list =>
    obtain ⟨attempts, htour⟩ := requestTrackers_tour list (s := ⟨pool.rv, ok, result, false,
      { w with env := { w.env with rand := w.env.rand.tail } }⟩) rfl
    exact ⟨_, attempts, mfsPoolListActiveTrackers_unvisited hlist, htour⟩

/-- Without an answer every exchange failed. -/
theorem Segment.exchanges_failed {s s' : RequestState} {attempts : List Attempt}
    (h : Segment s s' attempts) (hf : s'.connectionFinished = false) :
    ∀ x ∈ exchanges attempts, (exchangeReply x).rv ≠ .success := by
  intro x hx
  obtain ⟨a, ha, hax⟩ := List.mem_filterMap.mp hx
  have hright := h.right a ha
  have hany := h.finished
  rw [hf] at hany
  have hnot : a.isAnswered = false := by
    have := List.any_eq_false.mp hany.symm a ha
    simpa using this
  cases a <;> simp_all [Attempt.exchange, Attempt.isAnswered, Attempt.Right]

/-- Without an answer `rv` is the status of the last exchange, or has not been
    set. -/
theorem Segment.rv_of_not_finished {s s' : RequestState} {attempts : List Attempt}
    (h : Segment s s' attempts) (hf : s'.connectionFinished = false) :
    (exchanges attempts = [] ∧ s'.rv = s.rv) ∨ (exchanges attempts ≠ [] ∧ s'.rv ≠ .success) := by
  have hrv := h.rv
  cases hx : (exchanges attempts).getLast? with
  | none =>
    rw [hx] at hrv
    exact Or.inl ⟨List.getLast?_eq_none_iff.mp hx, hrv⟩
  | some x =>
    rw [hx] at hrv
    refine Or.inr ⟨fun h0 => absurd hx (by simp [h0]), ?_⟩
    rw [hrv]
    exact h.exchanges_failed hf x (List.mem_of_getLast? hx)

/-- An answer is the last attempt. -/
theorem Segment.answered_last {s s' : RequestState} {attempts : List Attempt}
    (h : Segment s s' attempts) (hf : s'.connectionFinished = true) :
    ∃ failed t entry isNew x lastUsed,
      attempts = failed ++ [Attempt.answered t entry isNew x lastUsed] ∧
        (∀ a ∈ failed, a.isAnswered = false) ∧ (exchangeReply x).rv = .success ∧
        s'.rv = .success := by
  have hany : attempts.any Attempt.isAnswered = true := by rw [← h.finished]; exact hf
  rcases List.eq_nil_or_concat attempts with rfl | ⟨failed, last, rfl⟩
  · cases hany
  rw [List.concat_eq_append] at h hany ⊢
  have hstops : ∀ a ∈ failed, a.isAnswered = false := by simpa using h.stops
  have hlast : last.isAnswered = true := by
    rw [List.any_append, List.any_eq_false.mpr fun a ha => by simp [hstops a ha]] at hany
    simpa using hany
  cases last with
  | answered t entry isNew x lastUsed =>
    have hx : (exchangeReply x).rv = .success :=
      h.right (.answered t entry isNew x lastUsed) (by simp)
    refine ⟨failed, t, entry, isNew, x, lastUsed, rfl, hstops, hx, ?_⟩
    rw [h.rv, exchanges_append]
    simp [exchanges, Attempt.exchange, hx]
  | _ => cases hlast

/-- Failover of `mfs_request_do` with a pool given by the caller. The call is a
    list of attempts of bounded length. Either the last one, and no other, is an
    answer; or every active tracker had a fresh attempt that failed, the
    connections obtained from its stack are the whole stack, each in a `stale`
    attempt that ends with its destruction, and the status is an error. -/
theorem mfsRequestDo_failover (w : World) (ok : Option Bool) (result : Hash) :
    ∃ attempts,
      (mfsRequestDo w .given ok result).w.log = w.log ++ attempts.flatMap Attempt.events ∧
      w.env.connect =
        connects attempts ++ₛ (mfsRequestDo w .given ok result).w.env.connect ∧
      w.env.exchange =
        exchanges attempts ++ₛ (mfsRequestDo w .given ok result).w.env.exchange ∧
      (∀ a ∈ attempts, a.Right ∧ a.tracker ∈ w.trackers.active) ∧
      (∀ t, obtainedFrom t attempts <+: w.trackers.stack t) ∧
      attempts.length ≤ (w.trackers.active.map fun t => (w.trackers.stack t).length + 1).sum ∧
      ((∃ failed t entry isNew x lastUsed,
          attempts = failed ++ [Attempt.answered t entry isNew x lastUsed] ∧
          (∀ a ∈ failed, a.isAnswered = false) ∧
          (mfsRequestDo w .given ok result).rv = .success) ∨
        ((∀ a ∈ attempts, a.isAnswered = false) ∧
          (mfsRequestDo w .given ok result).rv ≠ .success ∧
          ∀ t ∈ w.trackers.active, obtainedFrom t attempts = w.trackers.stack t ∧
            ∃ a ∈ attempts, a.tracker = t ∧ a.freshFailure = true)) := by
  obtain ⟨ts, attempts, hperm, htour⟩ := mfsRequestDo_tour w .given ok result rfl
  have hseg := htour.segment
  obtain ⟨-, -, -, htrackers, hlog, hconnect, hexchange⟩ := requestStart_same w .given ok result
  refine ⟨attempts, by rw [hseg.log, hlog], by rw [← hconnect, hseg.connect],
    by rw [← hexchange, hseg.exchange],
    fun a ha => ⟨hseg.right a ha, hperm.mem_iff.mp (htour.tracker a ha)⟩,
    fun t => by rw [← htrackers]; exact htour.obtained t, ?_, ?_⟩
  · rw [← (hperm.map fun t => (w.trackers.stack t).length + 1).sum_eq, ← htrackers]
    exact htour.length_le
  · cases hf : (mfsRequestDo w .given ok result).connectionFinished with
    | true =>
      obtain ⟨failed, t, entry, isNew, x, lastUsed, h1, h2, -, h3⟩ := hseg.answered_last hf
      exact Or.inl ⟨failed, t, entry, isNew, x, lastUsed, h1, h2, h3⟩
    | false =>
      refine Or.inr ⟨?_, ?_, fun t ht => ?_⟩
      · have := hseg.finished
        rw [hf] at this
        simpa using this.symm
      · rcases hseg.rv_of_not_finished hf with ⟨-, hrv⟩ | ⟨-, hrv⟩
        · rw [hrv, requestStart_rv]
          split_ifs <;> simp [PoolArg.rv]
        · exact hrv
      · rw [← htrackers]
        exact (htour.exhausted hf).2 t (hperm.mem_iff.mpr ht)

end MogileFs
