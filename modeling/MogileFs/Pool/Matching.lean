import MogileFs.Library.Runs
import MogileFs.Pool.Ownership

/-!
# Requests and responses

Each tracker answers every complete request line it gets on a connection with one line, in order
(`Wire.answer`). A thread that gives up on an answer destroys the connection, so nothing is under
way on the connections in the stacks, and the line a thread receives is the answer to its own
request.

Results:
* `Thread.step_sound`: what one step of a thread does to the connections.
* `responses_match`: the answers of all threads, and the connections in all stacks, in every run.
-/

namespace MogileFs

open Ledger

/-! ## The answer to a request -/

/-- `request` is a complete line the tracker has got, and `line` the answer of the same number. -/
def Wire.Answers (wire : Wire) (request line : Bytes) : Prop :=
  ∃ before after, wire.sent = before ++ request ++ after ∧ LineStart before ∧
    request.getLast? = some LF ∧ LF ∉ request.dropLast ∧
    wire.answers[before.count LF]? = some line

/-- More has been sent or answered. -/
structure Wire.Extends (wire wire' : Wire) : Prop where
  tracker : wire'.tracker = wire.tracker
  sent : wire.sent <+: wire'.sent
  answers : wire.answers <+: wire'.answers

theorem Wire.Extends.refl (wire : Wire) : wire.Extends wire := ⟨rfl, List.prefix_rfl, List.prefix_rfl⟩

theorem extends_send (wire : Wire) (bytes : Bytes) : wire.Extends (wire.send bytes) :=
  ⟨rfl, List.prefix_append _ _, List.prefix_rfl⟩

theorem extends_receive (wire : Wire) (count : ℕ) : wire.Extends (wire.receive count) :=
  ⟨rfl, List.prefix_rfl, List.prefix_rfl⟩

theorem extends_answer (wire : Wire) (text : AnswerText) : wire.Extends (wire.answer text) := by
  unfold Wire.answer
  split_ifs
  · exact ⟨rfl, List.prefix_rfl, List.prefix_append _ _⟩
  · exact .refl wire

theorem Wire.Answers.mono {wire wire' : Wire} {request line : Bytes}
    (h : wire.Answers request line) (hext : wire.Extends wire') : wire'.Answers request line := by
  obtain ⟨before, after, hsent, hstart, hlast, hone, hanswer⟩ := h
  obtain ⟨more, hmore⟩ := hext.sent
  obtain ⟨answers, hanswers⟩ := hext.answers
  refine ⟨before, after ++ more, ?_, hstart, hlast, hone, ?_⟩
  · rw [← hmore, hsent, List.append_assoc _ after]
  · rw [← hanswers, List.getElem?_append_left (List.getElem?_eq_some_iff.mp hanswer).1]
    exact hanswer

theorem oneLine_of_isPrefix {sent request : Bytes} (h : sent <+: request)
    (hone : LF ∉ request.dropLast) : LF ∉ sent.dropLast := by
  obtain ⟨rest, rfl⟩ := h
  intro hmem
  refine hone ?_
  by_cases hrest : rest = []
  · rwa [hrest, List.append_nil]
  · rw [List.dropLast_append_of_ne_nil hrest]
    exact List.mem_append_left _ (List.mem_of_mem_dropLast hmem)

/-- A part of a request with its LF is the whole request. -/
theorem eq_of_prefix_of_getLast {sent request : Bytes} (h : sent <+: request)
    (hone : LF ∉ request.dropLast) (hlast : sent.getLast? = some LF) : sent = request := by
  obtain ⟨rest, rfl⟩ := h
  by_contra hne
  have hrest : rest ≠ [] := by
    rintro rfl
    exact hne (List.append_nil _).symm
  rw [List.dropLast_append_of_ne_nil hrest] at hone
  exact hone (List.mem_append_left _ (List.mem_of_getLast? hlast))

/-! ## What a thread knows about its connection -/

/-- A connection to tracker `i` with nothing under way. -/
structure Wire.Ready (wire : Wire) (i : ℕ) : Prop where
  tracker : wire.tracker = i
  quiet : wire.Quiet

/-- A connection to tracker `i`: `request` has been sent, or a part of it, and `gathered` has been
    received since. -/
structure Wire.Asked (wire : Wire) (i : ℕ) (request gathered : Bytes) : Prop where
  tracker : wire.tracker = i
  receiving : ∃ before sent, sent <+: request ∧ wire.Receiving before sent gathered

theorem Wire.Ready.send {wire : Wire} {i : ℕ} (h : wire.Ready i) {request : Bytes}
    (hone : LF ∉ request.dropLast) (count : ℕ) :
    (wire.send (request.take count)).Asked i request [] where
  tracker := h.tracker
  receiving := ⟨wire.sent, request.take count, List.take_prefix _ _,
    h.quiet.send (oneLine_of_isPrefix (List.take_prefix _ _) hone)⟩

theorem Wire.Asked.receive {wire : Wire} {i : ℕ} {request gathered : Bytes}
    (h : wire.Asked i request gathered) (count : ℕ) :
    (wire.receive count).Asked i request (gathered ++ wire.chunk count) where
  tracker := h.tracker
  receiving := by
    obtain ⟨before, sent, hsent, hreceiving⟩ := h.receiving
    exact ⟨before, sent, hsent, hreceiving.receive_more count⟩

/-- A line has been received: it is the answer, and nothing is under way any more. -/
theorem Wire.Asked.line {wire : Wire} {i : ℕ} {request gathered : Bytes}
    (h : wire.Asked i request gathered) (hone : LF ∉ request.dropLast)
    (hline : gathered.getLast? = some LF) : wire.Ready i ∧ wire.Answers request gathered := by
  obtain ⟨before, sent, hsent, hreceiving⟩ := h.receiving
  obtain ⟨hquiet, hlast, hanswer⟩ := hreceiving.receive_line hline
  obtain rfl := eq_of_prefix_of_getLast hsent hone hlast
  refine ⟨⟨h.tracker, hquiet⟩, before, [], ?_, hreceiving.lineStart, hlast, hone, hanswer⟩
  rw [List.append_nil]
  exact hreceiving.sent

theorem Wire.Ready.answer {wire : Wire} {i : ℕ} (h : wire.Ready i) (text : AnswerText) :
    (wire.answer text).Ready i := by rwa [h.quiet.answer text]

theorem Wire.Asked.answer {wire : Wire} {i : ℕ} {request gathered : Bytes}
    (h : wire.Asked i request gathered) (text : AnswerText) :
    (wire.answer text).Asked i request gathered where
  tracker := (extends_answer wire text).tracker.trans h.tracker
  receiving := by
    obtain ⟨before, sent, hsent, hreceiving⟩ := h.receiving
    exact ⟨before, sent, hsent, hreceiving.answer text⟩

/-- What holds of the connection in a thread's hands. -/
def Point.Good (wires : ℕ → Wire) : Point → Prop
  | .send a entry _ => (wires entry.connection).Ready a.trackerIndex
  | .receive a entry _ finalBuffer =>
    (wires entry.connection).Asked a.trackerIndex a.request.bytes (finalBuffer.getD [])
  | .activate a entry => (wires entry.connection).Ready a.trackerIndex
  | .giveBack a entry => (wires entry.connection).Ready a.trackerIndex
  | _ => True

theorem Point.Good.imp {wires wires' : ℕ → Wire} {point : Point} (h : point.Good wires)
    (hready : ∀ entry ∈ point.held, ∀ i,
      (wires entry.connection).Ready i → (wires' entry.connection).Ready i)
    (hasked : ∀ entry ∈ point.held, ∀ i request gathered,
      (wires entry.connection).Asked i request gathered →
        (wires' entry.connection).Asked i request gathered) : point.Good wires' := by
  cases point with
  | send a entry isNew => exact hready entry List.mem_cons_self _ h
  | receive a entry isNew finalBuffer => exact hasked entry List.mem_cons_self _ _ _ h
  | activate a entry => exact hready entry List.mem_cons_self _ h
  | giveBack a entry => exact hready entry List.mem_cons_self _ h
  | _ => trivial

theorem Point.Good.congr {wires wires' : ℕ → Wire} {point : Point} (h : point.Good wires)
    (heq : ∀ entry ∈ point.held, wires' entry.connection = wires entry.connection) :
    point.Good wires' :=
  h.imp (fun entry hentry i hready => by rwa [heq entry hentry])
    fun entry hentry i request gathered hasked => by rwa [heq entry hentry]

theorem Point.good_of_held_nil {point : Point} (h : point.held = []) (wires : ℕ → Wire) :
    point.Good wires := by
  cases point with
  | send a entry isNew => cases h
  | receive a entry isNew finalBuffer => cases h
  | activate a entry => cases h
  | giveBack a entry => cases h
  | _ => trivial

theorem Asker.answered_good (a : Asker) {entry : ConnectionEntry} {wires : ℕ → Wire}
    (h : (wires entry.connection).Ready a.trackerIndex) : (a.answered entry).Good wires := by
  unfold Asker.answered
  split
  · exact h
  · exact h

/-! ## Sections of the pool -/

theorem mem_stack_popConnection {w : World} {i j : ℕ} {entry : ConnectionEntry}
    (h : entry ∈ (popConnection w i).2.trackers.stack j) : entry ∈ w.trackers.stack j := by
  cases hs : w.trackers.stack i with
  | nil => rwa [popConnection_nil hs] at h
  | cons first rest =>
    rw [popConnection_cons hs] at h
    by_cases hji : j = i
    · subst hji
      have htail : entry ∈ (w.trackers.stack j).tail := stack_withoutFirst w j ▸ h
      exact List.mem_of_mem_tail htail
    · exact stack_withoutFirst_of_ne w hji ▸ h

/-- A section only takes entries from stacks. -/
theorem PoolCall.mem_stack_step {w : World} {call : PoolCall} {j : ℕ} {entry : ConnectionEntry}
    (h : entry ∈ (call.step w).1.trackers.stack j) : entry ∈ w.trackers.stack j := by
  cases call with
  | getConnection i createNew =>
    simp only [PoolCall.step] at h
    split_ifs at h
    · exact mem_stack_popConnection h
    · exact mem_stack_popConnection h
  | connect i =>
    simp only [PoolCall.step] at h
    split_ifs at h
    · exact h
    · exact h
  | deactivate i =>
    simp only [PoolCall.step] at h
    rwa [stack_deactivateSection] at h
  | drain i =>
    have hpop := @mem_stack_popConnection w i j entry
    rw [PoolCall.step] at h
    split at h
    · next heq =>
      rw [heq] at hpop
      exact hpop h
    · next heq =>
      rw [heq] at hpop
      exact hpop h
  | drained i entry => exact h

theorem nextConnection_popConnection (w : World) (i : ℕ) :
    (popConnection w i).2.nextConnection = w.nextConnection := by
  cases hs : w.trackers.stack i with
  | nil => rw [popConnection_nil hs]
  | cons first rest =>
    rw [popConnection_cons hs]
    rfl

theorem PoolCall.nextConnection_step (w : World) (call : PoolCall) :
    w.nextConnection ≤ (call.step w).1.nextConnection := by
  cases call with
  | getConnection i createNew =>
    have hpop := nextConnection_popConnection w i
    simp only [PoolCall.step]
    split_ifs
    · exact hpop.ge
    · exact hpop.ge
  | connect i =>
    simp only [PoolCall.step]
    split_ifs
    · exact le_rfl
    · exact Nat.le_succ _
  | deactivate i =>
    simp only [PoolCall.step]
    unfold deactivateSection
    simp only
    split_ifs
    · exact le_rfl
    · exact le_rfl
  | drain i =>
    have hpop := nextConnection_popConnection w i
    rw [PoolCall.step]
    split
    · next heq =>
      rw [heq] at hpop
      exact hpop.ge
    · next heq =>
      rw [heq] at hpop
      exact hpop.ge
  | drained i entry => exact le_rfl

/-- The entry returned is a new connection, or was in the stack of the tracker. -/
theorem PoolCall.step_done_some {w : World} {call : PoolCall} {entry : ConnectionEntry}
    {isNew : Bool} (h : (call.step w).2 = .done (some entry) isNew) :
    (isNew = true ∧ entry.connection = w.nextConnection) ∨
      (isNew = false ∧ entry ∈ w.trackers.stack call.trackerIndex) := by
  cases call with
  | getConnection i createNew =>
    simp only [PoolCall.step] at h
    split_ifs at h
    refine Or.inr ?_
    cases hs : w.trackers.stack i with
    | nil =>
      rw [popConnection_nil hs] at h
      cases h
    | cons first rest =>
      rw [popConnection_cons hs] at h
      cases h
      exact ⟨rfl, hs ▸ List.mem_cons_self⟩
  | connect i =>
    simp only [PoolCall.step] at h
    split_ifs at h
    cases h
    exact Or.inl ⟨rfl, rfl⟩
  | deactivate i => cases PoolCall.step_done_deactivates h trivial
  | drain i => cases PoolCall.step_done_deactivates h trivial
  | drained i entry => cases PoolCall.step_done_deactivates h trivial

/-- The connections known so far are left alone. -/
theorem PoolCall.wires_step (w : World) (call : PoolCall) (wires : ℕ → Wire) {c : ℕ}
    (hc : w.Created c) : (call.step w).2.wires call.trackerIndex wires c = wires c := by
  cases hout : (call.step w).2 with
  | next call' => rfl
  | done entry isNew =>
    cases entry with
    | none => rfl
    | some entry =>
      rcases PoolCall.step_done_some hout with ⟨rfl, hentry⟩ | ⟨rfl, -⟩
      · have hne : c ≠ entry.connection := fun heq => by
          rw [World.Created, heq, hentry] at hc
          exact lt_irrefl _ hc
        exact Function.update_of_ne hne ..
      · rfl

/-! ## Steps of a thread -/

/-- What a thread may do: it leaves the connections of others as they are, puts only quiet ones
    into stacks, and takes only answers to its own requests. -/
structure Thread.Sound (s : Shared) (thread : Thread) (out : Shared × Thread) : Prop where
  created : s.w.nextConnection ≤ out.1.w.nextConnection
  elsewhere : ∀ c, s.w.Created c → c ∉ thread.held.map ConnectionEntry.connection →
    out.1.wires c = s.wires c
  extend : ∀ c, s.w.Created c → (s.wires c).Extends (out.1.wires c)
  stacked : ∀ i, ∀ entry ∈ out.1.w.trackers.stack i,
    entry.connection ∈ s.w.stackConnections i ∨ (out.1.wires entry.connection).Ready i
  point : out.2.point.Good out.1.wires
  responses : ∀ r ∈ out.2.responses, r ∈ thread.responses ∨
    (r.connection ∈ thread.held.map ConnectionEntry.connection ∧
      (out.1.wires r.connection).Answers r.request.bytes r.line)

theorem mem_stackConnections {w : World} {i : ℕ} {entry : ConnectionEntry}
    (h : entry ∈ w.trackers.stack i) : entry.connection ∈ w.stackConnections i :=
  List.mem_map_of_mem h

/-- A step that sends and receives nothing. -/
theorem Thread.Sound.of_wires {s s' : Shared} {thread thread' : Thread}
    (hwires : s'.wires = s.wires) (hcreated : s.w.nextConnection ≤ s'.w.nextConnection)
    (hstacked : ∀ i, ∀ entry ∈ s'.w.trackers.stack i,
      entry.connection ∈ s.w.stackConnections i ∨ (s'.wires entry.connection).Ready i)
    (hpoint : thread'.point.Good s'.wires) (hresponses : thread'.responses = thread.responses) :
    thread.Sound s (s', thread') where
  created := hcreated
  elsewhere c _ _ := congrFun hwires c
  extend c _ := by
    simp only [hwires]
    exact .refl _
  stacked := hstacked
  point := hpoint
  responses r hr := Or.inl (hresponses ▸ hr)

/-- A step inside the thread. -/
theorem Thread.Sound.local {s : Shared} {thread thread' : Thread}
    (hpoint : thread'.point.Good s.wires) (hresponses : thread'.responses = thread.responses) :
    thread.Sound s (s, thread') :=
  .of_wires rfl le_rfl (fun _ _ hentry => Or.inl (mem_stackConnections hentry)) hpoint hresponses

/-- A step that sends or receives on a connection the thread holds. -/
theorem Thread.Sound.of_setWire {s : Shared} {thread thread' : Thread} {entry : ConnectionEntry}
    (hentry : entry ∈ thread.held) {wire : Wire} (hext : (s.wires entry.connection).Extends wire)
    (hpoint : thread'.point.Good (s.setWire entry wire).wires)
    (hresponses : ∀ r ∈ thread'.responses, r ∈ thread.responses ∨
      (r.connection = entry.connection ∧ wire.Answers r.request.bytes r.line)) :
    thread.Sound s (s.setWire entry wire, thread') where
  created := le_rfl
  elsewhere c _ hc := by
    refine wires_setWire_of_ne s ?_ wire
    rintro rfl
    exact hc (List.mem_map_of_mem hentry)
  extend c _ := by
    by_cases heq : c = entry.connection
    · rw [heq, wires_setWire_self]
      exact hext
    · rw [wires_setWire_of_ne s heq]
      exact .refl _
  stacked i entry' hentry' := Or.inl (mem_stackConnections hentry')
  point := hpoint
  responses r hr := by
    refine (hresponses r hr).imp id ?_
    rintro ⟨heq, hanswers⟩
    rw [heq]
    refine ⟨List.mem_map_of_mem hentry, ?_⟩
    rw [wires_setWire_self]
    exact hanswers

/-- The stacks hold quiet connections of their own trackers. -/
def Shared.StacksReady (s : Shared) : Prop :=
  ∀ i, ∀ c ∈ s.w.stackConnections i, (s.wires c).Ready i

theorem ready_connected (i : ℕ) : (Wire.connected i).Ready i := ⟨rfl, quiet_connected i⟩

/-- The connection a call of the pool returns is ready. -/
theorem PoolCall.ready_of_done {s : Shared} (hs : s.StacksReady) {call : PoolCall}
    {entry : ConnectionEntry} {isNew : Bool} (h : (call.step s.w).2 = .done (some entry) isNew) :
    ((PoolStep.done (some entry) isNew).wires call.trackerIndex s.wires entry.connection).Ready
      call.trackerIndex := by
  rcases PoolCall.step_done_some h with ⟨rfl, -⟩ | ⟨rfl, hentry⟩
  · rw [show PoolStep.wires (.done (some entry) true) call.trackerIndex s.wires entry.connection =
      .connected call.trackerIndex from Function.update_self ..]
    exact ready_connected _
  · exact hs _ _ (mem_stackConnections hentry)

theorem Thread.resume_responses (thread : Thread) (entry : Option ConnectionEntry) (isNew : Bool)
    (caller : Caller) : (thread.resume entry isNew caller).responses = thread.responses := by
  cases caller with
  | asker a => cases entry <;> rfl
  | watch => cases entry <;> rfl
  | deactivate => rfl

theorem Thread.resume_good {thread : Thread} {call : PoolCall} {caller : Caller}
    (hcalls : thread.Calls call caller) {entry : Option ConnectionEntry} (isNew : Bool)
    {wires : ℕ → Wire}
    (hentry : ∀ e, entry = some e → (wires e.connection).Ready call.trackerIndex) :
    (thread.resume entry isNew caller).point.Good wires := by
  cases caller with
  | asker a =>
    cases entry with
    | none => exact Point.good_of_held_nil a.next_between.held wires
    | some e =>
      have hready := hentry e rfl
      rwa [show call.trackerIndex = a.trackerIndex from hcalls] at hready
  | watch =>
    cases entry with
    | none => trivial
    | some e => trivial
  | deactivate => trivial

theorem Thread.Sound.pool {s : Shared} (hs : s.StacksReady) {thread : Thread} {call : PoolCall}
    {caller : Caller} (hcalls : thread.Calls call caller) (hpoint : thread.point = .pool call caller)
    (net : Net) : thread.Sound s (thread.step net s) := by
  have hwires : ∀ c, s.w.Created c →
      (call.step s.w).2.wires call.trackerIndex s.wires c = s.wires c :=
    fun c hc => call.wires_step s.w s.wires hc
  have hshared : (thread.step net s).1 =
      ⟨(call.step s.w).1, (call.step s.w).2.wires call.trackerIndex s.wires⟩ := by
    simp only [Thread.step, hpoint]
    cases (call.step s.w).2 <;> rfl
  refine ⟨?_, ?_, ?_, ?_, ?_, ?_⟩
  · rw [hshared]
    exact call.nextConnection_step s.w
  · intro c hc _
    rw [hshared]
    exact hwires c hc
  · intro c hc
    rw [hshared]
    simp only [hwires c hc]
    exact .refl _
  · intro i entry hentry
    rw [hshared] at hentry
    exact Or.inl (mem_stackConnections (PoolCall.mem_stack_step hentry))
  · rw [hshared]
    simp only [Thread.step, hpoint]
    cases hout : (call.step s.w).2 with
    | next call' => trivial
    | done entry isNew =>
      refine Thread.resume_good hcalls isNew fun e he => ?_
      subst he
      exact PoolCall.ready_of_done hs hout
  · intro r hr
    refine Or.inl ?_
    simp only [Thread.step, hpoint] at hr
    cases hout : (call.step s.w).2 with
    | next call' =>
      rw [hout] at hr
      exact hr
    | done entry isNew =>
      rw [hout] at hr
      rwa [← thread.resume_responses entry isNew caller]

/-- A chunk: the answer goes on, or it is complete and it is the thread's own. -/
theorem Thread.Sound.receive {s : Shared} {thread : Thread} {a : Asker} {entry : ConnectionEntry}
    {isNew : Bool} {finalBuffer : Option Bytes}
    (hpoint : thread.point = .receive a entry isNew finalBuffer)
    (hasked : (s.wires entry.connection).Asked a.trackerIndex a.request.bytes
      (finalBuffer.getD [])) (net : Net) : thread.Sound s (thread.step net s) := by
  have hheld : entry ∈ thread.held := by
    rw [Thread.held, hpoint]
    exact List.mem_append_right _ List.mem_cons_self
  have hnext := hasked.receive net.count
  simp only [Thread.step, hpoint]
  cases hout : receiveStep finalBuffer ((s.wires entry.connection).recv net) with
  | failed rv => exact .of_setWire hheld (extends_receive _ _) trivial fun r hr => Or.inl hr
  | more multiBuffer =>
    refine .of_setWire hheld (extends_receive _ _) ?_ fun r hr => Or.inl hr
    rw [Thread.received, Point.Good, wires_setWire_self, Option.getD_some, receiveStep_more hout]
    exact hnext
  | line line =>
    obtain ⟨hline, hlast⟩ := receiveStep_line hout
    have hgathered : line = finalBuffer.getD [] ++ (s.wires entry.connection).chunk net.count := hline
    rw [← hgathered] at hnext
    obtain ⟨hready, hanswers⟩ := hnext.line a.request.oneLine hlast
    simp only [Thread.received]
    split_ifs
    · refine .of_setWire hheld (extends_receive _ _) ?_ fun r hr => ?_
      · refine a.answered_good ?_
        rw [wires_setWire_self]
        exact hready
      · refine (List.mem_append.mp hr).imp id fun hr => ?_
        rw [List.mem_singleton.mp hr]
        exact ⟨rfl, hanswers⟩
    · exact .of_setWire hheld (extends_receive _ _) trivial fun r hr => Or.inl hr

/-- What stands in a stack was there already. -/
theorem Shared.stacked (s : Shared) (i : ℕ) : ∀ entry ∈ s.w.trackers.stack i,
    entry.connection ∈ s.w.stackConnections i ∨ (s.wires entry.connection).Ready i :=
  fun _ hentry => Or.inl (mem_stackConnections hentry)

/-- A request is sent on a connection that is ready for one. -/
theorem Thread.Sound.send {s : Shared} {thread : Thread} {a : Asker} {entry : ConnectionEntry}
    {isNew : Bool} (hpoint : thread.point = .send a entry isNew)
    (hready : (s.wires entry.connection).Ready a.trackerIndex) (net : Net) :
    thread.Sound s (thread.step net s) := by
  have hheld : entry ∈ thread.held := by
    rw [Thread.held, hpoint]
    exact List.mem_append_right _ List.mem_cons_self
  simp only [Thread.step, hpoint]
  refine .of_setWire hheld (extends_send _ _) ?_ fun r hr => Or.inl hr
  split_ifs
  · rw [Point.Good, wires_setWire_self]
    exact Wire.Ready.send hready a.request.oneLine net.count
  · trivial

/-- A connection is given back ready for the next request. -/
theorem Thread.Sound.giveBack {s : Shared} {thread : Thread} {a : Asker}
    {entry : ConnectionEntry} (hpoint : thread.point = .giveBack a entry)
    (hready : (s.wires entry.connection).Ready a.trackerIndex) (net : Net) :
    thread.Sound s (thread.step net s) := by
  simp only [Thread.step, hpoint]
  refine .of_wires rfl le_rfl (fun i entry' hentry' => ?_)
    (Point.good_of_held_nil a.afterReturn_between.held _) rfl
  by_cases hi : i = a.trackerIndex
  · subst hi
    rw [mfsPoolReturnConnection, World.record, stack_setConnectionPool_self] at hentry'
    rcases List.mem_cons.mp hentry' with rfl | hentry'
    · exact Or.inr hready
    · exact s.stacked _ entry' hentry'
  · rw [mfsPoolReturnConnection, World.record, stack_setConnectionPool_of_ne _ _ hi] at hentry'
    exact s.stacked i entry' hentry'

/-- Expired connections are taken off a stack. -/
theorem Thread.Sound.expire {s : Shared} {thread : Thread} {list : CopiedList}
    (hpoint : thread.point = .expire list) (net : Net) :
    thread.Sound s (thread.step net s) := by
  simp only [Thread.step, hpoint]
  cases list.next with
  | mk tracker list' =>
    cases tracker with
    | none => exact .local trivial rfl
    | some _ =>
      refine .of_wires rfl le_rfl (fun i entry hentry => ?_) trivial rfl
      by_cases hi : i = list'.trackerIndex
      · subst hi
        refine s.stacked _ entry ?_
        rw [← stack_getExpiredTrackers]
        exact List.mem_append_left _ hentry
      · simp only [stack_getExpiredTrackers_of_ne s.w hi] at hentry
        exact s.stacked i entry hentry

theorem Thread.step_sound (net : Net) {s : Shared} (hs : s.StacksReady) {thread : Thread}
    (hwell : thread.Wellformed) (hgood : thread.point.Good s.wires) :
    thread.Sound s (thread.step net s) := by
  cases hpoint : thread.point with
  | idle =>
    simp only [Thread.step, hpoint]
    exact .local hgood rfl
  | copy copier =>
    simp only [Thread.step, hpoint]
    exact .of_wires rfl le_rfl s.stacked
      (Point.good_of_held_nil (copier.start_between _).held _) rfl
  | pool call caller => exact .pool hs (hwell call caller hpoint) hpoint net
  | send a entry isNew =>
    rw [hpoint] at hgood
    exact .send hpoint hgood net
  | receive a entry isNew finalBuffer =>
    rw [hpoint] at hgood
    exact .receive hpoint hgood net
  | destroy a entry isNew =>
    simp only [Thread.step, hpoint]
    exact .of_wires rfl le_rfl s.stacked
      (Point.good_of_held_nil (a.afterFailure_between isNew).held _) rfl
  | activate a entry =>
    obtain ⟨hstacks, -, hnext⟩ := sameStacks_mfsPoolActivate s.w a.trackerIndex
    rw [hpoint] at hgood
    simp only [Thread.step, hpoint]
    refine .of_wires rfl hnext.ge (fun i entry' hentry' => ?_) hgood rfl
    rw [hstacks i] at hentry'
    exact s.stacked i entry' hentry'
  | giveBack a entry =>
    rw [hpoint] at hgood
    exact .giveBack hpoint hgood net
  | expire list => exact .expire hpoint net
  | destroyExpired list entries =>
    cases entries with
    | nil =>
      simp only [Thread.step, hpoint]
      exact .local trivial rfl
    | cons toDelete entries =>
      simp only [Thread.step, hpoint]
      exact .of_wires rfl le_rfl s.stacked trivial rfl
  | watch =>
    simp only [Thread.step, hpoint]
    split_ifs
    · cases thread.watchConnection with
      | none => exact .local trivial rfl
      | some entry => exact .local trivial rfl
    · exact .local trivial rfl
  | sendWatch =>
    cases hwatch : thread.watchConnection with
    | none =>
      simp only [Thread.step, hpoint, hwatch]
      exact .local trivial rfl
    | some entry =>
      have hheld : entry ∈ thread.held := by
        rw [Thread.held, hwatch]
        exact List.mem_append_left _ List.mem_cons_self
      simp only [Thread.step, hpoint, hwatch]
      exact .of_setWire hheld (extends_send _ _) trivial fun r hr => Or.inl hr
  | readline =>
    simp only [Thread.step, hpoint]
    split_ifs
    · exact .local trivial rfl
    · exact .local trivial rfl
  | destroyWatch =>
    cases hwatch : thread.watchConnection with
    | none =>
      simp only [Thread.step, hpoint, hwatch]
      exact .local trivial rfl
    | some entry =>
      simp only [Thread.step, hpoint, hwatch]
      exact .of_wires rfl le_rfl s.stacked trivial rfl

theorem UserCall.begin_sound (s : Shared) {thread : Thread} (hidle : thread.point = .idle)
    (made : UserCall) : thread.Sound s (s, made.begin s thread) := by
  have htest : ∀ copier : Copier, thread.Sound s (s, copier.test s thread) := by
    intro copier
    rcases copier.test_eq s thread with h | h
    · rw [h]
      exact .local (by rw [hidle]; trivial) rfl
    · rw [h]
      exact .local trivial rfl
  cases made with
  | requestDo request => exact htest _
  | testInactive palloc => exact htest _
  | expireActive => exact htest _
  | deactivate i => exact .local trivial rfl
  | watchLine => exact .local trivial rfl

/-! ## All threads -/

variable {T : Type*} [DecidableEq T]

/-- The connections in the stacks are quiet, and what the threads have accepted are the answers
    to their own requests. -/
structure Users.Matched (s : Users T) : Prop where
  owned : s.Owned
  stacked : s.shared.StacksReady
  points : ∀ t, (s.threads t).point.Good s.shared.wires
  responses : ∀ t, ∀ r ∈ (s.threads t).responses, s.shared.w.Created r.connection ∧
    (s.shared.wires r.connection).Answers r.request.bytes r.line

omit [DecidableEq T] in
theorem Users.Owned.created_of_mem {s : Users T} (h : s.Owned) {place : Place T} {c : ℕ}
    (hc : c ∈ s.contents place) : s.shared.w.Created c :=
  (h.exclusive.known_iff c).mpr ⟨place, hc⟩

theorem matched_did {s : Users T} (h : s.Matched) (t : T) {out : Shared × Thread}
    (howned : (s.did t out).Owned) (hsound : (s.threads t).Sound s.shared out) :
    (s.did t out).Matched where
  owned := howned
  stacked i c hc := by
    obtain ⟨entry, hentry, rfl⟩ := List.mem_map.mp hc
    rcases hsound.stacked i entry hentry with hold | hnew
    · -- what is in a stack is not held by the thread
      have hplace : entry.connection ∈ s.contents (.stack i) := hold
      have hnot : entry.connection ∉ (s.threads t).held.map ConnectionEntry.connection :=
        fun hmem => nomatch h.owned.exclusive.unique (.stack i) (.held t) _ hplace hmem
      show (out.1.wires entry.connection).Ready i
      rw [hsound.elsewhere _ (h.owned.created_of_mem hplace) hnot]
      exact h.stacked i _ hold
    · exact hnew
  points t' := by
    by_cases heq : t' = t
    · rw [heq, threads_did_self]
      exact hsound.point
    · rw [threads_did_of_ne s heq]
      refine (h.points t').congr fun entry hentry => ?_
      have hplace : entry.connection ∈ s.contents (.held t') :=
        List.mem_map_of_mem (List.mem_append_right _ hentry)
      refine hsound.elsewhere _ (h.owned.created_of_mem hplace) fun hmem => heq ?_
      exact Place.held.inj (h.owned.exclusive.unique (.held t') (.held t) _ hplace hmem)
  responses t' r hr := by
    have hkept : ∀ r' : Response, s.shared.w.Created r'.connection ∧
        (s.shared.wires r'.connection).Answers r'.request.bytes r'.line →
        out.1.w.Created r'.connection ∧
          (out.1.wires r'.connection).Answers r'.request.bytes r'.line := fun r' hr' =>
      ⟨lt_of_lt_of_le hr'.1 hsound.created, hr'.2.mono (hsound.extend _ hr'.1)⟩
    by_cases heq : t' = t
    · subst heq
      rw [threads_did_self] at hr
      rcases hsound.responses r hr with hold | ⟨hheld, hanswers⟩
      · exact hkept r (h.responses t' r hold)
      · have hplace : r.connection ∈ s.contents (.held t') := hheld
        exact ⟨lt_of_lt_of_le (h.owned.created_of_mem hplace) hsound.created, hanswers⟩
    · rw [threads_did_of_ne s heq] at hr
      exact hkept r (h.responses t' r hr)

/-- A tracker answers. -/
theorem matched_answer {s : Users T} (h : s.Matched) (connection : ℕ) (text : AnswerText) :
    (UserMove.apply s (.answer connection text)).Matched := by
  have hwire : ∀ c, (UserMove.apply s (.answer connection text)).shared.wires c =
      s.shared.wires c ∨ (UserMove.apply s (.answer connection text)).shared.wires c =
        (s.shared.wires c).answer text := by
    intro c
    by_cases heq : c = connection
    · subst heq
      exact Or.inr (Function.update_self ..)
    · exact Or.inl (Function.update_of_ne heq ..)
  refine ⟨⟨h.owned.exclusive, h.owned.wellformed⟩, fun i c hc => ?_, fun t => ?_, fun t r hr => ?_⟩
  · have hready := h.stacked i c hc
    rcases hwire c with heq | heq
    · rwa [heq]
    · rw [heq]
      exact hready.answer text
  · refine (h.points t).imp (fun entry _ i hready => ?_) fun entry _ i request gathered hasked => ?_
    · rcases hwire entry.connection with heq | heq
      · rwa [heq]
      · rw [heq]
        exact hready.answer text
    · rcases hwire entry.connection with heq | heq
      · rwa [heq]
      · rw [heq]
        exact hasked.answer text
  · obtain ⟨hcreated, hanswers⟩ := h.responses t r hr
    refine ⟨hcreated, ?_⟩
    rcases hwire r.connection with heq | heq
    · rwa [heq]
    · rw [heq]
      exact hanswers.mono (extends_answer _ text)

theorem matched_apply (s : Users T) (move : UserMove T) (h : s.Matched) :
    (move.apply s).Matched := by
  have howned := owned_apply s move h.owned
  cases move with
  | call t made =>
    cases hpoint : (s.threads t).point with
    | idle =>
      simp only [UserMove.apply, hpoint] at howned ⊢
      exact matched_did h t howned (made.begin_sound s.shared hpoint)
    | _ => simpa only [UserMove.apply, hpoint] using h
  | step t net =>
    exact matched_did h t howned
      (Thread.step_sound net h.stacked (h.owned.wellformed t) (h.points t))
  | answer connection text => exact matched_answer h connection text

/-! ## Runs -/

omit [DecidableEq T] in
theorem matched_start (n : ℕ) (palloc : PoolMemory) (registrations : List Registration)
    (env : Env) (watchTracker : T → ℕ) :
    (Users.start (registeredPool n palloc registrations) env watchTracker).Matched where
  owned := owned_start n palloc registrations env watchTracker
  stacked i c hc := by
    have hempty : (registeredPool n palloc registrations).stack i = [] :=
      stack_registeredPool n palloc registrations i
    rw [Users.start, World.stackConnections, hempty] at hc
    exact absurd hc List.not_mem_nil
  points _ := trivial
  responses _ _ hr := absurd hr List.not_mem_nil

/-- A pool after its registrations, and any interleaving of any number of threads with the answers
    of the trackers. Whenever `mfs_tracker_request` has returned `APR_SUCCESS`, the line it has
    parsed is the answer to the request it had sent, and no connection in a stack has a request
    without answer or a byte of an answer unread. -/
theorem responses_match (n : ℕ) (palloc : PoolMemory) (registrations : List Registration)
    (env : Env) (watchTracker : T → ℕ) (moves : List (UserMove T)) :
    Runs.Throughout UserMove.apply (fun s : Users T =>
        (∀ t, ∀ r ∈ (s.threads t).responses,
          (s.shared.wires r.connection).Answers r.request.bytes r.line) ∧
        ∀ i, ∀ entry ∈ s.shared.w.trackers.stack i, (s.shared.wires entry.connection).Quiet)
      (Users.start (registeredPool n palloc registrations) env watchTracker) moves := by
  have hmatched : Runs.Throughout UserMove.apply Users.Matched
      (Users.start (registeredPool n palloc registrations) env watchTracker) moves :=
    Runs.throughout_of_steps matched_apply (matched_start n palloc registrations env watchTracker)
  intro k
  exact ⟨fun t r hr => ((hmatched k).responses t r hr).2,
    fun i entry hentry => ((hmatched k).stacked i _ (mem_stackConnections hentry)).quiet⟩

/-- A request on a new connection, its answer in two chunks, and the connection returned. -/
example :
    let s : Users Unit := Runs.run UserMove.apply
      (.start (registeredPool 1 zeroMemory [plainRegistration]) (oneTrackerWorld [] .success []).env
        fun _ => 0)
      [.call () (.requestDo (pingRequest fun _ => 0)), .step () ⟨.success, 0, true, 0⟩,
        .step () ⟨.success, 0, true, 0⟩, .step () ⟨.success, 0, true, 0⟩,
        .step () ⟨.success, 100, true, 0⟩, .answer 0 ⟨str "OK 1 a=b\r", by decide +kernel⟩,
        .step () ⟨.success, 4, true, 0⟩, .step () ⟨.success, 4096, true, 0⟩,
        .step () ⟨.success, 0, true, 0⟩]
    (s.threads ()).responses.map (·.line) = [str "OK 1 a=b\r\n"] ∧
      s.shared.w.stackConnections 0 = [0] := by
  decide +kernel

end MogileFs
