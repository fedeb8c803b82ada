import MogileFs.Tracker.Response

/-!
# A connection to a tracker, message by message

What has gone over one connection: the bytes clients have sent, and the answers of the tracker,
one line for every complete line it has got. `mfs_tracker_request` sends its request and takes the
answer in chunks, `receiveStep` being one pass of its loop.

Results:
* `receiveLine_cons`, `exchangeReply_rv`: `mfs_tracker_request` is made of these passes.
* `Quiet.send`: a request on a connection with nothing unanswered and nothing unread.
* `Receiving.receive_more`, `Receiving.receive_line`: the answer in chunks; once a chunk ends the
  line, the line is the tracker's answer to this request, and the connection is quiet again.
-/

namespace MogileFs

/-! ## The loop of `mfs_tracker_request`, pass by pass -/

/-- What a pass of the loop leads to. -/
inductive Received
  | failed (rv : AprStatus)
  | line (finalBuffer : Bytes)
  | more (finalBuffer : Bytes)
deriving DecidableEq

/-- One pass of `while(!finished)` (`src/tracker.c`, lines 171–206). -/
def receiveStep (finalBuffer : Option Bytes) (buf : Recv mfsReadBufferSize) : Received :=
  if buf.rv ≠ .success then .failed buf.rv
  else if buf.bytes.getLast? = some LF ∧ finalBuffer = none then .line buf.bytes
  else if buf.bytes = [] then .failed .eof
  else
    let multiBuffer := finalBuffer.getD [] ++ buf.bytes
    if multiBuffer.getLast? = some LF then .line multiBuffer else .more multiBuffer

theorem receiveLine_cons (finalBuffer : Option Bytes) (buf : Recv mfsReadBufferSize)
    (recv : List (Recv mfsReadBufferSize)) :
    receiveLine finalBuffer (buf :: recv) = match receiveStep finalBuffer buf with
      | .failed rv => .error rv
      | .line line => .ok line
      | .more multiBuffer => receiveLine (some multiBuffer) recv := by
  rw [receiveLine, receiveStep]
  split_ifs
  · rfl
  · rfl
  · rfl
  · simp only
    split_ifs <;> rfl

/-- The line holds everything received, and ends with LF. -/
theorem receiveStep_line {finalBuffer : Option Bytes} {buf : Recv mfsReadBufferSize} {line : Bytes}
    (h : receiveStep finalBuffer buf = .line line) :
    line = finalBuffer.getD [] ++ buf.bytes ∧ line.getLast? = some LF := by
  unfold receiveStep at h
  split_ifs at h with hrv hfast hempty
  · cases h
    rw [hfast.2]
    exact ⟨rfl, hfast.1⟩
  · simp only at h
    split_ifs at h with hlast
    cases h
    exact ⟨rfl, hlast⟩

theorem receiveStep_more {finalBuffer : Option Bytes} {buf : Recv mfsReadBufferSize}
    {multiBuffer : Bytes} (h : receiveStep finalBuffer buf = .more multiBuffer) :
    multiBuffer = finalBuffer.getD [] ++ buf.bytes := by
  unfold receiveStep at h
  split_ifs at h
  simp only at h
  split_ifs at h
  cases h
  rfl

/-- What `mfs_tracker_request` returns for a complete line (lines 207–215). -/
def lineStatus (line : Bytes) : AprStatus :=
  match terminateLine line with
  | .error rv => rv
  | .ok finalBuffer => (parseResponse finalBuffer).rv

theorem exchangeReply_rv (x : Exchange) :
    (exchangeReply x).rv =
      if x.send ≠ .success then x.send
      else match receiveLine none x.recv with
        | .error rv => rv
        | .ok line => lineStatus line := by
  unfold exchangeReply lineStatus
  split_ifs
  · rfl
  · cases receiveLine none x.recv with
    | error rv => rfl
    | ok line =>
      simp only
      cases terminateLine line <;> rfl

/-! ## The connection -/

/-- The tracker a connection leads to, the bytes sent to it, its answers, and how many bytes of
    them have been received. -/
structure Wire where
  tracker : ℕ
  sent : Bytes
  answers : List Bytes
  received : ℕ
deriving DecidableEq

/-- The text of an answer: one line, without its LF. -/
abbrev AnswerText := { text : Bytes // LF ∉ text }

def AnswerText.line (text : AnswerText) : Bytes := text.1 ++ [LF]

/-- A new connection. -/
def Wire.connected (tracker : ℕ) : Wire := ⟨tracker, [], [], 0⟩

/-- The complete lines the tracker has got. -/
def Wire.requests (wire : Wire) : ℕ := wire.sent.count LF

/-- What can be received. -/
def Wire.incoming (wire : Wire) : Bytes := wire.answers.flatten.drop wire.received

def Wire.send (wire : Wire) (bytes : Bytes) : Wire := { wire with sent := wire.sent ++ bytes }

/-- The tracker answers the next complete line that has no answer yet. -/
def Wire.answer (wire : Wire) (text : AnswerText) : Wire :=
  if wire.answers.length < wire.requests then { wire with answers := wire.answers ++ [text.line] }
  else wire

/-- What `apr_socket_recv` stores when `count` bytes are ready or in time. -/
def Wire.chunk (wire : Wire) (count : ℕ) : Bytes := wire.incoming.take (min count mfsReadBufferSize)

def Wire.receive (wire : Wire) (count : ℕ) : Wire :=
  { wire with received := wire.received + (wire.chunk count).length }

theorem incoming_receive (wire : Wire) (count : ℕ) :
    wire.chunk count ++ (wire.receive count).incoming = wire.incoming := by
  have hlen : (wire.chunk count).length ≤ wire.incoming.length := (List.take_prefix _ _).length_le
  have hchunk : wire.chunk count = wire.incoming.take (wire.chunk count).length := by
    rw [Wire.chunk, List.length_take, ← List.take_eq_take_min]
  have hrest : (wire.receive count).incoming = wire.incoming.drop (wire.chunk count).length := by
    rw [Wire.incoming, Wire.incoming, Wire.receive, List.drop_drop]
  rw [hrest]
  nth_rewrite 1 [hchunk]
  exact List.take_append_drop _ _

theorem length_chunk_le (wire : Wire) (count : ℕ) :
    (wire.chunk count).length ≤ mfsReadBufferSize := by
  rw [Wire.chunk, List.length_take]
  omega

/-! ## Quiet connections -/

/-- A place where a line begins. -/
def LineStart (s : Bytes) : Prop := s = [] ∨ s.getLast? = some LF

/-- No request is unanswered, and no byte of an answer is unread. -/
structure Wire.Quiet (wire : Wire) : Prop where
  lineStart : LineStart wire.sent
  answered : wire.answers.length = wire.requests
  received : wire.received = wire.answers.flatten.length

/-- Behind `before`, `request` has been sent, and `gathered` has been received since. -/
structure Wire.Receiving (wire : Wire) (before request gathered : Bytes) : Prop where
  lineStart : LineStart before
  sent : wire.sent = before ++ request
  oneLine : LF ∉ request.dropLast
  lower : before.count LF ≤ wire.answers.length
  upper : wire.answers.length ≤ wire.requests
  received : wire.received ≤ wire.answers.flatten.length
  gathered : gathered ++ wire.incoming = (wire.answers.drop (before.count LF)).flatten
  lines : ∀ line ∈ wire.answers.drop (before.count LF), ∃ text : AnswerText, line = text.line

theorem quiet_connected (tracker : ℕ) : (Wire.connected tracker).Quiet := ⟨Or.inl rfl, rfl, rfl⟩

theorem Wire.Quiet.incoming {wire : Wire} (h : wire.Quiet) : wire.incoming = [] :=
  List.drop_eq_nil_of_le h.received.ge

/-- The tracker has nothing to answer. -/
theorem Wire.Quiet.answer {wire : Wire} (h : wire.Quiet) (text : AnswerText) :
    wire.answer text = wire := by
  rw [Wire.answer, if_neg (by rw [h.answered]; exact lt_irrefl _)]

theorem Wire.Quiet.send {wire : Wire} (h : wire.Quiet) {request : Bytes}
    (hrequest : LF ∉ request.dropLast) :
    (wire.send request).Receiving wire.sent request [] where
  lineStart := h.lineStart
  sent := rfl
  oneLine := hrequest
  lower := h.answered.ge
  upper := by
    have := h.answered
    simp only [Wire.requests, Wire.send, List.count_append] at this ⊢
    omega
  received := h.received.le
  gathered := by
    have hall : (wire.send request).answers.drop (wire.sent.count LF) = [] :=
      List.drop_eq_nil_of_le h.answered.le
    rw [hall, List.nil_append]
    exact h.incoming
  lines := by
    have hall : (wire.send request).answers.drop (wire.sent.count LF) = [] :=
      List.drop_eq_nil_of_le h.answered.le
    rw [hall]
    exact fun _ hline => absurd hline List.not_mem_nil

theorem Wire.Receiving.answer {wire : Wire} {before request gathered : Bytes}
    (h : wire.Receiving before request gathered) (text : AnswerText) :
    (wire.answer text).Receiving before request gathered := by
  unfold Wire.answer
  split_ifs with hlt
  · have hdrop : (wire.answers ++ [text.line]).drop (before.count LF) =
        wire.answers.drop (before.count LF) ++ [text.line] :=
      List.drop_append_of_le_length h.lower
    refine ⟨h.lineStart, h.sent, h.oneLine, ?_, ?_, ?_, ?_, ?_⟩
    · have := h.lower
      simp only [List.length_append, List.length_singleton]
      omega
    · simp only [List.length_append, List.length_singleton]
      exact hlt
    · have := h.received
      simp only [List.flatten_append, List.length_append]
      omega
    · have hincoming : (wire.answers ++ [text.line]).flatten.drop wire.received =
          wire.incoming ++ text.line := by
        rw [List.flatten_append, List.flatten_singleton,
          List.drop_append_of_le_length h.received]
        rfl
      show gathered ++ (wire.answers ++ [text.line]).flatten.drop wire.received =
        ((wire.answers ++ [text.line]).drop (before.count LF)).flatten
      rw [hincoming, hdrop, List.flatten_append, List.flatten_singleton, ← h.gathered,
        List.append_assoc]
    · intro line hline
      simp only [hdrop] at hline
      rcases List.mem_append.mp hline with hline | hline
      · exact h.lines line hline
      · exact ⟨text, List.mem_singleton.mp hline⟩
  · exact h

theorem Wire.Receiving.receive_more {wire : Wire} {before request gathered : Bytes}
    (h : wire.Receiving before request gathered) (count : ℕ) :
    (wire.receive count).Receiving before request (gathered ++ wire.chunk count) where
  lineStart := h.lineStart
  sent := h.sent
  oneLine := h.oneLine
  lower := h.lower
  upper := h.upper
  received := by
    have hlen : (wire.chunk count).length ≤ wire.incoming.length := (List.take_prefix _ _).length_le
    have := h.received
    rw [Wire.incoming, List.length_drop] at hlen
    simp only [Wire.receive]
    omega
  gathered := by
    rw [List.append_assoc, incoming_receive]
    exact h.gathered
  lines := h.lines

/-- A request without LF has no answer, one with LF has one at most. -/
theorem count_of_oneLine {request : Bytes} (h : LF ∉ request.dropLast) :
    request.count LF = if request.getLast? = some LF then 1 else 0 := by
  by_cases hnil : request = []
  · simp [hnil]
  · have hsplit := List.dropLast_append_getLast hnil
    have hlast := List.getLast?_eq_some_getLast hnil
    have hcount := congrArg (List.count LF) hsplit
    rw [List.count_append, List.count_eq_zero.mpr h, List.count_singleton] at hcount
    rw [← hcount, hlast]
    simp

/-- The part of a line up to a LF is all of it. -/
theorem AnswerText.eq_of_append {text : AnswerText} {s t : Bytes} (h : s ++ t = text.line)
    (hs : s.getLast? = some LF) : s = text.line ∧ t = [] := by
  have ht : t = [] := by
    by_contra hne
    have hmem : LF ∈ s := List.mem_of_getLast? hs
    have hlen := congrArg List.length h
    rw [AnswerText.line, List.length_append, List.length_append, List.length_singleton] at hlen
    have hpos := List.length_pos_of_ne_nil hne
    have hline : s <+: text.line := ⟨t, h⟩
    have hpre : s <+: text.1 := List.prefix_of_prefix_length_le hline ⟨[LF], rfl⟩ (by omega)
    exact text.2 (hpre.subset hmem)
  rw [ht, List.append_nil] at h
  exact ⟨h, ht⟩

theorem Wire.Receiving.receive_line {wire : Wire} {before request gathered : Bytes}
    (h : wire.Receiving before request gathered)
    (hline : gathered.getLast? = some LF) :
    wire.Quiet ∧ request.getLast? = some LF ∧
      wire.answers[before.count LF]? = some gathered := by
  have hrequests : wire.requests = before.count LF + request.count LF := by
    rw [Wire.requests, h.sent, List.count_append]
  have hcount := count_of_oneLine h.oneLine
  have hlower := h.lower
  have hupper := h.upper
  cases hanswers : wire.answers.drop (before.count LF) with
  | nil =>
    -- nothing has been answered, so nothing can have been received
    have hnil := h.gathered
    rw [hanswers, List.flatten_nil, List.append_eq_nil_iff] at hnil
    rw [hnil.1] at hline
    cases hline
  | cons line rest =>
    have hlength := congrArg List.length hanswers
    rw [List.length_drop, List.length_cons] at hlength
    have hlast : request.getLast? = some LF := by
      by_contra hno
      rw [if_neg hno] at hcount
      omega
    rw [if_pos hlast] at hcount
    have hrest : rest = [] := List.length_eq_zero_iff.mp (by omega)
    subst hrest
    obtain ⟨text, rfl⟩ := h.lines line (by rw [hanswers]; exact List.mem_cons_self)
    have hgathered := h.gathered
    rw [hanswers, List.flatten_singleton] at hgathered
    obtain ⟨heq, hincoming⟩ := AnswerText.eq_of_append hgathered hline
    refine ⟨⟨?_, by omega, ?_⟩, hlast, ?_⟩
    · refine Or.inr ?_
      rw [h.sent, List.getLast?_append, hlast, Option.some_or]
    · have hlen := List.drop_eq_nil_iff.mp hincoming
      exact le_antisymm h.received hlen
    · have hget : (wire.answers.drop (before.count LF))[0]? = wire.answers[before.count LF + 0]? :=
        List.getElem?_drop
      rw [hanswers, Nat.add_zero] at hget
      rw [← hget, heq]
      rfl

end MogileFs
