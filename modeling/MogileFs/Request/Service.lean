import MogileFs.Library.AtLeastOnce
import MogileFs.Request.Outcome
import MogileFs.Tracker.Chunks
import MogileFs.Tracker.Decimal
import MogileFs.Tracker.RoundTrip

/-!
# A service behind the trackers

What `mfs_request_do` (`src/request.c`) means for trackers that carry out requests on one shared
state. A request may be lost; it may be carried out and its reply be lost, or cut off at any byte;
and a reply may come in any chunks. The client goes on to the next connection until it has heard a
reply.

Results:
* `parseResponse_reply`: the parser of `src/tracker.c` on the line of a reply.
* `exchangeReply_heard`, `exchangeReply_unheard`: a reply that comes whole, and one that does not.
* `ServiceRun.logged`: what the service has carried out.
* `mfsRequestDo_service`: what the client hears is the reply to the last time its request was
  carried out, and a call that hears nothing leaves the hash alone.
-/

namespace MogileFs

open AtLeastOnce

/-! ## Replies -/

/-- Pairs as a tracker sends them: the keys need no encoding. -/
structure PlainPairs (pairs : List (Bytes × Bytes)) : Prop extends ResponsePairs pairs where
  plain : ∀ p ∈ pairs, mfsTrackerUrlEncode p.1 = p.1

/-- What a tracker answers. -/
inductive TrackerReply
  | ok (fid : Option ℕ) (pairs : List (Bytes × Bytes)) (plain : PlainPairs pairs)
  | err (code desc : Bytes) (codeString : (0 : Byte) ∉ code) (codeNonempty : code ≠ [])
    (descString : (0 : Byte) ∉ desc)

/-- The text of the reply, up to CR LF. -/
def TrackerReply.text : TrackerReply → Bytes
  | ok fid pairs _ => okLine (fid.map decimalNat) pairs
  | err code desc _ _ _ =>
    str "ERR " ++ (mfsTrackerUrlEncode code ++ ch ' ' :: mfsTrackerUrlEncode desc)

def TrackerReply.isOk : TrackerReply → Bool
  | ok .. => true
  | err .. => false

/-- What the client finds in its hash. -/
def TrackerReply.pairs : TrackerReply → List (Bytes × Bytes)
  | ok _ pairs _ => pairs
  | err code desc _ _ _ => [(str "ERROR_CODE", code), (str "ERROR_DESC", desc)]

/-- The bytes that go over the connection. -/
def TrackerReply.line (reply : TrackerReply) : Bytes := reply.text ++ [CR, LF]

theorem isdigit_of_fid (fid : Option ℕ) :
    ∀ digits ∈ fid.map decimalNat, ∀ c ∈ digits, isdigit c := by
  intro digits hdigits c hc
  obtain ⟨n, -, rfl⟩ := Option.map_eq_some_iff.mp hdigits
  exact isdigit_of_mem_decimalNat hc

theorem notMem_okLine (fid : Option ℕ) (pairs : List (Bytes × Bytes)) {c : Byte}
    (hc : c ∈ [CR, LF, 0]) : c ∉ okLine (fid.map decimalNat) pairs := by
  have hchars : ∀ c ∈ [CR, LF, 0], c ∉ str "OK " ∧ urlChar c = false ∧ c ≠ ch '=' ∧ c ≠ ch '&' ∧
      isdigit c = false ∧ c ≠ ch ' ' := by decide +kernel
  obtain ⟨hok, hurl, hequals, hand, hdigit, hspace⟩ := hchars c hc
  intro h
  rcases List.mem_append.mp h with h | h
  · exact hok h
  · rcases List.mem_append.mp h with h | h
    · cases fid with
      | none => cases h
      | some n =>
        rcases List.mem_append.mp h with h | h
        · exact notMem_decimalNat n hdigit h
        · exact hspace (List.mem_singleton.mp h)
    · exact notMem_encodedPairs pairs hurl hequals hand h

theorem notMem_errText (code desc : Bytes) {c : Byte} (hc : c ∈ [CR, LF, 0]) :
    c ∉ str "ERR " ++ (mfsTrackerUrlEncode code ++ ch ' ' :: mfsTrackerUrlEncode desc) := by
  have hchars : ∀ c ∈ [CR, LF, 0], c ∉ str "ERR " ∧ urlChar c = false ∧ c ≠ ch ' ' := by
    decide +kernel
  obtain ⟨herr, hurl, hspace⟩ := hchars c hc
  simp only [List.mem_append, List.mem_cons, not_or]
  exact ⟨herr, notMem_urlEncode code hurl, hspace, notMem_urlEncode desc hurl⟩

/-- A reply is one line of C characters. -/
theorem TrackerReply.notMem_text (reply : TrackerReply) {c : Byte} (hc : c ∈ [CR, LF, 0]) :
    c ∉ reply.text := by
  cases reply with
  | ok fid pairs plain => exact notMem_okLine fid pairs hc
  | err code desc _ _ _ => exact notMem_errText code desc hc

/-- The two words of an `ERR` line. -/
theorem errBody_errText {code : Bytes} (hne : code ≠ []) (hnul : (0 : Byte) ∉ code)
    (desc : Bytes) :
    errBody (str "ERR " ++ (mfsTrackerUrlEncode code ++ ch ' ' :: mfsTrackerUrlEncode desc)) =
      mfsTrackerUrlEncode code ++ ch ' ' :: mfsTrackerUrlEncode desc := by
  have herr : (str "ERR ").length = 4 := rfl
  obtain ⟨c, s, rfl⟩ := List.exists_cons_of_ne_nil hne
  have hencoded : mfsTrackerUrlEncode (c :: s) ≠ [] := by
    intro hnil
    have hlen := length_le_length_urlEncode hnul
    rw [hnil, List.length_cons, List.length_nil] at hlen
    omega
  obtain ⟨d, t, hd⟩ := List.exists_cons_of_ne_nil hencoded
  have hspace : d ≠ ch ' ' := by
    rintro rfl
    have hmem : ch ' ' ∈ mfsTrackerUrlEncode (c :: s) := by
      rw [hd]
      exact List.mem_cons_self
    exact notMem_urlEncode (c :: s) (by decide) hmem
  rw [errBody, List.drop_left' herr, hd, List.cons_append,
    List.dropWhile_cons_of_neg (by simpa using hspace)]

theorem parseResponse_errText {code desc : Bytes} (hne : code ≠ []) (hcode : (0 : Byte) ∉ code)
    (hdesc : (0 : Byte) ∉ desc) :
    parseResponse (str "ERR " ++
        (mfsTrackerUrlEncode code ++ ch ' ' :: mfsTrackerUrlEncode desc) ++ [0, LF]) =
      ⟨.success, some false, [(str "ERROR_CODE", code), (str "ERROR_DESC", desc)]⟩ := by
  have hbody := errBody_errText hne hcode desc
  have hspace : ∀ s : Bytes, ch ' ' ∉ mfsTrackerUrlEncode s := fun s =>
    notMem_urlEncode s (by decide)
  have hfirst : ∀ c ∈ mfsTrackerUrlEncode code, (decide (c ≠ ch ' ')) = true := by
    intro c hc
    refine decide_eq_true ?_
    rintro rfl
    exact hspace code hc
  have hresponse : ErrResponse (str "ERR " ++
      (mfsTrackerUrlEncode code ++ ch ' ' :: mfsTrackerUrlEncode desc)) := by
    refine ⟨List.prefix_append _ _, ?_⟩
    rw [hbody]
    exact List.mem_append_right _ List.mem_cons_self
  have herrCode : errCode (str "ERR " ++
      (mfsTrackerUrlEncode code ++ ch ' ' :: mfsTrackerUrlEncode desc)) =
        mfsTrackerUrlEncode code := by
    rw [errCode, hbody, List.takeWhile_append_of_pos hfirst,
      List.takeWhile_cons_of_neg (by simp), List.append_nil]
  have herrDesc : errDesc (str "ERR " ++
      (mfsTrackerUrlEncode code ++ ch ' ' :: mfsTrackerUrlEncode desc)) =
        mfsTrackerUrlEncode desc := by
    rw [errDesc, hbody, List.dropWhile_append_of_pos hfirst,
      List.dropWhile_cons_of_neg (by simp), List.drop_one, List.tail_cons,
      List.dropWhile_eq_self_iff]
    intro hlen hc
    exact hspace desc (by simpa using (of_decide_eq_true hc) ▸ List.getElem_mem hlen)
  rw [parseResponse_err (notMem_errText code desc (by decide)) hresponse, herrCode, herrDesc,
    urlDecode_urlEncode hcode, urlDecode_urlEncode hdesc]

/-- The parser gives back what the tracker has put into its reply. -/
theorem parseResponse_reply (reply : TrackerReply) :
    parseResponse (reply.text ++ [0, LF]) = ⟨.success, some reply.isOk, reply.pairs⟩ := by
  cases reply with
  | ok fid pairs plain =>
    have hkeys : (pairs.map fun p => (mfsTrackerUrlEncode p.1, p.2)) = pairs := by
      refine (List.map_congr_left fun p hp => ?_).trans (List.map_id pairs)
      exact Prod.ext (plain.plain p hp) rfl
    have hparse := parseResponse_okLine (isdigit_of_fid fid) plain.toResponsePairs
    rw [hkeys] at hparse
    exact hparse
  | err code desc hcode hne hdesc => exact parseResponse_errText hne hcode hdesc

/-! ## Replies on their way -/

/-- The bytes that come before the first call of `apr_socket_recv` that fails or brings none. -/
def arrived : List (Recv mfsReadBufferSize) → Bytes
  | [] => []
  | buf :: recv => if buf.rv ≠ .success ∨ buf.bytes = [] then [] else buf.bytes ++ arrived recv

/-- The request has been sent, and the whole reply has come. -/
def Exchange.Hears (x : Exchange) (reply : TrackerReply) : Prop :=
  x.send = .success ∧ arrived x.recv = reply.line

/-- Of the reply a part comes, or all of it. -/
def Exchange.Carries (x : Exchange) (reply : TrackerReply) : Prop := arrived x.recv <+: reply.line

/-- The calls that bring bytes, up to the first that does not. -/
theorem arrived_split (recv : List (Recv mfsReadBufferSize)) :
    ∃ chunks later, recv = chunks ++ later ∧ Delivered chunks ∧ chunkBytes chunks = arrived recv := by
  induction recv with
  | nil => exact ⟨[], [], rfl, fun _ hbuf => absurd hbuf List.not_mem_nil, rfl⟩
  | cons buf recv ih =>
    by_cases hend : buf.rv ≠ .success ∨ buf.bytes = []
    · refine ⟨[], buf :: recv, rfl, fun _ hbuf => absurd hbuf List.not_mem_nil, ?_⟩
      rw [arrived, if_pos hend]
      rfl
    · obtain ⟨chunks, later, hrecv, hchunks, hbytes⟩ := ih
      rw [not_or, not_not] at hend
      refine ⟨buf :: chunks, later, by rw [hrecv, List.cons_append], ?_, ?_⟩
      · intro b hb
        rcases List.mem_cons.mp hb with rfl | hb
        · exact hend
        · exact hchunks b hb
      · rw [arrived, if_neg (by rw [not_or, not_not]; exact hend), ← hbytes]
        rfl

theorem exchangeReply_heard {x : Exchange} {reply : TrackerReply} (h : x.Hears reply) :
    exchangeReply x = ⟨.success, some reply.isOk, reply.pairs⟩ := by
  obtain ⟨hsend, hbytes⟩ := h
  obtain ⟨chunks, later, hrecv, hchunks, hchunkBytes⟩ := arrived_split x.recv
  have hLF : LF ∉ reply.text ++ [CR] := by
    rw [List.mem_append, List.mem_singleton]
    exact not_or.mpr ⟨reply.notMem_text (by decide), by decide⟩
  have hline : reply.line = reply.text ++ [CR] ++ [LF] := by
    rw [TrackerReply.line, List.append_assoc]
    rfl
  have hne : chunks ≠ [] := by
    rintro rfl
    rw [hbytes, hline] at hchunkBytes
    exact absurd hchunkBytes.symm (List.append_ne_nil_of_right_ne_nil _ (List.cons_ne_nil _ _))
  have hreceive : receiveLine none x.recv = .ok (reply.text ++ [CR, LF]) := by
    rw [hrecv, receiveLine_chunks hLF hchunks hne later none
      (by rw [Option.getD_none, List.nil_append, hchunkBytes, hbytes, hline]), ← hline]
    rfl
  unfold exchangeReply
  rw [if_neg (not_not.mpr hsend), hreceive]
  simp only [terminateLine_crlf]
  exact parseResponse_reply reply

/-- While a part of a line is missing, the loop goes on, and ends with an error. -/
theorem receiveLine_incomplete {line : Bytes} (hline : LF ∉ line)
    (recv : List (Recv mfsReadBufferSize)) (finalBuffer : Option Bytes) {rest : Bytes}
    (hrest : rest ≠ []) (h : finalBuffer.getD [] ++ arrived recv ++ rest = line ++ [LF]) :
    ∃ rv, receiveLine finalBuffer recv = .error rv := by
  induction recv generalizing finalBuffer with
  | nil => exact ⟨_, rfl⟩
  | cons buf recv ih =>
    rw [receiveLine]
    by_cases hrv : buf.rv ≠ .success
    · rw [if_pos hrv]
      exact ⟨_, rfl⟩
    · rw [if_neg hrv]
      by_cases hempty : buf.bytes = []
      · rw [hempty, if_neg (by simp), if_pos rfl]
        exact ⟨_, rfl⟩
      · rw [arrived, if_neg (not_or.mpr ⟨hrv, hempty⟩), ← List.append_assoc,
          List.append_assoc _ _ rest] at h
        -- what has been gathered with this chunk does not end the line
        have hend := getLast?_ne_of_unfinished hline h
          (List.append_ne_nil_of_right_ne_nil _ hrest)
        have hfirst : ¬(buf.bytes.getLast? = some LF ∧ finalBuffer = none) := by
          rintro ⟨hlf, rfl⟩
          exact hend hlf
        simp only [if_neg hfirst, if_neg hempty, if_neg hend]
        refine ih _ ?_
        rw [Option.getD_some, List.append_assoc _ _ rest]
        exact h

/-- A reply that does not come whole is an error, and nothing of it is stored. -/
theorem exchangeReply_unheard {x : Exchange} {reply : TrackerReply} (h : x.Carries reply)
    (hnot : ¬x.Hears reply) : (exchangeReply x).rv ≠ .success ∧ (exchangeReply x).sets = [] := by
  unfold exchangeReply
  by_cases hsend : x.send ≠ .success
  · rw [if_pos hsend]
    exact ⟨hsend, rfl⟩
  · obtain ⟨rest, hrest⟩ := h
    have hne : rest ≠ [] := by
      rintro rfl
      rw [List.append_nil] at hrest
      exact hnot ⟨not_not.mp hsend, hrest⟩
    have hLF : LF ∉ reply.text ++ [CR] := by
      rw [List.mem_append, List.mem_singleton]
      exact not_or.mpr ⟨reply.notMem_text (by decide), by decide⟩
    obtain ⟨rv, hreceive⟩ := receiveLine_incomplete hLF x.recv none hne (by
      rw [Option.getD_none, List.nil_append, hrest, TrackerReply.line, List.append_assoc]
      rfl)
    rw [if_neg hsend, hreceive]
    exact ⟨receiveLine_error_ne_success hreceive, rfl⟩

/-- Nothing comes, of whatever reply. -/
def Exchange.Silent (x : Exchange) : Prop := arrived x.recv = []

theorem Exchange.Silent.carries {x : Exchange} (h : x.Silent) (reply : TrackerReply) :
    x.Carries reply := by
  rw [Carries, h]
  exact List.nil_prefix

theorem Exchange.Silent.not_hears {x : Exchange} (h : x.Silent) (reply : TrackerReply) :
    ¬x.Hears reply := by
  rintro ⟨-, hbytes⟩
  rw [h] at hbytes
  exact absurd hbytes.symm (List.append_ne_nil_of_right_ne_nil _ (List.cons_ne_nil _ _))

/-! ## The exchanges of a service -/

variable {σ κ : Type*}

/-- On the way from `s` to `s'` the exchanges carry the request `request` to a service, which has
    carried it out with the given replies. -/
inductive ServiceRun (exec : σ → κ → σ × TrackerReply) (others : σ → σ → Prop) (request : κ) :
    σ → List Exchange → List TrackerReply → σ → Prop
  | refl (s : σ) : ServiceRun exec others request s [] [] s
  /-- Another client is at work. -/
  | other {s s₁ s' : σ} {xs : List Exchange} {replies : List TrackerReply} :
      others s s₁ → ServiceRun exec others request s₁ xs replies s' →
        ServiceRun exec others request s xs replies s'
  /-- The request does not come through. -/
  | lost {s s' : σ} {x : Exchange} {xs : List Exchange} {replies : List TrackerReply} :
      x.Silent → ServiceRun exec others request s xs replies s' →
        ServiceRun exec others request s (x :: xs) replies s'
  /-- The request is carried out; of the reply a part comes, or all of it. -/
  | executed {s s' : σ} {x : Exchange} {xs : List Exchange} {replies : List TrackerReply} :
      x.Carries (exec s request).2 → ServiceRun exec others request (exec s request).1 xs replies s' →
        ServiceRun exec others request s (x :: xs) ((exec s request).2 :: replies) s'

section

variable {exec : σ → κ → σ × TrackerReply} {others : σ → σ → Prop} {request : κ} {s s' : σ}
  {xs : List Exchange} {replies : List TrackerReply}

theorem ServiceRun.executed_of_eq (s₁ : σ) {x : Exchange} {reply : TrackerReply}
    (hexec : exec s request = (s₁, reply)) (hcarries : x.Carries reply)
    (h : ServiceRun exec others request s₁ xs replies s') :
    ServiceRun exec others request s (x :: xs) (reply :: replies) s' := by
  have hstate : (exec s request).1 = s₁ := by rw [hexec]
  have hreply : (exec s request).2 = reply := by rw [hexec]
  rw [← hreply] at hcarries ⊢
  rw [← hstate] at h
  exact .executed hcarries h

/-- The request, with each of its replies. -/
def repliesTo (request : κ) (replies : List TrackerReply) : List (κ × TrackerReply) :=
  replies.map fun reply => (request, reply)

theorem ServiceRun.logged (h : ServiceRun exec others request s xs replies s') :
    Logged exec others s (repliesTo request replies) s' := by
  induction h with
  | refl s => exact .refl s
  | other hother _ ih => exact .other hother ih
  | lost _ _ ih => exact ih
  | executed _ _ ih => exact .entry ih

/-- The service carries out no request that has not been sent. -/
theorem ServiceRun.length_le (h : ServiceRun exec others request s xs replies s') :
    replies.length ≤ xs.length := by
  induction h with
  | refl s => exact le_rfl
  | other _ _ ih => exact ih
  | lost _ _ ih => exact ih.trans (Nat.le_succ _)
  | executed _ _ ih => exact Nat.succ_le_succ ih

/-- An exchange that fails stores nothing. -/
theorem ServiceRun.sets_of_failed (h : ServiceRun exec others request s xs replies s') :
    ∀ x ∈ xs, (exchangeReply x).rv ≠ .success → (exchangeReply x).sets = [] := by
  induction h with
  | refl s => exact fun _ hx => absurd hx List.not_mem_nil
  | other _ _ ih => exact ih
  | @lost s s' x xs replies hsilent _ ih =>
    intro y hy hfailed
    rcases List.mem_cons.mp hy with rfl | hy
    · exact (exchangeReply_unheard (hsilent.carries (exec s request).2)
        (hsilent.not_hears _)).2
    · exact ih y hy hfailed
  | @executed s s' x xs replies hcarries _ ih =>
    intro y hy hfailed
    rcases List.mem_cons.mp hy with rfl | hy
    · refine (exchangeReply_unheard hcarries fun hheard => hfailed ?_).2
      rw [exchangeReply_heard hheard]
    · exact ih y hy hfailed

/-- The last exchange, when it succeeds, brings the last reply. -/
theorem ServiceRun.heard {x : Exchange}
    (h : ServiceRun exec others request s (xs ++ [x]) replies s')
    (hrv : (exchangeReply x).rv = .success) :
    ∃ unheard reply, replies = unheard ++ [reply] ∧ x.Hears reply := by
  generalize hxs : xs ++ [x] = ys at h
  induction h generalizing xs with
  | refl s => exact absurd hxs (List.append_ne_nil_of_right_ne_nil _ (List.cons_ne_nil _ _))
  | other _ _ ih => exact ih hxs
  | @lost s s' y ys replies hsilent hrest ih =>
    cases xs with
    | nil =>
      rw [List.nil_append, List.cons.injEq] at hxs
      rw [hxs.1] at hrv
      exact absurd hrv (exchangeReply_unheard (hsilent.carries (exec s request).2)
        (hsilent.not_hears _)).1
    | cons z xs =>
      rw [List.cons_append, List.cons.injEq] at hxs
      exact ih hxs.2
  | @executed s s' y ys replies hcarries hrest ih =>
    cases xs with
    | nil =>
      rw [List.nil_append, List.cons.injEq] at hxs
      obtain ⟨rfl, rfl⟩ := hxs
      have hnil : replies = [] := List.length_eq_zero_iff.mp (Nat.le_zero.mp hrest.length_le)
      refine ⟨[], (exec s request).2, by rw [hnil]; rfl, ?_⟩
      by_contra hnot
      exact (exchangeReply_unheard hcarries hnot).1 hrv
    | cons z xs =>
      rw [List.cons_append, List.cons.injEq] at hxs
      obtain ⟨unheard, reply, rfl, hheard⟩ := ih hxs.2
      exact ⟨(exec s request).2 :: unheard, reply, rfl, hheard⟩

/-- However the requests and replies of a call get lost or cut off on the way: when the call
    succeeds, `*ok` and the hash are those of the reply to the last time that the request was
    carried out; and when it does not, the hash is what it was. -/
theorem mfsRequestDo_service {w : World} {ok : Option Bool} {result : Hash}
    (h : ServiceRun exec others request s (exchangesOf w (mfsRequestDo w .given ok result)) replies
      s') :
    ((mfsRequestDo w .given ok result).rv = .success ∧ ∃ unheard reply,
      replies = unheard ++ [reply] ∧ (mfsRequestDo w .given ok result).ok = some reply.isOk ∧
      (mfsRequestDo w .given ok result).result = KeyedUpdates.setAll result reply.pairs) ∨
    ((mfsRequestDo w .given ok result).rv ≠ .success ∧
      (mfsRequestDo w .given ok result).result = result) := by
  obtain ⟨hiff, hok⟩ := mfsRequestDo_given_sound w ok result
  have hempty := h.sets_of_failed
  have hflat : ∀ ys : List Exchange,
      (∀ x ∈ ys, x ∈ exchangesOf w (mfsRequestDo w .given ok result) ∧
        (exchangeReply x).rv ≠ .success) →
      (ys.flatMap fun x => (exchangeReply x).sets) = [] := fun ys hys =>
    List.flatMap_eq_nil_iff.mpr fun x hx => hempty x (hys x hx).1 (hys x hx).2
  by_cases hrv : (mfsRequestDo w .given ok result).rv = .success
  · refine Or.inl ⟨hrv, ?_⟩
    obtain ⟨x, hx, hxrv⟩ := hiff.mp hrv
    obtain hnil | ⟨rejected, accepted, hcall⟩ :=
      List.eq_nil_or_concat' (exchangesOf w (mfsRequestDo w .given ok result))
    · rw [hnil] at hx
      cases hx
    · obtain ⟨hrejected, hlast, hresult⟩ := result_of_accepted hcall
      have haccepted : (exchangeReply accepted).rv = .success := by rw [← hlast, hrv]
      have hmem : accepted ∈ exchangesOf w (mfsRequestDo w .given ok result) := by
        rw [hcall]
        exact List.mem_append_right _ List.mem_cons_self
      rw [hcall] at h
      obtain ⟨unheard, reply, hreplies, hheard⟩ := h.heard haccepted
      have hreply := exchangeReply_heard hheard
      refine ⟨unheard, reply, hreplies, ?_, ?_⟩
      · rw [(hok accepted hmem haccepted).2, hreply]
      · rw [hresult, hflat rejected fun y hy => ⟨?_, hrejected y hy⟩, hreply]
        · rfl
        · rw [hcall]
          exact List.mem_append_left _ hy
  · refine Or.inr ⟨hrv, ?_⟩
    rw [result_of_exchanges, hflat _ fun x hx => ⟨hx, fun hxrv => hrv (hiff.mpr ⟨x, hx, hxrv⟩)⟩]
    rfl

end

end MogileFs
