import MogileFs.Tracker.Parameters

/-!
# Tracker responses

`mfs_tracker_parse_response` and its `skip_*` helpers (`src/tracker.c`, lines
311–428) and the receive loop of `mfs_tracker_request` (lines 152–216).

A response is `OK <number> k=v&k=v…` or `ERR <code> <text>`. The parser writes
into the hash it is given, so its model first says which status it returns,
what it stores through `ok` and which `apr_hash_set` calls it makes (`Reply`),
and then applies that to the caller's `*ok` and `result`.
-/

namespace MogileFs

/-- What a call does: its return value, the value stored through `ok` (`none`
    when `*ok` is left alone) and the `apr_hash_set` calls made on `result`, in
    order. -/
structure Reply where
  rv : AprStatus
  ok : Option Bool
  sets : List (Bytes × Bytes)
deriving DecidableEq

/-- A return before anything was written. -/
def Reply.fail (rv : AprStatus) : Reply := ⟨rv, none, []⟩

/-- `*ok` after the call. -/
def Reply.okAfter (r : Reply) (ok : Option Bool) : Option Bool := r.ok.or ok

/-- `result` after the call. -/
def Reply.resultAfter (r : Reply) (result : Hash) : Hash := KeyedUpdates.setAll result r.sets

theorem aprHashSet_eq_setAll (result : Hash) (key value : Bytes) :
    aprHashSet result key value = KeyedUpdates.setAll result [(key, value)] := rfl

/-! ## The `skip_*` helpers -/

/-- The loop the `skip_*` functions share: how many leading bytes satisfy `p`,
    and -1 (`none`) when all do. -/
def skipWhile (p : Byte → Bool) (buf : Bytes) : Option ℕ :=
  let bufCount := (buf.takeWhile p).length
  if bufCount = buf.length then none else some bufCount

/-- `skip_char` (lines 311–316). -/
def skipChar (buf : Bytes) (c : Byte) : Option ℕ := skipWhile (· = c) buf

/-- `skip_space_or_number` (lines 318–323). -/
def skipSpaceOrNumber (buf : Bytes) : Option ℕ :=
  skipWhile (fun b => b = ch ' ' || (ch '0' ≤ b && b ≤ ch '9')) buf

/-- `skip_not_char` (lines 325–330). -/
def skipNotChar (buf : Bytes) (c : Byte) : Option ℕ := skipWhile (· ≠ c) buf

/-- `skip_not_char_in_str` (lines 332–337) on a C string. -/
def skipNotCharInStr (buf : Bytes) (c : Byte) : Option ℕ := skipWhile (· ≠ c) buf

/-! ## `mfs_tracker_parse_response` -/

/-- The `while(pair != NULL)` loop (lines 372–385) on what is left of the string,
    with the `apr_hash_set` calls it makes. A pair without `=` ends it. -/
def parsePairs (buf : Bytes) : AprStatus × List (Bytes × Bytes) :=
  match _h : aprStrtok buf (ch '&') with
  | none => (.success, [])
  | some (pair, rest) =>
    match skipNotCharInStr pair (ch '=') with
    | none => (.eftype, [])
    | some nextPos =>
      let r := parsePairs rest
      (r.1, (pair.take nextPos, mfsTrackerUrlDecode (pair.drop (nextPos + 1))) :: r.2)
termination_by buf.length
decreasing_by exact aprStrtok_length _h

/-- The branch for `OK ` (lines 347–386); `buf` is what follows it. -/
def parseOk (buf : Bytes) : Reply :=
  match skipSpaceOrNumber buf with
  | none => .fail .eftype
  | some nextPos =>
    let r := parsePairs (cstr (buf.drop nextPos))
    ⟨r.1, if r.1 = .success then some true else none, r.2⟩

/-- The branch for `ERR ` (lines 387–421); `buf` is what follows it. Both
    `apr_hash_set` calls come after the last test. -/
def parseErr (buf : Bytes) : Reply :=
  match skipChar buf (ch ' ') with
  | none => .fail .eftype
  | some nextPos =>
    let errorCode := buf.drop nextPos
    match skipNotChar errorCode (ch ' ') with
    | none => .fail .eftype
    | some codeLength =>
      let buf := errorCode.drop (codeLength + 1)
      match skipChar buf (ch ' ') with
      | none => .fail .eftype
      | some nextPos =>
        ⟨.success, some false,
          [(str "ERROR_CODE", mfsTrackerUrlDecode (cstr (errorCode.take codeLength))),
           (str "ERROR_DESC", mfsTrackerUrlDecode (cstr (buf.drop nextPos)))]⟩

/-- `mfs_tracker_parse_response` (lines 339–428) up to its writes. -/
def parseResponse (finalBuffer : Bytes) : Reply :=
  if finalBuffer.length < 4 then .fail .eftype
  else if finalBuffer.take 3 = str "OK " then parseOk (finalBuffer.drop 3)
  else if finalBuffer.length > 4 ∧ finalBuffer.take 4 = str "ERR " then
    parseErr (finalBuffer.drop 4)
  else .fail .eftype

/-- `mfs_tracker_parse_response` (lines 339–428): the status, `*ok` and
    `result`. -/
def mfsTrackerParseResponse (finalBuffer : Bytes) (ok : Option Bool) (result : Hash) :
    AprStatus × Option Bool × Hash :=
  let r := parseResponse finalBuffer
  (r.rv, r.okAfter ok, r.resultAfter result)

/-! ## `mfs_tracker_request` -/

/-- `MFS_READ_BUFFER_SIZE`. -/
def mfsReadBufferSize : ℕ := 4096

/-- The socket's side of one `mfs_tracker_request`: the status of
    `apr_socket_send` and what successive `apr_socket_recv` calls answer. Once
    the list is used up nothing arrives any more and the timeout set on the
    socket fires. -/
structure Exchange where
  send : AprStatus
  recv : List (Recv mfsReadBufferSize)
deriving DecidableEq

/-- The `while(!finished)` loop (lines 171–206): `final_buffer`, once it ends in
    LF. -/
def receiveLine : Option Bytes → List (Recv mfsReadBufferSize) → Except AprStatus Bytes
  | _, [] => .error .timeup
  | finalBuffer, buf :: recv =>
    if buf.rv ≠ .success then .error buf.rv
    else if buf.bytes.getLast? = some LF ∧ finalBuffer = none then .ok buf.bytes
    else if buf.bytes = [] then .error .eof
    else
      let multiBuffer := finalBuffer.getD [] ++ buf.bytes
      if multiBuffer.getLast? = some LF then .ok multiBuffer
      else receiveLine (some multiBuffer) recv

/-- Lines 207–213: the CR before the final LF becomes NUL. -/
def terminateLine (finalBuffer : Bytes) : Except AprStatus Bytes :=
  if finalBuffer.length > 1 ∧ finalBuffer.getD (finalBuffer.length - 2) 0 = CR then
    .ok (finalBuffer.set (finalBuffer.length - 2) 0)
  else .error .eftype

/-- `mfs_tracker_request` (lines 152–216) up to its writes. The request line it
    sends is `requestBytes cmd parameters`, the same for every answer. -/
def exchangeReply (x : Exchange) : Reply :=
  if x.send ≠ .success then .fail x.send
  else
    match receiveLine none x.recv with
    | .error rv => .fail rv
    | .ok finalBuffer =>
      match terminateLine finalBuffer with
      | .error rv => .fail rv
      | .ok finalBuffer => parseResponse finalBuffer

/-- `mfs_tracker_request` (lines 152–216): the status, `*ok` and `result`. -/
def mfsTrackerRequest (x : Exchange) (ok : Option Bool) (result : Hash) :
    AprStatus × Option Bool × Hash :=
  let r := exchangeReply x
  (r.rv, r.okAfter ok, r.resultAfter result)

/-! ## `*ok` is stored exactly on success -/

/-- The call stores through `ok` exactly when it returns `APR_SUCCESS`. -/
def Reply.OkIffSuccess (r : Reply) : Prop := r.rv = .success ↔ r.ok.isSome

theorem Reply.okIffSuccess_fail {rv : AprStatus} (h : rv ≠ .success) :
    (Reply.fail rv).OkIffSuccess := by
  simp [Reply.OkIffSuccess, Reply.fail, h]

theorem parseOk_okIffSuccess (buf : Bytes) : (parseOk buf).OkIffSuccess := by
  unfold parseOk
  cases skipSpaceOrNumber buf with
  | none => exact Reply.okIffSuccess_fail (by decide)
  | some nextPos =>
    by_cases h : (parsePairs (cstr (buf.drop nextPos))).1 = .success <;>
      simp [Reply.OkIffSuccess, h]

theorem parseErr_okIffSuccess (buf : Bytes) : (parseErr buf).OkIffSuccess := by
  unfold parseErr
  cases skipChar buf (ch ' ') with
  | none => exact Reply.okIffSuccess_fail (by decide)
  | some nextPos =>
    simp only
    cases skipNotChar (buf.drop nextPos) (ch ' ') with
    | none => exact Reply.okIffSuccess_fail (by decide)
    | some codeLength =>
      simp only
      cases skipChar ((buf.drop nextPos).drop (codeLength + 1)) (ch ' ') with
      | none => exact Reply.okIffSuccess_fail (by decide)
      | some nextPos' => simp [Reply.OkIffSuccess]

theorem parseResponse_okIffSuccess (finalBuffer : Bytes) :
    (parseResponse finalBuffer).OkIffSuccess := by
  unfold parseResponse
  split_ifs
  · exact Reply.okIffSuccess_fail (by decide)
  · exact parseOk_okIffSuccess _
  · exact parseErr_okIffSuccess _
  · exact Reply.okIffSuccess_fail (by decide)

theorem receiveLine_error_ne_success {finalBuffer : Option Bytes}
    {recv : List (Recv mfsReadBufferSize)} {rv : AprStatus}
    (h : receiveLine finalBuffer recv = .error rv) : rv ≠ .success := by
  induction recv generalizing finalBuffer with
  | nil => cases h; decide
  | cons buf recv ih =>
    rw [receiveLine] at h
    split_ifs at h with h1 h2 h3
    · cases h; exact h1
    · cases h; decide
    · simp only at h
      split_ifs at h
      exact ih h

theorem exchangeReply_okIffSuccess (x : Exchange) : (exchangeReply x).OkIffSuccess := by
  unfold exchangeReply
  split_ifs with hsend
  · exact Reply.okIffSuccess_fail hsend
  · cases hr : receiveLine none x.recv with
    | error rv => exact Reply.okIffSuccess_fail (receiveLine_error_ne_success hr)
    | ok finalBuffer =>
      simp only
      unfold terminateLine
      split_ifs
      · exact parseResponse_okIffSuccess _
      · exact Reply.okIffSuccess_fail (by decide)

end MogileFs
