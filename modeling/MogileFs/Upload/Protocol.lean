import MogileFs.Upload.Upload
import MogileFs.Library.Traces

/-!
# The order of actions of an upload

What every run of `mfs_store_file_or_bytes` puts into the log. The loop is a state
machine over `call_tracker` and the three pointers; `UploadBooks` is what holds in
every state, and `Holds` what the pointers stand for while the URL may be used.

Results:
* `uploadRound_spec`: what one round can do.
* `uploadLoop_spec`: what a whole run has done, from any state with the invariant.
* `upload_protocol`: the order of `create_open`, PUT and `create_close`.
-/

namespace MogileFs

open Traces

/-! ## Requests to the trackers -/

/-- The tracker's answer to the call is an `OK` response. -/
def TrackerCall.AnsweredOk (call : TrackerCall) : Prop :=
  ∃ rejected x, call.exchanges = rejected ++ [x] ∧ (exchangeReply x).rv = .success ∧
    (exchangeReply x).ok = some true

/-- The pairs of the last response, which is the one that is accepted if any is. -/
def TrackerCall.pairs (call : TrackerCall) : List (Bytes × Bytes) :=
  match call.exchanges.getLast? with
  | none => []
  | some x => (exchangeReply x).sets

/-- The pairs of all responses of the call, in the order in which they are stored. -/
def TrackerCall.heard (call : TrackerCall) : List (Bytes × Bytes) :=
  call.exchanges.flatMap fun x => (exchangeReply x).sets

theorem TrackerCall.heard_of_answered {call : TrackerCall} (h : call.AnsweredOk) :
    ∃ earlier, call.heard = earlier ++ call.pairs := by
  obtain ⟨rejected, x, hcall, -, -⟩ := h
  refine ⟨rejected.flatMap fun x => (exchangeReply x).sets, ?_⟩
  rw [TrackerCall.heard, TrackerCall.pairs, hcall, List.flatMap_append, List.getLast?_concat]
  simp

/-- Only `rv`, `ok`, `result` and the trackers change; the pairs of all responses are
    stored, and an `OK` response is what `rv` and `ok` say it is. -/
theorem UploadState.request_spec (s : UploadState) (params : RequestParameters) :
    ∃ rv ok result w,
      s.request params = (⟨params, exchangesOf s.w (mfsRequestDo s.w .given s.ok s.result), rv, ok,
        result⟩, { s with rv, ok, result, w }) ∧
      result = KeyedUpdates.setAll s.result (s.request params).1.heard ∧
      ((rv = .success ∧ ok = some true) ↔ (s.request params).1.AnsweredOk) := by
  refine ⟨_, _, _, _, rfl, result_of_exchanges s.w .given s.ok s.result, ?_⟩
  obtain ⟨hrv, hok⟩ := mfsRequestDo_given_sound s.w s.ok s.result
  constructor
  · rintro ⟨hsuccess, htrue⟩
    obtain ⟨x, hx, hxrv⟩ := hrv.mp hsuccess
    obtain ⟨rejected, last, hsplit⟩ : ∃ rejected last,
        exchangesOf s.w (mfsRequestDo s.w .given s.ok s.result) = rejected ++ [last] :=
      ⟨_, _, (List.dropLast_append_getLast (List.ne_nil_of_mem hx)).symm⟩
    obtain ⟨hrejected, -, -⟩ := result_of_accepted hsplit
    have hlast : x = last := by
      rw [hsplit] at hx
      rcases List.mem_append.mp hx with hx | hx
      · exact absurd hxrv (hrejected x hx)
      · exact List.mem_singleton.mp hx
    subst hlast
    exact ⟨rejected, x, hsplit, hxrv, by rw [← (hok x hx hxrv).2]; exact htrue⟩
  · rintro ⟨rejected, x, hsplit, hxrv, hxok⟩
    have hx : x ∈ exchangesOf s.w (mfsRequestDo s.w .given s.ok s.result) := by
      have : exchangesOf s.w (mfsRequestDo s.w .given s.ok s.result) = rejected ++ [x] := hsplit
      rw [this]
      exact List.mem_append_right _ List.mem_cons_self
    exact ⟨hrv.mpr ⟨x, hx, hxrv⟩, by rw [(hok x hx hxrv).2, hxok]⟩

/-! ## The log -/

def UploadEvent.isCreateOpen : UploadEvent → Bool
  | createOpen _ => true
  | _ => false

def UploadEvent.isPut : UploadEvent → Bool
  | put _ _ _ => true
  | _ => false

def UploadEvent.isRewound : UploadEvent → Bool
  | rewound _ => true
  | _ => false

def UploadEvent.isRound : UploadEvent → Bool
  | round => true
  | _ => false

/-- The pairs an event has stored in the hash. -/
def UploadEvent.heard : UploadEvent → List (Bytes × Bytes)
  | createOpen call | createClose call => call.heard
  | _ => []

/-- All pairs that were stored, in order. -/
def heard (log : List UploadEvent) : List (Bytes × Bytes) := log.flatMap UploadEvent.heard

/-- How often the file has been rewound. -/
def rewinds (log : List UploadEvent) : ℕ := log.countP UploadEvent.isRewound

/-- The URL can be used. -/
def Upload.Usable (u : Upload) (url : Bytes) : Prop := ∃ uri, u.aprUriParse url = .ok uri ∧ uri.usable

/-- The call was answered ok, and the hash has all three keys afterwards. -/
structure TrackerCall.Grants (call : TrackerCall) (url fid devid : Bytes) : Prop where
  answered : call.AnsweredOk
  path : aprHashGet call.result (str "path") = some url
  fid : aprHashGet call.result (str "fid") = some fid
  devid : aprHashGet call.result (str "devid") = some devid

/-- `call` is the last `create_open` of the log and was accepted. -/
structure Granted (log before : List UploadEvent) (call : TrackerCall) (since : List UploadEvent)
    (url fid devid : Bytes) : Prop where
  last : Since (fun e => e.isCreateOpen) log before (.createOpen call) since
  grants : call.Grants url fid devid

/-- The log ends with a `create_close` that was answered ok. -/
def Closed (log : List UploadEvent) : Prop :=
  ∃ past call, log = past ++ [.createClose call] ∧ call.AnsweredOk

/-- If a PUT can come of the URL, the file is rewound for it. -/
def Rewindable (u : Upload) (seeks : Stream' AprStatus) (before : List UploadEvent) (url : Bytes) :
    Prop :=
  u.Usable url → u.fileGiven → seeks.get (rewinds before) = .success

/-- How an event follows from the events before it; `seeks` are the outcomes of all
    rewinds of the call. -/
def Lawful (u : Upload) (seeks : Stream' AprStatus) (past : List UploadEvent) : UploadEvent → Prop
  | .round => True
  | .createOpen call =>
    call.params = openParameters u ∧
      call.result = KeyedUpdates.setAll aprHashMake (heard past ++ call.heard)
  | .rewound rv => rv = seeks.get (rewinds past)
  | .put url out r =>
    ∃ before call since fid devid totalBytes, Granted past before call since url fid devid ∧
      since.countP UploadEvent.isPut ≤ 1 ∧ u.Usable url ∧ Rewindable u seeks before url ∧
      r = mfsFileServerPut u.bytesGiven totalBytes out
  | .createClose close =>
    ∃ past' url out r size before call since fid devid,
      past = past' ++ [.put url out r] ∧ r.rv = .success ∧ r.announced = some size ∧
      Granted past' before call since url fid devid ∧
      close.params = closeParameters u fid devid size url

/-! ## What the parts of a round can do -/

/-- `askTracker` from `s`: a new answer that is no grant, one that is, or the old one a
    second time. -/
inductive Asked (u : Upload) (s : UploadState) : UploadState → Prop
  | refused (rv : AprStatus) (ok : Option Bool) (w : World) (putUrl fid devid : CharPointer)
      (call : TrackerCall) (asked : s.callTracker = true)
      (params : call.params = openParameters u)
      (result : call.result = KeyedUpdates.setAll s.result call.heard)
      (noGrant : ∀ url fid devid, ¬call.Grants url fid devid) (failed : rv ≠ .success) :
      Asked u s
        { s with
          rv, ok, w, putUrl, fid, devid
          result := call.result
          log := s.log ++ [.createOpen call] }
  | granted (ok : Option Bool) (w : World) (url fid devid : Bytes) (call : TrackerCall)
      (asked : s.callTracker = true) (params : call.params = openParameters u)
      (result : call.result = KeyedUpdates.setAll s.result call.heard)
      (grants : call.Grants url fid devid) :
      Asked u s
        { s with
          rv := .success
          ok, w
          result := call.result
          callTracker := false
          putUrl := .string url
          fid := .string fid
          devid := .string devid
          log := s.log ++ [.createOpen call] }
  | again (asked : s.callTracker = false) :
      Asked u s { s with rv := .success, callTracker := true }

theorem CharPointer.ofGet_eq_null {value : Option Bytes} : ofGet value = null ↔ value = none := by
  cases value <;> simp [ofGet]

theorem askTracker_asked (u : Upload) (s : UploadState) : Asked u s (askTracker u s) := by
  unfold askTracker
  by_cases hct : s.callTracker = true
  · obtain ⟨rv, ok, result, w, hrequest, hresult, hanswered⟩ :=
      s.request_spec (openParameters u)
    rw [hrequest] at hresult hanswered
    rw [if_pos hct, hrequest]
    dsimp only at hresult hanswered ⊢
    generalize exchangesOf s.w (mfsRequestDo s.w .given s.ok s.result) = xs at hresult hanswered ⊢
    by_cases hrv : rv = .success
    · rw [if_pos (by exact hrv)]
      by_cases hok : ok = some true
      · rw [if_pos (by exact hok)]
        unfold takeGrant
        simp only [CharPointer.ofGet_eq_null, UploadState.record]
        cases hpath : aprHashGet result (str "path") with
        | none =>
          refine .refused _ _ _ _ _ _ ⟨_, xs, rv, ok, result⟩ hct rfl hresult ?_ (by decide)
          rintro url fid devid ⟨-, h, -, -⟩
          simp [hpath] at h
        | some url =>
          rw [if_neg (by simp)]
          cases hfid : aprHashGet result (str "fid") with
          | none =>
            refine .refused _ _ _ _ _ _ ⟨_, xs, rv, ok, result⟩ hct rfl hresult ?_ (by decide)
            rintro url fid devid ⟨-, -, h, -⟩
            simp [hfid] at h
          | some fid =>
            rw [if_neg (by simp)]
            cases hdevid : aprHashGet result (str "devid") with
            | none =>
              refine .refused _ _ _ _ _ _ ⟨_, xs, rv, ok, result⟩ hct rfl hresult ?_ (by decide)
              rintro url fid devid ⟨-, -, -, h⟩
              simp [hdevid] at h
            | some devid =>
              rw [if_neg (by simp), hrv]
              exact .granted ok w url fid devid ⟨_, xs, .success, ok, result⟩ hct rfl hresult
                ⟨hanswered.mp ⟨hrv, hok⟩, hpath, hfid, hdevid⟩
      · rw [if_neg (by exact hok)]
        refine .refused _ _ _ _ _ _ ⟨_, xs, rv, ok, result⟩ hct rfl hresult ?_ (by decide)
        exact fun url fid devid h => hok (hanswered.mpr h.answered).2
    · rw [if_neg (by exact hrv)]
      refine .refused _ _ _ _ _ _ ⟨_, xs, rv, ok, result⟩ hct rfl hresult ?_ hrv
      exact fun url fid devid h => hrv (hanswered.mpr h.answered).1
  · rw [if_neg hct]
    exact .again (by simpa using hct)

/-- `putFile` from `s` when `put_url` is `url`: the URL is not usable, the file cannot be
    rewound, or there is a PUT. -/
inductive PutTried (u : Upload) (s : UploadState) (url : Bytes) : Bool × UploadState → Prop
  | unusable (usable : ¬u.Usable url) : PutTried u s url (false, { s with rv := .egeneral })
  | stuck (usable : u.Usable url) (file : u.fileGiven) (failed : s.seeks.head ≠ .success) :
      PutTried u s url
        (true,
          { s with
            rv := s.seeks.head
            seeks := s.seeks.tail
            log := s.log ++ [.rewound s.seeks.head] })
  | sentFile (usable : u.Usable url) (file : u.fileGiven) (rewound : s.seeks.head = .success)
      (out : PutOutcome) (r : PutResult)
      (put : r = mfsFileServerPut u.bytesGiven s.totalBytes out) :
      PutTried u s url
        (false,
          { s with
            rv := r.rv
            totalBytes := r.totalBytes
            puts := s.puts.tail
            seeks := s.seeks.tail
            log := s.log ++ [.rewound s.seeks.head] ++ [.put url out r] })
  | sentBytes (usable : u.Usable url) (file : ¬u.fileGiven) (out : PutOutcome) (r : PutResult)
      (put : r = mfsFileServerPut u.bytesGiven s.totalBytes out) :
      PutTried u s url
        (false,
          { s with
            rv := r.rv
            totalBytes := r.totalBytes
            puts := s.puts.tail
            log := s.log ++ [.put url out r] })

theorem putFile_tried {u : Upload} {s : UploadState} {url : Bytes} (hrv : s.rv = .success)
    (hurl : s.putUrl = .string url) : ∃ x, putFile u s = .ok x ∧ PutTried u s url x := by
  have hread : s.putUrl.read = .ok url := by rw [hurl]; rfl
  unfold putFile
  rw [if_neg (not_not.mpr hrv), hread]
  dsimp only
  cases huri : u.aprUriParse url with
  | error rv =>
    refine ⟨_, rfl, .unusable ?_⟩
    rintro ⟨uri, h, -⟩
    simp [huri] at h
  | ok uri =>
    by_cases husable : uri.usable
    · have hu : u.Usable url := ⟨uri, huri, husable⟩
      simp only [husable, Bool.not_true, Bool.false_eq_true, if_false]
      unfold rewindFile
      by_cases hfile : u.fileGiven
      · rw [if_pos hfile]
        by_cases hseek : s.seeks.head = .success
        · simp only [hseek, ne_eq, not_true_eq_false, if_false]
          have := PutTried.sentFile (s := s) hu hfile hseek s.puts.head _ rfl
          rw [hseek] at this
          exact ⟨_, rfl, this⟩
        · simp only [ne_eq, hseek, not_false_eq_true, if_true]
          exact ⟨_, rfl, .stuck hu hfile hseek⟩
      · rw [if_neg hfile]
        exact ⟨_, rfl, .sentBytes hu hfile _ _ rfl⟩
    · simp only [husable, Bool.not_false, if_true]
      refine ⟨_, rfl, .unusable ?_⟩
      rintro ⟨uri', h, h'⟩
      rw [huri, Except.ok.injEq] at h
      exact husable (h ▸ h')

/-- `closeFile` after a successful PUT to `url`. -/
theorem closeFile_spec {u : Upload} {s : UploadState} {url fid devid : Bytes}
    (hrv : s.rv = .success) (hurl : s.putUrl = .string url) (hfid : s.fid = .string fid)
    (hdevid : s.devid = .string devid) :
    ∃ rv ok w call, closeFile u s = .ok { s with
        rv, ok, w
        result := call.result
        log := s.log ++ [.createClose call] } ∧
      call.params = closeParameters u fid devid s.totalBytes url ∧
      call.result = KeyedUpdates.setAll s.result call.heard ∧
      (rv = .success ↔ call.AnsweredOk) := by
  obtain ⟨rv, ok, result, w, hrequest, hresult, hanswered⟩ :=
    s.request_spec (closeParameters u fid devid s.totalBytes url)
  rw [hrequest] at hresult hanswered
  have hreadUrl : s.putUrl.read = .ok url := by rw [hurl]; rfl
  have hreadFid : s.fid.read = .ok fid := by rw [hfid]; rfl
  have hreadDevid : s.devid.read = .ok devid := by rw [hdevid]; rfl
  unfold closeFile
  rw [if_neg (not_not.mpr hrv), hreadUrl, hreadFid, hreadDevid]
  dsimp only
  rw [hrequest]
  dsimp only at hresult hanswered ⊢
  generalize exchangesOf s.w (mfsRequestDo s.w .given s.ok s.result) = xs at hresult hanswered ⊢
  by_cases hbad : rv = .success ∧ ok ≠ some true
  · rw [if_pos (by exact hbad)]
    refine ⟨.egeneral, ok, w, ⟨_, xs, rv, ok, result⟩, rfl, rfl, hresult, ?_⟩
    exact iff_of_false (by decide) fun h => hbad.2 (hanswered.mpr h).2
  · rw [if_neg (by exact hbad)]
    refine ⟨rv, ok, w, ⟨_, xs, rv, ok, result⟩, rfl, rfl, hresult, ?_⟩
    rw [← hanswered]
    constructor
    · exact fun h => ⟨h, by by_contra hok; exact hbad ⟨h, hok⟩⟩
    · exact fun h => h.1

/-! ## The invariant -/

/-- What holds in every state: the log is lawful, the hash has been through the pairs of
    all responses, the outcomes of the rewinds are used up one by one, and `n` rounds have
    begun. -/
structure UploadBooks (u : Upload) (seeks : Stream' AprStatus) (n : ℕ) (s : UploadState) :
    Prop where
  lawful : Each (Lawful u seeks) s.log
  result : s.result = KeyedUpdates.setAll aprHashMake (heard s.log)
  seeks : s.seeks = seeks.drop (rewinds s.log)
  rounds : s.log.countP UploadEvent.isRound = n

theorem UploadBooks.extend {u : Upload} {seeks : Stream' AprStatus} {n n' : ℕ}
    {s s' : UploadState} (h : UploadBooks u seeks n s) {e : UploadEvent} (hlog : s'.log = s.log ++ [e])
    (hlawful : Lawful u seeks s.log e)
    (hresult : s'.result = KeyedUpdates.setAll s.result e.heard)
    (hseeks : s'.seeks = s.seeks.drop (if e.isRewound then 1 else 0))
    (hn : n' = n + if e.isRound then 1 else 0) : UploadBooks u seeks n' s' where
  lawful := by
    rw [hlog]
    exact each_concat.mpr ⟨h.lawful, hlawful⟩
  result := by
    rw [hlog, heard, List.flatMap_append, KeyedUpdates.setAll_append, hresult, h.result, heard]
    simp
  seeks := by
    rw [hlog, hseeks, h.seeks, Stream'.drop_drop, rewinds, rewinds, List.countP_append]
    simp [List.countP_cons]
  rounds := by
    rw [hlog, List.countP_append, h.rounds, hn]
    simp [List.countP_cons]

/-- The pointers are those of the last `create_open`, which was accepted. -/
structure Holds (s : UploadState) (before : List UploadEvent) (call : TrackerCall)
    (since : List UploadEvent) (url fid devid : Bytes) : Prop where
  granted : Granted s.log before call since url fid devid
  putUrl : s.putUrl = .string url
  fid : s.fid = .string fid
  devid : s.devid = .string devid

theorem Holds.extend {s s' : UploadState} {before since : List UploadEvent} {call : TrackerCall}
    {url fid devid : Bytes} (h : Holds s before call since url fid devid) {e : UploadEvent}
    (hlog : s'.log = s.log ++ [e]) (he : ¬e.isCreateOpen) (hputUrl : s'.putUrl = s.putUrl)
    (hfid : s'.fid = s.fid) (hdevid : s'.devid = s.devid) :
    Holds s' before call (since ++ [e]) url fid devid where
  granted := ⟨by rw [hlog]; exact h.granted.last.concat he, h.granted.grants⟩
  putUrl := by rw [hputUrl, h.putUrl]
  fid := by rw [hfid, h.fid]
  devid := by rw [hdevid, h.devid]

/-- Before a round: without `call_tracker` the pointers can be used once more. -/
structure UploadInv (u : Upload) (seeks : Stream' AprStatus) (n : ℕ) (s : UploadState) : Prop where
  books : UploadBooks u seeks n s
  held : s.callTracker = false → ∃ before call since url fid devid,
    Holds s before call since url fid devid ∧ since.countP UploadEvent.isPut ≤ 1 ∧
      Rewindable u seeks before url

/-- The pointers may be used now. The file has been rewound for them before, or the next
    rewind is the first one. -/
structure Usable (u : Upload) (seeks : Stream' AprStatus) (s : UploadState)
    (before : List UploadEvent) (call : TrackerCall) (since : List UploadEvent)
    (url fid devid : Bytes) : Prop where
  holds : Holds s before call since url fid devid
  puts : since.countP UploadEvent.isPut ≤ 1
  first : s.callTracker = false → since.countP UploadEvent.isPut = 0
  rewindable : Rewindable u seeks before url ∨ s.seeks.head = seeks.get (rewinds before)

theorem not_closed_concat {log : List UploadEvent} {e : UploadEvent}
    (h : ∀ call, e ≠ .createClose call) : ¬Closed (log ++ [e]) := by
  rintro ⟨past, call, hlog, -⟩
  exact h call (by simpa using (List.append_inj' hlog rfl).2)

theorem UploadInv.asked {u : Upload} {seeks : Stream' AprStatus} {n : ℕ} {s s' : UploadState}
    (h : UploadInv u seeks n s) (hnot : ¬Closed s.log) (hask : Asked u s s') :
    UploadBooks u seeks n s' ∧ ¬Closed s'.log ∧
      (s'.rv ≠ .success ∧ s'.callTracker = true ∨
        s'.rv = .success ∧ ∃ before call since url fid devid,
          Usable u seeks s' before call since url fid devid) := by
  cases hask with
  | refused rv ok w putUrl fid devid call asked params result noGrant failed =>
    have hlawful : Lawful u seeks s.log (.createOpen call) := by
      refine ⟨params, ?_⟩
      rw [result, h.books.result, KeyedUpdates.setAll_append]
    exact ⟨h.books.extend rfl hlawful result rfl rfl, not_closed_concat nofun,
      Or.inl ⟨failed, asked⟩⟩
  | granted ok w url fid devid call asked params result grants =>
    have hlawful : Lawful u seeks s.log (.createOpen call) := by
      refine ⟨params, ?_⟩
      rw [result, h.books.result, KeyedUpdates.setAll_append]
    refine ⟨h.books.extend rfl hlawful result rfl rfl, not_closed_concat nofun,
      Or.inr ⟨rfl, s.log, call, [], url, fid, devid,
        ⟨⟨since_concat_self rfl, grants⟩, rfl, rfl, rfl⟩, Nat.zero_le _, fun _ => rfl, Or.inr ?_⟩⟩
    rw [← Stream'.head_drop, ← h.books.seeks]
  | again asked =>
    obtain ⟨before, call, since, url, fid, devid, hholds, hputs, hrewindable⟩ := h.held asked
    exact ⟨⟨h.books.lawful, h.books.result, h.books.seeks, h.books.rounds⟩, hnot, Or.inr ⟨rfl, before, call, since,
      url, fid, devid, ⟨hholds.granted, hholds.putUrl, hholds.fid, hholds.devid⟩, hputs, nofun,
      Or.inl hrewindable⟩⟩

theorem mfsFileServerPut_success {bytesGiven : Bool} {totalBytes : ℤ} {out : PutOutcome} :
    (mfsFileServerPut bytesGiven totalBytes out).rv = .success →
      (mfsFileServerPut bytesGiven totalBytes out).announced =
        some (mfsFileServerPut bytesGiven totalBytes out).totalBytes ∧ out.completed := by
  unfold mfsFileServerPut
  by_cases hserver : out.server.getFileServer = .success
  · by_cases hacquire : out.server.acquire = .success
    · simp only [hserver, hacquire, ne_eq, not_true_eq_false, if_false]
      cases (if !bytesGiven && decide (totalBytes = -1) then out.fileSize else .ok totalBytes) with
      | error rv => simp
      | ok size =>
        by_cases hc : out.completed
        · simp [hc]
        · by_cases hsettle : out.server.settle = .success
          · simp [hc, hsettle]
          · simp [hc, hsettle]
    · simp [hserver, hacquire]
  · simp [hserver, comparisonStatus]

/-- A PUT to the URL of the pointers. -/
theorem Usable.sent {u : Upload} {seeks : Stream' AprStatus} {n : ℕ} {s : UploadState}
    {before since : List UploadEvent} {call : TrackerCall} {url fid devid : Bytes}
    (hbooks : UploadBooks u seeks n s) (h : Usable u seeks s before call since url fid devid)
    (usable : u.Usable url) (hrewindable : Rewindable u seeks before url) (out : PutOutcome)
    {r : PutResult} (put : r = mfsFileServerPut u.bytesGiven s.totalBytes out) {s' : UploadState}
    (hs' : s' = { s with
      rv := r.rv
      totalBytes := r.totalBytes
      puts := s.puts.tail
      log := s.log ++ [.put url out r] }) :
    UploadBooks u seeks n s' ∧ ¬Closed s'.log ∧
      (∃ since', Holds s' before call since' url fid devid ∧
        (s'.callTracker = false → since'.countP UploadEvent.isPut ≤ 1)) ∧
      (s'.rv = .success → ∃ past since' out r, s'.log = past ++ [.put url out r] ∧
        r.rv = .success ∧ r.announced = some s'.totalBytes ∧
        Granted past before call since' url fid devid) := by
  subst hs'
  have hlawful : Lawful u seeks s.log (.put url out r) :=
    ⟨before, call, since, fid, devid, s.totalBytes, h.holds.granted, h.puts, usable, hrewindable,
      put⟩
  refine ⟨hbooks.extend rfl hlawful rfl rfl rfl, not_closed_concat nofun,
    ⟨_, h.holds.extend rfl nofun rfl rfl rfl, fun hct => ?_⟩, fun hsuccess => ?_⟩
  · rw [List.countP_append, h.first hct]
    exact le_rfl
  · refine ⟨s.log, since, out, r, rfl, hsuccess, ?_, h.holds.granted⟩
    subst put
    exact (mfsFileServerPut_success hsuccess).1

/-- After `putFile`: the function returns, or the pointers can be used once more if they
    are used for the first time; a successful PUT is the last event. -/
theorem Usable.tried {u : Upload} {seeks : Stream' AprStatus} {n : ℕ} {s s' : UploadState}
    {before since : List UploadEvent} {call : TrackerCall} {url fid devid : Bytes}
    (hbooks : UploadBooks u seeks n s) (h : Usable u seeks s before call since url fid devid)
    (hnot : ¬Closed s.log) {returned : Bool} (htried : PutTried u s url (returned, s')) :
    UploadBooks u seeks n s' ∧ ¬Closed s'.log ∧ (returned → s'.rv ≠ .success) ∧
      (¬returned → ∃ since', Holds s' before call since' url fid devid ∧
        (s'.callTracker = false → since'.countP UploadEvent.isPut ≤ 1) ∧
        Rewindable u seeks before url) ∧
      (¬returned → s'.rv = .success → ∃ past since' out r, s'.log = past ++ [.put url out r] ∧
        r.rv = .success ∧ r.announced = some s'.totalBytes ∧
        Granted past before call since' url fid devid) := by
  have hrewound : Lawful u seeks s.log (.rewound s.seeks.head) := by
    show s.seeks.head = seeks.get (rewinds s.log)
    rw [← Stream'.head_drop, ← hbooks.seeks]
  cases htried with
  | unusable usable =>
    refine ⟨⟨hbooks.lawful, hbooks.result, hbooks.seeks, hbooks.rounds⟩, hnot, nofun, fun _ => ?_,
      fun _ hsuccess => nomatch hsuccess⟩
    exact ⟨since, ⟨h.holds.granted, h.holds.putUrl, h.holds.fid, h.holds.devid⟩, fun _ => h.puts,
      fun husable => absurd husable usable⟩
  | stuck usable file failed =>
    exact ⟨hbooks.extend rfl hrewound rfl rfl rfl, not_closed_concat nofun, fun _ => failed,
      fun hret => absurd rfl hret, fun hret => absurd rfl hret⟩
  | sentFile usable file rewound out r put =>
    have hrewindable : Rewindable u seeks before url := fun hu hf => by
      rcases h.rewindable with hrew | hhead
      · exact hrew hu hf
      · rw [← hhead, rewound]
    -- the state between the rewind and the PUT
    have hbooks' : UploadBooks u seeks n
        { s with seeks := s.seeks.tail, log := s.log ++ [.rewound s.seeks.head] } :=
      hbooks.extend rfl hrewound rfl rfl rfl
    have husable : Usable u seeks
        { s with seeks := s.seeks.tail, log := s.log ++ [.rewound s.seeks.head] } before call
        (since ++ [.rewound s.seeks.head]) url fid devid := by
      refine ⟨h.holds.extend rfl nofun rfl rfl rfl, ?_, fun hct => ?_, Or.inl hrewindable⟩
      · rw [List.countP_append]
        exact h.puts
      · rw [List.countP_append, h.first hct]
        rfl
    obtain ⟨hbooks'', hnot'', ⟨since', hholds, hputs⟩, hsent⟩ :=
      husable.sent hbooks' usable hrewindable out put rfl
    exact ⟨hbooks'', hnot'', nofun, fun _ => ⟨since', hholds, hputs, hrewindable⟩, fun _ => hsent⟩
  | sentBytes usable file out r put =>
    have hrewindable : Rewindable u seeks before url := fun _ hfile => absurd hfile file
    obtain ⟨hbooks', hnot', ⟨since', hholds, hputs⟩, hsent⟩ :=
      h.sent hbooks usable hrewindable out put rfl
    exact ⟨hbooks', hnot', nofun, fun _ => ⟨since', hholds, hputs, hrewindable⟩, fun _ => hsent⟩

/-- One round: it keeps the invariant, never reads a pointer it may not, and succeeds
    exactly when it ends with a `create_close` that is answered ok. -/
theorem uploadRound_spec {u : Upload} {seeks : Stream' AprStatus} {n : ℕ} {s : UploadState}
    (h : UploadInv u seeks n s) :
    ∃ returned s', uploadRound u s = .ok (returned, s') ∧ UploadBooks u seeks (n + 1) s' ∧
      (¬returned → UploadInv u seeks (n + 1) s') ∧ (returned → s'.rv ≠ .success) ∧
      (s'.rv = .success ↔ Closed s'.log) := by
  have hround : UploadInv u seeks (n + 1) (s.record .round) := by
    refine ⟨h.books.extend rfl trivial rfl rfl rfl, fun hct => ?_⟩
    obtain ⟨before, call, since, url, fid, devid, hholds, hputs, hrewindable⟩ := h.held hct
    refine ⟨before, call, since ++ [.round], url, fid, devid,
      hholds.extend rfl nofun rfl rfl rfl, ?_, hrewindable⟩
    rw [List.countP_append]
    exact hputs
  have hask := askTracker_asked u (s.record .round)
  unfold uploadRound
  generalize askTracker u (s.record .round) = s₁ at hask ⊢
  obtain ⟨hbooks₁, hnot₁, hcases⟩ := hround.asked (not_closed_concat nofun) hask
  rcases hcases with ⟨hrv₁, hct₁⟩ | ⟨hrv₁, before, call, since, url, fid, devid, husable⟩
  · -- no grant: `putFile` and `closeFile` do nothing
    have hput : putFile u s₁ = .ok (false, s₁) := by rw [putFile, if_pos hrv₁]
    have hclose : closeFile u s₁ = .ok s₁ := by rw [closeFile, if_pos hrv₁]
    refine ⟨false, s₁, by rw [hput]; simp [hclose, Except.map], hbooks₁, fun _ => ⟨hbooks₁, ?_⟩,
      nofun, iff_of_false hrv₁ hnot₁⟩
    intro hct
    rw [hct₁] at hct
    cases hct
  · obtain ⟨⟨returned, s₂⟩, hput, htried⟩ := putFile_tried (u := u) hrv₁ husable.holds.putUrl
    obtain ⟨hbooks₂, hnot₂, hreturned, hheld, hsent⟩ := husable.tried hbooks₁ hnot₁ htried
    rw [hput]
    cases returned with
    | true =>
      have hrv₂ : s₂.rv ≠ .success := hreturned rfl
      exact ⟨true, s₂, rfl, hbooks₂, fun hret => absurd rfl hret, hreturned,
        iff_of_false hrv₂ hnot₂⟩
    | false =>
      obtain ⟨since', hholds₂, hputs₂, hrewindable⟩ := hheld nofun
      by_cases hrv₂ : s₂.rv = .success
      · obtain ⟨past, since₀, out, r, hlog, hr, hsize, hgranted⟩ := hsent nofun hrv₂
        obtain ⟨rv, ok, w, close, hclose, hparams, hresult, hiff⟩ :=
          closeFile_spec (u := u) hrv₂ hholds₂.putUrl hholds₂.fid hholds₂.devid
        have hlawful : Lawful u seeks s₂.log (.createClose close) :=
          ⟨past, url, out, r, _, before, call, since₀, fid, devid, hlog, hr, hsize, hgranted,
            hparams⟩
        have hbooks₃ : UploadBooks u seeks (n + 1) { s₂ with
            rv, ok, w
            result := close.result
            log := s₂.log ++ [.createClose close] } :=
          hbooks₂.extend rfl hlawful hresult rfl rfl
        refine ⟨false, _, by simp only [hclose, Except.map], hbooks₃,
          fun _ => ⟨hbooks₃, fun hct => ?_⟩, nofun, hiff.trans ?_⟩
        · refine ⟨before, call, since' ++ [.createClose close], url, fid, devid,
            hholds₂.extend rfl nofun rfl rfl rfl, ?_, hrewindable⟩
          rw [List.countP_append]
          exact hputs₂ hct
        · constructor
          · exact fun hok => ⟨s₂.log, close, rfl, hok⟩
          · rintro ⟨past', close', hlog', hok⟩
            obtain rfl : close = close' := by simpa using (List.append_inj' hlog' rfl).2
            exact hok
      · have hclose : closeFile u s₂ = .ok s₂ := by rw [closeFile, if_pos hrv₂]
        refine ⟨false, s₂, by simp only [hclose, Except.map], hbooks₂,
          fun _ => ⟨hbooks₂, fun hct => ?_⟩, nofun, iff_of_false hrv₂ hnot₂⟩
        exact ⟨before, call, since', url, fid, devid, hholds₂, hputs₂ hct, hrewindable⟩

/-! ## Whole runs -/

/-- A run from a state with the invariant, and with a property `I` of the log that every
    round keeps. -/
theorem uploadLoop_spec {u : Upload} {seeks : Stream' AprStatus} {I : List UploadEvent → Prop}
    (hI : ∀ n s returned s', UploadInv u seeks n s → I s.log →
      uploadRound u s = .ok (returned, s') → I s'.log) (n : ℕ) {s : UploadState}
    (h : UploadInv u seeks n s) (hlog : I s.log) (hclosed : s.rv = .success ↔ Closed s.log) :
    ∃ n' s', uploadLoop u n s = .ok s' ∧ UploadBooks u seeks n' s' ∧ n' ≤ max n u.maxRetries.toNat ∧
      I s'.log ∧ (s'.rv = .success ↔ Closed s'.log) := by
  induction n, s using uploadLoop.induct u with
  | case1 n s hguard e hround =>
    obtain ⟨returned, s', hspec, -⟩ := uploadRound_spec h
    rw [hround] at hspec
    cases hspec
  | case2 n s hguard s' hround =>
    obtain ⟨returned, s'', hspec, hbooks, -, -, hclosed'⟩ := uploadRound_spec h
    rw [hround, Except.ok.injEq, Prod.mk.injEq] at hspec
    obtain ⟨rfl, rfl⟩ := hspec
    rw [uploadLoop, if_pos hguard, hround]
    exact ⟨n + 1, s', rfl, hbooks, by omega, hI n s true s' h hlog hround, hclosed'⟩
  | case3 n s hguard s' hround ih =>
    obtain ⟨returned, s'', hspec, -, hinv, -, hclosed'⟩ := uploadRound_spec h
    rw [hround, Except.ok.injEq, Prod.mk.injEq] at hspec
    obtain ⟨rfl, rfl⟩ := hspec
    rw [uploadLoop, if_pos hguard, hround]
    obtain ⟨n', s'', hrun, hbooks, hle, hlog', hend⟩ :=
      ih (hinv nofun) (hI n s false s' h hlog hround) hclosed'
    exact ⟨n', s'', hrun, hbooks, by omega, hlog', hend⟩
  | case4 n s hguard =>
    rw [uploadLoop, if_neg hguard]
    exact ⟨n, s, rfl, h.books, le_max_left _ _, hlog, hclosed⟩

theorem uploadStart_inv (u : Upload) (w : World) (puts : Stream' PutOutcome)
    (seeks : Stream' AprStatus) : UploadInv u seeks 0 (uploadStart u w puts seeks) where
  books := ⟨each_nil, rfl, rfl, rfl⟩
  held := nofun

theorem not_closed_nil : ¬Closed [] := by
  rintro ⟨past, call, h, -⟩
  simp at h

/-- Every run, with a property of the log that every round keeps. -/
theorem mfsStoreFileOrBytes_spec (u : Upload) (pool : PoolArg) (w : World)
    (puts : Stream' PutOutcome) (seeks : Stream' AprStatus) {I : List UploadEvent → Prop}
    (hnil : I [])
    (hI : ∀ n s returned s', UploadInv u seeks n s → I s.log →
      uploadRound u s = .ok (returned, s') → I s'.log) :
    ∃ n s, mfsStoreFileOrBytes u pool w puts seeks = .ok s ∧ UploadBooks u seeks n s ∧
      n ≤ u.maxRetries.toNat ∧ I s.log ∧ (s.rv = .success ↔ Closed s.log) := by
  have hstart := uploadStart_inv u w puts seeks
  unfold mfsStoreFileOrBytes
  cases hfailed : pool.failed with
  | true =>
    have hrv : pool.rv ≠ .success := by
      cases pool with
      | given => cases hfailed
      | null create => simpa [PoolArg.failed, PoolArg.rv] using hfailed
    exact ⟨0, _, rfl, ⟨each_nil, rfl, rfl, rfl⟩, Nat.zero_le _, hnil,
      iff_of_false hrv not_closed_nil⟩
  | false =>
    obtain ⟨n, s, hrun, hbooks, hle, hlog, hclosed⟩ := uploadLoop_spec hI 0 hstart hnil
      (iff_of_false (show AprStatus.egeneral ≠ .success by decide) not_closed_nil)
    exact ⟨n, s, hrun, hbooks, by omega, hlog, hclosed⟩

/-- The order of actions, event by event:
    * a PUT goes to the URL that the last `create_open` has granted, and is the first or
      the second one since;
    * a `create_close` comes right after a successful PUT, with its URL, the `fid` and
      `devid` of the same grant, and the size it announced. -/
def InOrder (u : Upload) (past : List UploadEvent) : UploadEvent → Prop
  | .put url _ _ => ∃ before call since fid devid, Granted past before call since url fid devid ∧
      since.countP UploadEvent.isPut ≤ 1
  | .createClose close => ∃ past' url out r size before call since fid devid,
      past = past' ++ [.put url out r] ∧ r.rv = .success ∧ r.announced = some size ∧
      Granted past' before call since url fid devid ∧
      close.params = closeParameters u fid devid size url
  | _ => True

theorem Lawful.inOrder {u : Upload} {seeks : Stream' AprStatus} {past : List UploadEvent}
    {e : UploadEvent} (h : Lawful u seeks past e) : InOrder u past e := by
  cases e with
  | put url out r =>
    obtain ⟨before, call, since, fid, devid, -, hgranted, hputs, -⟩ := h
    exact ⟨before, call, since, fid, devid, hgranted, hputs⟩
  | createClose close => exact h
  | _ => trivial

/-- Every run of `mfs_store_file_or_bytes`, whatever the trackers and file servers do:
    no pointer is read before it is assigned, the actions are in order, success is a
    `create_close` answered ok at the end, and the rounds are at most `max_retries`. -/
theorem upload_protocol (u : Upload) (pool : PoolArg) (w : World) (puts : Stream' PutOutcome)
    (seeks : Stream' AprStatus) :
    ∃ s, mfsStoreFileOrBytes u pool w puts seeks = .ok s ∧
      Each (InOrder u) s.log ∧
      (s.rv = .success ↔ ∃ past call, s.log = past ++ [.createClose call] ∧ call.AnsweredOk) ∧
      s.log.countP UploadEvent.isRound ≤ u.maxRetries.toNat := by
  obtain ⟨n, s, hrun, hbooks, hle, -, hclosed⟩ :=
    mfsStoreFileOrBytes_spec u pool w puts seeks (I := fun _ => True) trivial
      fun _ _ _ _ _ _ _ => trivial
  refine ⟨s, hrun, hbooks.lawful.mono fun past e rest _ h => h.inOrder, hclosed, ?_⟩
  rw [hbooks.rounds]
  exact hle

end MogileFs
