import MogileFs.Common.FileServer
import MogileFs.Request.Outcome
import MogileFs.Tracker.Parameters

/-!
# Uploads

`mfs_file_server_put` and `mfs_store_file_or_bytes` of `src/file_upload.c` (lines
127–350). The loop keeps what it knows in the flag `call_tracker`, in the pointers
`put_url`, `fid` and `devid`, which start unassigned, and in one hash `result` that
every `create_open` and `create_close` writes into.

Every call that leaves the function, and every round of the loop, is put into a log. A
function that reads a pointer that is unassigned or NULL gives `Except.error`.
-/

namespace MogileFs

/-! ## `mfs_file_server_put` -/

/-- One PUT as it turns out: the server, the answer of `apr_file_info_get`, the status
    code of the HTTP answer, and whether the exchange is completed. -/
structure PutOutcome where
  server : ServerOutcome
  fileSize : Except AprStatus ℤ
  status : ℕ
  completed : Bool

/-- What the function returns and leaves in `*total_bytes`, the size it announces to the
    file server (`CURLOPT_INFILESIZE_LARGE`), if it gets that far, and what is done to
    the connections of the server. -/
structure PutResult where
  rv : AprStatus
  totalBytes : ℤ
  announced : Option ℤ
  reslist : List ReslistCall

/-- `mfs_file_server_put` (lines 127–227). `CURLE_OK` is a completed exchange, whatever
    the status code. -/
def mfsFileServerPut (bytesGiven : Bool) (totalBytes : ℤ) (out : PutOutcome) : PutResult :=
  if out.server.getFileServer ≠ .success then ⟨comparisonStatus, totalBytes, none, []⟩
  else if out.server.acquire ≠ .success then ⟨out.server.acquire, totalBytes, none, []⟩
  else
    match if !bytesGiven && totalBytes = -1 then out.fileSize else .ok totalBytes with
    | .error _ => ⟨.enostat, totalBytes, none, [.acquired]⟩ -- the connection is not given back
    | .ok size =>
      if out.completed then
        ⟨.success, size, some size, [.acquired, .released out.server.settle]⟩
      else
        ⟨if out.server.settle ≠ .success then out.server.settle else .egeneral, size, some size,
          [.acquired, .invalidated out.server.settle]⟩

/-! ## The state of the loop -/

/-- A `char *` on the stack. -/
inductive CharPointer
  | unassigned
  | null
  | string (s : Bytes)
deriving DecidableEq

/-- The value `apr_hash_get` returns. -/
def CharPointer.ofGet : Option Bytes → CharPointer
  | none => null
  | some s => string s

/-- Why a pointer cannot be read. -/
inductive Misread
  | unassigned
  | null
deriving DecidableEq

def CharPointer.read : CharPointer → Except Misread Bytes
  | unassigned => .error .unassigned
  | null => .error .null
  | string s => .ok s

/-- One `mfs_request_do`: the parameters, the exchanges it made, and what it left in
    `rv`, `ok` and the hash. -/
structure TrackerCall where
  params : RequestParameters
  exchanges : List Exchange
  rv : AprStatus
  ok : Option Bool
  result : Hash

/-- A round of the loop begins, a request to the trackers, an `apr_file_seek` to the
    start of the file, and a PUT. -/
inductive UploadEvent
  | round
  | createOpen (call : TrackerCall)
  | rewound (rv : AprStatus)
  | put (url : Bytes) (out : PutOutcome) (result : PutResult)
  | createClose (call : TrackerCall)

/-- The arguments of the function, what it reads of `mfs_file_system`, and
    `apr_uri_parse`. `bytes` and `file` are looked at for being NULL. -/
structure Upload where
  domain : Bytes
  key : Bytes
  storageClass : Bytes
  bytesGiven : Bool
  totalBytes : ℤ
  fileGiven : Bool
  extraOpenParameters : Option RequestParameters
  extraCloseParameters : Option RequestParameters
  maxRetries : ℤ
  clientId : Option Bytes
  aprUriParse : Bytes → Except AprStatus Uri

/-- `rv`, `ok`, `result`, `call_tracker`, `put_url`, `fid`, `devid`, `total_bytes`; the
    trackers, the PUTs and the seeks to come, and the log. -/
structure UploadState where
  rv : AprStatus
  ok : Option Bool
  result : Hash
  callTracker : Bool
  putUrl : CharPointer
  fid : CharPointer
  devid : CharPointer
  totalBytes : ℤ
  w : World
  puts : Stream' PutOutcome
  seeks : Stream' AprStatus
  log : List UploadEvent

def UploadState.record (s : UploadState) (event : UploadEvent) : UploadState :=
  { s with log := s.log ++ [event] }

/-- The parameters of `create_open` (lines 244–250). -/
def openParameters (u : Upload) : RequestParameters :=
  let params := match u.extraOpenParameters with
    | none => mfsTrackerInitParameters
    | some extra => mfsTrackerCopyParameterPointers extra mfsTrackerInitParameters
  let params := mfsTrackerAddParameter params (str "domain") u.domain
  let params := mfsTrackerAddParameter params (str "class") u.storageClass
  mfsTrackerAddParameter params (str "key") u.key

/-- The parameters of `create_close` (lines 318–330). -/
def closeParameters (u : Upload) (fid devid : Bytes) (totalBytes : ℤ) (putUrl : Bytes) :
    RequestParameters :=
  let params := match u.extraCloseParameters with
    | none => mfsTrackerInitParameters
    | some extra => mfsTrackerCopyParameterPointers extra mfsTrackerInitParameters
  let params := mfsTrackerAddParameter params (str "fid") fid
  let params := mfsTrackerAddParameter params (str "devid") devid
  let params := mfsTrackerAddParameter params (str "size") (decimal totalBytes)
  let params := mfsTrackerAddParameter params (str "domain") u.domain
  let params := mfsTrackerAddParameter params (str "path") putUrl
  let params := mfsTrackerAddParameter params (str "key") u.key
  match u.clientId with
  | none => params
  | some clientId => mfsTrackerAddParameter params (str "client_id") clientId

/-! ## One round -/

/-- `mfs_request_do` with the hash and the flag of the loop. -/
def UploadState.request (s : UploadState) (params : RequestParameters) :
    TrackerCall × UploadState :=
  let r := mfsRequestDo s.w .given s.ok s.result
  (⟨params, exchangesOf s.w r, r.rv, r.ok, r.result⟩,
    { s with rv := r.rv, ok := r.ok, result := r.result, w := r.w })

/-- The three lookups after a `create_open` that was answered ok (lines 266–284). -/
def takeGrant (s : UploadState) : UploadState :=
  let s := { s with putUrl := .ofGet (aprHashGet s.result (str "path")) }
  if s.putUrl = .null then { s with rv := .egeneral }
  else
    let s := { s with fid := .ofGet (aprHashGet s.result (str "fid")) }
    if s.fid = .null then { s with rv := .egeneral }
    else
      let s := { s with devid := .ofGet (aprHashGet s.result (str "devid")) }
      if s.devid = .null then { s with rv := .egeneral } else { s with callTracker := false }

/-- Lines 261–293: the tracker is asked, or the URL is used a second time. -/
def askTracker (u : Upload) (s : UploadState) : UploadState :=
  if s.callTracker then
    let (call, s) := s.request (openParameters u)
    let s := s.record (.createOpen call)
    if s.rv = .success then
      if s.ok = some true then takeGrant s else { s with rv := .egeneral }
    else s
  else { s with rv := .success, callTracker := true }

/-- Lines 303–310: the file is rewound before every PUT. -/
def rewindFile (u : Upload) (s : UploadState) : AprStatus × UploadState :=
  if u.fileGiven then
    (s.seeks.head, { s with seeks := s.seeks.tail }.record (.rewound s.seeks.head))
  else (.success, s)

/-- Lines 294–316; `true` when the function returns because the file cannot be rewound. -/
def putFile (u : Upload) (s : UploadState) : Except Misread (Bool × UploadState) :=
  if s.rv ≠ .success then .ok (false, s)
  else
    match s.putUrl.read with
    | .error e => .error e
    | .ok putUrl =>
      match u.aprUriParse putUrl with
      | .error _ => .ok (false, { s with rv := .egeneral })
      | .ok uri =>
        if !uri.usable then .ok (false, { s with rv := .egeneral })
        else
          let (rv, s) := rewindFile u s
          if rv ≠ .success then .ok (true, { s with rv := rv })
          else
            let out := s.puts.head
            let r := mfsFileServerPut u.bytesGiven s.totalBytes out
            .ok (false,
              { s with rv := r.rv, totalBytes := r.totalBytes, puts := s.puts.tail }.record
                (.put putUrl out r))

/-- Lines 317–339: the tracker is told. -/
def closeFile (u : Upload) (s : UploadState) : Except Misread UploadState :=
  if s.rv ≠ .success then .ok s
  else
    match s.fid.read, s.devid.read, s.putUrl.read with
    | .ok fid, .ok devid, .ok putUrl =>
      let (call, s) := s.request (closeParameters u fid devid s.totalBytes putUrl)
      let s := s.record (.createClose call)
      .ok (if s.rv = .success ∧ s.ok ≠ some true then { s with rv := .egeneral } else s)
    | .error e, _, _ | _, .error e, _ | _, _, .error e => .error e

/-- The body of the loop (lines 261–339); `true` when the function returns in it. -/
def uploadRound (u : Upload) (s : UploadState) : Except Misread (Bool × UploadState) :=
  match putFile u (askTracker u (s.record .round)) with
  | .error e => .error e
  | .ok (true, s) => .ok (true, s)
  | .ok (false, s) => (closeFile u s).map (false, ·)

/-! ## The loop -/

/-- Lines 260–344. -/
def uploadLoop (u : Upload) (attemptCount : ℕ) (s : UploadState) : Except Misread UploadState :=
  if attemptCount < u.maxRetries ∧ s.rv ≠ .success then
    match uploadRound u s with
    | .error e => .error e
    | .ok (true, s) => .ok s
    | .ok (false, s) => uploadLoop u (attemptCount + 1) s
  else .ok s
termination_by (u.maxRetries - attemptCount).toNat

/-- The locals before the loop (lines 242–259). -/
def uploadStart (u : Upload) (w : World) (puts : Stream' PutOutcome) (seeks : Stream' AprStatus) :
    UploadState where
  rv := .egeneral
  ok := none
  result := aprHashMake
  callTracker := true
  putUrl := .unassigned
  fid := .unassigned
  devid := .unassigned
  totalBytes := u.totalBytes
  w := w
  puts := puts
  seeks := seeks
  log := []

/-- `mfs_store_file_or_bytes` (lines 230–350). -/
def mfsStoreFileOrBytes (u : Upload) (pool : PoolArg) (w : World) (puts : Stream' PutOutcome)
    (seeks : Stream' AprStatus) : Except Misread UploadState :=
  if pool.failed then .ok { uploadStart u w puts seeks with rv := pool.rv }
  else uploadLoop u 0 (uploadStart u w puts seeks)

end MogileFs
