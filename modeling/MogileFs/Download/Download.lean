import MogileFs.Common.FileServer
import MogileFs.Tracker.Codec

/-!
# Downloads

`src/file_download.c` (lines 83–370): the write callback libcurl is given,
`mfs_file_server_get`, `mfs_file_system_get` and its three entry points.

A file on disk is named by who opened it (`FileId`), a file pointer is the number
of a `Handle`, so that pointers that alias share one position. Every call that
works on files takes the next `IoOutcome`. A function that would go through a
NULL pointer gives `Except.error` with the disk as it then is.
-/

namespace MogileFs

/-! ## Files and buckets -/

/-- The file of the caller, the temporary files in the order of their creation, and
    the files that are opened by name. -/
inductive FileId
  | caller
  | temp (n : ℕ)
  | named (path : Bytes)
deriving DecidableEq

/-- `apr_file_t`. -/
structure Handle where
  file : FileId
  pos : ℕ

/-- The status of a file operation, and how much of the data a failing write has
    written. -/
structure IoOutcome where
  rv : AprStatus
  written : ℕ

/-- The calls that create directories and files. -/
inductive FileCall
  | mktemp
  | dirMakeRecursive (path : Bytes)
  | fileOpen (path : Bytes)
deriving DecidableEq

/-- The files, the open handles, the next free handle and temporary file, what
    becomes of the next operations, and the calls made. -/
structure Disk where
  content : FileId → Bytes
  handles : ℕ → Handle
  nextHandle : ℕ
  nextTemp : ℕ
  io : Stream' IoOutcome
  calls : List FileCall

/-- The next operation. -/
def Disk.outcome (d : Disk) : IoOutcome × Disk := (d.io.head, { d with io := d.io.tail })

/-- The content after `x` has been written at `pos`, which is not behind its end. -/
def overwrite (content : Bytes) (pos : ℕ) (x : Bytes) : Bytes :=
  content.take pos ++ x ++ content.drop (pos + x.length)

/-- `apr_file_write_full`: the status, and the bytes it has written. -/
def aprFileWriteFull (d : Disk) (h : ℕ) (data : Bytes) : AprStatus × ℕ × Disk :=
  let (out, d) := d.outcome
  let n := if out.rv = .success then data.length else min out.written data.length
  let handle := d.handles h
  (out.rv, n,
    { d with
      content := Function.update d.content handle.file
        (overwrite (d.content handle.file) handle.pos (data.take n))
      handles := Function.update d.handles h { handle with pos := handle.pos + n } })

/-- `apr_file_seek` to the start; a failure is only logged. -/
def aprFileRewind (d : Disk) (h : ℕ) : Disk :=
  let (out, d) := d.outcome
  if out.rv = .success then
    { d with handles := Function.update d.handles h { d.handles h with pos := 0 } }
  else d

/-- A new handle at the start of a file. -/
def Disk.openHandle (d : Disk) (file : FileId) : Disk :=
  { d with
    handles := Function.update d.handles d.nextHandle ⟨file, 0⟩
    nextHandle := d.nextHandle + 1 }

/-- `apr_file_mktemp`: a new, empty file, or NULL. -/
def aprFileMktemp (d : Disk) : Option ℕ × Disk :=
  let (out, d) := d.outcome
  let d := { d with calls := d.calls ++ [.mktemp] }
  if out.rv = .success then
    (some d.nextHandle,
      { d with
        content := Function.update d.content (.temp d.nextTemp) []
        nextTemp := d.nextTemp + 1 }.openHandle (.temp d.nextTemp))
  else (none, d)

/-- `apr_file_open` with `APR_READ | APR_WRITE | APR_CREATE`: the file is created when
    there is none, and else left as it is. -/
def aprFileOpen (d : Disk) (path : Bytes) : Option ℕ × Disk :=
  let (out, d) := d.outcome
  let d := { d with calls := d.calls ++ [.fileOpen path] }
  if out.rv = .success then (some d.nextHandle, d.openHandle (.named path)) else (none, d)

/-- `apr_dir_make_recursive`; a failure is only logged. -/
def aprDirMakeRecursive (d : Disk) (path : Bytes) : Disk :=
  { d.outcome.2 with calls := d.calls ++ [.dirMakeRecursive path] }

/-- A bucket of a brigade: a piece of memory, or the first `length` bytes of a file. -/
inductive Bucket
  | memory (data : Bytes)
  | file (id : FileId) (length : ℕ)
deriving DecidableEq

def Bucket.bytes (d : Disk) : Bucket → Bytes
  | memory data => data
  | file id length => (d.content id).take length

/-- The bytes of a brigade. -/
def brigadeBytes (d : Disk) (brigade : List Bucket) : Bytes := brigade.flatMap (Bucket.bytes d)

/-! ## The write callback -/

/-- `mfs_write_buffer`. -/
structure WriteBuffer where
  brigade : List Bucket
  dontWantBrigade : Bool
  currentSize : ℕ
  fileSize : ℕ
  file : Option ℕ
  destinationFilePath : Option Bytes

/-- The scan for `last_slash` (lines 105–110) from position `i` down to 1; the first
    character of the path is not looked at. -/
def lastSlashFrom (path : Bytes) : ℕ → Option ℕ
  | 0 => none
  | i + 1 => if path.getD (i + 1) 0 = ch '/' then some (i + 1) else lastSlashFrom path i

def lastSlash (path : Bytes) : Option ℕ := lastSlashFrom path path.length

/-- Lines 95–122: the file that takes what does not fit in memory; `none` when it
    cannot be opened. Without a slash `last_slash[0] = '/'` goes through NULL. -/
def openSpillFile (buf : WriteBuffer) (d : Disk) : Except Disk (Option ℕ × WriteBuffer × Disk) :=
  match buf.destinationFilePath with
  | none =>
    let (h, d) := aprFileMktemp d
    .ok (h, buf, d)
  | some path =>
    match lastSlash path with
    | none => .error (aprDirMakeRecursive d path)
    | some i =>
      let d := aprDirMakeRecursive d (cstr (path.set i 0))
      let path := (path.set i 0).set i (ch '/')
      let (h, d) := aprFileOpen d path
      .ok (h, { buf with destinationFilePath := some path }, d)

/-- The loop that puts the buckets into the file (lines 127–137): whether it got to the
    end, and `file_size`. -/
def copyBuckets (h : ℕ) : List Bucket → ℕ → Disk → Bool × ℕ × Disk
  | [], fileSize, d => (true, fileSize, d)
  | b :: brigade, fileSize, d =>
    let (out, d) := d.outcome
    if out.rv ≠ .success then (false, fileSize, d)
    else
      let data := b.bytes d
      let (rv, _, d) := aprFileWriteFull d h data
      if rv ≠ .success then (false, fileSize, d)
      else copyBuckets h brigade (fileSize + data.length) d

/-- `mfs_buffer_get_write_callback` (lines 84–156): its return value, the buffer and
    the disk. -/
def mfsBufferGetWriteCallback (maxBufferSize : ℕ) (ptr : Bytes) (buf : WriteBuffer) (d : Disk) :
    Except Disk (ℕ × WriteBuffer × Disk) :=
  let totalSize := ptr.length
  match buf.file with
  | some h =>
    let (_, bytesWritten, d) := aprFileWriteFull d h ptr
    .ok (bytesWritten,
      { buf with
        fileSize := buf.fileSize + totalSize
        currentSize := buf.currentSize + totalSize }, d)
  | none =>
    if totalSize + buf.currentSize > maxBufferSize then
      match openSpillFile buf d with
      | .error d => .error d
      | .ok (none, buf, d) => .ok (0, buf, d)
      | .ok (some h, buf, d) =>
        let (copied, fileSize, d) :=
          if buf.dontWantBrigade then copyBuckets h buf.brigade buf.fileSize d
          else (true, buf.fileSize, d)
        let buf := { buf with file := some h, fileSize := fileSize }
        if !copied then .ok (0, buf, d)
        else
          let (rv, bytesWritten, d) := aprFileWriteFull d h ptr
          if rv ≠ .success then .ok (0, buf, d)
          else
            .ok (bytesWritten,
              { buf with
                fileSize := buf.fileSize + totalSize
                currentSize := buf.currentSize + totalSize }, d)
    else
      .ok (totalSize,
        { buf with
          brigade := buf.brigade ++ [.memory ptr]
          currentSize := buf.currentSize + totalSize }, d)

/-! ## `mfs_file_server_get` -/

/-- One HTTP exchange as libcurl carries it out: the status code of the answer, the
    chunks of its body, and whether the exchange is completed when all chunks are
    taken. -/
structure Transfer where
  status : ℕ
  chunks : List Bytes
  completed : Bool

/-- libcurl hands over the chunks, and aborts when the callback does not return the
    size of one. -/
def deliverChunks (maxBufferSize : ℕ) :
    List Bytes → WriteBuffer → Disk → Except Disk (Bool × WriteBuffer × Disk)
  | [], buf, d => .ok (true, buf, d)
  | ptr :: chunks, buf, d =>
    match mfsBufferGetWriteCallback maxBufferSize ptr buf d with
    | .error d => .error d
    | .ok (n, buf, d) =>
      if n = ptr.length then deliverChunks maxBufferSize chunks buf d else .ok (false, buf, d)

/-- `curl_easy_perform`: `true` is `CURLE_OK`, whatever the status code of the answer;
    `CURLOPT_FAILONERROR` is not set. -/
def curlEasyPerform (maxBufferSize : ℕ) (transfer : Transfer) (buf : WriteBuffer) (d : Disk) :
    Except Disk (Bool × WriteBuffer × Disk) :=
  match deliverChunks maxBufferSize transfer.chunks buf d with
  | .error d => .error d
  | .ok (taken, buf, d) => .ok (taken && transfer.completed, buf, d)

/-- A path of the file, and what happens when it is tried: the answer of
    `apr_uri_parse`, and what the server and the transfer do. -/
structure FilePath where
  url : Bytes
  uri : Except AprStatus Uri
  server : ServerOutcome
  transfer : Transfer
  unparsable : ∀ rv, uri = .error rv → rv ≠ .success

/-- What the output parameters point to. `bytes` is `none` when the parameter is NULL,
    and then `some none` when `*bytes` is; `totalBytes` is `none` before it is set. -/
structure DownloadState where
  bytes : Option (Option Bytes)
  totalBytes : Option ℕ
  file : Option ℕ
  brigade : Option (List Bucket)
  disk : Disk
  reslist : List ReslistCall

/-- The write buffer of a transfer (lines 178–195). -/
def writeBufferFor (st : DownloadState) (destinationFilePath : Option Bytes) : WriteBuffer :=
  match st.file, st.brigade with
  | some h, _ => ⟨[], true, 0, 0, some h, destinationFilePath⟩
  | none, some brigade => ⟨brigade, false, 0, 0, none, destinationFilePath⟩
  | none, none => ⟨[], true, 0, 0, none, destinationFilePath⟩

/-- The file is rewound when something was written (lines 263–269 and 291–297). -/
def rewindWritten (buf : WriteBuffer) (h : ℕ) (d : Disk) : Disk :=
  if buf.currentSize > 0 then aprFileRewind d h else d

/-- Lines 262–305 for the caller's file. -/
def finishFile (buf : WriteBuffer) (h : ℕ) (d : Disk) (st : DownloadState) : DownloadState :=
  { st with disk := rewindWritten buf h d }

/-- Lines 271–285 for the caller's brigade, which held `brigade` before: what a failed
    transfer added is deleted, and a file gets a bucket of its own. -/
def finishBrigade (brigade : List Bucket) (rv : AprStatus) (buf : WriteBuffer) (d : Disk)
    (st : DownloadState) : DownloadState :=
  let after :=
    if rv ≠ .success then if buf.currentSize > 0 then brigade else buf.brigade
    else
      match buf.file with
      | some h => buf.brigade ++ [.file (d.handles h).file buf.fileSize]
      | none => buf.brigade
  { st with brigade := some after, disk := d }

/-- Lines 287–305 for a brigade of the function's own: the file is given to the caller,
    or the bytes. -/
def finishBytes (rv : AprStatus) (buf : WriteBuffer) (d : Disk) (st : DownloadState) :
    Except Disk (AprStatus × DownloadState) :=
  if rv ≠ .success then .ok (rv, { st with disk := d.outcome.2 })
  else
    match buf.file with
    | some h =>
      .ok (rv, { st with file := some h, disk := (rewindWritten buf h d).outcome.2 })
    | none =>
      match st.bytes with
      | none => .error d
      | some _ =>
        let (out, d) := d.outcome
        if out.rv = .success then
          let data := brigadeBytes d buf.brigade
          .ok (rv, { st with
            bytes := some (some data)
            totalBytes := some data.length
            disk := d.outcome.2 })
        else .ok (out.rv, { st with disk := d.outcome.2 })

/-- `mfs_file_server_get` (lines 165–307). -/
def mfsFileServerGet (maxBufferSize : ℕ) (p : FilePath) (destinationFilePath : Option Bytes)
    (st : DownloadState) : Except Disk (AprStatus × DownloadState) :=
  if p.server.getFileServer ≠ .success then .ok (comparisonStatus, st)
  else if p.server.acquire ≠ .success then .ok (p.server.acquire, st)
  else
    match curlEasyPerform maxBufferSize p.transfer (writeBufferFor st destinationFilePath)
      st.disk with
    | .error d => .error d
    | .ok (ok, buf, d) =>
      let rv :=
        if ok then .success else if p.server.settle ≠ .success then p.server.settle else .egeneral
      let call := if ok then ReslistCall.released p.server.settle else .invalidated p.server.settle
      let st' := { st with
        reslist := st.reslist ++ [.acquired, call]
        totalBytes := if rv = .success then some buf.currentSize else st.totalBytes }
      match st.file, st.brigade with
      | some h, _ => .ok (rv, finishFile buf h d st')
      | none, some brigade => .ok (rv, finishBrigade brigade rv buf d st')
      | none, none => finishBytes rv buf d st'

/-! ## `mfs_file_system_get` -/

/-- The length `*total_bytes` is not what the caller requires; a negative
    `requiredLength` requires nothing. -/
def wrongLength (requiredLength : ℤ) (totalBytes : Option ℕ) : Bool :=
  0 ≤ requiredLength ∧ totalBytes ≠ some requiredLength.toNat

/-- The loop of `mfs_file_system_get` (lines 320–353). -/
def fileSystemGetLoop (maxBufferSize : ℕ) (destinationFilePath : Option Bytes)
    (requiredLength : ℤ) :
    List FilePath → AprStatus → DownloadState → Except Disk (AprStatus × DownloadState)
  | [], rv, st => .ok (rv, st)
  | p :: paths, _, st =>
    match st.bytes with
    | none => .error st.disk -- `*bytes = NULL` goes through NULL
    | some _ =>
      let st := { st with bytes := some none }
      match p.uri with
      | .error rv =>
        fileSystemGetLoop maxBufferSize destinationFilePath requiredLength paths rv st
      | .ok uri =>
        if !uri.usable then
          fileSystemGetLoop maxBufferSize destinationFilePath requiredLength paths .egeneral st
        else
          match mfsFileServerGet maxBufferSize p destinationFilePath st with
          | .error d => .error d
          | .ok (rv, st) =>
            if rv ≠ .success then
              fileSystemGetLoop maxBufferSize destinationFilePath requiredLength paths rv st
            else if wrongLength requiredLength st.totalBytes then
              fileSystemGetLoop maxBufferSize destinationFilePath requiredLength paths .egeneral st
            else .ok (.success, st)

/-- `mfs_file_system_get` (lines 310–355), from the answer of `mfs_get_paths`. -/
def mfsFileSystemGet (maxBufferSize : ℕ) (getPaths : Except AprStatus (List FilePath))
    (destinationFilePath : Option Bytes) (requiredLength : ℤ) (st : DownloadState) :
    Except Disk (AprStatus × DownloadState) :=
  match getPaths with
  | .error rv => .ok (rv, st)
  | .ok paths =>
    fileSystemGetLoop maxBufferSize destinationFilePath requiredLength paths .success st

/-- `mfs_get_file` (lines 357–359). -/
def mfsGetFile (maxBufferSize : ℕ) (getPaths : Except AprStatus (List FilePath))
    (totalBytes : Option ℕ) (file : Option ℕ) (requiredLength : ℤ) (d : Disk) :
    Except Disk (AprStatus × DownloadState) :=
  mfsFileSystemGet maxBufferSize getPaths none requiredLength ⟨none, totalBytes, file, none, d, []⟩

/-- `mfs_get_file_or_bytes` (lines 362–364). -/
def mfsGetFileOrBytes (maxBufferSize : ℕ) (getPaths : Except AprStatus (List FilePath))
    (totalBytes : Option ℕ) (bytes : Option Bytes) (file : Option ℕ)
    (destinationFilePath : Option Bytes) (requiredLength : ℤ) (d : Disk) :
    Except Disk (AprStatus × DownloadState) :=
  mfsFileSystemGet maxBufferSize getPaths destinationFilePath requiredLength
    ⟨some bytes, totalBytes, file, none, d, []⟩

/-- `mfs_get_brigade` (lines 367–370); the file pointer is a local that starts as NULL. -/
def mfsGetBrigade (maxBufferSize : ℕ) (getPaths : Except AprStatus (List FilePath))
    (totalBytes : Option ℕ) (brigade : List Bucket) (requiredLength : ℤ) (d : Disk) :
    Except Disk (AprStatus × DownloadState) :=
  mfsFileSystemGet maxBufferSize getPaths none requiredLength
    ⟨none, totalBytes, none, some brigade, d, []⟩

end MogileFs
