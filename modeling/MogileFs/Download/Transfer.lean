import MogileFs.Download.Download
import MogileFs.Library.Overlays

/-!
# One transfer on a disk whose operations succeed

What the write callback leaves when no file operation fails: a transfer that has a
file from the start is written over it (`deliverChunks_file`), one that fits in
memory becomes memory buckets (`deliverChunks_memory`), and one that does not fit
opens a file on the way (`deliverChunks_spill`).

Results, for a path whose server could be had, with `body` all the bytes of its
transfer:
* `mfsFileServerGet_file`: with the caller's file.
* `mfsFileServerGet_bytes`, `mfsFileServerGet_spilled`: without a file and a brigade.
* `mfsFileServerGet_brigade`: with the caller's brigade.
-/

namespace MogileFs

open Overlays Function

/-! ## A disk whose operations succeed -/

/-- No operation on files fails. -/
def Disk.Calm (d : Disk) : Prop := ∀ n, (d.io.get n).rv = .success

theorem Disk.Calm.head {d : Disk} (hd : d.Calm) : d.io.head.rv = .success := hd 0

theorem Disk.Calm.of_drop {d d' : Disk} (hd : d.Calm) {n : ℕ} (h : d'.io = d.io.drop n) :
    d'.Calm := fun m => by rw [h, Stream'.get_drop]; exact hd (n + m)

/-- `d` after `x` has been written from the start of the file `f`, which held `old`,
    through the handle `h`, `n` operations later. -/
def Disk.written (d : Disk) (h : ℕ) (f : FileId) (old x : Bytes) (n : ℕ) : Disk :=
  { d with
    content := update d.content f (overlay old x)
    handles := update d.handles h ⟨f, x.length⟩
    io := d.io.drop n }

/-- A handle at the start of its file, before anything is written. -/
theorem Disk.written_nil {d : Disk} {h : ℕ} {f : FileId} (hh : d.handles h = ⟨f, 0⟩) :
    d.written h f (d.content f) [] 0 = d := by
  unfold Disk.written
  rw [overlay_nil, update_eq_self, List.length_nil, ← hh, update_eq_self, Stream'.drop_zero]

theorem Disk.Calm.written {d : Disk} (hd : d.Calm) (h : ℕ) (f : FileId) (old x : Bytes) (n : ℕ) :
    (d.written h f old x n).Calm := hd.of_drop rfl

@[simp] theorem Disk.written_content (d : Disk) (h : ℕ) (f : FileId) (old x : Bytes) (n : ℕ) :
    (d.written h f old x n).content = update d.content f (overlay old x) := rfl

@[simp] theorem Disk.written_handles (d : Disk) (h : ℕ) (f : FileId) (old x : Bytes) (n : ℕ) :
    (d.written h f old x n).handles = update d.handles h ⟨f, x.length⟩ := rfl

@[simp] theorem Disk.written_nextTemp (d : Disk) (h : ℕ) (f : FileId) (old x : Bytes) (n : ℕ) :
    (d.written h f old x n).nextTemp = d.nextTemp := rfl

theorem aprFileWriteFull_written {d : Disk} (hd : d.Calm) (h : ℕ) (f : FileId)
    (old x y : Bytes) (n : ℕ) :
    aprFileWriteFull (d.written h f old x n) h y =
      (.success, y.length, d.written h f old (x ++ y) (n + 1)) := by
  have hrv : (d.written h f old x n).io.head.rv = .success := (hd.written h f old x n).head
  unfold aprFileWriteFull Disk.outcome
  simp only [hrv, if_true, List.take_length, Disk.written_handles, Disk.written_content,
    update_self, update_idem]
  unfold Disk.written overwrite
  rw [overlay_append, List.length_append, Stream'.tail_drop']

theorem aprFileRewind_written {d : Disk} (hd : d.Calm) (h : ℕ) (f : FileId) (old x : Bytes)
    (n : ℕ) :
    aprFileRewind (d.written h f old x n) h =
      { d.written h f old x (n + 1) with handles := update d.handles h ⟨f, 0⟩ } := by
  have hrv : (d.written h f old x n).io.head.rv = .success := (hd.written h f old x n).head
  unfold aprFileRewind Disk.outcome
  simp only [hrv, if_true, Disk.written_handles, update_self, update_idem]
  unfold Disk.written
  rw [Stream'.tail_drop']

theorem rewindWritten_written {d : Disk} (hd : d.Calm) (buf : WriteBuffer) (h : ℕ) (f : FileId)
    (old : Bytes) {x : Bytes} (n : ℕ) (hsize : buf.currentSize = x.length) :
    (rewindWritten buf h (d.written h f old x n)).Calm ∧
      (rewindWritten buf h (d.written h f old x n)).handles h = ⟨f, 0⟩ ∧
      (rewindWritten buf h (d.written h f old x n)).content =
        update d.content f (overlay old x) := by
  unfold rewindWritten
  by_cases hx : 0 < buf.currentSize
  · rw [if_pos hx, aprFileRewind_written hd]
    exact ⟨hd.of_drop rfl, update_self .., rfl⟩
  · rw [if_neg hx]
    refine ⟨hd.written _ _ _ _ _, ?_, rfl⟩
    rw [Disk.written_handles, update_self, ← hsize, Nat.eq_zero_of_not_pos hx]

/-! ## The bytes of a brigade -/

theorem brigadeBytes_append (d : Disk) (b b' : List Bucket) :
    brigadeBytes d (b ++ b') = brigadeBytes d b ++ brigadeBytes d b' := List.flatMap_append

theorem brigadeBytes_memory (d : Disk) (chunks : List Bytes) :
    brigadeBytes d (chunks.map .memory) = chunks.flatten := by
  unfold brigadeBytes
  rw [List.flatMap_map]
  exact List.flatMap_id'

/-! ## The chunks of a transfer -/

theorem deliverChunks_append (maxBufferSize : ℕ) (xs ys : List Bytes) (buf : WriteBuffer)
    (d : Disk) {buf' : WriteBuffer} {d' : Disk}
    (h : deliverChunks maxBufferSize xs buf d = .ok (true, buf', d')) :
    deliverChunks maxBufferSize (xs ++ ys) buf d = deliverChunks maxBufferSize ys buf' d' := by
  induction xs generalizing buf d with
  | nil =>
    simp only [deliverChunks, Except.ok.injEq, Prod.mk.injEq, true_and] at h
    rw [h.1, h.2, List.nil_append]
  | cons ptr xs ih =>
    rw [List.cons_append, deliverChunks]
    rw [deliverChunks] at h
    cases hcall : mfsBufferGetWriteCallback maxBufferSize ptr buf d with
    | error d1 => rw [hcall] at h; simp at h
    | ok result =>
      obtain ⟨n, buf1, d1⟩ := result
      rw [hcall] at h
      simp only at h ⊢
      by_cases hn : n = ptr.length
      · rw [if_pos hn] at h ⊢
        exact ih buf1 d1 h
      · rw [if_neg hn] at h
        simp at h

/-- A transfer that has a file. -/
theorem deliverChunks_file (maxBufferSize : ℕ) (chunks : List Bytes) (buf : WriteBuffer)
    {d : Disk} (hd : d.Calm) {h : ℕ} (hbuf : buf.file = some h) (f : FileId) (old x : Bytes)
    (n : ℕ) :
    deliverChunks maxBufferSize chunks buf (d.written h f old x n) =
      .ok (true,
        { buf with
          fileSize := buf.fileSize + chunks.flatten.length
          currentSize := buf.currentSize + chunks.flatten.length },
        d.written h f old (x ++ chunks.flatten) (n + chunks.length)) := by
  induction chunks generalizing buf x n with
  | nil => simp [deliverChunks]
  | cons ptr chunks ih =>
    have hcall : mfsBufferGetWriteCallback maxBufferSize ptr buf (d.written h f old x n) =
        .ok (ptr.length,
          { buf with
            fileSize := buf.fileSize + ptr.length
            currentSize := buf.currentSize + ptr.length },
          d.written h f old (x ++ ptr) (n + 1)) := by
      unfold mfsBufferGetWriteCallback
      simp only [hbuf, aprFileWriteFull_written hd]
    rw [deliverChunks, hcall]
    simp only [if_true]
    rw [ih _ (by exact hbuf)]
    simp only [List.flatten_cons, List.length_append, List.length_cons, List.append_assoc,
      Nat.add_assoc, Nat.add_comm 1]

/-- A transfer that fits in memory. -/
theorem deliverChunks_memory (maxBufferSize : ℕ) (chunks : List Bytes) (buf : WriteBuffer)
    (d : Disk) (hbuf : buf.file = none)
    (hfits : buf.currentSize + chunks.flatten.length ≤ maxBufferSize) :
    deliverChunks maxBufferSize chunks buf d =
      .ok (true,
        { buf with
          brigade := buf.brigade ++ chunks.map .memory
          currentSize := buf.currentSize + chunks.flatten.length }, d) := by
  induction chunks generalizing buf with
  | nil => simp [deliverChunks]
  | cons ptr chunks ih =>
    rw [List.flatten_cons, List.length_append] at hfits
    have hcall : mfsBufferGetWriteCallback maxBufferSize ptr buf d =
        .ok (ptr.length,
          { buf with
            brigade := buf.brigade ++ [.memory ptr]
            currentSize := buf.currentSize + ptr.length }, d) := by
      unfold mfsBufferGetWriteCallback
      simp only [hbuf]
      rw [if_neg (by omega)]
    rw [deliverChunks, hcall]
    simp only [if_true]
    rw [ih _ (by exact hbuf) (by simp only; omega)]
    simp only [List.flatten_cons, List.length_append, List.map_cons, List.append_assoc,
      List.singleton_append, Nat.add_assoc]

/-- What is kept in memory goes into the file first. -/
theorem copyBuckets_written {d : Disk} (hd : d.Calm) (h : ℕ) (f : FileId) (chunks : List Bytes)
    (fileSize : ℕ) (old x : Bytes) (n : ℕ) :
    copyBuckets h (chunks.map .memory) fileSize (d.written h f old x n) =
      (true, fileSize + chunks.flatten.length,
        d.written h f old (x ++ chunks.flatten) (n + 2 * chunks.length)) := by
  induction chunks generalizing fileSize x n with
  | nil => simp [copyBuckets]
  | cons ptr chunks ih =>
    have hrv : (d.written h f old x n).io.head.rv = .success := (hd.written h f old x n).head
    have hread : ({ d.written h f old x n with io := (d.written h f old x n).io.tail } : Disk) =
        d.written h f old x (n + 1) := by
      unfold Disk.written
      rw [Stream'.tail_drop']
    rw [List.map_cons, copyBuckets]
    simp only [Disk.outcome, hrv, hread, ne_eq, not_true_eq_false, if_false, Bucket.bytes,
      aprFileWriteFull_written hd]
    rw [ih]
    simp only [List.flatten_cons, List.length_append, List.length_cons, List.append_assoc,
      Nat.add_assoc]
    congr 4
    omega

/-! ## The transfer that does not fit in memory -/

/-- The file that a transfer opens when it does not fit in memory. -/
def Disk.spillFile (d : Disk) : Option Bytes → FileId
  | none => .temp d.nextTemp
  | some path => .named path

/-- What that file holds when it is opened; a file opened by name is not truncated. -/
def Disk.spillContent (d : Disk) : Option Bytes → Bytes
  | none => []
  | some path => d.content (.named path)

/-- The disk `d'` after that file has been opened on `d`. -/
structure Disk.Opened (d : Disk) (destinationFilePath : Option Bytes) (d' : Disk) : Prop where
  calm : d'.Calm
  handle : d'.handles d.nextHandle = ⟨d.spillFile destinationFilePath, 0⟩
  content : d'.content =
    update d.content (d.spillFile destinationFilePath) (d.spillContent destinationFilePath)
  nextTemp : destinationFilePath = none → d'.nextTemp = d.nextTemp + 1

theorem lastSlashFrom_getD {path : Bytes} {n i : ℕ} (h : lastSlashFrom path n = some i) :
    path.getD i 0 = ch '/' := by
  induction n with
  | zero => simp [lastSlashFrom] at h
  | succ n ih =>
    rw [lastSlashFrom] at h
    split_ifs at h with hn
    · obtain rfl : n + 1 = i := by simpa using h
      exact hn
    · exact ih h

/-- Taking the last slash out and putting it back leaves the path as it was. -/
theorem set_lastSlash {path : Bytes} {i : ℕ} (h : lastSlash path = some i) :
    (path.set i 0).set i (ch '/') = path := by
  have hget : path.getD i 0 = ch '/' := lastSlashFrom_getD h
  have hi : i < path.length := by
    by_contra hi
    rw [List.getD_eq_default _ _ (by omega)] at hget
    exact absurd hget (by decide)
  rw [List.getD_eq_getElem _ _ hi] at hget
  rw [List.set_set, ← hget, List.set_getElem_self]

theorem openSpillFile_opened (buf : WriteBuffer) {d : Disk} (hd : d.Calm)
    (hslash : ∀ path, buf.destinationFilePath = some path → lastSlash path ≠ none) :
    ∃ d', openSpillFile buf d = .ok (some d.nextHandle, buf, d') ∧
      d.Opened buf.destinationFilePath d' := by
  cases hdest : buf.destinationFilePath with
  | none =>
    refine ⟨(aprFileMktemp d).2, ?_, ?_⟩
    · unfold openSpillFile aprFileMktemp Disk.outcome
      simp only [hdest, hd.head, if_true]
    · unfold aprFileMktemp Disk.outcome
      simp only [hd.head, if_true]
      exact ⟨hd.of_drop (n := 1) rfl, update_self .., rfl, fun _ => rfl⟩
  | some path =>
    obtain ⟨i, hi⟩ := Option.ne_none_iff_exists'.mp (hslash path hdest)
    have hmade : (aprDirMakeRecursive d (cstr (path.set i 0))).Calm := hd.of_drop (n := 1) rfl
    have hbuf : { buf with destinationFilePath := some path } = buf := by rw [← hdest]
    refine ⟨(aprFileOpen (aprDirMakeRecursive d (cstr (path.set i 0))) path).2, ?_, ?_⟩
    · unfold openSpillFile
      simp only [hdest, hi, set_lastSlash hi, hbuf]
      unfold aprFileOpen Disk.outcome
      simp only [hmade.head, if_true]
      rfl
    · unfold aprFileOpen Disk.outcome
      simp only [hmade.head, if_true]
      exact ⟨hd.of_drop (n := 2) rfl, update_self .., (update_eq_self _ _).symm, nofun⟩

/-- The chunk with which a transfer no longer fits. -/
theorem exists_spilling_chunk {maxBufferSize : ℕ} {chunks : List Bytes}
    (h : maxBufferSize < chunks.flatten.length) :
    ∃ kept ptr rest, chunks = kept ++ ptr :: rest ∧ kept.flatten.length ≤ maxBufferSize ∧
      maxBufferSize < kept.flatten.length + ptr.length := by
  induction chunks using List.reverseRecOn with
  | nil => simp at h
  | append_singleton chunks ptr ih =>
    by_cases hfits : chunks.flatten.length ≤ maxBufferSize
    · refine ⟨chunks, ptr, [], rfl, hfits, ?_⟩
      simpa using h
    · obtain ⟨kept, c, rest, hsplit, hkept, hc⟩ := ih (by omega)
      exact ⟨kept, c, rest ++ [ptr], by rw [hsplit]; simp, hkept, hc⟩

/-- Without a slash in the destination path the transfer goes through NULL. -/
theorem deliverChunks_noSlash {maxBufferSize : ℕ} (chunks : List Bytes) (brigade : List Bucket)
    (dontWantBrigade : Bool) {path : Bytes} (d : Disk) (hslash : lastSlash path = none)
    (h : maxBufferSize < chunks.flatten.length) :
    ∃ d', deliverChunks maxBufferSize chunks ⟨brigade, dontWantBrigade, 0, 0, none, some path⟩ d =
      .error d' := by
  obtain ⟨kept, ptr, rest, rfl, hkept, hptr⟩ := exists_spilling_chunk h
  rw [deliverChunks_append _ _ _ _ _ (deliverChunks_memory _ _ _ d rfl (by simpa using hkept)),
    deliverChunks]
  unfold mfsBufferGetWriteCallback openSpillFile
  simp only [hslash]
  rw [if_pos (by omega)]
  exact ⟨_, rfl⟩

/-- The chunks `kept` stay in memory; all the bytes go into the file, or only those
    behind `kept` when the caller wants a brigade. -/
theorem deliverChunks_spill {maxBufferSize : ℕ} {chunks : List Bytes} (brigade : List Bucket)
    (dontWantBrigade : Bool) {destinationFilePath : Option Bytes} {d : Disk} (hd : d.Calm)
    (hown : dontWantBrigade = true → brigade = [])
    (hslash : ∀ path, destinationFilePath = some path → lastSlash path ≠ none)
    (h : maxBufferSize < chunks.flatten.length) :
    ∃ kept rest d' n, chunks = kept ++ rest ∧ d.Opened destinationFilePath d' ∧
      deliverChunks maxBufferSize chunks
          ⟨brigade, dontWantBrigade, 0, 0, none, destinationFilePath⟩ d =
        .ok (true,
          ⟨brigade ++ kept.map .memory, dontWantBrigade, chunks.flatten.length,
            (if dontWantBrigade then chunks else rest).flatten.length, some d.nextHandle,
            destinationFilePath⟩,
          d'.written d.nextHandle (d.spillFile destinationFilePath)
            (d.spillContent destinationFilePath)
            (if dontWantBrigade then chunks else rest).flatten n) := by
  obtain ⟨kept, ptr, rest, rfl, hkept, hptr⟩ := exists_spilling_chunk h
  obtain ⟨d', hopen, hopened⟩ := openSpillFile_opened
    (⟨brigade ++ kept.map .memory, dontWantBrigade, kept.flatten.length, 0, none,
      destinationFilePath⟩) hd hslash
  have hstart := Disk.written_nil hopened.handle
  rw [show d'.content (d.spillFile destinationFilePath) = d.spillContent destinationFilePath by
    rw [hopened.content, update_self]] at hstart
  refine ⟨kept, ptr :: rest, d', ?_⟩
  cases dontWantBrigade with
  | true =>
    obtain rfl := hown rfl
    refine ⟨2 * kept.length + 1 + rest.length, rfl, hopened, ?_⟩
    rw [deliverChunks_append _ _ _ _ _ (deliverChunks_memory _ _ _ d rfl (by simpa using hkept)),
      deliverChunks]
    unfold mfsBufferGetWriteCallback
    simp only [Nat.zero_add, List.nil_append] at hopen ⊢
    rw [if_pos (by omega), hopen]
    simp only [if_true]
    rw [← hstart, copyBuckets_written hopened.calm]
    simp only [Bool.not_true, if_false, Bool.false_eq_true, aprFileWriteFull_written hopened.calm,
      ne_eq, not_true_eq_false, if_true]
    rw [deliverChunks_file _ _ _ hopened.calm rfl, hstart]
    simp [Nat.add_assoc]
  | false =>
    refine ⟨1 + rest.length, rfl, hopened, ?_⟩
    rw [deliverChunks_append _ _ _ _ _ (deliverChunks_memory _ _ _ d rfl (by simpa using hkept)),
      deliverChunks]
    unfold mfsBufferGetWriteCallback
    simp only [Nat.zero_add] at hopen ⊢
    rw [if_pos (by omega), hopen]
    simp only [Bool.false_eq_true, if_false, Bool.not_true]
    rw [← hstart, aprFileWriteFull_written hopened.calm]
    simp only [ne_eq, not_true_eq_false, if_true, if_false]
    rw [deliverChunks_file _ _ _ hopened.calm rfl, hstart]
    simp [Nat.add_assoc]

/-! ## `mfs_file_server_get` -/

/-- The URL can be used, and a connection to its server is had: bytes are transferred. -/
def FilePath.reached (p : FilePath) : Bool :=
  (match p.uri with
    | .error _ => false
    | .ok uri => uri.usable) &&
  decide (p.server.getFileServer = .success) && decide (p.server.acquire = .success)

theorem FilePath.reached_iff {p : FilePath} :
    p.reached ↔ (∃ uri, p.uri = .ok uri ∧ uri.usable) ∧ p.server.getFileServer = .success ∧
      p.server.acquire = .success := by
  unfold FilePath.reached
  cases p.uri with
  | error rv => simp
  | ok uri => simp [and_assoc]

/-- All the bytes of the transfer. -/
def FilePath.body (p : FilePath) : Bytes := p.transfer.chunks.flatten

/-- The status of an attempt that was not aborted by the callback, and `*total_bytes`. -/
structure Transferred (p : FilePath) (rv : AprStatus) (st : DownloadState) : Prop where
  status : rv = .success ↔ p.transfer.completed
  totalBytes : p.transfer.completed → st.totalBytes = some p.body.length

/-- `rv` after `curl_easy_perform` (lines 235–248). -/
theorem transferStatus_eq_success_iff (completed : Bool) (settle : AprStatus) :
    (if completed then .success else if settle ≠ .success then settle else .egeneral) =
      AprStatus.success ↔ completed := by
  cases completed with
  | true => simp
  | false =>
    by_cases h : settle = .success
    · simp [h]
    · simp [h]

/-- A path that is reached goes to libcurl. -/
theorem mfsFileServerGet_reached {p : FilePath} (hp : p.reached) (maxBufferSize : ℕ)
    (destinationFilePath : Option Bytes) (st : DownloadState) {buf : WriteBuffer} {d : Disk}
    (h : deliverChunks maxBufferSize p.transfer.chunks (writeBufferFor st destinationFilePath)
      st.disk = .ok (true, buf, d)) :
    ∃ rv reslist totalBytes,
      mfsFileServerGet maxBufferSize p destinationFilePath st =
        (match st.file, st.brigade with
          | some h, _ => .ok (rv, finishFile buf h d { st with reslist, totalBytes })
          | none, some brigade =>
            .ok (rv, finishBrigade brigade rv buf d { st with reslist, totalBytes })
          | none, none => finishBytes rv buf d { st with reslist, totalBytes }) ∧
      (rv = .success ↔ p.transfer.completed) ∧
      (p.transfer.completed → totalBytes = some buf.currentSize) := by
  obtain ⟨-, hserver⟩ := FilePath.reached_iff.mp hp
  let rv : AprStatus :=
    if p.transfer.completed then .success
    else if p.server.settle ≠ .success then p.server.settle else .egeneral
  have hrv : rv = .success ↔ p.transfer.completed := transferStatus_eq_success_iff _ _
  refine ⟨rv, st.reslist ++ [.acquired, if p.transfer.completed then .released p.server.settle
      else .invalidated p.server.settle],
    if rv = .success then some buf.currentSize else st.totalBytes, ?_, hrv, fun hc => ?_⟩
  · unfold mfsFileServerGet curlEasyPerform
    simp only [hserver.1, hserver.2, h, ne_eq, not_true_eq_false, if_false, Bool.true_and]
    rfl
  · rw [if_pos (hrv.mpr hc)]

/-- The file is written over from its start, and stands at its start again. -/
theorem mfsFileServerGet_file {p : FilePath} (hp : p.reached) (maxBufferSize : ℕ)
    (destinationFilePath : Option Bytes) (st : DownloadState) {h : ℕ} {f : FileId}
    (hd : st.disk.Calm) (hfile : st.file = some h) (hh : st.disk.handles h = ⟨f, 0⟩) :
    ∃ rv st', mfsFileServerGet maxBufferSize p destinationFilePath st = .ok (rv, st') ∧
      Transferred p rv st' ∧ st'.disk.Calm ∧ st'.file = some h ∧ st'.bytes = st.bytes ∧
      st'.disk.handles h = ⟨f, 0⟩ ∧
      st'.disk.content f = overlay (st.disk.content f) p.body := by
  have hdeliver := deliverChunks_file maxBufferSize p.transfer.chunks
    (writeBufferFor st destinationFilePath) hd (h := h) (by simp [writeBufferFor, hfile]) f
    (st.disk.content f) [] 0
  rw [Disk.written_nil hh, List.nil_append] at hdeliver
  obtain ⟨rv, reslist, totalBytes, hget, hrv, htotal⟩ :=
    mfsFileServerGet_reached hp maxBufferSize destinationFilePath st hdeliver
  have hsize : (writeBufferFor st destinationFilePath).currentSize = 0 := by
    simp [writeBufferFor, hfile]
  simp only [hfile, hsize, Nat.zero_add] at hget htotal
  obtain ⟨hcalm, hhandle, hcontent⟩ := rewindWritten_written hd
    ({ writeBufferFor st destinationFilePath with
      fileSize := (writeBufferFor st destinationFilePath).fileSize +
        p.transfer.chunks.flatten.length
      currentSize := p.transfer.chunks.flatten.length }) h f (st.disk.content f)
    (0 + p.transfer.chunks.length) rfl
  rw [Nat.zero_add] at hcalm hhandle hcontent
  refine ⟨rv, _, hget, ⟨hrv, htotal⟩, hcalm, rfl, rfl, hhandle, ?_⟩
  rw [finishFile, hcontent, update_self]
  rfl

/-- Without a file and a brigade, a transfer that fits gives the caller its bytes. -/
theorem mfsFileServerGet_bytes {p : FilePath} (hp : p.reached) {maxBufferSize : ℕ}
    (destinationFilePath : Option Bytes) (st : DownloadState) (hd : st.disk.Calm)
    (hfile : st.file = none) (hbrigade : st.brigade = none) (hbytes : st.bytes = some none)
    (hfits : p.body.length ≤ maxBufferSize) :
    ∃ rv st', mfsFileServerGet maxBufferSize p destinationFilePath st = .ok (rv, st') ∧
      Transferred p rv st' ∧ st'.disk.Calm ∧ st'.file = none ∧ st'.brigade = none ∧
      st'.bytes = some (if p.transfer.completed then some p.body else none) ∧
      st'.disk.content = st.disk.content := by
  have hbuf : writeBufferFor st destinationFilePath =
      ⟨[], true, 0, 0, none, destinationFilePath⟩ := by simp [writeBufferFor, hfile, hbrigade]
  have hdeliver := deliverChunks_memory maxBufferSize p.transfer.chunks
    (writeBufferFor st destinationFilePath) st.disk (by rw [hbuf])
    (by rw [hbuf, Nat.zero_add]; exact hfits)
  obtain ⟨rv, reslist, totalBytes, hget, hrv, htotal⟩ :=
    mfsFileServerGet_reached hp maxBufferSize destinationFilePath st hdeliver
  simp only [hfile, hbrigade, hbuf, List.nil_append, Nat.zero_add, finishBytes, hbytes,
    Disk.outcome, hd.head, ne_eq, ite_not, if_true] at hget htotal
  by_cases hc : p.transfer.completed
  · rw [if_pos (hrv.mpr hc), brigadeBytes_memory] at hget
    refine ⟨rv, _, hget, ⟨hrv, fun _ => rfl⟩, hd.of_drop (n := 2) rfl, rfl, rfl, ?_, rfl⟩
    rw [if_pos hc, FilePath.body]
  · rw [if_neg (fun h => hc (hrv.mp h))] at hget
    refine ⟨rv, _, hget, ⟨hrv, htotal⟩, hd.of_drop (n := 1) rfl, rfl, rfl, ?_, rfl⟩
    rw [if_neg hc]

/-- Without a file and a brigade, the file of a transfer that does not fit is given to
    the caller when the transfer is completed; its bytes stay in the file either way. -/
theorem mfsFileServerGet_spilled {p : FilePath} (hp : p.reached) {maxBufferSize : ℕ}
    {destinationFilePath : Option Bytes} (st : DownloadState) (hd : st.disk.Calm)
    (hfile : st.file = none) (hbrigade : st.brigade = none) (hbytes : st.bytes = some none)
    (hslash : ∀ path, destinationFilePath = some path → lastSlash path ≠ none)
    (hspills : maxBufferSize < p.body.length) :
    ∃ rv st', mfsFileServerGet maxBufferSize p destinationFilePath st = .ok (rv, st') ∧
      Transferred p rv st' ∧ st'.disk.Calm ∧ st'.brigade = none ∧ st'.bytes = some none ∧
      st'.file = (if p.transfer.completed then some st.disk.nextHandle else none) ∧
      (p.transfer.completed →
        st'.disk.handles st.disk.nextHandle = ⟨st.disk.spillFile destinationFilePath, 0⟩) ∧
      st'.disk.content (st.disk.spillFile destinationFilePath) =
        overlay (st.disk.spillContent destinationFilePath) p.body := by
  have hbuf : writeBufferFor st destinationFilePath =
      ⟨[], true, 0, 0, none, destinationFilePath⟩ := by simp [writeBufferFor, hfile, hbrigade]
  obtain ⟨kept, rest, d', n, -, hopened, hdeliver⟩ := deliverChunks_spill [] true hd
    (fun _ => rfl) hslash hspills
  rw [← hbuf] at hdeliver
  obtain ⟨rv, reslist, totalBytes, hget, hrv, htotal⟩ :=
    mfsFileServerGet_reached hp maxBufferSize destinationFilePath st hdeliver
  simp only [hfile, hbrigade, finishBytes, Disk.outcome, if_true, ne_eq, ite_not] at hget htotal
  by_cases hc : p.transfer.completed
  · rw [if_pos (hrv.mpr hc)] at hget
    obtain ⟨hcalm, hhandle, hcontent⟩ := rewindWritten_written hopened.calm
      (⟨[] ++ kept.map .memory, true, p.transfer.chunks.flatten.length,
        p.transfer.chunks.flatten.length, some st.disk.nextHandle, destinationFilePath⟩)
      st.disk.nextHandle (st.disk.spillFile destinationFilePath)
      (st.disk.spillContent destinationFilePath) n rfl
    refine ⟨rv, _, hget, ⟨hrv, htotal⟩, hcalm.of_drop (n := 1) rfl, rfl, hbytes, ?_,
      fun _ => hhandle, ?_⟩
    · rw [if_pos hc]
    · rw [hcontent, update_self]
      rfl
  · rw [if_neg (fun h => hc (hrv.mp h))] at hget
    refine ⟨rv, _, hget, ⟨hrv, htotal⟩, hopened.calm.of_drop (n := n + 1) (by simp [Disk.written]), rfl,
      hbytes, ?_, fun h => absurd h hc, update_self ..⟩
    rw [if_neg hc]

/-! ### With the caller's brigade -/

/-- The temporary files of the buckets have been created. -/
def Disk.Holds (d : Disk) (brigade : List Bucket) : Prop :=
  ∀ n length, Bucket.file (.temp n) length ∈ brigade → n < d.nextTemp

/-- The bytes of a brigade depend on the files of its buckets only. -/
theorem brigadeBytes_congr {d d' : Disk} {brigade : List Bucket}
    (h : ∀ id length, Bucket.file id length ∈ brigade → d'.content id = d.content id) :
    brigadeBytes d' brigade = brigadeBytes d brigade := by
  refine List.flatMap_congr fun b hb => ?_
  cases b with
  | memory data => rfl
  | file id length => rw [Bucket.bytes, Bucket.bytes, h id length hb]

/-- A new temporary file is no part of a brigade. -/
theorem brigadeBytes_update {d d' : Disk} {brigade : List Bucket} (h : d.Holds brigade)
    {x : Bytes} (hcontent : d'.content = update d.content (.temp d.nextTemp) x) :
    brigadeBytes d' brigade = brigadeBytes d brigade := by
  refine brigadeBytes_congr fun id length hb => ?_
  have hid : id ≠ .temp d.nextTemp := by
    rintro rfl
    exact absurd (h _ _ hb) (lt_irrefl _)
  rw [hcontent, update_of_ne hid]

theorem Disk.Holds.append_memory {d : Disk} {brigade : List Bucket} (h : d.Holds brigade)
    (chunks : List Bytes) : d.Holds (brigade ++ chunks.map .memory) := by
  intro n length hmem
  rcases List.mem_append.mp hmem with hmem | hmem
  · exact h n length hmem
  · simp at hmem

/-- Chunks in memory and the file that holds the rest. -/
theorem brigadeBytes_spilled {d : Disk} {f : FileId} {rest : List Bytes}
    (hcontent : d.content f = rest.flatten) (kept : List Bytes) :
    brigadeBytes d (kept.map .memory ++ [.file f rest.flatten.length]) =
      (kept ++ rest).flatten := by
  have hfile : brigadeBytes d [.file f rest.flatten.length] = rest.flatten := by
    simp [brigadeBytes, Bucket.bytes, hcontent]
  rw [brigadeBytes_append, brigadeBytes_memory, hfile, List.flatten_append]

/-- The brigade gains the body of a completed transfer, and nothing from another. -/
theorem mfsFileServerGet_brigade {p : FilePath} (hp : p.reached) (maxBufferSize : ℕ)
    (st : DownloadState) {brigade : List Bucket} (hd : st.disk.Calm) (hfile : st.file = none)
    (hbrigade : st.brigade = some brigade) (hholds : st.disk.Holds brigade) :
    ∃ rv st' brigade', mfsFileServerGet maxBufferSize p none st = .ok (rv, st') ∧
      Transferred p rv st' ∧ st'.disk.Calm ∧ st'.file = none ∧ st'.bytes = st.bytes ∧
      st'.brigade = some brigade' ∧ st'.disk.Holds brigade' ∧
      brigadeBytes st'.disk brigade' =
        brigadeBytes st.disk brigade ++ if p.transfer.completed then p.body else [] := by
  have hbuf : writeBufferFor st none = ⟨brigade, false, 0, 0, none, none⟩ := by
    simp [writeBufferFor, hfile, hbrigade]
  by_cases hfits : p.body.length ≤ maxBufferSize
  · have hdeliver := deliverChunks_memory maxBufferSize p.transfer.chunks
      (writeBufferFor st none) st.disk (by rw [hbuf]) (by rw [hbuf, Nat.zero_add]; exact hfits)
    obtain ⟨rv, reslist, totalBytes, hget, hrv, htotal⟩ :=
      mfsFileServerGet_reached hp maxBufferSize none st hdeliver
    simp only [hfile, hbrigade, hbuf, Nat.zero_add, finishBrigade, ne_eq, ite_not] at hget htotal
    refine ⟨rv, _, _, hget, ⟨hrv, htotal⟩, hd, rfl, rfl, rfl, ?_⟩
    have hbytes : brigadeBytes st.disk (brigade ++ p.transfer.chunks.map .memory) =
        brigadeBytes st.disk brigade ++ p.body := by
      rw [brigadeBytes_append, brigadeBytes_memory, FilePath.body]
    by_cases hc : p.transfer.completed
    · rw [if_pos (hrv.mpr hc), if_pos hc]
      exact ⟨hholds.append_memory _, hbytes⟩
    · rw [if_neg (fun h => hc (hrv.mp h)), if_neg hc, List.append_nil]
      by_cases hpos : 0 < p.transfer.chunks.flatten.length
      · rw [if_pos hpos]
        exact ⟨hholds, rfl⟩
      · -- empty chunks may stay in the brigade
        have hnil : p.body = [] := List.eq_nil_of_length_eq_zero (by rw [FilePath.body]; omega)
        rw [if_neg hpos]
        exact ⟨hholds.append_memory _, by rw [hbytes, hnil, List.append_nil]⟩
  · obtain ⟨kept, rest, d', n, hchunks, hopened, hdeliver⟩ := deliverChunks_spill brigade false
      hd nofun (fun path (h : none = some path) => by cases h) (lt_of_not_ge hfits)
    rw [← hbuf] at hdeliver
    obtain ⟨rv, reslist, totalBytes, hget, hrv, htotal⟩ :=
      mfsFileServerGet_reached hp maxBufferSize none st hdeliver
    have hpos : 0 < p.transfer.chunks.flatten.length := by
      have : ¬p.transfer.chunks.flatten.length ≤ maxBufferSize := hfits
      omega
    simp only [hfile, hbrigade, finishBrigade, ne_eq, ite_not, hpos, if_true, Disk.written_handles,
      update_self, Bool.false_eq_true, if_false] at hget htotal
    refine ⟨rv, _, _, hget, ⟨hrv, htotal⟩, hopened.calm.written _ _ _ _ _, rfl, rfl, rfl, ?_⟩
    have htemp : (d'.written st.disk.nextHandle (st.disk.spillFile none) (st.disk.spillContent none)
        rest.flatten n).nextTemp = st.disk.nextTemp + 1 := by
      rw [Disk.written_nextTemp, hopened.nextTemp rfl]
    have hcontent : (d'.written st.disk.nextHandle (st.disk.spillFile none)
        (st.disk.spillContent none) rest.flatten n).content =
          update st.disk.content (.temp st.disk.nextTemp) rest.flatten := by
      rw [Disk.written_content, hopened.content]
      simp [Disk.spillFile, Disk.spillContent]
    generalize d'.written st.disk.nextHandle (st.disk.spillFile none) (st.disk.spillContent none)
      rest.flatten n = d1 at htemp hcontent ⊢
    have hheld : d1.Holds brigade := fun k length hmem => by
      have := hholds k length hmem
      omega
    have hold : brigadeBytes d1 brigade = brigadeBytes st.disk brigade :=
      brigadeBytes_update hholds hcontent
    by_cases hc : p.transfer.completed
    · rw [if_pos (hrv.mpr hc), if_pos hc]
      constructor
      · intro k length hmem
        rcases List.mem_append.mp hmem with hmem | hmem
        · exact hheld.append_memory _ k length hmem
        · simp only [Disk.spillFile, List.mem_singleton, Bucket.file.injEq, FileId.temp.injEq] at hmem
          show k < d1.nextTemp
          omega
      · have hfile : d1.content (st.disk.spillFile none) = rest.flatten := by
          rw [hcontent, Disk.spillFile, update_self]
        rw [List.append_assoc, brigadeBytes_append, hold, brigadeBytes_spilled hfile,
          FilePath.body, hchunks]
    · rw [if_neg (fun h => hc (hrv.mp h)), if_neg hc, List.append_nil]
      exact ⟨hheld, hold⟩

end MogileFs
