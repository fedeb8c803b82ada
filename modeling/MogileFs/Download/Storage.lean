import MogileFs.Download.Content

/-!
# Where the bytes of a transfer are kept

The write callback of `src/file_download.c` (lines 83–156) keeps what fits in memory and goes over
to a file in the middle of a transfer; `mfs_file_server_get` (lines 178–195 and 249–306) hands
over what it finds in the end. This file is about one transfer that succeeds, whatever
destination path it is given.

Results:
* `mfsFileServerGet_cases`: what a returned status says about the transfer.
* `mfsFileServerGet_delivers`: after a success the caller has exactly the bytes of the chunks, in
  the file, in the brigade or in memory.
-/

namespace MogileFs

open Overlays Function

/-! ## A call that returned -/

/-- `rv` after `curl_easy_perform` (lines 235–248). -/
def transferStatus (ok : Bool) (settle : AprStatus) : AprStatus :=
  if ok then .success else if settle ≠ .success then settle else .egeneral

/-- The state the epilogue starts from (lines 235–251). -/
def DownloadState.transferred (st : DownloadState) (ok : Bool) (settle : AprStatus)
    (buf : WriteBuffer) : DownloadState :=
  { st with
    reslist := st.reslist ++ [.acquired, if ok then .released settle else .invalidated settle]
    totalBytes := if transferStatus ok settle = .success then some buf.currentSize
      else st.totalBytes }

/-- The epilogue (lines 252–306). -/
def finishTransfer (rv : AprStatus) (buf : WriteBuffer) (d : Disk) (st : DownloadState) :
    Except Disk (AprStatus × DownloadState) :=
  match st.file, st.brigade with
  | some h, _ => .ok (rv, finishFile buf h d st)
  | none, some brigade => .ok (rv, finishBrigade brigade rv buf d st)
  | none, none => finishBytes rv buf d st

theorem transferStatus_ne_success {settle : AprStatus} :
    transferStatus false settle ≠ .success :=
  fun h => Bool.false_ne_true ((transferStatus_eq_success_iff false settle).mp h)

/-- The file server is known and has a connection. -/
def ServerOutcome.Had (server : ServerOutcome) : Prop :=
  server.getFileServer = .success ∧ server.acquire = .success

instance (server : ServerOutcome) : Decidable server.Had :=
  inferInstanceAs (Decidable (_ ∧ _))

/-- Either the server could not be had, and nothing was touched, or the chunks went to the
    callback. -/
theorem mfsFileServerGet_cases {maxBufferSize : ℕ} {p : FilePath}
    {destinationFilePath : Option Bytes} {st st' : DownloadState} {rv : AprStatus}
    (h : mfsFileServerGet maxBufferSize p destinationFilePath st = .ok (rv, st')) :
    ¬p.server.Had ∧ rv ≠ .success ∧ st' = st ∨
      p.server.Had ∧ ∃ taken buf d,
        deliverChunks maxBufferSize p.transfer.chunks (writeBufferFor st destinationFilePath)
          st.disk = .ok (taken, buf, d) ∧
        finishTransfer (transferStatus (taken && p.transfer.completed) p.server.settle) buf d
          (st.transferred (taken && p.transfer.completed) p.server.settle buf) = .ok (rv, st') := by
  unfold mfsFileServerGet at h
  by_cases hserver : p.server.getFileServer = .success
  · by_cases hacquire : p.server.acquire = .success
    · rw [if_neg (not_not_intro hserver), if_neg (not_not_intro hacquire)] at h
      unfold curlEasyPerform at h
      cases hdeliver : deliverChunks maxBufferSize p.transfer.chunks
          (writeBufferFor st destinationFilePath) st.disk with
      | error d =>
        rw [hdeliver] at h
        simp at h
      | ok result =>
        obtain ⟨taken, buf, d⟩ := result
        rw [hdeliver] at h
        exact .inr ⟨⟨hserver, hacquire⟩, taken, buf, d, rfl, h⟩
    · rw [if_neg (not_not_intro hserver), if_pos hacquire] at h
      simp only [Except.ok.injEq, Prod.mk.injEq] at h
      obtain ⟨rfl, rfl⟩ := h
      exact .inl ⟨fun hhad => hacquire hhad.2, hacquire, rfl⟩
  · rw [if_pos hserver] at h
    simp only [Except.ok.injEq, Prod.mk.injEq] at h
    obtain ⟨rfl, rfl⟩ := h
    exact .inl ⟨fun hhad => hserver hhad.1, by decide, rfl⟩

/-- The epilogue does not turn a failure into a success. -/
theorem finishTransfer_success {rv : AprStatus} {buf : WriteBuffer} {d : Disk}
    {st st' : DownloadState} (h : finishTransfer rv buf d st = .ok (.success, st')) :
    rv = .success := by
  unfold finishTransfer at h
  by_contra hrv
  cases hfile : st.file with
  | some file =>
    simp only [hfile, Except.ok.injEq, Prod.mk.injEq] at h
    exact hrv h.1
  | none =>
    cases hbrigade : st.brigade with
    | some brigade =>
      simp only [hfile, hbrigade, Except.ok.injEq, Prod.mk.injEq] at h
      exact hrv h.1
    | none =>
      simp only [hfile, hbrigade, finishBytes, ne_eq, hrv, not_false_eq_true, if_true,
        Except.ok.injEq, Prod.mk.injEq, false_and] at h

/-- The callback took every chunk, and `*total_bytes` was set to what it counted. -/
theorem mfsFileServerGet_success {maxBufferSize : ℕ} {p : FilePath}
    {destinationFilePath : Option Bytes} {st st' : DownloadState}
    (h : mfsFileServerGet maxBufferSize p destinationFilePath st = .ok (.success, st')) :
    ∃ buf d,
      deliverChunks maxBufferSize p.transfer.chunks (writeBufferFor st destinationFilePath)
        st.disk = .ok (true, buf, d) ∧
      finishTransfer .success buf d (st.transferred true p.server.settle buf) =
        .ok (.success, st') := by
  rcases mfsFileServerGet_cases h with ⟨-, hrv, -⟩ | ⟨-, taken, buf, d, hdeliver, hfinish⟩
  · exact absurd rfl hrv
  · have hok : (taken && p.transfer.completed) = true := by
      by_contra hok
      rw [Bool.eq_false_of_not_eq_true hok] at hfinish
      exact transferStatus_ne_success (finishTransfer_success hfinish)
    obtain ⟨rfl, -⟩ := Bool.and_eq_true_iff.mp hok
    rw [hok] at hfinish
    exact ⟨buf, d, hdeliver, hfinish⟩

/-! ## What the caller has -/

/-- Some beginning of the chunks is longer than `max_buffer_size`. -/
def Crosses (maxBufferSize : ℕ) (chunks : List Bytes) : Prop :=
  ∃ k, maxBufferSize < (chunks.take k).flatten.length

theorem crosses_iff {maxBufferSize : ℕ} {chunks : List Bytes} :
    Crosses maxBufferSize chunks ↔ maxBufferSize < chunks.flatten.length := by
  constructor
  · rintro ⟨k, hk⟩
    have hsplit := congrArg (fun l => (List.flatten l).length) (List.take_append_drop k chunks)
    simp only [List.flatten_append, List.length_append] at hsplit
    omega
  · exact fun h => ⟨chunks.length, by rwa [List.take_length]⟩

/-- All the bytes are in the caller's file, which stands at its start. -/
structure DeliveredToFile (p : FilePath) (st st' : DownloadState) (h : ℕ) : Prop where
  file : st'.file = some h
  handle : st'.disk.handles h = ⟨(st.disk.handles h).file, 0⟩
  content : st'.disk.content (st.disk.handles h).file = p.body

/-- The brigade has the chunks behind what it held: those in memory, and one file bucket for the
    rest when the threshold was crossed. -/
structure DeliveredToBrigade (maxBufferSize : ℕ) (p : FilePath) (st st' : DownloadState)
    (brigade : List Bucket) (spill : FileId) (kept rest : List Bytes) (last : List Bucket) :
    Prop where
  buckets : st'.brigade = some (brigade ++ kept.map .memory ++ last)
  chunks : p.transfer.chunks = kept ++ rest
  fits : ¬Crosses maxBufferSize p.transfer.chunks → rest = [] ∧ last = []
  crosses : Crosses maxBufferSize p.transfer.chunks →
    last = [.file spill rest.flatten.length] ∧ st'.disk.content spill = rest.flatten
  added : brigadeBytes st'.disk (kept.map .memory ++ last) = p.body
  initial : (∀ length, Bucket.file spill length ∉ brigade) →
    brigadeBytes st'.disk brigade = brigadeBytes st.disk brigade

/-- All the bytes are in `*bytes`, or in the file that `*file` points to, which stands at its
    start. -/
structure DeliveredAsBytes (maxBufferSize : ℕ) (p : FilePath) (st st' : DownloadState)
    (spill : FileId) : Prop where
  fits : ¬Crosses maxBufferSize p.transfer.chunks →
    st'.bytes = some (some p.body) ∧ st'.file = none
  crosses : Crosses maxBufferSize p.transfer.chunks → ∃ h,
    st'.file = some h ∧ st'.disk.handles h = ⟨spill, 0⟩ ∧ st'.disk.content spill = p.body

/-- What the caller has, for each way of calling `mfs_file_server_get`. -/
def DeliveredContent (maxBufferSize : ℕ) (p : FilePath) (destinationFilePath : Option Bytes)
    (st st' : DownloadState) : Prop :=
  match st.file, st.brigade with
  | some h, _ => DeliveredToFile p st st' h
  | none, some brigade => ∃ kept rest last, DeliveredToBrigade maxBufferSize p st st' brigade
      (st.disk.spillFile destinationFilePath) kept rest last
  | none, none =>
    DeliveredAsBytes maxBufferSize p st st' (st.disk.spillFile destinationFilePath)

/-- The file that takes the bytes is empty when the call begins. -/
structure StartsEmpty (destinationFilePath : Option Bytes) (st : DownloadState) : Prop where
  caller : ∀ h, st.file = some h →
    (st.disk.handles h).pos = 0 ∧ st.disk.content (st.disk.handles h).file = []
  destination : st.file = none → st.disk.spillContent destinationFilePath = []

/-! ## The three ways -/

theorem mfsFileServerGet_deliversToFile {maxBufferSize : ℕ} {p : FilePath}
    {destinationFilePath : Option Bytes} {st st' : DownloadState} (hd : st.disk.Calm)
    (hempty : StartsEmpty destinationFilePath st) {h : ℕ} (hfile : st.file = some h)
    (hget : mfsFileServerGet maxBufferSize p destinationFilePath st = .ok (.success, st')) :
    st'.totalBytes = some p.body.length ∧ DeliveredToFile p st st' h := by
  obtain ⟨buf, d, hdeliver, hfinish⟩ := mfsFileServerGet_success hget
  obtain ⟨hpos, hcontent⟩ := hempty.caller h hfile
  have hh : st.disk.handles h = ⟨(st.disk.handles h).file, 0⟩ := by rw [← hpos]
  have hwritten := deliverChunks_file maxBufferSize p.transfer.chunks
    (writeBufferFor st destinationFilePath) hd (h := h) (by simp [writeBufferFor, hfile])
    (st.disk.handles h).file (st.disk.content (st.disk.handles h).file) [] 0
  rw [Disk.written_nil hh, List.nil_append, hdeliver] at hwritten
  simp only [Except.ok.injEq, Prod.mk.injEq, true_and] at hwritten
  obtain ⟨rfl, rfl⟩ := hwritten
  have hsize : (writeBufferFor st destinationFilePath).currentSize = 0 := by
    simp [writeBufferFor, hfile]
  simp only [finishTransfer, DownloadState.transferred, hfile, hsize, Nat.zero_add,
    Except.ok.injEq, Prod.mk.injEq, true_and] at hfinish
  subst hfinish
  obtain ⟨-, hhandle, hcontent'⟩ := rewindWritten_written hd
    ({ writeBufferFor st destinationFilePath with
      fileSize := (writeBufferFor st destinationFilePath).fileSize +
        p.transfer.chunks.flatten.length
      currentSize := p.transfer.chunks.flatten.length }) h (st.disk.handles h).file
    (st.disk.content (st.disk.handles h).file) p.transfer.chunks.length rfl
  refine ⟨rfl, rfl, hhandle, ?_⟩
  rw [finishFile, hcontent', update_self, hcontent, nil_overlay]
  rfl

/-- A callback that went through NULL has not delivered the chunks. -/
theorem lastSlash_of_delivered {maxBufferSize : ℕ} {chunks : List Bytes} {brigade : List Bucket}
    {dontWantBrigade : Bool} {destinationFilePath : Option Bytes} {d : Disk}
    {result : Bool × WriteBuffer × Disk}
    (h : deliverChunks maxBufferSize chunks ⟨brigade, dontWantBrigade, 0, 0, none,
      destinationFilePath⟩ d = .ok result) (hspills : maxBufferSize < chunks.flatten.length) :
    ∀ path, destinationFilePath = some path → lastSlash path ≠ none := by
  rintro path rfl hslash
  obtain ⟨d', herror⟩ := deliverChunks_noSlash chunks brigade dontWantBrigade d hslash hspills
  rw [herror] at h
  simp at h

/-- Buckets of other files keep their bytes when one file is written. -/
theorem brigadeBytes_of_update {d d' : Disk} {brigade : List Bucket} {f : FileId} {x : Bytes}
    (hcontent : d'.content = update d.content f x)
    (h : ∀ length, Bucket.file f length ∉ brigade) :
    brigadeBytes d' brigade = brigadeBytes d brigade := by
  refine brigadeBytes_congr fun id length hb => ?_
  have hid : id ≠ f := by
    rintro rfl
    exact h length hb
  rw [hcontent, update_of_ne hid]

theorem mfsFileServerGet_deliversToBrigade {maxBufferSize : ℕ} {p : FilePath}
    {destinationFilePath : Option Bytes} {st st' : DownloadState} (hd : st.disk.Calm)
    (hempty : StartsEmpty destinationFilePath st) (hfile : st.file = none)
    {brigade : List Bucket} (hbrigade : st.brigade = some brigade)
    (hget : mfsFileServerGet maxBufferSize p destinationFilePath st = .ok (.success, st')) :
    st'.totalBytes = some p.body.length ∧
      ∃ kept rest last, DeliveredToBrigade maxBufferSize p st st' brigade
        (st.disk.spillFile destinationFilePath) kept rest last := by
  obtain ⟨buf, d, hdeliver, hfinish⟩ := mfsFileServerGet_success hget
  have hbuf : writeBufferFor st destinationFilePath =
      ⟨brigade, false, 0, 0, none, destinationFilePath⟩ := by
    simp [writeBufferFor, hfile, hbrigade]
  rw [hbuf] at hdeliver
  simp only [finishTransfer, DownloadState.transferred, hfile, hbrigade, finishBrigade,
    Except.ok.injEq, Prod.mk.injEq, true_and, ne_eq, not_true_eq_false, if_false] at hfinish
  by_cases hcrosses : Crosses maxBufferSize p.transfer.chunks
  · have hspills := crosses_iff.mp hcrosses
    obtain ⟨kept, rest, d', n, hchunks, hopened, hwritten⟩ := deliverChunks_spill brigade false
      hd (fun h => by cases h) (lastSlash_of_delivered hdeliver hspills) hspills
    rw [hdeliver] at hwritten
    simp only [Bool.false_eq_true, if_false, Except.ok.injEq, Prod.mk.injEq, true_and]
      at hwritten
    obtain ⟨rfl, rfl⟩ := hwritten
    have hcontent : (d'.written st.disk.nextHandle (st.disk.spillFile destinationFilePath)
        (st.disk.spillContent destinationFilePath) rest.flatten n).content =
          update st.disk.content (st.disk.spillFile destinationFilePath) rest.flatten := by
      rw [Disk.written_content, hopened.content, update_idem, hempty.destination hfile,
        nil_overlay]
    simp only [Disk.written_handles, update_self] at hfinish
    generalize d'.written st.disk.nextHandle (st.disk.spillFile destinationFilePath)
      (st.disk.spillContent destinationFilePath) rest.flatten n = d at hcontent hfinish
    subst hfinish
    refine ⟨rfl, kept, rest, [.file (st.disk.spillFile destinationFilePath) rest.flatten.length],
      ⟨rfl, hchunks, fun h => absurd hcrosses h, fun _ => ⟨rfl, ?_⟩, ?_, ?_⟩⟩
    · rw [hcontent, update_self]
    · have hfile : d.content (st.disk.spillFile destinationFilePath) = rest.flatten := by
        rw [hcontent, update_self]
      rw [brigadeBytes_spilled hfile, FilePath.body, hchunks]
    · exact brigadeBytes_of_update hcontent
  · have hfits := not_lt.mp (mt crosses_iff.mpr hcrosses)
    rw [deliverChunks_memory _ _ _ _ rfl (by simpa using hfits)] at hdeliver
    simp only [Nat.zero_add, Except.ok.injEq, Prod.mk.injEq, true_and] at hdeliver
    obtain ⟨rfl, rfl⟩ := hdeliver
    subst hfinish
    refine ⟨rfl, p.transfer.chunks, [], [], ⟨?_, by simp, fun _ => ⟨rfl, rfl⟩,
      fun h => absurd h hcrosses, ?_, fun _ => rfl⟩⟩
    · rw [List.append_nil]
    · rw [List.append_nil, brigadeBytes_memory, FilePath.body]

theorem mfsFileServerGet_deliversAsBytes {maxBufferSize : ℕ} {p : FilePath}
    {destinationFilePath : Option Bytes} {st st' : DownloadState} (hd : st.disk.Calm)
    (hempty : StartsEmpty destinationFilePath st) (hfile : st.file = none)
    (hbrigade : st.brigade = none)
    (hget : mfsFileServerGet maxBufferSize p destinationFilePath st = .ok (.success, st')) :
    st'.totalBytes = some p.body.length ∧
      DeliveredAsBytes maxBufferSize p st st' (st.disk.spillFile destinationFilePath) := by
  obtain ⟨buf, d, hdeliver, hfinish⟩ := mfsFileServerGet_success hget
  have hbuf : writeBufferFor st destinationFilePath =
      ⟨[], true, 0, 0, none, destinationFilePath⟩ := by
    simp [writeBufferFor, hfile, hbrigade]
  rw [hbuf] at hdeliver
  simp only [finishTransfer, DownloadState.transferred, hfile, hbrigade, finishBytes, ne_eq,
    not_true_eq_false, if_false] at hfinish
  by_cases hcrosses : Crosses maxBufferSize p.transfer.chunks
  · have hspills := crosses_iff.mp hcrosses
    obtain ⟨kept, rest, d', n, -, hopened, hwritten⟩ := deliverChunks_spill [] true hd
      (fun _ => rfl) (lastSlash_of_delivered hdeliver hspills) hspills
    rw [hdeliver] at hwritten
    simp only [if_true, Except.ok.injEq, Prod.mk.injEq, true_and] at hwritten
    obtain ⟨rfl, rfl⟩ := hwritten
    obtain ⟨-, hhandle, hcontent⟩ := rewindWritten_written hopened.calm
      (⟨[] ++ kept.map .memory, true, p.transfer.chunks.flatten.length,
        p.transfer.chunks.flatten.length, some st.disk.nextHandle, destinationFilePath⟩)
      st.disk.nextHandle (st.disk.spillFile destinationFilePath)
      (st.disk.spillContent destinationFilePath) n rfl
    simp only [Except.ok.injEq, Prod.mk.injEq, true_and] at hfinish
    subst hfinish
    refine ⟨rfl, ⟨fun h => absurd hcrosses h, fun _ => ⟨_, rfl, hhandle, ?_⟩⟩⟩
    show (rewindWritten _ _ _).content _ = _
    rw [hcontent, update_self, hempty.destination hfile, nil_overlay]
    rfl
  · have hfits := not_lt.mp (mt crosses_iff.mpr hcrosses)
    rw [deliverChunks_memory _ _ _ _ rfl (by simpa using hfits)] at hdeliver
    simp only [Nat.zero_add, List.nil_append, Except.ok.injEq, Prod.mk.injEq, true_and]
      at hdeliver
    obtain ⟨rfl, rfl⟩ := hdeliver
    cases hbytes : st.bytes with
    | none =>
      -- the bytes would have gone through NULL
      simp [hbytes] at hfinish
    | some old =>
      simp only [hbytes, Disk.outcome, hd.head, if_true, brigadeBytes_memory, Except.ok.injEq,
        Prod.mk.injEq, true_and] at hfinish
      subst hfinish
      exact ⟨rfl, ⟨fun _ => ⟨rfl, rfl⟩, fun h => absurd h hcrosses⟩⟩

/-! ## Every mode -/

/-- After a success `*total_bytes` is the number of bytes of the chunks, and the caller has exactly
    these bytes. -/
theorem mfsFileServerGet_delivers {maxBufferSize : ℕ} {p : FilePath}
    {destinationFilePath : Option Bytes} {st st' : DownloadState} (hd : st.disk.Calm)
    (hempty : StartsEmpty destinationFilePath st)
    (hget : mfsFileServerGet maxBufferSize p destinationFilePath st = .ok (.success, st')) :
    st'.totalBytes = some p.transfer.chunks.flatten.length ∧
      DeliveredContent maxBufferSize p destinationFilePath st st' := by
  unfold DeliveredContent
  cases hfile : st.file with
  | some h => exact mfsFileServerGet_deliversToFile hd hempty hfile hget
  | none =>
    cases hbrigade : st.brigade with
    | some brigade => exact mfsFileServerGet_deliversToBrigade hd hempty hfile hbrigade hget
    | none => exact mfsFileServerGet_deliversAsBytes hd hempty hfile hbrigade hget

/-- A brigade that holds one byte gains two in memory and two in a file. -/
theorem mfsFileServerGet_delivers_crossing :
    ∃ st', mfsFileServerGet 3 (pathWith ⟨200, [str "ab", str "cd"], true⟩) none
        ⟨none, none, none, some [.memory (str "x")], emptyDisk, []⟩ = .ok (.success, st') ∧
      st'.totalBytes = some [str "ab", str "cd"].flatten.length ∧
      DeliveredContent 3 (pathWith ⟨200, [str "ab", str "cd"], true⟩) none
        ⟨none, none, none, some [.memory (str "x")], emptyDisk, []⟩ st' := by
  have hcalm : emptyDisk.Calm := fun _ => rfl
  obtain ⟨rv, st', -, hget, htransferred, -⟩ := mfsFileServerGet_brigade
    (p := pathWith ⟨200, [str "ab", str "cd"], true⟩) (by decide) 3
    ⟨none, none, none, some [.memory (str "x")], emptyDisk, []⟩ hcalm rfl rfl (by simp [Disk.Holds])
  obtain rfl : rv = .success := htransferred.status.mpr rfl
  have hempty : StartsEmpty none
      ⟨none, none, none, some [.memory (str "x")], emptyDisk, []⟩ :=
    ⟨fun h (hfile : none = some h) => absurd hfile (Option.some_ne_none h).symm, fun _ => rfl⟩
  exact ⟨st', hget, mfsFileServerGet_delivers hcalm hempty hget⟩

end MogileFs
