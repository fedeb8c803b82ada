import MogileFs.Download.Transfer

/-!
# What a download delivers after failover

`mfs_file_system_get` tries one path after another. A transfer that fails, or whose
length is not the required one, leaves bytes behind: in the caller's file, in a file
it has handed over, in the destination file, or in the brigade.

Results, when no file operation fails:
* `fileSystemGetLoop_file`, `fileSystemGetLoop_own`, `fileSystemGetLoop_brigade`: what
  the call delivers, for each place the data can go to.
* `exactContent_iff`: that is the body of the first accepted path alone exactly when
  no longer residue stands behind it (`Delivery.ResidueFree`).
-/

namespace MogileFs

open Overlays Function

/-! ## The attempts of a call -/

/-- The transfer is completed, with a length the caller accepts. -/
def FilePath.accepted (requiredLength : ℤ) (p : FilePath) : Bool :=
  p.reached && p.transfer.completed && !wrongLength requiredLength (some p.body.length)

/-- The paths that are reached before the first one whose transfer is accepted. -/
def tried (requiredLength : ℤ) (paths : List FilePath) : List FilePath :=
  (paths.takeWhile fun p => !p.accepted requiredLength).filter FilePath.reached

theorem tried_cons_accepted {requiredLength : ℤ} {p : FilePath} (paths : List FilePath)
    (h : p.accepted requiredLength) : tried requiredLength (p :: paths) = [] := by
  simp [tried, h]

theorem tried_cons_reached {requiredLength : ℤ} {p : FilePath} (paths : List FilePath)
    (h : ¬p.accepted requiredLength) (hp : p.reached) :
    tried requiredLength (p :: paths) = p :: tried requiredLength paths := by
  simp [tried, h, hp]

theorem not_accepted_of_unreached {p : FilePath} (requiredLength : ℤ) (hp : ¬p.reached) :
    ¬p.accepted requiredLength := by
  simp [FilePath.accepted, hp]

theorem tried_cons_unreached {p : FilePath} (requiredLength : ℤ) (paths : List FilePath)
    (hp : ¬p.reached) : tried requiredLength (p :: paths) = tried requiredLength paths := by
  simp [tried, not_accepted_of_unreached requiredLength hp, hp]

/-- The call ends with the first accepted path, after which `delivered` holds, or with
    an error, after which `failed` does. -/
def Settles (requiredLength : ℤ) (paths : List FilePath)
    (result : Except Disk (AprStatus × DownloadState))
    (delivered : FilePath → DownloadState → Prop) (failed : DownloadState → Prop) : Prop :=
  match paths.find? (·.accepted requiredLength) with
  | some p => ∃ st, result = .ok (.success, st) ∧ st.totalBytes = some p.body.length ∧
      delivered p st
  | none => ∃ rv st, result = .ok (rv, st) ∧ rv ≠ .success ∧ failed st

theorem settles_nil {requiredLength : ℤ} {rv : AprStatus} (hrv : rv ≠ .success)
    {st : DownloadState} {delivered : FilePath → DownloadState → Prop}
    {failed : DownloadState → Prop} (h : failed st) :
    Settles requiredLength [] (.ok (rv, st)) delivered failed := ⟨rv, st, rfl, hrv, h⟩

theorem settles_accepted {requiredLength : ℤ} {p : FilePath} (hp : p.accepted requiredLength)
    (paths : List FilePath) {st : DownloadState}
    {delivered : FilePath → DownloadState → Prop} {failed : DownloadState → Prop}
    (htotal : st.totalBytes = some p.body.length) (h : delivered p st) :
    Settles requiredLength (p :: paths) (.ok (.success, st)) delivered failed := by
  unfold Settles
  rw [List.find?_cons_of_pos hp]
  exact ⟨st, rfl, htotal, h⟩

theorem Settles.mono {requiredLength : ℤ} {paths : List FilePath}
    {result : Except Disk (AprStatus × DownloadState)}
    {delivered delivered' : FilePath → DownloadState → Prop} {failed failed' : DownloadState → Prop}
    (h : Settles requiredLength paths result delivered failed)
    (hdelivered : ∀ p st, delivered p st → delivered' p st)
    (hfailed : ∀ st, failed st → failed' st) :
    Settles requiredLength paths result delivered' failed' := by
  unfold Settles at h ⊢
  cases hfind : paths.find? (·.accepted requiredLength) with
  | some p =>
    rw [hfind] at h
    obtain ⟨st, hresult, htotal, hp⟩ := h
    exact ⟨st, hresult, htotal, hdelivered p st hp⟩
  | none =>
    rw [hfind] at h
    obtain ⟨rv, st, hresult, hrv, hst⟩ := h
    exact ⟨rv, st, hresult, hrv, hfailed st hst⟩

theorem Settles.cons {requiredLength : ℤ} {p : FilePath} (hp : ¬p.accepted requiredLength)
    {paths : List FilePath} {result : Except Disk (AprStatus × DownloadState)}
    {delivered : FilePath → DownloadState → Prop} {failed : DownloadState → Prop}
    (h : Settles requiredLength paths result delivered failed) :
    Settles requiredLength (p :: paths) result delivered failed := by
  unfold Settles at h ⊢
  rwa [List.find?_cons_of_neg hp]

/-! ## One path -/

/-- A path that is not reached changes only `*bytes`. -/
theorem fileSystemGetLoop_unreached {p : FilePath} (hp : ¬p.reached) (maxBufferSize : ℕ)
    (destinationFilePath : Option Bytes) (requiredLength : ℤ) (paths : List FilePath)
    (rv : AprStatus) {st : DownloadState} {b : Option Bytes} (hbytes : st.bytes = some b) :
    ∃ rv', rv' ≠ .success ∧
      fileSystemGetLoop maxBufferSize destinationFilePath requiredLength (p :: paths) rv st =
        fileSystemGetLoop maxBufferSize destinationFilePath requiredLength paths rv'
          { st with bytes := some none } := by
  rw [fileSystemGetLoop]
  simp only [hbytes]
  cases huri : p.uri with
  | error rv' => exact ⟨rv', p.unparsable rv' huri, rfl⟩
  | ok uri =>
    simp only
    by_cases husable : uri.usable
    · by_cases hserver : p.server.getFileServer = .success
      · have hacquire : p.server.acquire ≠ .success := fun h =>
          hp (FilePath.reached_iff.mpr ⟨⟨uri, huri, husable⟩, hserver, h⟩)
        refine ⟨p.server.acquire, hacquire, ?_⟩
        simp [husable, mfsFileServerGet, hserver, hacquire]
      · refine ⟨comparisonStatus, by decide, ?_⟩
        simp [husable, mfsFileServerGet, hserver, comparisonStatus]
    · exact ⟨.egeneral, by decide, by simp [husable]⟩

/-- A path that is reached ends the call, or the next one is tried. -/
theorem fileSystemGetLoop_reached {p : FilePath} (hp : p.reached) {maxBufferSize : ℕ}
    {destinationFilePath : Option Bytes} (requiredLength : ℤ) (paths : List FilePath)
    (rv : AprStatus) {st st' : DownloadState} {b : Option Bytes} {rv' : AprStatus}
    (hbytes : st.bytes = some b)
    (hget : mfsFileServerGet maxBufferSize p destinationFilePath { st with bytes := some none } =
      .ok (rv', st'))
    (h : Transferred p rv' st') :
    (p.accepted requiredLength →
      fileSystemGetLoop maxBufferSize destinationFilePath requiredLength (p :: paths) rv st =
        .ok (.success, st')) ∧
    (¬p.accepted requiredLength → ∃ rv'', rv'' ≠ .success ∧
      fileSystemGetLoop maxBufferSize destinationFilePath requiredLength (p :: paths) rv st =
        fileSystemGetLoop maxBufferSize destinationFilePath requiredLength paths rv'' st') := by
  obtain ⟨⟨uri, huri, husable⟩, -⟩ := FilePath.reached_iff.mp hp
  have hloop : fileSystemGetLoop maxBufferSize destinationFilePath requiredLength (p :: paths) rv
      st =
        if rv' ≠ .success then
          fileSystemGetLoop maxBufferSize destinationFilePath requiredLength paths rv' st'
        else if wrongLength requiredLength st'.totalBytes then
          fileSystemGetLoop maxBufferSize destinationFilePath requiredLength paths .egeneral st'
        else .ok (.success, st') := by
    rw [fileSystemGetLoop]
    simp [hbytes, huri, husable, hget]
  rw [hloop]
  by_cases hc : p.transfer.completed
  · rw [if_neg (not_not.mpr (h.status.mpr hc)), h.totalBytes hc]
    by_cases hlength : wrongLength requiredLength (some p.body.length)
    · simp only [FilePath.accepted, hp, hc, hlength, if_true]
      exact ⟨fun h => absurd h (by decide), fun _ => ⟨.egeneral, by decide, rfl⟩⟩
    · simp only [FilePath.accepted, hp, hc, hlength]
      exact ⟨fun _ => rfl, fun h => absurd rfl h⟩
  · have hrv' : rv' ≠ .success := fun h' => hc (h.status.mp h')
    rw [if_pos hrv']
    simp only [FilePath.accepted, hp, hc]
    exact ⟨fun h => absurd h (by simp), fun _ => ⟨rv', hrv', rfl⟩⟩

/-! ## The whole call -/

/-- The content of the file the caller holds afterwards. -/
def DownloadState.fileContent (st : DownloadState) : Option Bytes :=
  st.file.map fun h => st.disk.content (st.disk.handles h).file

/-- With a file at its start, each attempt is written over what the file holds. -/
theorem fileSystemGetLoop_file (maxBufferSize : ℕ) (destinationFilePath : Option Bytes)
    (requiredLength : ℤ) (paths : List FilePath) {rv : AprStatus} (st : DownloadState)
    {b : Option Bytes} {h : ℕ} {f : FileId} (hrv : paths = [] → rv ≠ .success)
    (hd : st.disk.Calm) (hbytes : st.bytes = some b) (hfile : st.file = some h)
    (hh : st.disk.handles h = ⟨f, 0⟩) :
    Settles requiredLength paths
      (fileSystemGetLoop maxBufferSize destinationFilePath requiredLength paths rv st)
      (fun p st' => st'.bytes = some none ∧ st'.fileContent = some
        (overlay (((tried requiredLength paths).map FilePath.body).foldl overlay
          (st.disk.content f)) p.body))
      (fun _ => True) := by
  induction paths generalizing rv st b with
  | nil => exact settles_nil (hrv rfl) trivial
  | cons p paths ih =>
    by_cases hp : p.reached
    · obtain ⟨rv', st', hget, htransferred, hcalm', hfile', hbytes', hh', hcontent'⟩ :=
        mfsFileServerGet_file hp maxBufferSize destinationFilePath
          { st with bytes := some none } hd hfile hh
      obtain ⟨haccepted, hnext⟩ :=
        fileSystemGetLoop_reached hp requiredLength paths rv hbytes hget htransferred
      by_cases ha : p.accepted requiredLength
      · have hc : p.transfer.completed := by simp_all [FilePath.accepted]
        rw [haccepted ha, tried_cons_accepted paths ha]
        refine settles_accepted ha paths (htransferred.totalBytes hc) ⟨hbytes', ?_⟩
        simp only [DownloadState.fileContent, hfile', Option.map_some, hh', hcontent',
          List.map_nil, List.foldl_nil]
      · obtain ⟨rv'', hrv'', hloop⟩ := hnext ha
        rw [hloop, tried_cons_reached paths ha hp]
        rw [List.map_cons, List.foldl_cons, ← hcontent']
        exact (ih st' (fun _ => hrv'') hcalm' hbytes' hfile' hh').cons ha
    · obtain ⟨rv', hrv', hloop⟩ := fileSystemGetLoop_unreached hp maxBufferSize
        destinationFilePath requiredLength paths rv hbytes
      rw [hloop, tried_cons_unreached requiredLength paths hp]
      exact (@ih rv' { st with bytes := some none } none (fun _ => hrv') hd rfl hfile hh).cons
        (not_accepted_of_unreached requiredLength hp)

/-! ### Bytes, or a file of the function's own -/

/-- The bytes the caller is given, or else the content of the file. -/
def DownloadState.bytesOrFile (st : DownloadState) : Option Bytes :=
  match st.bytes with
  | some (some data) => some data
  | _ => st.fileContent

/-- From the first transfer that is completed in a file, which stays the caller's file
    although its length is not accepted. -/
def handedOver (maxBufferSize : ℕ) (ps : List FilePath) : List FilePath :=
  ps.dropWhile fun p => !(p.transfer.completed && decide (maxBufferSize < p.body.length))

/-- The attempts that write into the file which a later transfer finds: the handed over
    file, or the one with the destination path. -/
def fileWrites (maxBufferSize : ℕ) : Option Bytes → List FilePath → List FilePath
  | _, [] => []
  | destinationFilePath, p :: ps =>
    if maxBufferSize < p.body.length then
      if p.transfer.completed then p :: ps
      else if destinationFilePath.isSome then p :: fileWrites maxBufferSize destinationFilePath ps
      else fileWrites maxBufferSize destinationFilePath ps
    else fileWrites maxBufferSize destinationFilePath ps

theorem fileWrites_none (maxBufferSize : ℕ) (ps : List FilePath) :
    fileWrites maxBufferSize none ps = handedOver maxBufferSize ps := by
  induction ps with
  | nil => rfl
  | cons p ps ih =>
    unfold handedOver at ih ⊢
    rw [fileWrites, List.dropWhile_cons, ih]
    by_cases hspills : maxBufferSize < p.body.length
    · by_cases hc : p.transfer.completed
      · simp [hspills, hc]
      · simp [hspills, hc]
    · simp [hspills]

/-- What a caller without a file and a brigade is given when `p` is accepted after the
    attempts `ps`. -/
def ownDelivery (maxBufferSize : ℕ) (destinationFilePath : Option Bytes) (ps : List FilePath)
    (old : Bytes) (p : FilePath) : Bytes :=
  if p.body.length ≤ maxBufferSize ∧ handedOver maxBufferSize ps = [] then p.body
  else overlay (((fileWrites maxBufferSize destinationFilePath ps).map FilePath.body).foldl overlay
    old) p.body

theorem ownDelivery_cons_fits {maxBufferSize : ℕ} (destinationFilePath : Option Bytes)
    {p : FilePath} (ps : List FilePath) (old : Bytes) (q : FilePath)
    (hfits : p.body.length ≤ maxBufferSize) :
    ownDelivery maxBufferSize destinationFilePath (p :: ps) old q =
      ownDelivery maxBufferSize destinationFilePath ps old q := by
  unfold ownDelivery handedOver
  rw [fileWrites, if_neg (not_lt.mpr hfits), List.dropWhile_cons_of_pos (by simp [hfits])]

/-- A transfer that fails in a file leaves its bytes where the next one finds them only
    when the file has a name. -/
theorem ownDelivery_cons_failed {maxBufferSize : ℕ} (destinationFilePath : Option Bytes)
    {p : FilePath} (ps : List FilePath) (old : Bytes) (q : FilePath)
    (hspills : maxBufferSize < p.body.length) (hc : ¬p.transfer.completed) :
    ownDelivery maxBufferSize destinationFilePath (p :: ps) old q =
      ownDelivery maxBufferSize destinationFilePath ps
        (if destinationFilePath.isSome then overlay old p.body else old) q := by
  unfold ownDelivery handedOver
  rw [fileWrites, if_pos hspills, if_neg hc, List.dropWhile_cons_of_pos (by simp [hc])]
  cases destinationFilePath with
  | none => rfl
  | some path => rfl

theorem ownDelivery_cons_handedOver {maxBufferSize : ℕ} (destinationFilePath : Option Bytes)
    {p : FilePath} (ps : List FilePath) (old : Bytes) (q : FilePath)
    (hspills : maxBufferSize < p.body.length) (hc : p.transfer.completed) :
    ownDelivery maxBufferSize destinationFilePath (p :: ps) old q =
      overlay ((ps.map FilePath.body).foldl overlay (overlay old p.body)) q.body := by
  unfold ownDelivery handedOver
  rw [fileWrites, if_pos hspills, if_pos hc, List.dropWhile_cons_of_neg (by simp [hc, hspills]),
    if_neg (by simp), List.map_cons, List.foldl_cons]

/-- Without a file and a brigade: the bytes, when they fit and no file was handed over,
    and else what the file holds after all that was written into it. -/
theorem fileSystemGetLoop_own (maxBufferSize : ℕ) (destinationFilePath : Option Bytes)
    (hslash : ∀ path, destinationFilePath = some path → lastSlash path ≠ none)
    (requiredLength : ℤ) (paths : List FilePath) {rv : AprStatus} (st : DownloadState)
    {b : Option Bytes} (hrv : paths = [] → rv ≠ .success) (hd : st.disk.Calm)
    (hbytes : st.bytes = some b) (hfile : st.file = none) (hbrigade : st.brigade = none) :
    Settles requiredLength paths
      (fileSystemGetLoop maxBufferSize destinationFilePath requiredLength paths rv st)
      (fun p st' => st'.bytesOrFile = some (ownDelivery maxBufferSize destinationFilePath
        (tried requiredLength paths) (st.disk.spillContent destinationFilePath) p))
      (fun _ => True) := by
  induction paths generalizing rv st b with
  | nil => exact settles_nil (hrv rfl) trivial
  | cons p paths ih =>
    by_cases hp : p.reached
    · by_cases hfits : p.body.length ≤ maxBufferSize
      · obtain ⟨rv', st', hget, htransferred, hcalm', hfile', hbrigade', hbytes', hcontent'⟩ :=
          mfsFileServerGet_bytes hp destinationFilePath { st with bytes := some none } hd
            hfile hbrigade rfl hfits
        obtain ⟨haccepted, hnext⟩ :=
          fileSystemGetLoop_reached hp requiredLength paths rv hbytes hget htransferred
        by_cases ha : p.accepted requiredLength
        · have hc : p.transfer.completed := by simp_all [FilePath.accepted]
          rw [haccepted ha, tried_cons_accepted paths ha]
          refine settles_accepted ha paths (htransferred.totalBytes hc) ?_
          rw [if_pos hc] at hbytes'
          simp [DownloadState.bytesOrFile, hbytes', ownDelivery, hfits, handedOver]
        · obtain ⟨rv'', hrv'', hloop⟩ := hnext ha
          have hold : st'.disk.spillContent destinationFilePath =
              st.disk.spillContent destinationFilePath := by
            unfold Disk.spillContent
            rw [hcontent']
          rw [hloop, tried_cons_reached paths ha hp]
          refine ((ih st' (fun _ => hrv'') hcalm' hbytes' hfile' hbrigade').mono
            (fun q st'' hq => ?_) fun _ h => h).cons ha
          rw [hq, hold, ownDelivery_cons_fits _ _ _ _ hfits]
      · have hspills : maxBufferSize < p.body.length := lt_of_not_ge hfits
        obtain ⟨rv', st', hget, htransferred, hcalm', hbrigade', hbytes', hfile', hhandle',
          hcontent'⟩ := mfsFileServerGet_spilled hp { st with bytes := some none } hd
            hfile hbrigade rfl hslash hspills
        obtain ⟨haccepted, hnext⟩ :=
          fileSystemGetLoop_reached hp requiredLength paths rv hbytes hget htransferred
        by_cases hc : p.transfer.completed
        · rw [if_pos hc] at hfile'
          by_cases ha : p.accepted requiredLength
          · rw [haccepted ha, tried_cons_accepted paths ha]
            refine settles_accepted ha paths (htransferred.totalBytes hc) ?_
            simp only [DownloadState.bytesOrFile, hbytes', DownloadState.fileContent, hfile',
              Option.map_some, hhandle' hc, hcontent', ownDelivery, fileWrites]
            rw [if_neg (by omega)]
            rfl
          · obtain ⟨rv'', hrv'', hloop⟩ := hnext ha
            rw [hloop, tried_cons_reached paths ha hp]
            -- from here on the attempts go to the file that was handed over
            refine ((fileSystemGetLoop_file maxBufferSize destinationFilePath requiredLength paths st'
              (fun _ => hrv'') hcalm' hbytes' hfile' (hhandle' hc)).mono
              (fun q st'' hq => ?_) fun _ h => h).cons ha
            simp only [DownloadState.bytesOrFile, hq.1, hq.2, hcontent',
              ownDelivery_cons_handedOver _ _ _ _ hspills hc]
        · have ha : ¬p.accepted requiredLength := by simp [FilePath.accepted, hc]
          obtain ⟨rv'', hrv'', hloop⟩ := hnext ha
          rw [if_neg hc] at hfile'
          rw [hloop, tried_cons_reached paths ha hp]
          refine ((ih st' (fun _ => hrv'') hcalm' hbytes' hfile' hbrigade').mono
            (fun q st'' hq => ?_) fun _ h => h).cons ha
          rw [hq, ownDelivery_cons_failed _ _ _ _ hspills hc]
          cases destinationFilePath with
          | none => rfl
          | some path =>
            have : st'.disk.spillContent (some path) =
                overlay (st.disk.spillContent (some path)) p.body := hcontent'
            rw [this]
            rfl
    · obtain ⟨rv', hrv', hloop⟩ := fileSystemGetLoop_unreached hp maxBufferSize
        destinationFilePath requiredLength paths rv hbytes
      rw [hloop, tried_cons_unreached requiredLength paths hp]
      exact (@ih rv' { st with bytes := some none } none (fun _ => hrv') hd rfl hfile hbrigade).cons
        (not_accepted_of_unreached requiredLength hp)

/-- With a destination path without a slash, the first transfer that does not fit in
    memory ends the call; nothing is ever in a file. -/
theorem fileSystemGetLoop_noSlash (maxBufferSize : ℕ) {path : Bytes}
    (hslash : lastSlash path = none) (requiredLength : ℤ) (paths : List FilePath)
    {rv : AprStatus} (st : DownloadState) {b : Option Bytes} (hrv : paths = [] → rv ≠ .success)
    (hd : st.disk.Calm) (hbytes : st.bytes = some b) (hfile : st.file = none)
    (hbrigade : st.brigade = none) :
    (∃ d, fileSystemGetLoop maxBufferSize (some path) requiredLength paths rv st = .error d) ∨
      Settles requiredLength paths
        (fileSystemGetLoop maxBufferSize (some path) requiredLength paths rv st)
        (fun p st' => st'.bytesOrFile = some p.body) (fun _ => True) := by
  induction paths generalizing rv st b with
  | nil => exact Or.inr (settles_nil (hrv rfl) trivial)
  | cons p paths ih =>
    by_cases hp : p.reached
    · by_cases hfits : p.body.length ≤ maxBufferSize
      · obtain ⟨rv', st', hget, htransferred, hcalm', hfile', hbrigade', hbytes', -⟩ :=
          mfsFileServerGet_bytes hp (some path) { st with bytes := some none } hd
            hfile hbrigade rfl hfits
        obtain ⟨haccepted, hnext⟩ :=
          fileSystemGetLoop_reached hp requiredLength paths rv hbytes hget htransferred
        by_cases ha : p.accepted requiredLength
        · have hc : p.transfer.completed := by simp_all [FilePath.accepted]
          rw [haccepted ha]
          refine Or.inr (settles_accepted ha paths (htransferred.totalBytes hc) ?_)
          rw [DownloadState.bytesOrFile, hbytes', if_pos hc]
        · obtain ⟨rv'', hrv'', hloop⟩ := hnext ha
          rw [hloop]
          exact (ih st' (fun _ => hrv'') hcalm' hbytes' hfile' hbrigade').imp id (·.cons ha)
      · obtain ⟨d', hdeliver⟩ := deliverChunks_noSlash p.transfer.chunks [] true st.disk
          hslash (lt_of_not_ge hfits)
        obtain ⟨⟨uri, huri, husable⟩, hserver, hacquire⟩ := FilePath.reached_iff.mp hp
        refine Or.inl ⟨d', ?_⟩
        rw [fileSystemGetLoop]
        simp [hbytes, huri, husable, mfsFileServerGet, hserver, hacquire, curlEasyPerform,
          writeBufferFor, hfile, hbrigade, hdeliver]
    · obtain ⟨rv', hrv', hloop⟩ := fileSystemGetLoop_unreached hp maxBufferSize (some path)
        requiredLength paths rv hbytes
      rw [hloop]
      exact (@ih rv' { st with bytes := some none } none (fun _ => hrv') hd rfl hfile
        hbrigade).imp id (·.cons (not_accepted_of_unreached requiredLength hp))

/-! ### A brigade -/

/-- The bodies that completed transfers of the attempts `ps` have left in a brigade. -/
def completedBodies (ps : List FilePath) : Bytes :=
  (ps.filter (·.transfer.completed)).flatMap FilePath.body

theorem completedBodies_cons (p : FilePath) (ps : List FilePath) :
    completedBodies (p :: ps) =
      (if p.transfer.completed then p.body else []) ++ completedBodies ps := by
  unfold completedBodies
  by_cases hc : p.transfer.completed
  · simp [hc]
  · simp [hc]

/-- The bytes of the brigade afterwards. -/
def DownloadState.brigadeContent (st : DownloadState) : Option Bytes :=
  st.brigade.map (brigadeBytes st.disk)

/-- With a brigade, every completed transfer stays in it, accepted or not. -/
theorem fileSystemGetLoop_brigade (maxBufferSize : ℕ) (requiredLength : ℤ)
    (paths : List FilePath) {rv : AprStatus} (st : DownloadState) {b : Option Bytes}
    {brigade : List Bucket} (hrv : paths = [] → rv ≠ .success) (hd : st.disk.Calm)
    (hbytes : st.bytes = some b) (hfile : st.file = none) (hbrigade : st.brigade = some brigade)
    (hholds : st.disk.Holds brigade) :
    Settles requiredLength paths
      (fileSystemGetLoop maxBufferSize none requiredLength paths rv st)
      (fun p st' => st'.brigadeContent = some (brigadeBytes st.disk brigade ++
        completedBodies (tried requiredLength paths) ++ p.body))
      (fun st' => st'.brigadeContent = some (brigadeBytes st.disk brigade ++
        completedBodies (tried requiredLength paths))) := by
  induction paths generalizing rv st b brigade with
  | nil =>
    refine settles_nil (hrv rfl) ?_
    simp [DownloadState.brigadeContent, hbrigade, tried, completedBodies]
  | cons p paths ih =>
    by_cases hp : p.reached
    · obtain ⟨rv', st', brigade', hget, htransferred, hcalm', hfile', hbytes', hbrigade', hholds',
        hcontent'⟩ := mfsFileServerGet_brigade hp maxBufferSize
          { st with bytes := some none } hd hfile hbrigade hholds
      obtain ⟨haccepted, hnext⟩ :=
        fileSystemGetLoop_reached hp requiredLength paths rv hbytes hget htransferred
      by_cases ha : p.accepted requiredLength
      · have hc : p.transfer.completed := by simp_all [FilePath.accepted]
        rw [haccepted ha, tried_cons_accepted paths ha]
        refine settles_accepted ha paths (htransferred.totalBytes hc) ?_
        rw [if_pos hc] at hcontent'
        rw [DownloadState.brigadeContent, hbrigade', Option.map_some, hcontent']
        simp [completedBodies]
      · obtain ⟨rv'', hrv'', hloop⟩ := hnext ha
        rw [hloop, tried_cons_reached paths ha hp, completedBodies_cons, ← List.append_assoc,
          ← hcontent']
        exact (ih st' (fun _ => hrv'') hcalm' hbytes' hfile' hbrigade' hholds').cons ha
    · obtain ⟨rv', hrv', hloop⟩ := fileSystemGetLoop_unreached hp maxBufferSize none
        requiredLength paths rv hbytes
      rw [hloop, tried_cons_unreached requiredLength paths hp]
      exact (@ih rv' { st with bytes := some none } none brigade (fun _ => hrv') hd rfl hfile
        hbrigade hholds).cons (not_accepted_of_unreached requiredLength hp)

/-! ## The residue -/

/-- Where the caller has the data put. -/
inductive Delivery
  | callerFile
  | bytesOrTempFile
  | destination (path : Bytes)
  | brigade (initial : List Bucket)

/-- The output parameters before the call; the caller's file is empty. -/
def Delivery.start (bytes : Option Bytes) (totalBytes : Option ℕ) (d : Disk) :
    Delivery → DownloadState
  | callerFile =>
    ⟨some bytes, totalBytes, some d.nextHandle, none,
      { d with content := update d.content .caller [] }.openHandle .caller, []⟩
  | bytesOrTempFile | destination _ => ⟨some bytes, totalBytes, none, none, d, []⟩
  | brigade initial => ⟨some bytes, totalBytes, none, some initial, d, []⟩

def Delivery.destinationFilePath : Delivery → Option Bytes
  | destination path => some path
  | _ => none

/-- What the caller finds in that place. -/
def Delivery.content : Delivery → DownloadState → Option Bytes
  | callerFile, st => st.fileContent
  | bytesOrTempFile, st | destination _, st => st.bytesOrFile
  | brigade _, st => st.brigadeContent

/-- What was there before the data is appended. -/
def Delivery.before (d : Disk) : Delivery → Bytes
  | brigade initial => brigadeBytes d initial
  | _ => []

/-- A call that returns has delivered the body of the first accepted path and nothing
    else; when it fails, the caller's brigade is as it was. -/
def Delivery.Exact (mode : Delivery) (requiredLength : ℤ) (paths : List FilePath) (d : Disk) :
    Except Disk (AprStatus × DownloadState) → Prop
  | .error _ => True
  | .ok (rv, st) =>
    if rv = .success then
      ∃ p, paths.find? (·.accepted requiredLength) = some p ∧
        st.totalBytes = some p.body.length ∧ mode.content st = some (mode.before d ++ p.body)
    else ∀ initial, mode = .brigade initial → mode.content st = some (mode.before d)

/-- No attempt before the accepted one has left anything where it would be seen:
    * in the caller's file, no earlier transfer was longer;
    * in a temporary file, no earlier one was from the one that handed the file over;
    * in the destination file, no earlier one was, and the file was not longer before,
      unless the body is delivered in memory;
    * in a brigade, every completed transfer of a wrong length was empty. -/
def Delivery.ResidueFree (maxBufferSize : ℕ) (requiredLength : ℤ) (paths : List FilePath)
    (d : Disk) : Delivery → Prop
  | callerFile => ∀ p, paths.find? (·.accepted requiredLength) = some p →
      ∀ q ∈ tried requiredLength paths, q.body.length ≤ p.body.length
  | bytesOrTempFile => ∀ p, paths.find? (·.accepted requiredLength) = some p →
      ∀ q ∈ handedOver maxBufferSize (tried requiredLength paths), q.body.length ≤ p.body.length
  | destination path => lastSlash path ≠ none →
      ∀ p, paths.find? (·.accepted requiredLength) = some p →
        (p.body.length ≤ maxBufferSize ∧
          handedOver maxBufferSize (tried requiredLength paths) = []) ∨
        ((d.content (.named path)).length ≤ p.body.length ∧
          ∀ q ∈ tried requiredLength paths, q.body.length ≤ p.body.length)
  | brigade _ => ∀ q ∈ tried requiredLength paths, q.transfer.completed → q.body = []

theorem Settles.exact_iff (mode : Delivery) {requiredLength : ℤ} {paths : List FilePath}
    (d : Disk) {result : Except Disk (AprStatus × DownloadState)} {content : FilePath → Bytes}
    (left : Bytes)
    (h : Settles requiredLength paths result (fun p st => mode.content st = some (content p))
      (fun st => ∀ initial, mode = .brigade initial → mode.content st = some left)) :
    mode.Exact requiredLength paths d result ↔
      (∀ p, paths.find? (·.accepted requiredLength) = some p →
        content p = mode.before d ++ p.body) ∧
      (paths.find? (·.accepted requiredLength) = none →
        ∀ initial, mode = .brigade initial → left = mode.before d) := by
  unfold Settles at h
  cases hfind : paths.find? (·.accepted requiredLength) with
  | some p =>
    rw [hfind] at h
    obtain ⟨st, rfl, htotal, hst⟩ := h
    simp only [Delivery.Exact, if_true, hfind, Option.some.injEq, exists_eq_left', htotal, hst,
      true_and, forall_eq', reduceCtorEq, false_implies, and_true]
  | none =>
    rw [hfind] at h
    obtain ⟨rv, st, rfl, hrv, hst⟩ := h
    simp only [Delivery.Exact, if_neg hrv, reduceCtorEq, false_implies, implies_true, true_and,
      true_implies]
    refine forall₂_congr fun initial hmode => ?_
    rw [hst initial hmode, Option.some.injEq]

theorem fileWrites_subset (maxBufferSize : ℕ) (destinationFilePath : Option Bytes)
    (ps : List FilePath) : fileWrites maxBufferSize destinationFilePath ps ⊆ ps := by
  induction ps with
  | nil => exact List.Subset.refl _
  | cons p ps ih =>
    rw [fileWrites]
    split_ifs with hspills hc hdest
    · exact List.Subset.refl _
    · exact List.cons_subset_cons p ih
    · exact List.subset_cons_of_subset p ih
    · exact List.subset_cons_of_subset p ih

theorem mem_fileWrites {maxBufferSize : ℕ} (path : Bytes) {ps : List FilePath} {q : FilePath}
    (hq : q ∈ ps) (hspills : maxBufferSize < q.body.length) :
    q ∈ fileWrites maxBufferSize (some path) ps := by
  induction ps with
  | nil => cases hq
  | cons p ps ih =>
    rw [fileWrites, Option.isSome_some, if_pos rfl]
    rcases List.mem_cons.mp hq with rfl | hq
    · rw [if_pos hspills]
      split_ifs with hc
      · exact List.mem_cons_self
      · exact List.mem_cons_self
    · split_ifs with hp hc
      · exact List.mem_cons_of_mem _ hq
      · exact List.mem_cons_of_mem _ (ih hq)
      · exact ih hq

/-- Unless the body is delivered in memory it is longer than what fits there, or some
    attempt before it was; so the attempts that fitted decide nothing. -/
theorem forall_fileWrites_iff {maxBufferSize n : ℕ} {path : Bytes} {ps : List FilePath}
    (h : ¬(n ≤ maxBufferSize ∧ handedOver maxBufferSize ps = [])) :
    (∀ q ∈ fileWrites maxBufferSize (some path) ps, q.body.length ≤ n) ↔
      ∀ q ∈ ps, q.body.length ≤ n := by
  constructor
  · intro hwrites q hq
    by_cases hspills : maxBufferSize < q.body.length
    · exact hwrites q (mem_fileWrites path hq hspills)
    · have hn : maxBufferSize < n := by
        by_contra hn
        have hhanded : handedOver maxBufferSize ps ≠ [] := fun h' => h ⟨by omega, h'⟩
        rw [handedOver, ne_eq, List.dropWhile_eq_nil_iff] at hhanded
        push Not at hhanded
        obtain ⟨r, hr, hlong⟩ := hhanded
        have hr' : maxBufferSize < r.body.length := by simp at hlong; exact hlong.2
        have := hwrites r (mem_fileWrites path hr hr')
        omega
      omega
  · exact fun hps q hq => hps q (fileWrites_subset _ _ _ hq)

theorem ownDelivery_bytes_eq_iff {maxBufferSize : ℕ} {ps : List FilePath} {p : FilePath} :
    ownDelivery maxBufferSize none ps [] p = p.body ↔
      ∀ q ∈ handedOver maxBufferSize ps, q.body.length ≤ p.body.length := by
  unfold ownDelivery
  rw [fileWrites_none]
  split_ifs with h
  · simp [h.2]
  · rw [foldl_overlay_eq_iff]
    simp

theorem ownDelivery_destination_eq_iff {maxBufferSize : ℕ} {path : Bytes} {ps : List FilePath}
    {old : Bytes} {p : FilePath} :
    ownDelivery maxBufferSize (some path) ps old p = p.body ↔
      (p.body.length ≤ maxBufferSize ∧ handedOver maxBufferSize ps = []) ∨
        (old.length ≤ p.body.length ∧ ∀ q ∈ ps, q.body.length ≤ p.body.length) := by
  unfold ownDelivery
  split_ifs with h
  · simp [h]
  · rw [foldl_overlay_eq_iff, or_iff_right h, List.forall_mem_map, forall_fileWrites_iff h]

theorem completedBodies_eq_nil_iff {ps : List FilePath} :
    completedBodies ps = [] ↔ ∀ q ∈ ps, q.transfer.completed → q.body = [] := by
  simp [completedBodies, List.flatMap_eq_nil_iff]

/-- For every list of paths, outcome of each and required length, and every place the
    data can go to: what is delivered is exact if and only if no residue is seen. -/
theorem exactContent_iff (mode : Delivery) (maxBufferSize : ℕ) {paths : List FilePath}
    (hpaths : paths ≠ []) (requiredLength : ℤ) (bytes : Option Bytes) (totalBytes : Option ℕ)
    {d : Disk} (hd : d.Calm) (hholds : ∀ initial, mode = .brigade initial → d.Holds initial) :
    mode.Exact requiredLength paths d
        (mfsFileSystemGet maxBufferSize (.ok paths) mode.destinationFilePath requiredLength
          (mode.start bytes totalBytes d)) ↔
      mode.ResidueFree maxBufferSize requiredLength paths d := by
  have hne : paths = [] → AprStatus.success ≠ .success := fun h => absurd h hpaths
  cases mode with
  | callerFile =>
    have h := fileSystemGetLoop_file maxBufferSize none requiredLength paths
      (Delivery.callerFile.start bytes totalBytes d) hne (f := .caller) (hd.of_drop (n := 0) rfl)
      rfl rfl (update_self ..)
    refine ((h.mono (fun p st hp => hp.2) fun _ _ _ hmode => by cases hmode).exact_iff
      .callerFile d []).trans ?_
    have hempty : (Delivery.callerFile.start bytes totalBytes d).disk.content .caller = [] := by
      simp [Delivery.start, Disk.openHandle]
    simp only [hempty, Delivery.before, List.nil_append, foldl_overlay_eq_iff, List.length_nil,
      Nat.zero_le, true_and, List.forall_mem_map, reduceCtorEq, implies_true, and_true]
    rfl
  | bytesOrTempFile =>
    have h := fileSystemGetLoop_own maxBufferSize none (fun _ hpath => by cases hpath)
      requiredLength paths (Delivery.bytesOrTempFile.start bytes totalBytes d) hne hd rfl rfl rfl
    refine ((h.mono (fun p st hp => hp) fun _ _ _ hmode => by cases hmode).exact_iff
      .bytesOrTempFile d []).trans ?_
    simp only [Disk.spillContent, Delivery.before, List.nil_append, ownDelivery_bytes_eq_iff,
      reduceCtorEq, implies_true, and_true]
    rfl
  | destination path =>
    by_cases hslash : lastSlash path = none
    · have hfree : (Delivery.destination path).ResidueFree maxBufferSize requiredLength paths d :=
        fun h => absurd hslash h
      refine iff_of_true ?_ hfree
      rcases fileSystemGetLoop_noSlash maxBufferSize hslash requiredLength paths
        ((Delivery.destination path).start bytes totalBytes d) hne hd rfl rfl rfl with h | h
      · obtain ⟨d', h⟩ := h
        show Delivery.Exact _ _ _ _ (fileSystemGetLoop _ (some path) _ _ _ _)
        rw [h]
        trivial
      · refine ((h.mono (fun p st hp => hp) fun _ _ _ hmode => by cases hmode).exact_iff
          (.destination path) d []).mpr ⟨fun _ _ => rfl, fun _ _ hmode => by cases hmode⟩
    · have h := fileSystemGetLoop_own maxBufferSize (some path)
        (fun _ hpath => Option.some.inj hpath ▸ hslash) requiredLength paths
        ((Delivery.destination path).start bytes totalBytes d) hne hd rfl rfl rfl
      refine ((h.mono (fun p st hp => hp) fun _ _ _ hmode => by cases hmode).exact_iff
        (.destination path) d []).trans ?_
      simp only [Delivery.before, List.nil_append, ownDelivery_destination_eq_iff, reduceCtorEq,
        implies_true, and_true]
      exact ⟨fun h _ => h, fun h => h hslash⟩
  | brigade initial =>
    have h := fileSystemGetLoop_brigade maxBufferSize requiredLength paths
      ((Delivery.brigade initial).start bytes totalBytes d) hne hd rfl rfl rfl
      (hholds initial rfl)
    refine ((h.mono (fun p st hp => hp) fun _ hst _ _ => hst).exact_iff
      (.brigade initial) d _).trans ?_
    refine Iff.trans ?_ completedBodies_eq_nil_iff
    simp only [Delivery.before, Delivery.start, List.append_assoc, List.append_cancel_left_eq,
      List.append_left_eq_self, List.append_right_eq_self]
    cases hfind : paths.find? (·.accepted requiredLength) with
    | some p => simp
    | none => simp

/-! ### A run with residue -/

/-- A disk without files. -/
def emptyDisk : Disk where
  content := fun _ => []
  handles := fun _ => ⟨.caller, 0⟩
  nextHandle := 0
  nextTemp := 0
  io := Stream'.const ⟨.success, 0⟩
  calls := []

/-- A path with a usable URL to a server that can be had. -/
def pathWith (transfer : Transfer) : FilePath where
  url := str "http://a/1.fid"
  uri := .ok ⟨some (str "http"), some (str "a"), some (str "/1.fid")⟩
  server := ⟨.success, .success, .success⟩
  transfer := transfer
  unparsable := nofun

/-- The status, `*total_bytes` and the content after a call that returns. -/
def Delivery.observe (mode : Delivery) :
    Except Disk (AprStatus × DownloadState) → Option (AprStatus × Option ℕ × Option Bytes)
  | .error _ => none
  | .ok (rv, st) => some (rv, st.totalBytes, mode.content st)

/-- A transfer of one byte that fails, and one of two bytes. -/
theorem exactContent_longer :
    Delivery.callerFile.Exact (-1) [pathWith ⟨200, [[97]], false⟩, pathWith ⟨200, [[98, 99]], true⟩]
      emptyDisk
      (mfsFileSystemGet 8 (.ok [pathWith ⟨200, [[97]], false⟩, pathWith ⟨200, [[98, 99]], true⟩])
        none (-1) (Delivery.callerFile.start none none emptyDisk)) := by
  refine (exactContent_iff .callerFile 8 (List.cons_ne_nil _ _) (-1) none none (fun _ => rfl)
    (fun _ h => nomatch h)).mpr ?_
  intro p hp q hq
  have hp : p = pathWith ⟨200, [[98, 99]], true⟩ := (Option.some.inj hp).symm
  have hq : q = pathWith ⟨200, [[97]], false⟩ := List.mem_singleton.mp hq
  subst hp hq
  decide

/-- The first transfer fails after three bytes, the second one is completed with one:
    the caller's file has two bytes of the first behind the one of the second. -/
theorem residue_in_callerFile :
    ¬Delivery.callerFile.Exact (-1)
      [pathWith ⟨200, [str "abc"], false⟩, pathWith ⟨200, [str "x"], true⟩] emptyDisk
      (mfsFileSystemGet 8
        (.ok [pathWith ⟨200, [str "abc"], false⟩, pathWith ⟨200, [str "x"], true⟩])
        none (-1) (Delivery.callerFile.start none none emptyDisk)) := by
  have hrun : Delivery.callerFile.observe (mfsFileSystemGet 8
      (.ok [pathWith ⟨200, [str "abc"], false⟩, pathWith ⟨200, [str "x"], true⟩])
      none (-1) (Delivery.callerFile.start none none emptyDisk)) =
        some (.success, some 1, some (str "xbc")) := by decide +kernel
  intro h
  generalize mfsFileSystemGet 8 _ _ _ _ = result at h hrun
  cases result with
  | error d => cases hrun
  | ok result =>
    obtain ⟨rv, st⟩ := result
    simp only [Delivery.observe, Option.some.injEq, Prod.mk.injEq] at hrun
    obtain ⟨rfl, htotal, hcontent⟩ := hrun
    rw [Delivery.Exact, if_pos rfl] at h
    obtain ⟨p, -, hlength, hbody⟩ := h
    rw [htotal, Option.some.injEq] at hlength
    have hbody : some (str "xbc") = some p.body := hcontent.symm.trans hbody
    rw [← Option.some.inj hbody] at hlength
    exact absurd hlength (by decide)

end MogileFs
