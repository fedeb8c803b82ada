import MogileFs.Download.Content

/-!
# The three entry points of a download

`mfs_get_file`, `mfs_get_file_or_bytes` and `mfs_get_brigade` share
`mfs_file_system_get`. Two of them pass NULL for `bytes`, which the loop writes
through before it looks at the first path (line 323).

Results:
* `mfsGetFile_cons`, `mfsGetBrigade_cons`: these two never return when there is a path.
* `mfsGetFileOrBytes_returns`: the third one returns, unless it has to make a directory
  for a destination path without a slash.
* `entryPoints_disagree`: so the three never agree.
-/

namespace MogileFs

theorem mfsGetFile_cons (maxBufferSize : ℕ) (p : FilePath) (paths : List FilePath)
    (totalBytes : Option ℕ) (file : Option ℕ) (requiredLength : ℤ) (d : Disk) :
    mfsGetFile maxBufferSize (.ok (p :: paths)) totalBytes file requiredLength d = .error d := rfl

theorem mfsGetBrigade_cons (maxBufferSize : ℕ) (p : FilePath) (paths : List FilePath)
    (totalBytes : Option ℕ) (brigade : List Bucket) (requiredLength : ℤ) (d : Disk) :
    mfsGetBrigade maxBufferSize (.ok (p :: paths)) totalBytes brigade requiredLength d =
      .error d := rfl

theorem Settles.returns {requiredLength : ℤ} {paths : List FilePath}
    {result : Except Disk (AprStatus × DownloadState)}
    {delivered : FilePath → DownloadState → Prop} {failed : DownloadState → Prop}
    (h : Settles requiredLength paths result delivered failed) :
    ∃ rv st, result = .ok (rv, st) ∧
      (rv = .success ↔ (paths.find? (·.accepted requiredLength)).isSome) := by
  unfold Settles at h
  cases hfind : paths.find? (·.accepted requiredLength) with
  | some p =>
    rw [hfind] at h
    obtain ⟨st, hresult, -, -⟩ := h
    exact ⟨_, st, hresult, by simp⟩
  | none =>
    rw [hfind] at h
    obtain ⟨rv, st, hresult, hrv, -⟩ := h
    exact ⟨rv, st, hresult, by simp [hrv]⟩

/-- With its bytes present, the function returns whatever the paths do. -/
theorem mfsGetFileOrBytes_returns (maxBufferSize : ℕ) (p : FilePath) (paths : List FilePath)
    (totalBytes : Option ℕ) (bytes : Option Bytes) {destinationFilePath : Option Bytes}
    (hslash : ∀ path, destinationFilePath = some path → lastSlash path ≠ none)
    (requiredLength : ℤ) {d : Disk} (hd : d.Calm) :
    ∃ rv st, mfsGetFileOrBytes maxBufferSize (.ok (p :: paths)) totalBytes bytes none
        destinationFilePath requiredLength d = .ok (rv, st) ∧
      (rv = .success ↔ ((p :: paths).find? (·.accepted requiredLength)).isSome) := by
  have hne : p :: paths = [] → AprStatus.success ≠ .success := nofun
  exact (fileSystemGetLoop_own maxBufferSize destinationFilePath hslash requiredLength (p :: paths)
    ⟨some bytes, totalBytes, none, none, d, []⟩ hne hd rfl rfl rfl).returns

/-- The three calls, with an empty file, without a file and with an empty brigade, all
    return, with the same status and `*total_bytes`, and on success the same content. -/
def EntryPointsAgree (maxBufferSize : ℕ) (paths : List FilePath) (requiredLength : ℤ)
    (totalBytes : Option ℕ) (bytes destinationFilePath : Option Bytes) (d : Disk) : Prop :=
  let withFile := Delivery.callerFile.start bytes totalBytes d
  ∃ rv total content₁ content₂ content₃,
    Delivery.callerFile.observe
        (mfsGetFile maxBufferSize (.ok paths) totalBytes withFile.file requiredLength
          withFile.disk) = some (rv, total, content₁) ∧
      Delivery.bytesOrTempFile.observe
        (mfsGetFileOrBytes maxBufferSize (.ok paths) totalBytes bytes none destinationFilePath
          requiredLength d) = some (rv, total, content₂) ∧
      (Delivery.brigade []).observe
        (mfsGetBrigade maxBufferSize (.ok paths) totalBytes [] requiredLength d) =
          some (rv, total, content₃) ∧
      (rv = .success → content₁ = content₂ ∧ content₂ = content₃)

/-- For every answer with one or more paths, two of the three go through NULL. -/
theorem entryPoints_disagree (maxBufferSize : ℕ) (p : FilePath) (paths : List FilePath)
    (requiredLength : ℤ) (totalBytes : Option ℕ) (bytes destinationFilePath : Option Bytes)
    (d : Disk) :
    ¬EntryPointsAgree maxBufferSize (p :: paths) requiredLength totalBytes bytes
      destinationFilePath d := by
  rintro ⟨rv, total, content₁, content₂, content₃, hfile, -, -, -⟩
  rw [mfsGetFile_cons] at hfile
  cases hfile

/-- One path, whose transfer is completed. -/
theorem entryPoints_disagree_ok_file :
    ¬EntryPointsAgree 8 [pathWith ⟨200, [str "abc"], true⟩] (-1) none none none emptyDisk := by
  rintro ⟨rv, total, content₁, content₂, content₃, -, -, hbrigade, -⟩
  cases hbrigade

end MogileFs
