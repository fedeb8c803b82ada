import MogileFs.Download.Content
import MogileFs.Upload.Provenance

/-!
# Which answers of a file server count

Neither transfer function looks at the status code of an answer: both rely on
`curl_easy_perform`, which is content with every completed exchange as long as
`CURLOPT_FAILONERROR` is not set (`src/file_upload.c` lines 196–220,
`src/file_download.c` lines 228–251). So the body of a 404 answer is a download, and a
PUT that is answered with 500 is closed as if the file had been stored.

Results:
* `Lawful.restsOnCompleted`: a `create_close` comes right after a PUT whose exchange was
  completed.
* `Settles.firstAnswer`: without a required length, a download ends with the first path
  whose exchange is completed.
* `completed_answers_count`: both, for every run.
-/

namespace MogileFs

open Traces

/-! ## Uploads -/

/-- A `create_close` comes right after a PUT whose exchange was completed. -/
def RestsOnCompleted (past : List UploadEvent) : UploadEvent → Prop
  | .createClose _ => ∃ past' url out r, past = past' ++ [.put url out r] ∧ out.completed
  | _ => True

/-- The status of a PUT speaks for its own exchange. -/
theorem Lawful.put_completed {u : Upload} {seeks : Stream' AprStatus} {past : List UploadEvent}
    {url : Bytes} {out : PutOutcome} {r : PutResult} (h : Lawful u seeks past (.put url out r))
    (hr : r.rv = .success) : out.completed := by
  obtain ⟨before, call, since, fid, devid, totalBytes, -, -, -, -, rfl⟩ := h
  exact (mfsFileServerPut_success hr).2

theorem Lawful.restsOnCompleted {u : Upload} {seeks : Stream' AprStatus} {log : List UploadEvent}
    (hlog : Each (Lawful u seeks) log) : Each RestsOnCompleted log := by
  refine hlog.mono fun past e rest hsplit h => ?_
  cases e with
  | createClose close =>
    obtain ⟨past', url, out, r, size, before, call, since, fid, devid, rfl, hr, -⟩ := h
    have hput : Lawful u seeks past' (.put url out r) :=
      hlog past' _ (.createClose close :: rest) (by rw [hsplit]; simp)
    exact ⟨past', url, out, r, rfl, hput.put_completed hr⟩
  | _ => trivial

/-! ## Downloads -/

/-- Bytes are transferred, and the exchange is completed, whatever its status code. -/
def FilePath.answered (p : FilePath) : Bool := p.reached && p.transfer.completed

theorem accepted_of_negative {requiredLength : ℤ} (h : requiredLength < 0) :
    FilePath.accepted requiredLength = FilePath.answered := by
  funext p
  have : ¬0 ≤ requiredLength := by omega
  simp [FilePath.accepted, FilePath.answered, wrongLength, this]

/-- A call that returns has come to the first path that was answered: `*total_bytes` is
    the length of that body, with which the data begins. It fails when there is none. -/
def Delivery.FirstAnswer (mode : Delivery) (paths : List FilePath) (d : Disk) :
    Except Disk (AprStatus × DownloadState) → Prop
  | .error _ => True
  | .ok (rv, st) =>
    match paths.find? FilePath.answered with
    | none => rv ≠ .success
    | some p => rv = .success ∧ st.totalBytes = some p.body.length ∧
        ∃ behind, mode.content st = some (mode.before d ++ p.body ++ behind)

theorem Settles.firstAnswer (mode : Delivery) {requiredLength : ℤ} (hneg : requiredLength < 0)
    {paths : List FilePath} {d : Disk} {result : Except Disk (AprStatus × DownloadState)}
    {delivered : FilePath → DownloadState → Prop} {failed : DownloadState → Prop}
    (h : Settles requiredLength paths result delivered failed)
    (hdelivered : ∀ p st, delivered p st →
      ∃ behind, mode.content st = some (mode.before d ++ p.body ++ behind)) :
    mode.FirstAnswer paths d result := by
  unfold Settles at h
  rw [accepted_of_negative hneg] at h
  cases hfind : paths.find? FilePath.answered with
  | some p =>
    rw [hfind] at h
    obtain ⟨st, rfl, htotal, hp⟩ := h
    rw [Delivery.FirstAnswer, hfind]
    exact ⟨rfl, htotal, hdelivered p st hp⟩
  | none =>
    rw [hfind] at h
    obtain ⟨rv, st, rfl, hrv, -⟩ := h
    rw [Delivery.FirstAnswer, hfind]
    exact hrv

/-- What was tried before had no completed exchange, and has left nothing in a brigade. -/
theorem completedBodies_tried {requiredLength : ℤ} (h : requiredLength < 0)
    (paths : List FilePath) : completedBodies (tried requiredLength paths) = [] := by
  rw [completedBodies_eq_nil_iff]
  intro q hq hcompleted
  rw [tried, accepted_of_negative h, List.mem_filter] at hq
  obtain ⟨hnot, hreached⟩ := hq
  have := List.mem_takeWhile_imp hnot
  simp [FilePath.answered, hreached, hcompleted] at this

theorem ownDelivery_begins (maxBufferSize : ℕ) (destinationFilePath : Option Bytes)
    (ps : List FilePath) (old : Bytes) (p : FilePath) :
    ∃ behind, ownDelivery maxBufferSize destinationFilePath ps old p = p.body ++ behind := by
  unfold ownDelivery
  split_ifs with h
  · exact ⟨[], (List.append_nil _).symm⟩
  · exact ⟨_, rfl⟩

theorem mfsFileSystemGet_firstAnswer (mode : Delivery) (maxBufferSize : ℕ)
    {paths : List FilePath} (hpaths : paths ≠ []) {requiredLength : ℤ} (hneg : requiredLength < 0)
    (bytes : Option Bytes) (totalBytes : Option ℕ) {d : Disk} (hd : d.Calm)
    (hholds : ∀ initial, mode = .brigade initial → d.Holds initial) :
    mode.FirstAnswer paths d
      (mfsFileSystemGet maxBufferSize (.ok paths) mode.destinationFilePath requiredLength
        (mode.start bytes totalBytes d)) := by
  have hne : paths = [] → AprStatus.success ≠ .success := fun h => absurd h hpaths
  cases mode with
  | callerFile =>
    refine (fileSystemGetLoop_file maxBufferSize none requiredLength paths
      (Delivery.callerFile.start bytes totalBytes d) hne (f := .caller) (hd.of_drop (n := 0) rfl)
      rfl rfl (Function.update_self ..)).firstAnswer .callerFile hneg ?_
    exact fun p st hp => ⟨_, hp.2⟩
  | bytesOrTempFile =>
    refine (fileSystemGetLoop_own maxBufferSize none nofun requiredLength paths
      (Delivery.bytesOrTempFile.start bytes totalBytes d) hne hd rfl rfl rfl).firstAnswer
      .bytesOrTempFile hneg fun p st hp => ?_
    obtain ⟨behind, hbegins⟩ := ownDelivery_begins maxBufferSize none
      (tried requiredLength paths) (d.spillContent none) p
    exact ⟨behind, hp.trans (congrArg some hbegins)⟩
  | destination path =>
    by_cases hslash : lastSlash path = none
    · rcases fileSystemGetLoop_noSlash maxBufferSize hslash requiredLength paths
        ((Delivery.destination path).start bytes totalBytes d) hne hd rfl rfl rfl with h | h
      · obtain ⟨d', h⟩ := h
        show Delivery.FirstAnswer _ _ _ (fileSystemGetLoop _ (some path) _ _ _ _)
        rw [h]
        trivial
      · exact h.firstAnswer (.destination path) hneg fun p st hp =>
          ⟨[], hp.trans (by simp [Delivery.before])⟩
    · refine (fileSystemGetLoop_own maxBufferSize (some path)
        (fun _ hpath => Option.some.inj hpath ▸ hslash) requiredLength paths
        ((Delivery.destination path).start bytes totalBytes d) hne hd rfl rfl rfl).firstAnswer
        (.destination path) hneg fun p st hp => ?_
      obtain ⟨behind, hbegins⟩ := ownDelivery_begins maxBufferSize (some path)
        (tried requiredLength paths) (d.spillContent (some path)) p
      exact ⟨behind, hp.trans (congrArg some hbegins)⟩
  | brigade initial =>
    refine (fileSystemGetLoop_brigade maxBufferSize requiredLength paths
      ((Delivery.brigade initial).start bytes totalBytes d) hne hd rfl rfl rfl
      (hholds initial rfl)).firstAnswer (.brigade initial) hneg fun p st hp => ⟨[], ?_⟩
    rw [completedBodies_tried hneg, List.append_nil] at hp
    rw [List.append_nil]
    exact hp

/-! ## Both -/

/-- Every run of an upload and every download without a required length: what counts is
    a completed exchange, for the PUT before a `create_close` and for the body that is
    delivered. -/
theorem completed_answers_count (u : Upload) (pool : PoolArg) (w : World)
    (puts : Stream' PutOutcome) (seeks : Stream' AprStatus) (mode : Delivery)
    (maxBufferSize : ℕ) {paths : List FilePath} (hpaths : paths ≠ []) {requiredLength : ℤ}
    (hneg : requiredLength < 0) (bytes : Option Bytes) (totalBytes : Option ℕ) {d : Disk}
    (hd : d.Calm) (hholds : ∀ initial, mode = .brigade initial → d.Holds initial) :
    (∃ s, mfsStoreFileOrBytes u pool w puts seeks = .ok s ∧ Each RestsOnCompleted s.log ∧
      (s.rv = .success → ∃ past url out r close,
        s.log = past ++ [.put url out r] ++ [.createClose close] ∧ out.completed)) ∧
    mode.FirstAnswer paths d
      (mfsFileSystemGet maxBufferSize (.ok paths) mode.destinationFilePath requiredLength
        (mode.start bytes totalBytes d)) := by
  refine ⟨?_, mfsFileSystemGet_firstAnswer mode maxBufferSize hpaths hneg bytes totalBytes hd
    hholds⟩
  obtain ⟨n, s, hrun, hbooks, -, -, hclosed⟩ :=
    mfsStoreFileOrBytes_spec u pool w puts seeks (I := fun _ => True) trivial
      fun _ _ _ _ _ _ _ => trivial
  have hrests := Lawful.restsOnCompleted hbooks.lawful
  refine ⟨s, hrun, hrests, fun hsuccess => ?_⟩
  obtain ⟨log, close, hlog, -⟩ := hclosed.mp hsuccess
  obtain ⟨past, url, out, r, rfl, hcompleted⟩ := hrests log (.createClose close) [] hlog
  exact ⟨past, url, out, r, close, hlog, hcompleted⟩

/-! ### Answers that are no success -/

/-- A `create_open` response with all three keys, and the answer to `create_close`. -/
def completeAnswers : List Exchange :=
  [lineExchange (str "OK 1 path=http://a/1&fid=1&devid=2\r\n") (by decide),
    lineExchange (str "OK 1 x=1\r\n") closeAnswer_fits]

/-- A PUT answered with 200, and a download whose first path is answered with 404. -/
theorem completed_answers_count_missing :
    (∃ s, mfsStoreFileOrBytes threeBytes .given
        (oneTrackerWorld [⟨0, 0⟩] .success completeAnswers)
        (Stream'.const (answeredPut 200)) (Stream'.const .success) = .ok s ∧
      Each RestsOnCompleted s.log ∧
      (s.rv = .success → ∃ past url out r close,
        s.log = past ++ [.put url out r] ++ [.createClose close] ∧ out.completed)) ∧
    Delivery.callerFile.FirstAnswer [pathWith ⟨404, [str "no"], true⟩] emptyDisk
      (mfsFileSystemGet 8 (.ok [pathWith ⟨404, [str "no"], true⟩]) none (-1)
        (Delivery.callerFile.start none none emptyDisk)) :=
  completed_answers_count threeBytes .given (oneTrackerWorld [⟨0, 0⟩] .success completeAnswers)
    (Stream'.const (answeredPut 200)) (Stream'.const .success) .callerFile 8
    (List.cons_ne_nil _ _) (by decide) none none (fun _ => rfl) (fun _ h => nomatch h)

/-- The status code says that the request was successful. -/
def is2xx (status : ℕ) : Bool := 200 ≤ status && status < 300

/-- A `create_close` comes right after a PUT that was answered with success. -/
def RestsOn2xx (past : List UploadEvent) : UploadEvent → Prop
  | .createClose _ => ∃ past' url out r, past = past' ++ [.put url out r] ∧ is2xx out.status
  | _ => True

/-- The status codes of the PUTs right before a `create_close`. -/
def closedStatuses : List UploadEvent → List ℕ
  | .put _ out _ :: .createClose close :: log =>
    out.status :: closedStatuses (.createClose close :: log)
  | _ :: log => closedStatuses log
  | [] => []

theorem closedStatuses_2xx (past : List UploadEvent) {log : List UploadEvent}
    (h : Each RestsOn2xx (past ++ log)) : ∀ status ∈ closedStatuses log, is2xx status := by
  induction log using closedStatuses.induct generalizing past with
  | case1 url out r close log ih =>
    rw [closedStatuses, List.forall_mem_cons]
    refine ⟨?_, ih (past ++ [.put url out r]) (by simpa using h)⟩
    obtain ⟨past', url', out', r', hsplit, h2xx⟩ :=
      h (past ++ [.put url out r]) (.createClose close) log (by simp)
    obtain ⟨-, hput⟩ := List.append_inj' hsplit rfl
    obtain ⟨-, rfl, -⟩ : url = url' ∧ out = out' ∧ r = r' := by simpa using hput
    exact h2xx
  | case2 e log hnot ih =>
    rw [closedStatuses.eq_2 e log hnot]
    exact ih (past ++ [e]) (by simpa using h)
  | case3 => simp [closedStatuses]

/-- A PUT answered with 500 is closed, and the upload succeeds; a download delivers the
    body of a 404 answer. -/
theorem error_answers_count :
    ¬Each RestsOn2xx (logOf (mfsStoreFileOrBytes threeBytes .given
        (oneTrackerWorld [⟨0, 0⟩] .success completeAnswers)
        (Stream'.const (answeredPut 500)) (Stream'.const .success))) ∧
      ((mfsStoreFileOrBytes threeBytes .given
        (oneTrackerWorld [⟨0, 0⟩] .success completeAnswers)
        (Stream'.const (answeredPut 500)) (Stream'.const .success)).map UploadState.rv) =
          .ok .success ∧
      Delivery.callerFile.observe
        (mfsFileSystemGet 8
          (.ok [pathWith ⟨404, [str "no"], true⟩, pathWith ⟨200, [str "yes"], true⟩]) none (-1)
          (Delivery.callerFile.start none none emptyDisk)) =
        some (.success, some 2, some (str "no")) := by
  refine ⟨fun h => ?_, by decide +kernel, by decide +kernel⟩
  have hrun : closedStatuses (logOf (mfsStoreFileOrBytes threeBytes .given
      (oneTrackerWorld [⟨0, 0⟩] .success completeAnswers)
      (Stream'.const (answeredPut 500)) (Stream'.const .success))) = [500] := by decide +kernel
  generalize logOf _ = log at h hrun
  have h500 := closedStatuses_2xx [] h 500 (by rw [hrun]; exact List.mem_singleton_self _)
  exact absurd h500 (by decide)

end MogileFs
