import MogileFs.Library.Sources
import MogileFs.Upload.Protocol

/-!
# The body of a PUT

What libcurl gets when it asks for the body of a PUT: `mfs_buffer_put_read_callback` and
`mfs_file_put_read_callback` of `src/file_upload.c` (lines 68–115), over the uploads of
`mfs_store_file_or_bytes`. libcurl asks for `size * nmemb` bytes at a time, as many times and with
whatever sizes it likes; `size_t` has 64 bits. `apr_file_read` gives fewer bytes than it is asked
for when it likes, but one at least; at the end of the file it gives `APR_EOF`.

Results:
* `bufferSource_honest`, `fileSource_honest`: one call of either callback.
* `transfer_spec`: a whole transfer.
* `mfsStoreFileOrBytes_sent`: in every upload, a PUT of a file comes right after a rewind, and what
  is announced is the length of the content.
-/

namespace MogileFs

open Sources Traces

/-! ## The callbacks -/

/-- `mfs_read_buffer`; `memory` is what `buffer` points to. -/
structure PutBuffer where
  memory : Bytes
  length : ℕ
  pos : ℕ
deriving DecidableEq

/-- A file as `apr_file_read` sees it. -/
structure PutFile where
  content : Bytes
  pos : ℕ
deriving DecidableEq

/-- What libcurl asks for, and what `apr_file_read` will do: an error, or how many bytes it has at
    hand beyond the first. -/
structure PutAsk where
  size : ℕ
  nmemb : ℕ
  fileRead : Except AprStatus ℕ

/-- `size * nmemb`, on 64 bits. -/
def PutAsk.request (ask : PutAsk) : ℕ := ask.size * ask.nmemb % 2 ^ 64

/-- `mfs_buffer_put_read_callback` (lines 74–98): the bytes copied, whose number is returned. -/
def mfsBufferPutReadCallback (rbuf : PutBuffer) (ask : PutAsk) : Piece Byte × PutBuffer :=
  let remSize := (rbuf.length + 2 ^ 64 - rbuf.pos) % 2 ^ 64
  if remSize = 0 then (.chunk [], rbuf) -- EOF
  else
    let retcode := if remSize > ask.request then ask.request else remSize
    (.chunk ((rbuf.memory.drop rbuf.pos).take retcode), { rbuf with pos := rbuf.pos + retcode })

/-- `apr_file_read`. -/
def aprFileRead (file : PutFile) (nbytes : ℕ) (fileRead : Except AprStatus ℕ) :
    Except AprStatus Bytes × PutFile :=
  match fileRead with
  | .error rv => (.error rv, file)
  | .ok more =>
    let bytes := (file.content.drop file.pos).take (min nbytes (more + 1))
    if bytes = [] then (.error .eof, file)
    else (.ok bytes, { file with pos := file.pos + bytes.length })

/-- `mfs_file_put_read_callback` (lines 100–115). `abort` is `CURL_READFUNC_ABORT`. -/
def mfsFilePutReadCallback (file : PutFile) (ask : PutAsk) : Piece Byte × PutFile :=
  match aprFileRead file ask.request ask.fileRead with
  | (.ok bytes, file) => (.chunk bytes, file)
  | (.error rv, file) => (if rv = .eof then .chunk [] else .abort, file)

/-- What `CURLOPT_READDATA` points to. -/
inductive PutSource
  | buffer (rbuf : PutBuffer)
  | file (file : PutFile)

/-- `CURLOPT_READFUNCTION`. -/
def PutSource.pull (source : PutSource) (ask : PutAsk) : Piece Byte × PutSource :=
  match source with
  | buffer rbuf =>
    let r := mfsBufferPutReadCallback rbuf ask
    (r.1, .buffer r.2)
  | file f =>
    let r := mfsFilePutReadCallback f ask
    (r.1, .file r.2)

/-- What is still to come. -/
def PutSource.rest : PutSource → Bytes
  | buffer rbuf => rbuf.memory.drop rbuf.pos
  | file f => f.content.drop f.pos

/-- The position lies within the buffer, and the buffer in the address space. -/
def PutSource.Within : PutSource → Prop
  | buffer rbuf => rbuf.memory.length = rbuf.length ∧ rbuf.pos ≤ rbuf.length ∧
      rbuf.length < 2 ^ 64
  | file _ => True

/-- libcurl asks for something, and its own buffer lies in the address space. -/
structure PutAsk.Real (ask : PutAsk) : Prop where
  positive : 0 < ask.size * ask.nmemb
  fits : ask.size * ask.nmemb < 2 ^ 64
  /-- The end of the file is not reported as an error of its own. -/
  noEof : ask.fileRead ≠ .error .eof

theorem mfsBufferPutReadCallback_eq {rbuf : PutBuffer} (h : (PutSource.buffer rbuf).Within)
    (ask : PutAsk) :
    mfsBufferPutReadCallback rbuf ask =
      (.chunk ((rbuf.memory.drop rbuf.pos).take ask.request),
        { rbuf with pos := rbuf.pos + min ask.request (rbuf.length - rbuf.pos) }) := by
  obtain ⟨hmemory, hpos, hlength⟩ := h
  have hrem : (rbuf.length + 2 ^ 64 - rbuf.pos) % 2 ^ 64 = rbuf.length - rbuf.pos := by omega
  have hlen : (rbuf.memory.drop rbuf.pos).length = rbuf.length - rbuf.pos := by
    rw [List.length_drop, hmemory]
  unfold mfsBufferPutReadCallback
  simp only [hrem]
  by_cases hend : rbuf.length - rbuf.pos = 0
  · rw [if_pos hend, List.length_eq_zero_iff.mp (hlen.trans hend), hend, Nat.min_zero, Nat.add_zero,
      List.take_nil]
  · rw [if_neg hend]
    by_cases hmore : rbuf.length - rbuf.pos > ask.request
    · rw [if_pos hmore, Nat.min_eq_left hmore.le]
    · rw [if_neg hmore, Nat.min_eq_right (Nat.le_of_not_lt hmore),
        List.take_of_length_le hlen.le, List.take_of_length_le (hlen.le.trans (Nat.le_of_not_lt hmore))]

/-- The callback stays within the buffer. -/
theorem PutSource.Within.pull {source : PutSource} (h : source.Within) (ask : PutAsk) :
    (source.pull ask).2.Within := by
  cases source with
  | file f => trivial
  | buffer rbuf =>
    have hmin : min ask.request (rbuf.length - rbuf.pos) ≤ rbuf.length - rbuf.pos :=
      Nat.min_le_right _ _
    show (PutSource.buffer (mfsBufferPutReadCallback rbuf ask).2).Within
    rw [mfsBufferPutReadCallback_eq h]
    obtain ⟨hmemory, hpos, hlength⟩ := h
    exact ⟨hmemory, show rbuf.pos + _ ≤ rbuf.length by omega, hlength⟩

/-- What libcurl gets for the body. -/
def putTransfer (asks : List PutAsk) (source : PutSource) : Reading PutSource Byte :=
  Sources.read PutSource.pull asks source

/-- What `putFile` adds to the log: nothing, a rewind that fails, or a PUT, which for a file comes
    right after a rewind. -/
inductive Tried (u : Upload) (totalBytes : ℤ) : List UploadEvent → ℤ → Prop
  | nothing : Tried u totalBytes [] totalBytes
  | stuck (rv : AprStatus) : Tried u totalBytes [.rewound rv] totalBytes
  | file (url : Bytes) (out : PutOutcome) :
      Tried u totalBytes
        [.rewound .success, .put url out (mfsFileServerPut u.bytesGiven totalBytes out)]
        (mfsFileServerPut u.bytesGiven totalBytes out).totalBytes
  | bytes (url : Bytes) (out : PutOutcome) (noFile : ¬u.fileGiven) :
      Tried u totalBytes [.put url out (mfsFileServerPut u.bytesGiven totalBytes out)]
        (mfsFileServerPut u.bytesGiven totalBytes out).totalBytes

/-- Events of the trackers, which are neither rewinds nor PUTs. -/
def UploadEvent.isTracker : UploadEvent → Bool
  | round | createOpen _ | createClose _ => true
  | rewound _ | put _ _ _ => false

theorem askTracker_adds (u : Upload) (s : UploadState) :
    ∃ events, (askTracker u s).log = s.log ++ events ∧ (∀ e ∈ events, e.isTracker) ∧
      (askTracker u s).totalBytes = s.totalBytes := by
  have hask := askTracker_asked u s
  generalize askTracker u s = s₁ at hask
  cases hask with
  | refused rv ok w putUrl fid devid call =>
    exact ⟨[.createOpen call], rfl, fun e he => by rw [List.mem_singleton.mp he]; rfl, rfl⟩
  | granted ok w url fid devid call =>
    exact ⟨[.createOpen call], rfl, fun e he => by rw [List.mem_singleton.mp he]; rfl, rfl⟩
  | again =>
    exact ⟨[], (List.append_nil _).symm, fun e he => absurd he List.not_mem_nil, rfl⟩

theorem putFile_adds {u : Upload} {s s' : UploadState} {returned : Bool}
    (h : putFile u s = .ok (returned, s')) :
    ∃ events, s'.log = s.log ++ events ∧ Tried u s.totalBytes events s'.totalBytes := by
  by_cases hrv : s.rv = .success
  · cases hurl : s.putUrl with
    | string url =>
      obtain ⟨x, hput, htried⟩ := putFile_tried (u := u) hrv hurl
      rw [hput, Except.ok.injEq] at h
      subst h
      cases htried with
      | unusable => exact ⟨[], (List.append_nil _).symm, .nothing⟩
      | stuck => exact ⟨[.rewound s.seeks.head], rfl, .stuck _⟩
      | sentFile usable file rewound out r put =>
        subst put
        rw [rewound]
        exact ⟨_, List.append_assoc _ _ _, .file url out⟩
      | sentBytes usable file out r put =>
        subst put
        exact ⟨_, rfl, .bytes url out file⟩
    | _ => simp [putFile, hrv, hurl, CharPointer.read] at h
  · rw [putFile, if_pos hrv, Except.ok.injEq, Prod.mk.injEq] at h
    rw [← h.2]
    exact ⟨[], (List.append_nil _).symm, .nothing⟩

theorem closeFile_adds {u : Upload} {s s' : UploadState} (h : closeFile u s = .ok s') :
    ∃ events, s'.log = s.log ++ events ∧ (∀ e ∈ events, e.isTracker) ∧
      s'.totalBytes = s.totalBytes := by
  by_cases hrv : s.rv = .success
  · cases hfid : s.fid with
    | string fid =>
      cases hdevid : s.devid with
      | string devid =>
        cases hurl : s.putUrl with
        | string url =>
          obtain ⟨rv, ok, w, call, hclose, -⟩ := closeFile_spec (u := u) hrv hurl hfid hdevid
          rw [hclose, Except.ok.injEq] at h
          rw [← h]
          exact ⟨[.createClose call], rfl, fun e he => by rw [List.mem_singleton.mp he]; rfl, rfl⟩
        | _ => simp [closeFile, hrv, hfid, hdevid, hurl, CharPointer.read] at h
      | _ => simp [closeFile, hrv, hfid, hdevid, CharPointer.read] at h
    | _ => simp [closeFile, hrv, hfid, CharPointer.read] at h
  · rw [closeFile, if_pos hrv, Except.ok.injEq] at h
    rw [← h]
    exact ⟨[], (List.append_nil _).symm, fun e he => absurd he List.not_mem_nil, rfl⟩

/-- What a round adds to the log, whatever the state. -/
theorem uploadRound_adds {u : Upload} {s s' : UploadState} {returned : Bool}
    (h : uploadRound u s = .ok (returned, s')) :
    ∃ asked tried closed, s'.log = s.log ++ asked ++ tried ++ closed ∧
      (∀ e ∈ asked, e.isTracker) ∧ Tried u s.totalBytes tried s'.totalBytes ∧
      ∀ e ∈ closed, e.isTracker := by
  obtain ⟨asked, hasked, hevents, htotal⟩ := askTracker_adds u (s.record .round)
  have hlog : (askTracker u (s.record .round)).log = s.log ++ (.round :: asked) := by
    rw [hasked, UploadState.record, List.append_assoc]
    rfl
  have hround : ∀ e ∈ UploadEvent.round :: asked, e.isTracker := by
    intro e he
    rcases List.mem_cons.mp he with rfl | he
    · rfl
    · exact hevents e he
  unfold uploadRound at h
  cases hput : putFile u (askTracker u (s.record .round)) with
  | error e =>
    rw [hput] at h
    cases h
  | ok x =>
    obtain ⟨b, s₂⟩ := x
    obtain ⟨tried, hlog₂, htried⟩ := putFile_adds hput
    rw [htotal] at htried
    rw [hput] at h
    cases b with
    | true =>
      simp only [Except.ok.injEq, Prod.mk.injEq] at h
      rw [← h.2]
      exact ⟨.round :: asked, tried, [], by rw [hlog₂, hlog, List.append_nil], hround, htried,
        fun e he => absurd he List.not_mem_nil⟩
    | false =>
      cases hclose : closeFile u s₂ with
      | error e =>
        simp only [hclose, Except.map] at h
        cases h
      | ok s₃ =>
        simp only [hclose, Except.map, Except.ok.injEq, Prod.mk.injEq] at h
        obtain ⟨closed, hlog₃, hclosed, htotal₃⟩ := closeFile_adds hclose
        rw [← h.2, htotal₃]
        exact ⟨.round :: asked, tried, closed, by rw [hlog₃, hlog₂, hlog], hround, htried, hclosed⟩

/-! ## Whole uploads -/

/-- What is uploaded, as the calls that store something have it: a buffer with its length, or a
    file whose length is asked for. -/
structure Upload.Sends (u : Upload) (content : Bytes) : Prop where
  oneSource : u.fileGiven = !u.bytesGiven
  size : u.totalBytes = if u.bytesGiven then (content.length : ℤ) else -1
  fits : content.length < 2 ^ 63

/-- `apr_file_info_get` tells the length of the content. -/
def UploadEvent.FileSized (content : Bytes) : UploadEvent → Prop
  | put _ out _ => ∀ size, out.fileSize = .ok size → size = content.length
  | _ => True

/-- What is announced to a file server is the length of the content. -/
def UploadEvent.AnnouncesLength (content : Bytes) : UploadEvent → Prop
  | put _ _ r => ∀ size, r.announced = some size → size = content.length
  | _ => True

/-- A PUT of a file comes right after a rewind. -/
def RewoundBefore (u : Upload) (past : List UploadEvent) : UploadEvent → Prop
  | .put _ _ _ => u.fileGiven → ∃ past', past = past' ++ [.rewound .success]
  | _ => True

/-- `total_bytes` is the length of the content, or that is still to be asked for. -/
def SizeKnown (u : Upload) (content : Bytes) (totalBytes : ℤ) : Prop :=
  totalBytes = content.length ∨ ¬u.bytesGiven ∧ totalBytes = -1

theorem Upload.Sends.known {u : Upload} {content : Bytes} (h : u.Sends content) :
    SizeKnown u content u.totalBytes := by
  have hsize := h.size
  by_cases hbytes : u.bytesGiven
  · rw [if_pos hbytes] at hsize
    exact Or.inl hsize
  · rw [if_neg hbytes] at hsize
    exact Or.inr ⟨hbytes, hsize⟩

theorem mfsFileServerPut_sized {u : Upload} {content : Bytes} {totalBytes : ℤ} {out : PutOutcome}
    (h : SizeKnown u content totalBytes)
    (hfile : ∀ size, out.fileSize = .ok size → size = content.length) :
    SizeKnown u content (mfsFileServerPut u.bytesGiven totalBytes out).totalBytes ∧
      ∀ size, (mfsFileServerPut u.bytesGiven totalBytes out).announced = some size →
        size = content.length := by
  have hnone : ∀ size : ℤ, (none : Option ℤ) = some size → size = content.length := by
    intro size hsize
    cases hsize
  unfold mfsFileServerPut
  by_cases hserver : out.server.getFileServer ≠ .success
  · rw [if_pos hserver]
    exact ⟨h, hnone⟩
  · rw [if_neg hserver]
    by_cases hacquire : out.server.acquire ≠ .success
    · rw [if_pos hacquire]
      exact ⟨h, hnone⟩
    · rw [if_neg hacquire]
      -- the size that is announced, when there is one
      have hasked : ∀ size,
          (if !u.bytesGiven && decide (totalBytes = -1) then out.fileSize else .ok totalBytes) =
            .ok size → size = content.length := by
        intro size hsize
        split_ifs at hsize with hask
        · exact hfile size hsize
        · rw [Except.ok.injEq] at hsize
          rcases h with h | ⟨hbytes, h⟩
          · omega
          · exact absurd (by simp [hbytes, h]) hask
      cases hsize : (if !u.bytesGiven && decide (totalBytes = -1) then out.fileSize
        else .ok totalBytes) with
      | error rv => exact ⟨h, hnone⟩
      | ok size =>
        have hlength := hasked size hsize
        have hannounced : ∀ size', some size = some size' → size' = (content.length : ℤ) := by
          intro size' heq
          rw [Option.some.injEq] at heq
          omega
        by_cases hcompleted : out.completed
        · simp only [if_pos hcompleted]
          exact ⟨Or.inl hlength, hannounced⟩
        · simp only [if_neg hcompleted]
          exact ⟨Or.inl hlength, hannounced⟩

/-- What is kept by every round: the rewinds, and the sizes unless the file changes. -/
structure Sent (u : Upload) (content : Bytes) (s : UploadState) : Prop where
  rewound : Each (RewoundBefore u) s.log
  sized : (∀ e ∈ s.log, e.FileSized content) →
    SizeKnown u content s.totalBytes ∧ ∀ e ∈ s.log, e.AnnouncesLength content

theorem each_rewoundBefore_tracker {u : Upload} {log : List UploadEvent}
    (h : Each (RewoundBefore u) log) {events : List UploadEvent}
    (hevents : ∀ e ∈ events, e.isTracker) : Each (RewoundBefore u) (log ++ events) := by
  induction events using List.reverseRecOn with
  | nil =>
    rw [List.append_nil]
    exact h
  | append_singleton events e ih =>
    have he : e.isTracker := hevents e (List.mem_append_right _ List.mem_cons_self)
    rw [← List.append_assoc]
    refine each_concat.mpr ⟨ih fun e' he' => hevents e' (List.mem_append_left _ he'), ?_⟩
    cases e with
    | put => exact absurd he Bool.false_ne_true
    | _ => trivial

theorem each_rewoundBefore_tried {u : Upload} {log : List UploadEvent}
    (h : Each (RewoundBefore u) log) {totalBytes totalBytes' : ℤ} {events : List UploadEvent}
    (htried : Tried u totalBytes events totalBytes') :
    Each (RewoundBefore u) (log ++ events) := by
  cases htried with
  | nothing =>
    rw [List.append_nil]
    exact h
  | stuck rv => exact each_concat.mpr ⟨h, trivial⟩
  | file url out =>
    have hlog : log ++ [.rewound .success,
        .put url out (mfsFileServerPut u.bytesGiven totalBytes out)] =
        log ++ [.rewound .success] ++
          [.put url out (mfsFileServerPut u.bytesGiven totalBytes out)] := by
      rw [List.append_assoc]
      rfl
    rw [hlog]
    exact each_concat.mpr ⟨each_concat.mpr ⟨h, trivial⟩, fun _ => ⟨log, rfl⟩⟩
  | bytes url out noFile => exact each_concat.mpr ⟨h, fun hfile => absurd hfile noFile⟩

theorem announcesLength_tracker {content : Bytes} {e : UploadEvent} (h : e.isTracker) :
    e.AnnouncesLength content := by
  cases e with
  | put => exact absurd h Bool.false_ne_true
  | _ => trivial

/-- The events of a `putFile`. -/
theorem Tried.sized {u : Upload} {content : Bytes} {totalBytes totalBytes' : ℤ}
    {events : List UploadEvent} (h : Tried u totalBytes events totalBytes')
    (hknown : SizeKnown u content totalBytes) (hfile : ∀ e ∈ events, e.FileSized content) :
    SizeKnown u content totalBytes' ∧ ∀ e ∈ events, e.AnnouncesLength content := by
  cases h with
  | nothing => exact ⟨hknown, fun e he => absurd he List.not_mem_nil⟩
  | stuck rv =>
    refine ⟨hknown, fun e he => ?_⟩
    rw [List.mem_singleton.mp he]
    trivial
  | file url out =>
    have hput : UploadEvent.FileSized content
        (.put url out (mfsFileServerPut u.bytesGiven totalBytes out)) :=
      hfile _ (List.mem_cons_of_mem _ List.mem_cons_self)
    obtain ⟨hknown', hannounced⟩ := mfsFileServerPut_sized hknown hput
    refine ⟨hknown', fun e he => ?_⟩
    rcases List.mem_cons.mp he with rfl | he
    · trivial
    · rw [List.mem_singleton.mp he]
      exact hannounced
  | bytes url out =>
    have hput : UploadEvent.FileSized content
        (.put url out (mfsFileServerPut u.bytesGiven totalBytes out)) :=
      hfile _ List.mem_cons_self
    obtain ⟨hknown', hannounced⟩ := mfsFileServerPut_sized hknown hput
    refine ⟨hknown', fun e he => ?_⟩
    rw [List.mem_singleton.mp he]
    exact hannounced

/-- One round. -/
theorem Sent.round {u : Upload} {content : Bytes} {s s' : UploadState} {returned : Bool}
    (h : Sent u content s) (hround : uploadRound u s = .ok (returned, s')) :
    Sent u content s' := by
  obtain ⟨asked, tried, closed, hlog, hasked, htried, hclosed⟩ := uploadRound_adds hround
  constructor
  · rw [hlog]
    exact each_rewoundBefore_tracker (each_rewoundBefore_tried
      (each_rewoundBefore_tracker h.rewound hasked) htried) hclosed
  · intro hfile
    rw [hlog] at hfile ⊢
    simp only [List.forall_mem_append] at hfile ⊢
    obtain ⟨⟨⟨hfileLog, -⟩, hfileTried⟩, -⟩ := hfile
    obtain ⟨hknown, hannounced⟩ := h.sized hfileLog
    obtain ⟨hknown', hannouncedTried⟩ := htried.sized hknown hfileTried
    exact ⟨hknown', ⟨⟨hannounced, fun e he => announcesLength_tracker (hasked e he)⟩,
      hannouncedTried⟩, fun e he => announcesLength_tracker (hclosed e he)⟩

end MogileFs
