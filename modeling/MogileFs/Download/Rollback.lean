import MogileFs.Download.Storage
import MogileFs.Library.Rings

/-!
# The caller's brigade after a failed transfer

`mfs_file_server_get` (`src/file_download.c`, lines 165–307) remembers the last bucket of the
caller's brigade before the transfer (line 191), the write callback appends buckets (line 151),
and after a failure everything behind the remembered bucket is deleted (lines 262–275), when the
callback has counted any bytes. The brigade is a ring here, as it is in the source.

Results:
* `deliverChunks_appended`: what the callback does to a brigade, whatever operations fail.
* `finishRing_represents`: the walk over the ring leaves what `finishBrigade` says.
* `brigade_restored`: after a failure the brigade has its initial bytes.
-/

namespace MogileFs

open Function Rings

/-! ## The callback -/

/-- The write buffer and the disk of a transfer into the caller's brigade, which held `brigade` on
    the disk `d₀`, after `count` chunks. -/
structure Appended (brigade : List Bucket) (d₀ : Disk) (destinationFilePath : Option Bytes)
    (count : ℕ) (buf : WriteBuffer) (d : Disk) : Prop where
  wanted : buf.dontWantBrigade = false
  destination : buf.destinationFilePath = destinationFilePath
  buckets : ∃ kept : List Bytes, buf.brigade = brigade ++ kept.map .memory ∧
    kept.flatten.length ≤ buf.currentSize ∧ kept.length ≤ count
  content : ∀ id, id ≠ d₀.spillFile destinationFilePath → d.content id = d₀.content id
  spilled : ∀ h, buf.file = some h → (d.handles h).file = d₀.spillFile destinationFilePath
  notSpilled : buf.file = none → d.nextTemp = d₀.nextTemp

theorem aprFileWriteFull_content (d : Disk) (h : ℕ) (data : Bytes) {id : FileId}
    (hid : id ≠ (d.handles h).file) : (aprFileWriteFull d h data).2.2.content id = d.content id :=
  update_of_ne hid _ _

theorem aprFileWriteFull_handle (d : Disk) (h : ℕ) (data : Bytes) :
    ((aprFileWriteFull d h data).2.2.handles h).file = (d.handles h).file := by
  simp only [aprFileWriteFull, Disk.outcome, update_self]

/-- What opening a file does to the disk: only the file `f` may change, a handle is a handle of
    it, and without a handle no temporary file has been made. -/
structure OpensFile (d : Disk) (f : FileId) (file : Option ℕ) (d' : Disk) : Prop where
  content : ∀ id, id ≠ f → d'.content id = d.content id
  handle : ∀ n, file = some n → (d'.handles n).file = f
  nextTemp : file = none → d'.nextTemp = d.nextTemp

theorem aprFileMktemp_opens (d : Disk) :
    OpensFile d (.temp d.nextTemp) (aprFileMktemp d).1 (aprFileMktemp d).2 := by
  unfold aprFileMktemp Disk.outcome
  by_cases hrv : d.io.head.rv = .success
  · simp only [hrv, if_true]
    refine ⟨fun id hid => update_of_ne hid _ _, fun n hn => ?_, fun hnone => by cases hnone⟩
    obtain rfl := Option.some.inj hn
    simp only [Disk.openHandle, update_self]
  · simp only [hrv, if_false]
    exact ⟨fun _ _ => rfl, fun _ hn => absurd hn.symm (Option.some_ne_none _), fun _ => rfl⟩

theorem aprFileOpen_opens (d : Disk) (path : Bytes) :
    OpensFile d (.named path) (aprFileOpen d path).1 (aprFileOpen d path).2 := by
  unfold aprFileOpen Disk.outcome
  by_cases hrv : d.io.head.rv = .success
  · simp only [hrv, if_true]
    refine ⟨fun _ _ => rfl, fun n hn => ?_, fun hnone => by cases hnone⟩
    obtain rfl := Option.some.inj hn
    simp only [Disk.openHandle, update_self]
  · simp only [hrv, if_false]
    exact ⟨fun _ _ => rfl, fun _ hn => absurd hn.symm (Option.some_ne_none _), fun _ => rfl⟩

/-- Opening the file leaves the buffer as it was. -/
theorem openSpillFile_opens {buf buf' : WriteBuffer} {d d' : Disk} {file : Option ℕ}
    (h : openSpillFile buf d = .ok (file, buf', d')) :
    buf' = buf ∧ OpensFile d (d.spillFile buf.destinationFilePath) file d' := by
  unfold openSpillFile at h
  cases hdest : buf.destinationFilePath with
  | none =>
    simp only [hdest, Except.ok.injEq, Prod.mk.injEq] at h
    obtain ⟨rfl, rfl, rfl⟩ := h
    exact ⟨rfl, aprFileMktemp_opens d⟩
  | some path =>
    simp only [hdest] at h
    cases hslash : lastSlash path with
    | none => simp [hslash] at h
    | some i =>
      have hbuf : { buf with destinationFilePath := some path } = buf := by rw [← hdest]
      simp only [hslash, set_lastSlash hslash, hbuf, Except.ok.injEq, Prod.mk.injEq] at h
      obtain ⟨rfl, rfl, rfl⟩ := h
      obtain ⟨hcontent, hhandle, hnext⟩ :=
        aprFileOpen_opens (aprDirMakeRecursive d (cstr (path.set i 0))) path
      exact ⟨rfl, hcontent, hhandle, hnext⟩

theorem spillFile_congr {d d₀ : Disk} (h : d.nextTemp = d₀.nextTemp)
    (destinationFilePath : Option Bytes) :
    d.spillFile destinationFilePath = d₀.spillFile destinationFilePath := by
  cases destinationFilePath with
  | none => exact congrArg FileId.temp h
  | some path => rfl

/-- Opening the file keeps what the transfer has appended. -/
theorem Appended.opened {brigade : List Bucket} {d₀ : Disk} {destinationFilePath : Option Bytes}
    {count : ℕ} {buf : WriteBuffer} {d d' : Disk} {file : Option ℕ}
    (h : Appended brigade d₀ destinationFilePath count buf d) (hfile : buf.file = none)
    (hopen : OpensFile d (d.spillFile buf.destinationFilePath) file d') :
    Appended brigade d₀ destinationFilePath count { buf with file := file } d' := by
  obtain ⟨hcontent, hhandle, hnext⟩ := hopen
  rw [h.destination, spillFile_congr (h.notSpilled hfile) destinationFilePath] at hcontent hhandle
  refine ⟨h.wanted, h.destination, h.buckets, fun id hid => ?_, hhandle, fun hnone => ?_⟩
  · rw [hcontent id hid, h.content id hid]
  · rw [hnext hnone, h.notSpilled hfile]

/-- A write to the transfer's file, whatever becomes of it. -/
theorem Appended.write {brigade : List Bucket} {d₀ : Disk} {destinationFilePath : Option Bytes}
    {count : ℕ} {buf : WriteBuffer} {d : Disk} {file : ℕ}
    (h : Appended brigade d₀ destinationFilePath count buf d) (hfile : buf.file = some file)
    (ptr : Bytes) (fileSize : ℕ) {currentSize : ℕ} (hsize : buf.currentSize ≤ currentSize) :
    Appended brigade d₀ destinationFilePath (count + 1)
      { buf with fileSize := fileSize, currentSize := currentSize }
      (aprFileWriteFull d file ptr).2.2 := by
  obtain ⟨kept, hbuckets, hkept, hcount⟩ := h.buckets
  have hspilled := h.spilled file hfile
  refine ⟨h.wanted, h.destination, ⟨kept, hbuckets, hkept.trans hsize, by omega⟩,
    fun id hid => ?_, fun k hk => ?_, fun hnone => ?_⟩
  · rw [← h.content id hid]
    exact aprFileWriteFull_content d file ptr (by rwa [hspilled])
  · obtain rfl : file = k := Option.some.inj (hfile.symm.trans hk)
    rw [aprFileWriteFull_handle, hspilled]
  · have hsome : (none : Option ℕ) = some file := hnone.symm.trans hfile
    cases hsome

/-- A chunk kept in memory. -/
theorem Appended.keep {brigade : List Bucket} {d₀ : Disk} {destinationFilePath : Option Bytes}
    {count : ℕ} {buf : WriteBuffer} {d : Disk}
    (h : Appended brigade d₀ destinationFilePath count buf d) (ptr : Bytes) :
    Appended brigade d₀ destinationFilePath (count + 1)
      { buf with
        brigade := buf.brigade ++ [.memory ptr]
        currentSize := buf.currentSize + ptr.length } d := by
  obtain ⟨kept, hbuckets, hkept, hcount⟩ := h.buckets
  refine ⟨h.wanted, h.destination, ⟨kept ++ [ptr], ?_, ?_, ?_⟩, h.content, h.spilled,
    h.notSpilled⟩
  · simp [hbuckets]
  · simp only [List.flatten_append, List.flatten_singleton, List.length_append]
    omega
  · rw [List.length_append, List.length_singleton]
    omega

theorem Appended.succ {brigade : List Bucket} {d₀ : Disk} {destinationFilePath : Option Bytes}
    {count : ℕ} {buf : WriteBuffer} {d : Disk}
    (h : Appended brigade d₀ destinationFilePath count buf d) :
    Appended brigade d₀ destinationFilePath (count + 1) buf d := by
  obtain ⟨kept, hbuckets, hkept, hcount⟩ := h.buckets
  exact { h with buckets := ⟨kept, hbuckets, hkept, by omega⟩ }

/-- One chunk. -/
theorem mfsBufferGetWriteCallback_appended {maxBufferSize : ℕ} {ptr : Bytes}
    {brigade : List Bucket} {d₀ : Disk} {destinationFilePath : Option Bytes} {count n : ℕ}
    {buf buf' : WriteBuffer} {d d' : Disk}
    (h : Appended brigade d₀ destinationFilePath count buf d)
    (hcall : mfsBufferGetWriteCallback maxBufferSize ptr buf d = .ok (n, buf', d')) :
    Appended brigade d₀ destinationFilePath (count + 1) buf' d' := by
  unfold mfsBufferGetWriteCallback at hcall
  cases hfile : buf.file with
  | some file =>
    -- the transfer has a file
    simp only [hfile, Except.ok.injEq, Prod.mk.injEq] at hcall
    obtain ⟨-, rfl, rfl⟩ := hcall
    rw [← hfile]
    exact h.write hfile ptr _ (Nat.le_add_right _ _)
  | none =>
    simp only [hfile] at hcall
    split_ifs at hcall with hcrosses
    · cases hopen : openSpillFile buf d with
      | error d₁ => simp [hopen] at hcall
      | ok result =>
        obtain ⟨file, buf₁, d₁⟩ := result
        obtain ⟨rfl, hopens⟩ := openSpillFile_opens hopen
        have hopened := h.opened hfile hopens
        cases file with
        | none =>
          simp only [hopen, Except.ok.injEq, Prod.mk.injEq] at hcall
          obtain ⟨-, rfl, rfl⟩ := hcall
          rw [← hfile] at hopened
          exact hopened.succ
        | some file =>
          simp only [hopen, h.wanted, Bool.false_eq_true, if_false, Bool.not_true] at hcall
          split_ifs at hcall with hrv
          · simp only [Except.ok.injEq, Prod.mk.injEq] at hcall
            obtain ⟨-, rfl, rfl⟩ := hcall
            rw [← h.wanted]
            exact hopened.write rfl ptr _ le_rfl
          · simp only [Except.ok.injEq, Prod.mk.injEq] at hcall
            obtain ⟨-, rfl, rfl⟩ := hcall
            rw [← h.wanted]
            exact hopened.write rfl ptr _ (Nat.le_add_right _ _)
    · -- it stays in memory
      simp only [Except.ok.injEq, Prod.mk.injEq] at hcall
      obtain ⟨-, rfl, rfl⟩ := hcall
      rw [← hfile]
      exact h.keep ptr

/-- All the chunks that libcurl hands over. -/
theorem deliverChunks_appended {maxBufferSize : ℕ} {chunks : List Bytes} {brigade : List Bucket}
    {d₀ : Disk} {destinationFilePath : Option Bytes} {count : ℕ} {taken : Bool}
    {buf buf' : WriteBuffer} {d d' : Disk}
    (h : Appended brigade d₀ destinationFilePath count buf d)
    (hdeliver : deliverChunks maxBufferSize chunks buf d = .ok (taken, buf', d')) :
    Appended brigade d₀ destinationFilePath (count + chunks.length) buf' d' := by
  induction chunks generalizing count buf d with
  | nil =>
    simp only [deliverChunks, Except.ok.injEq, Prod.mk.injEq] at hdeliver
    obtain ⟨-, rfl, rfl⟩ := hdeliver
    exact h
  | cons ptr chunks ih =>
    rw [deliverChunks] at hdeliver
    cases hcall : mfsBufferGetWriteCallback maxBufferSize ptr buf d with
    | error d₁ => simp [hcall] at hdeliver
    | ok result =>
      obtain ⟨n, buf₁, d₁⟩ := result
      have hstep := mfsBufferGetWriteCallback_appended h hcall
      simp only [hcall] at hdeliver
      have hcount : count + (ptr :: chunks).length = count + 1 + chunks.length := by
        rw [List.length_cons]
        omega
      rw [hcount]
      split_ifs at hdeliver with hn
      · exact ih hstep hdeliver
      · simp only [Except.ok.injEq, Prod.mk.injEq] at hdeliver
        obtain ⟨-, rfl, rfl⟩ := hdeliver
        obtain ⟨kept, hbuckets, hsize, hle⟩ := hstep.buckets
        exact ⟨hstep.wanted, hstep.destination, ⟨kept, hbuckets, hsize, by omega⟩,
          hstep.content, hstep.spilled, hstep.notSpilled⟩

/-! ## The brigade as a ring -/

/-- `apr_bucket_brigade`: a ring, and the buckets its nodes are. -/
structure BrigadeRing where
  ring : LinkedRing ℕ
  bucket : ℕ → Bucket

/-- The ring consists of `nodes`, whose buckets are those of `brigade`. -/
structure BrigadeRing.Represents (br : BrigadeRing) (nodes : List ℕ) (brigade : List Bucket) :
    Prop where
  holds : br.ring.Holds nodes
  buckets : nodes.map br.bucket = brigade

/-- `APR_BUCKET_INSERT_AFTER(APR_BRIGADE_LAST(brigade), b)` for a new bucket at `node`. -/
def BrigadeRing.append (br : BrigadeRing) (node : ℕ) (b : Bucket) : BrigadeRing :=
  ⟨br.ring.insertTail node, update br.bucket node b⟩

/-- One bucket after the other, the `i`-th at `node i`. -/
def BrigadeRing.appendAll (node : ℕ → ℕ) : ℕ → List Bucket → BrigadeRing → BrigadeRing
  | _, [], br => br
  | i, b :: added, br => appendAll node (i + 1) added (br.append (node i) b)

/-- The epilogue for the caller's brigade (lines 262–280), `startBucket` being the bucket
    remembered before the transfer and `node` where a file bucket is allocated. Each loop makes at
    most `fuel` rounds. -/
def finishRing (startBucket : Place ℕ) (rv : AprStatus) (buf : WriteBuffer) (d : Disk)
    (node fuel : ℕ) (br : BrigadeRing) : BrigadeRing :=
  if rv ≠ .success ∧ buf.currentSize > 0 then
    if startBucket = .sentinel then { br with ring := br.ring.cleanup fuel }
    else { br with ring := br.ring.deleteFrom fuel (br.ring.next startBucket) }
  else if rv = .success then
    match buf.file with
    | some h => br.append node (.file (d.handles h).file buf.fileSize)
    | none => br
  else br

theorem BrigadeRing.Represents.append {br : BrigadeRing} {nodes : List ℕ} {brigade : List Bucket}
    (h : br.Represents nodes brigade) {node : ℕ} (hnode : node ∉ nodes) (b : Bucket) :
    (br.append node b).Represents (nodes ++ [node]) (brigade ++ [b]) where
  holds := h.holds.insertTail hnode
  buckets := by
    have hold : nodes.map (update br.bucket node b) = nodes.map br.bucket :=
      List.map_congr_left fun n hn => update_of_ne (ne_of_mem_of_not_mem hn hnode) _ _
    show (nodes ++ [node]).map (update br.bucket node b) = _
    rw [List.map_append, List.map_singleton, update_self, hold, h.buckets]

theorem BrigadeRing.Represents.appendAll {br : BrigadeRing} {nodes : List ℕ}
    {brigade : List Bucket} (h : br.Represents nodes brigade) {node : ℕ → ℕ}
    (hnode : Function.Injective node) (i : ℕ) (hfresh : ∀ j, i ≤ j → node j ∉ nodes)
    (added : List Bucket) :
    (br.appendAll node i added).Represents (nodes ++ (List.range' i added.length).map node)
      (brigade ++ added) := by
  induction added generalizing br nodes brigade i with
  | nil => simpa [BrigadeRing.appendAll] using h
  | cons b added ih =>
    have hstep := ih (h.append (hfresh i le_rfl) b) (i + 1) fun j hj hmem => by
      rcases List.mem_append.mp hmem with hmem | hmem
      · exact hfresh j (by omega) hmem
      · have := hnode (List.mem_singleton.mp hmem)
        omega
    rw [List.append_assoc, List.append_assoc] at hstep
    exact hstep

/-- The walk over the ring deletes what was appended, and only that. -/
theorem finishRing_rollback {br br' : BrigadeRing} {nodes added : List ℕ}
    {brigade : List Bucket} (h : br.Represents nodes brigade)
    (h' : br'.ring.Holds (nodes ++ added)) (hkept : nodes.map br'.bucket = brigade)
    {rv : AprStatus} (hrv : rv ≠ .success) {buf : WriteBuffer} (hsize : 0 < buf.currentSize)
    (d : Disk) (node : ℕ) {fuel : ℕ} (hfuel : (nodes ++ added).length ≤ fuel) :
    (finishRing (br.ring.prev .sentinel) rv buf d node fuel br').Represents nodes brigade := by
  have hstart : br.ring.prev .sentinel = LinkedRing.lastPlace .sentinel nodes := h.holds.close.2
  rw [finishRing, if_pos ⟨hrv, hsize⟩, hstart]
  split_ifs with hempty
  · -- the brigade was empty
    obtain rfl : nodes = [] := by
      by_contra hne
      have hlast := LinkedRing.lastPlace_append_ne hne .sentinel []
      rw [List.nil_append, hempty] at hlast
      cases hlast
    exact ⟨h'.cleanup hfuel, hkept⟩
  · refine ⟨?_, hkept⟩
    rw [h'.linked.1]
    rw [List.length_append] at hfuel
    exact h'.deleteFrom (by omega)

/-- The epilogue on the ring leaves the brigade that `finishBrigade` says. -/
theorem finishRing_represents {br : BrigadeRing} {nodes : List ℕ} {brigade added : List Bucket}
    (h : br.Represents nodes brigade) {node : ℕ → ℕ} (hnode : Function.Injective node)
    (hfresh : ∀ i, node i ∉ nodes) (rv : AprStatus) {buf : WriteBuffer}
    (hbuf : buf.brigade = brigade ++ added) (d : Disk) (st : DownloadState) {fuel : ℕ}
    (hfuel : nodes.length + added.length ≤ fuel) :
    ∃ brigade' nodes', (finishBrigade brigade rv buf d st).brigade = some brigade' ∧
      (finishRing (br.ring.prev .sentinel) rv buf d (node added.length) fuel
        (br.appendAll node 0 added)).Represents nodes' brigade' := by
  have hall := h.appendAll hnode 0 (fun i _ => hfresh i) added
  rw [← hbuf] at hall
  by_cases hrv : rv = .success
  · subst hrv
    simp only [finishBrigade, finishRing, ne_eq, not_true_eq_false, false_and, if_false, if_true]
    cases buf.file with
    | none => exact ⟨_, _, rfl, hall⟩
    | some file =>
      refine ⟨_, _, rfl, hall.append (fun hmem => ?_) _⟩
      rcases List.mem_append.mp hmem with hmem | hmem
      · exact hfresh _ hmem
      · obtain ⟨i, hi, heq⟩ := List.mem_map.mp hmem
        have := hnode heq
        have := (List.mem_range'_1.mp hi).2
        omega
  · by_cases hsize : buf.currentSize > 0
    · have hkept : nodes.map (br.appendAll node 0 added).bucket = brigade := by
        have hmap := hall.buckets
        rw [hbuf, List.map_append] at hmap
        exact List.append_inj_left hmap (by rw [List.length_map, ← h.buckets, List.length_map])
      refine ⟨brigade, nodes, ?_, finishRing_rollback h hall.holds hkept hrv hsize d _ (by
        simpa using hfuel)⟩
      simp only [finishBrigade, ne_eq, hrv, not_false_eq_true, if_true, hsize]
    · refine ⟨buf.brigade, nodes ++ (List.range' 0 added.length).map node, ?_, ?_⟩
      · simp only [finishBrigade, ne_eq, hrv, not_false_eq_true, if_true, hsize, if_false]
      · rw [finishRing, if_neg (fun hand => hsize hand.2), if_neg hrv]
        exact hall

/-- `mfs_file_server_get` on the ring of the caller's brigade: the callback appends buckets, the
    epilogue deletes them again or appends a file bucket. `none` when it goes through NULL. -/
def mfsFileServerGetRing (maxBufferSize : ℕ) (p : FilePath) (destinationFilePath : Option Bytes)
    (st : DownloadState) (node : ℕ → ℕ) (fuel : ℕ) (br : BrigadeRing) : Option BrigadeRing :=
  if p.server.Had then
    match deliverChunks maxBufferSize p.transfer.chunks (writeBufferFor st destinationFilePath)
      st.disk with
    | .error _ => none
    | .ok (taken, buf, d) =>
      let added := buf.brigade.drop (st.brigade.getD []).length
      some (finishRing (br.ring.prev .sentinel)
        (transferStatus (taken && p.transfer.completed) p.server.settle) buf d
        (node added.length) fuel (br.appendAll node 0 added))
  else some br

/-! ## The bytes of the brigade -/

/-- What a failed transfer into a brigade leaves: the initial buckets, and behind them at most
    buckets without bytes. -/
theorem finishBrigade_restored {brigade : List Bucket} {d₀ d : Disk}
    {destinationFilePath : Option Bytes} {count : ℕ} {buf : WriteBuffer}
    (h : Appended brigade d₀ destinationFilePath count buf d)
    (hapart : ∀ length, Bucket.file (d₀.spillFile destinationFilePath) length ∉ brigade)
    {rv : AprStatus} (hrv : rv ≠ .success) (st : DownloadState) :
    ∃ brigade', (finishBrigade brigade rv buf d st).brigade = some brigade' ∧
      brigadeBytes d brigade' = brigadeBytes d₀ brigade := by
  obtain ⟨kept, hbuckets, hsize, -⟩ := h.buckets
  have hold : brigadeBytes d brigade = brigadeBytes d₀ brigade := by
    refine brigadeBytes_congr fun id length hb => h.content id ?_
    rintro rfl
    exact hapart length hb
  simp only [finishBrigade, ne_eq, hrv, not_false_eq_true, if_true]
  by_cases hpos : buf.currentSize > 0
  · rw [if_pos hpos]
    exact ⟨brigade, rfl, hold⟩
  · -- only empty chunks have been kept
    rw [if_neg hpos]
    have hnil : kept.flatten = [] := List.eq_nil_of_length_eq_zero (by omega)
    refine ⟨buf.brigade, rfl, ?_⟩
    rw [hbuckets, brigadeBytes_append, brigadeBytes_memory, hnil, List.append_nil, hold]

/-- After a failure the ring of the brigade has exactly the bytes that it had before, whatever
    failed and however far the transfer had come. -/
theorem brigade_restored {maxBufferSize : ℕ} {p : FilePath} {destinationFilePath : Option Bytes}
    {st st' : DownloadState} {rv : AprStatus} {brigade : List Bucket} (hfile : st.file = none)
    (hbrigade : st.brigade = some brigade)
    (hapart : ∀ length, Bucket.file (st.disk.spillFile destinationFilePath) length ∉ brigade)
    {br : BrigadeRing} {nodes : List ℕ} (hbr : br.Represents nodes brigade) {node : ℕ → ℕ}
    (hnode : Function.Injective node) (hfresh : ∀ i, node i ∉ nodes) {fuel : ℕ}
    (hfuel : nodes.length + p.transfer.chunks.length ≤ fuel)
    (hget : mfsFileServerGet maxBufferSize p destinationFilePath st = .ok (rv, st'))
    (hrv : rv ≠ .success) :
    ∃ br' nodes' brigade',
      mfsFileServerGetRing maxBufferSize p destinationFilePath st node fuel br = some br' ∧
      br'.Represents nodes' brigade' ∧ st'.brigade = some brigade' ∧
      brigadeBytes st'.disk brigade' = brigadeBytes st.disk brigade := by
  rcases mfsFileServerGet_cases hget with ⟨hhad, -, rfl⟩ | ⟨hhad, taken, buf, d, hdeliver, hfinish⟩
  · exact ⟨br, nodes, brigade, if_neg hhad, hbr, hbrigade, rfl⟩
  · have hstart : Appended brigade st.disk destinationFilePath 0
        (writeBufferFor st destinationFilePath) st.disk := by
      simp only [writeBufferFor, hfile, hbrigade]
      exact ⟨rfl, rfl, ⟨[], by simp, le_rfl, le_rfl⟩, fun _ _ => rfl,
        fun _ hn => absurd hn.symm (Option.some_ne_none _), fun _ => rfl⟩
    have happended := deliverChunks_appended hstart hdeliver
    obtain ⟨kept, hbuckets, -, hcount⟩ := happended.buckets
    simp only [finishTransfer, DownloadState.transferred, hfile, hbrigade, Except.ok.injEq,
      Prod.mk.injEq] at hfinish
    obtain ⟨rfl, rfl⟩ := hfinish
    obtain ⟨brigade', hrestored, hbytes⟩ := finishBrigade_restored happended hapart hrv
      (st.transferred (taken && p.transfer.completed) p.server.settle buf)
    have hroom : nodes.length + (kept.map Bucket.memory).length ≤ fuel := by
      rw [List.length_map]
      omega
    obtain ⟨brigade'', nodes', hfinal, hring⟩ := finishRing_represents hbr hnode hfresh
      (transferStatus (taken && p.transfer.completed) p.server.settle) hbuckets d
      (st.transferred (taken && p.transfer.completed) p.server.settle buf) hroom
    obtain rfl : brigade'' = brigade' := Option.some.inj (hfinal.symm.trans hrestored)
    refine ⟨_, nodes', brigade'', ?_, hring, hrestored, hbytes⟩
    have hadded : buf.brigade.drop brigade.length = kept.map .memory := by
      rw [hbuckets, List.drop_left]
    rw [mfsFileServerGetRing, if_pos hhad, hdeliver, hbrigade]
    simp only [Option.getD_some, hadded]

/-- A brigade that holds one byte, and a transfer that fails after it has gone over to a file. -/
theorem brigade_restored_spilled :
    ∃ rv st' br' nodes' brigade',
      mfsFileServerGet 3 (pathWith ⟨200, [str "ab", str "cd"], false⟩) none
        ⟨none, none, none, some [.memory (str "x")], emptyDisk, []⟩ = .ok (rv, st') ∧
      rv ≠ .success ∧
      mfsFileServerGetRing 3 (pathWith ⟨200, [str "ab", str "cd"], false⟩) none
        ⟨none, none, none, some [.memory (str "x")], emptyDisk, []⟩ Nat.succ 3
        ⟨LinkedRing.empty.insertTail 0, fun _ => .memory (str "x")⟩ = some br' ∧
      br'.Represents nodes' brigade' ∧ st'.brigade = some brigade' ∧
      brigadeBytes st'.disk brigade' = brigadeBytes emptyDisk [.memory (str "x")] := by
  have hcalm : emptyDisk.Calm := fun _ => rfl
  obtain ⟨rv, st', -, hget, htransferred, -⟩ := mfsFileServerGet_brigade
    (p := pathWith ⟨200, [str "ab", str "cd"], false⟩) (by decide) 3
    ⟨none, none, none, some [.memory (str "x")], emptyDisk, []⟩ hcalm rfl rfl (by simp [Disk.Holds])
  have hrv : rv ≠ .success := fun h => Bool.false_ne_true (htransferred.status.mp h)
  have hring : (⟨LinkedRing.empty.insertTail 0, fun _ => .memory (str "x")⟩ :
      BrigadeRing).Represents [0] [.memory (str "x")] :=
    ⟨LinkedRing.holds_empty.insertTail List.not_mem_nil, rfl⟩
  obtain ⟨br', nodes', brigade', hrun, hrepresents, hbrigade, hbytes⟩ := brigade_restored rfl rfl
    (by simp) hring Nat.succ_injective (by simp) (le_refl 3) hget hrv
  exact ⟨rv, st', br', nodes', brigade', hget, hrv, hrun, hrepresents, hbrigade, hbytes⟩

end MogileFs
