import MogileFs.Download.Content

/-!
# The path of a spilled download

When a download outgrows the memory it may use, `mfs_buffer_get_write_callback`
(`src/file_download.c`, lines 94–122) cuts the caller's path at its last slash, makes
the directory in front of it and opens the file. The scan goes down to position 1 and
looks at no slash at position 0, and a path without another slash is neither cut nor
mended: the path itself is made a directory, and the mending goes through NULL.

Results:
* `lastSlash_none_iff`, `lastSlash_split`: what the scan finds.
* `callback_of_lastSlash`: the calls the callback makes for a path that is cut, however
  they end.
* `spillSafe_iff`: the paths for which the callback is safe.
-/

namespace MogileFs

/-- `parent` is a directory the path goes on from: a slash stands behind it, and a name
    further on. -/
def ProperParent (parent path : Bytes) : Prop :=
  ∃ name, path = parent ++ ch '/' :: name ∧ ∃ c ∈ name, c ≠ ch '/'

/-- A call of the callback that spills to `path` returns, has made a parent directory and
    opened the path, in this order and nothing else, and has left the path as it was. -/
def SpillSafe (path : Bytes) (d : Disk) (r : Except Disk (ℕ × WriteBuffer × Disk)) : Prop :=
  ∃ n buf d' parent, r = .ok (n, buf, d') ∧ ProperParent parent path ∧
    d'.calls = d.calls ++ [.dirMakeRecursive parent, .fileOpen path] ∧
    buf.destinationFilePath = some path

/-- A slash that is not the first character of the path, and not a slash at its end. -/
def NamesParent (path : Bytes) : Prop :=
  (∃ i, 0 < i ∧ path[i]? = some (ch '/')) ∧ path.getLast? ≠ some (ch '/')

/-! ## The scan -/

theorem lastSlashFrom_none_iff {path : Bytes} {n : ℕ} :
    lastSlashFrom path n = none ↔ ∀ i, 0 < i → i ≤ n → path[i]? ≠ some (ch '/') := by
  have hslash : ∀ i, path.getD i 0 = ch '/' ↔ path[i]? = some (ch '/') := by
    intro i
    rw [List.getD_eq_getElem?_getD]
    cases path[i]? with
    | none => simp [show (0 : Byte) ≠ ch '/' by decide]
    | some c => simp
  induction n with
  | zero =>
    refine iff_of_true rfl ?_
    intro i hpos hle
    omega
  | succ n ih =>
    rw [lastSlashFrom]
    split_ifs with hn
    · refine iff_of_false (by simp) ?_
      intro h
      exact h (n + 1) (Nat.succ_pos n) le_rfl ((hslash _).mp hn)
    · refine ih.trans ?_
      constructor
      · intro h i hpos hle
        by_cases hi : i = n + 1
        · rw [hi]
          exact fun hc => hn ((hslash _).mpr hc)
        · exact h i hpos (by omega)
      · intro h i hpos hle
        exact h i hpos (by omega)

/-- No slash is found when there is none behind the first character. -/
theorem lastSlash_none_iff {path : Bytes} :
    lastSlash path = none ↔ ¬∃ i, 0 < i ∧ path[i]? = some (ch '/') := by
  rw [lastSlash, lastSlashFrom_none_iff]
  constructor
  · rintro h ⟨i, hpos, hi⟩
    exact h i hpos (List.getElem?_eq_some_iff.mp hi).1.le hi
  · intro h i hpos _ hi
    exact h ⟨i, hpos, hi⟩

theorem lastSlashFrom_some {path : Bytes} {n i : ℕ} (h : lastSlashFrom path n = some i) :
    0 < i ∧ i ≤ n ∧ ∀ j, i < j → j ≤ n → path.getD j 0 ≠ ch '/' := by
  induction n with
  | zero => simp [lastSlashFrom] at h
  | succ n ih =>
    rw [lastSlashFrom] at h
    split_ifs at h with hn
    · obtain rfl : n + 1 = i := by simpa using h
      exact ⟨Nat.succ_pos n, le_rfl, fun j hj hle => by omega⟩
    · obtain ⟨hpos, hle, hbehind⟩ := ih h
      refine ⟨hpos, by omega, ?_⟩
      intro j hj hjn
      by_cases hjn' : j = n + 1
      · rw [hjn']
        exact hn
      · exact hbehind j hj (by omega)

/-- The path in front of the slash, the slash, and a rest without one. -/
theorem lastSlash_split {path : Bytes} {i : ℕ} (h : lastSlash path = some i) :
    path = path.take i ++ ch '/' :: path.drop (i + 1) ∧ ch '/' ∉ path.drop (i + 1) := by
  obtain ⟨-, -, hbehind⟩ := lastSlashFrom_some h
  have hget : path.getD i 0 = ch '/' := lastSlashFrom_getD h
  have hi : i < path.length := by
    by_contra hi
    rw [List.getD_eq_default _ _ (by omega)] at hget
    exact absurd hget (by decide)
  rw [List.getD_eq_getElem _ _ hi] at hget
  constructor
  · rw [← hget, List.getElem_cons_drop, List.take_append_drop]
  · intro hmem
    obtain ⟨k, hk, hkc⟩ := List.getElem_of_mem hmem
    rw [List.length_drop] at hk
    rw [List.getElem_drop] at hkc
    refine hbehind (i + 1 + k) (by omega) (by omega) ?_
    rw [List.getD_eq_getElem _ _ (by omega), hkc]

/-- The string while the slash is a NUL. -/
theorem cstr_set_lastSlash {path : Bytes} {i : ℕ} (h : lastSlash path = some i)
    (hnul : (0 : Byte) ∉ path) : cstr (path.set i 0) = path.take i := by
  have hlen := congrArg List.length (lastSlash_split h).1
  rw [List.length_append, List.length_cons, List.length_take, List.length_drop] at hlen
  rw [List.set_eq_take_append_cons_drop, if_pos (by omega)]
  exact cstr_append_nul (fun hmem => hnul (List.mem_of_mem_take hmem)) _

/-- A rest without a slash is a name exactly when the path does not end in one. -/
theorem properParent_take_iff {path : Bytes} {i : ℕ} (h : lastSlash path = some i) :
    ProperParent (path.take i) path ↔ path.getLast? ≠ some (ch '/') := by
  obtain ⟨hsplit, hrest⟩ := lastSlash_split h
  constructor
  · rintro ⟨name, hname, c, hc, -⟩ hlast
    have hsame : path.drop (i + 1) = name := by
      have happend := hsplit.symm.trans hname
      exact (List.cons.inj (List.append_cancel_left happend)).2
    -- the last character is one of the name
    rw [hsplit, hsame, List.getLast?_append_of_ne_nil _ (by simp),
      List.getLast?_cons_of_ne_nil (List.ne_nil_of_mem hc)] at hlast
    exact hrest (hsame ▸ List.mem_of_getLast? hlast)
  · intro hlast
    refine ⟨path.drop (i + 1), hsplit, ?_⟩
    have hne : path.drop (i + 1) ≠ [] := by
      intro hnil
      rw [hsplit, hnil] at hlast
      simp at hlast
    obtain ⟨c, hc⟩ := List.exists_mem_of_ne_nil _ hne
    exact ⟨c, hc, fun hslash => hrest (hslash ▸ hc)⟩

/-! ## The callback -/

theorem copyBuckets_calls (h : ℕ) (brigade : List Bucket) (fileSize : ℕ) (d : Disk) :
    (copyBuckets h brigade fileSize d).2.2.calls = d.calls := by
  induction brigade generalizing fileSize d with
  | nil => rfl
  | cons b brigade ih =>
    rw [copyBuckets]
    simp only
    split_ifs
    · rfl
    · rfl
    · rw [ih]
      rfl

/-- Opening the file makes the two calls, and leaves the buffer alone. -/
theorem openSpillFile_calls {buf : WriteBuffer} {path : Bytes}
    (hpath : buf.destinationFilePath = some path) (hnul : (0 : Byte) ∉ path) {i : ℕ}
    (hi : lastSlash path = some i) (d : Disk) :
    ∃ h d', openSpillFile buf d = .ok (h, buf, d') ∧
      d'.calls = d.calls ++ [.dirMakeRecursive (path.take i), .fileOpen path] := by
  have hbuf : { buf with destinationFilePath := some path } = buf := by rw [← hpath]
  refine ⟨(aprFileOpen (aprDirMakeRecursive d (path.take i)) path).1,
    (aprFileOpen (aprDirMakeRecursive d (path.take i)) path).2, ?_, ?_⟩
  · unfold openSpillFile
    simp only [hpath, hi, set_lastSlash hi, cstr_set_lastSlash hi hnul, hbuf]
  · unfold aprFileOpen
    simp only
    split_ifs
    · exact List.append_assoc d.calls _ _
    · exact List.append_assoc d.calls _ _

/-- The callback where the first slash from the end is at position `i`. -/
theorem callback_of_lastSlash {maxBufferSize : ℕ} {ptr : Bytes} {buf : WriteBuffer} {path : Bytes}
    (hfile : buf.file = none) (hpath : buf.destinationFilePath = some path)
    (hnul : (0 : Byte) ∉ path) (hcross : ptr.length + buf.currentSize > maxBufferSize) {i : ℕ}
    (hi : lastSlash path = some i) (d : Disk) :
    ∃ n buf' d', mfsBufferGetWriteCallback maxBufferSize ptr buf d = .ok (n, buf', d') ∧
      d'.calls = d.calls ++ [.dirMakeRecursive (path.take i), .fileOpen path] ∧
      buf'.destinationFilePath = some path := by
  obtain ⟨h, d', hopen, hcalls⟩ := openSpillFile_calls hpath hnul hi d
  unfold mfsBufferGetWriteCallback
  simp only [hfile, if_pos hcross, hopen]
  cases h with
  | none => exact ⟨0, buf, d', rfl, hcalls, hpath⟩
  | some h =>
    have hcopied := copyBuckets_calls h buf.brigade buf.fileSize d'
    by_cases hwant : buf.dontWantBrigade = true
    · simp only [hwant, if_true]
      split_ifs
      · exact ⟨_, _, _, rfl, hcopied.trans hcalls, hpath⟩
      · exact ⟨_, _, _, rfl, hcopied.trans hcalls, hpath⟩
      · exact ⟨_, _, _, rfl, hcopied.trans hcalls, hpath⟩
    · simp only [if_neg hwant, Bool.not_true, Bool.false_eq_true, if_false]
      split_ifs
      · exact ⟨_, _, _, rfl, hcalls, hpath⟩
      · exact ⟨_, _, _, rfl, hcalls, hpath⟩

/-- When a download first exceeds `max_buffer_size`, the callback is safe for exactly
    the paths with a slash behind their first character and none at their end, whatever
    the calls of `apr_dir_make_recursive` and `apr_file_open` return. -/
theorem spillSafe_iff (maxBufferSize : ℕ) (ptr : Bytes) (buf : WriteBuffer) (d : Disk)
    {path : Bytes} (hfile : buf.file = none) (hpath : buf.destinationFilePath = some path)
    (hnul : (0 : Byte) ∉ path) (hcross : ptr.length + buf.currentSize > maxBufferSize) :
    SpillSafe path d (mfsBufferGetWriteCallback maxBufferSize ptr buf d) ↔ NamesParent path := by
  cases hslash : lastSlash path with
  | none =>
    -- `last_slash` is still NULL when it is written through
    have hcrash : mfsBufferGetWriteCallback maxBufferSize ptr buf d =
        .error (aprDirMakeRecursive d path) := by
      unfold mfsBufferGetWriteCallback openSpillFile
      simp only [hfile, if_pos hcross, hpath, hslash]
    rw [hcrash]
    refine iff_of_false ?_ fun h => lastSlash_none_iff.mp hslash h.1
    rintro ⟨n, buf', d', parent, hok, -⟩
    cases hok
  | some i =>
    obtain ⟨n, buf', d', hok, hcalls, hkept⟩ :=
      callback_of_lastSlash hfile hpath hnul hcross hslash d
    have hfound : ∃ i, 0 < i ∧ path[i]? = some (ch '/') := by
      by_contra hnone
      rw [lastSlash_none_iff.mpr hnone] at hslash
      cases hslash
    rw [NamesParent, and_iff_right hfound, ← properParent_take_iff hslash, hok]
    constructor
    · rintro ⟨n', buf'', d'', parent, hok', hparent, hcalls', -⟩
      cases hok'
      rw [hcalls] at hcalls'
      have hsame : path.take i = parent := by
        have := List.append_cancel_left hcalls'
        simpa using this
      rw [hsame]
      exact hparent
    · intro hparent
      exact ⟨n, buf', d', path.take i, rfl, hparent, hcalls, hkept⟩

/-- A buffer that holds nothing yet. -/
def spillBuffer (path : Bytes) : WriteBuffer := ⟨[], true, 0, 0, none, some path⟩

theorem spillSafe_iff_directory : SpillSafe (str "tmp/a") emptyDisk
    (mfsBufferGetWriteCallback 0 (str "x") (spillBuffer (str "tmp/a")) emptyDisk) :=
  (spillSafe_iff 0 (str "x") (spillBuffer (str "tmp/a")) emptyDisk rfl rfl (by decide)
    (by decide)).mpr ⟨⟨3, by decide⟩, by decide⟩

/-- A path without a slash. -/
theorem spill_crashes_without_slash : ¬SpillSafe (str "a") emptyDisk
    (mfsBufferGetWriteCallback 0 (str "x") (spillBuffer (str "a")) emptyDisk) := by
  rintro ⟨n, buf, d', parent, hok, -⟩
  cases hok

end MogileFs
