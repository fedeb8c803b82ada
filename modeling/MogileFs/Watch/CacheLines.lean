import MogileFs.Library.CheckedStrings
import MogileFs.Watch.Fidelity
import MogileFs.Watch.LineCopy

/-!
# Cache lines

`get_next_watch_cache_line` (src/watch.c:137-157), which returns what follows the id
in the lines `[cache][id] text` that another client has caused. The line stands in the
caller's buffer of `len` positions, which is read and written through checked
memory: going past the buffer ends the run.

To read past the terminator of a line is to fail on the memory that ends
right behind it. That happens when fewer than two characters follow the id.

Results:
* `cacheFaithful_iff`: successive calls return what they should, and stay inside the
  lines, exactly when two characters follow every id that is not the client's.
* `cacheText_eq_none`: which lines have no text for the client.
* `cacheLine_skipped`, `cacheLine_returned`, `cacheLine_past`: what becomes of a line.
* `getNextWatchCacheLine_spec`: the lines that one call takes.
-/

namespace MogileFs

open Cells CheckedMemory

/-! ## The call -/

/-- Whether a line is somebody else's (line 146). -/
def otherClient (clientId : Option Bytes) (mem : Bytes) (cStart pos : ℕ) :
    Except OutOfBounds Bool :=
  match clientId with
  | none => .ok true
  | some clientId =>
    if pos ≠ clientId.length then .ok true
    else do return (← readMany mem cStart pos) ≠ clientId

/-- The string at `cStart` moved to the front of the buffer (line 148). -/
def moveLine (mem : Bytes) (cStart : ℕ) : Except OutOfBounds Bytes := do
  let length ← strlen 0 mem cStart
  memmove mem 0 cStart (length + 1)

/-- What is done with a line (lines 142–151): the buffer as it is returned, or nothing
    when the line is skipped. -/
def cacheLine (clientId : Option Bytes) (mem : Bytes) : Except OutOfBounds (Option Bytes) := do
  match ← strstr 0 (str "[cache][") mem 0 with
  | none => return none
  | some cStart =>
    let cStart := cStart + 8
    let pos ← strcspn 0 (str "] ") mem cStart
    if ← otherClient clientId mem cStart pos then return some (← moveLine mem (cStart + pos + 2))
    else return none

/-- What a call leaves; `rv` is an error once it has gone past the buffer.
    `delivered` is not in the source: the lines that `get_next_watch_line` has
    delivered to it. -/
structure CacheLineResult where
  rv : Except OutOfBounds (Option AprStatus)
  memory : ℕ → Byte
  state : WatchState
  delivered : List Bytes

/-- `get_next_watch_cache_line` (lines 137–157) with at most `lines` passes of its loop, and
    `passes` of those in `get_next_watch_line`. -/
def getNextWatchCacheLine (allowWatching : Bool) (clientId : Option Bytes) (passes len : ℕ) :
    ℕ → WatchState → (ℕ → Byte) → CacheLineResult
  | 0, s, buf => ⟨.ok none, buf, s, []⟩
  | lines + 1, s, buf =>
    if !allowWatching then ⟨.ok (some .egeneral), buf, s, []⟩
    else
      let (rv, memory, s) := getNextWatchLine allowWatching passes s buf len
      if rv = some .success then
        let line := cstr (cells memory len)
        match cacheLine clientId (cells memory len) with
        | .error e => ⟨.error e, memory, s, [line]⟩
        | .ok (some mem) => ⟨.ok (some .success), fun i => mem.getD i (memory i), s, [line]⟩
        | .ok none =>
          let r := getNextWatchCacheLine allowWatching clientId passes len lines s memory
          { r with delivered := line :: r.delivered }
      else ⟨.ok rv, memory, s, []⟩

/-- `n` calls into one buffer. -/
def watchCacheLines (clientId : Option Bytes) (passes len lines : ℕ) :
    ℕ → WatchState → (ℕ → Byte) → List CacheLineResult
  | 0, _, _ => []
  | n + 1, s, buf =>
    let r := getNextWatchCacheLine true clientId passes len lines s buf
    match r.rv with
    | .error _ => [r]
    | .ok _ => r :: watchCacheLines clientId passes len lines n r.state r.memory

/-! ## What it is for -/

/-- The text from `[cache][` on up to the first `]` or space. -/
def cacheId (t : Bytes) : Bytes := t.takeWhile (· ∉ str "] ")

/-- The text of a line for the client: what follows the id of somebody else and its
    two closing characters. -/
def cacheText (clientId : Option Bytes) (l : Bytes) : Option Bytes :=
  match behindFirst (str "[cache][") l with
  | none => none
  | some t => if some (cacheId t) = clientId then none else some (t.drop ((cacheId t).length + 2))

/-- Two characters follow the id, if it is somebody else's. -/
def IdClosed (clientId : Option Bytes) (l : Bytes) : Prop :=
  ∀ t, behindFirst (str "[cache][") l = some t → some (cacheId t) ≠ clientId →
    (cacheId t).length + 2 ≤ t.length

/-- The text that a call returns. -/
def CacheLineResult.returned (len : ℕ) (r : CacheLineResult) : Option Bytes :=
  match r.rv with
  | .ok (some .success) => some (cstr (cells r.memory len))
  | _ => none

/-- What is asked of successive calls: no line is read past its terminator, the texts
    are those of the lines, in order, and each is the end of the last line the
    call has taken. -/
structure CacheFaithful (clientId : Option Bytes) (len : ℕ) (results : List CacheLineResult) :
    Prop where
  inside : ∀ r ∈ results, ∀ l ∈ r.delivered, ∃ found, cacheLine clientId (l ++ [0]) = .ok found
  texts : results.filterMap (·.returned len) =
    (results.flatMap (·.delivered)).filterMap (cacheText clientId)
  suffix : ∀ r ∈ results, ∀ text, r.returned len = some text →
    ∃ l, r.delivered.getLast? = some l ∧ text <:+ l

/-- The lines that are skipped: those without the tag, and the client's own. -/
theorem cacheText_eq_none {clientId : Option Bytes} {l : Bytes} :
    cacheText clientId l = none ↔ ¬ str "[cache][" <:+: l ∨
      ∃ t, behindFirst (str "[cache][") l = some t ∧ some (cacheId t) = clientId := by
  rw [← behindFirst_eq_none, cacheText]
  cases h : behindFirst (str "[cache][") l with
  | none => simp
  | some t => simp

theorem cacheText_suffix {clientId : Option Bytes} {l text : Bytes}
    (h : cacheText clientId l = some text) : text <:+ l := by
  unfold cacheText at h
  split at h
  · cases h
  · rename_i t ht
    split_ifs at h
    rw [Option.some.injEq] at h
    obtain ⟨front, hfront⟩ := behindFirst_append ht
    rw [← h, hfront, ← List.append_assoc]
    exact (List.drop_suffix _ t).trans (List.suffix_append _ t)

/-! ## One line -/

variable {clientId : Option Bytes} {l tail : Bytes}

theorem otherClient_of_drop {mem t rest : Bytes} {i : ℕ} (h : mem.drop i = t ++ 0 :: rest) :
    otherClient clientId mem i (cacheId t).length = .ok (decide (some (cacheId t) ≠ clientId)) := by
  have hid : mem.drop i = cacheId t ++ (t.dropWhile (· ∉ str "] ") ++ 0 :: rest) := by
    rw [h, ← List.append_assoc, cacheId, List.takeWhile_append_dropWhile]
  cases clientId with
  | none => rfl
  | some clientId =>
    rw [otherClient]
    by_cases hlen : (cacheId t).length = clientId.length
    · rw [if_neg (not_not.mpr hlen), readMany_of_drop hid, ok_bind]
      simp only [ne_eq, Option.some.injEq]
      rfl
    · rw [if_pos hlen]
      have hne : cacheId t ≠ clientId := fun heq => hlen (congrArg List.length heq)
      simp [hne]

/-- A line without the tag. -/
theorem cacheLine_untagged (hl : (0 : Byte) ∉ l) (h : behindFirst (str "[cache][") l = none) :
    cacheLine clientId (l ++ 0 :: tail) = .ok none := by
  rw [cacheLine, strstr_of_none (i := 0) List.drop_zero hl (by decide) h]
  rfl

/-- A line with the tag, up to the choice that is made. -/
theorem cacheLine_tagged (clientId : Option Bytes) (tail : Bytes) {t : Bytes} (hl : (0 : Byte) ∉ l)
    (h : behindFirst (str "[cache][") l = some t) :
    ∃ cStart, (l ++ 0 :: tail).drop cStart = t ++ 0 :: tail ∧
      cacheLine clientId (l ++ 0 :: tail) =
        if some (cacheId t) = clientId then .ok none
        else do return some (← moveLine (l ++ 0 :: tail) (cStart + (cacheId t).length + 2)) := by
  have hfront : (l ++ 0 :: tail).drop 0 = l ++ 0 :: tail := List.drop_zero
  obtain ⟨j, hj, hdrop⟩ := strstr_of_some hfront hl (by decide) h
  have hlength : (str "[cache][").length = 8 := by decide
  rw [hlength] at hdrop
  have ht : (0 : Byte) ∉ t := by
    obtain ⟨front, hfront⟩ := behindFirst_append h
    intro hmem
    apply hl
    rw [hfront]
    exact List.mem_append_right _ (List.mem_append_right _ hmem)
  refine ⟨j + 8, hdrop, ?_⟩
  rw [cacheLine, hj, ok_bind]
  simp only
  rw [strcspn_of_drop hdrop ht, ok_bind]
  rw [show (t.takeWhile (· ∉ str "] ")).length = (cacheId t).length from rfl,
    otherClient_of_drop hdrop, ok_bind]
  by_cases hid : some (cacheId t) = clientId
  · rw [if_pos hid, if_neg (by simp [hid])]
    rfl
  · rw [if_neg hid, if_pos (by simp [hid])]

theorem moveLine_of_drop {mem text rest : Bytes} {cStart : ℕ}
    (h : mem.drop cStart = text ++ 0 :: rest) (htext : (0 : Byte) ∉ text) :
    moveLine mem cStart = .ok (text ++ 0 :: mem.drop (text.length + 1)) := by
  have hmove : mem.drop cStart = (text ++ [0]) ++ rest := by rw [h, List.append_assoc]; rfl
  have hlength : text.length + 1 = (text ++ [(0 : Byte)]).length := by simp
  rw [moveLine, strlen_of_drop h htext, ok_bind, hlength, memmove_front hmove, List.append_assoc]
  rfl

/-- A line that is not for the client is skipped. -/
theorem cacheLine_skipped (hl : (0 : Byte) ∉ l) (h : cacheText clientId l = none) :
    cacheLine clientId (l ++ 0 :: tail) = .ok none := by
  unfold cacheText at h
  split at h
  · rename_i hnone
    exact cacheLine_untagged hl hnone
  · rename_i t ht
    split_ifs at h with hid
    obtain ⟨cStart, -, hrun⟩ := cacheLine_tagged clientId tail hl ht
    rw [hrun, if_pos hid]

/-- A line whose id is closed is returned without what stands in front of its text. -/
theorem cacheLine_returned (tail : Bytes) {text : Bytes} (hl : (0 : Byte) ∉ l)
    (h : cacheText clientId l = some text) (hclosed : IdClosed clientId l) :
    ∃ rest, cacheLine clientId (l ++ 0 :: tail) = .ok (some (text ++ 0 :: rest)) ∧
      (text ++ 0 :: rest).length = (l ++ 0 :: tail).length := by
  have hsuffix := cacheText_suffix h
  have htext : (0 : Byte) ∉ text := fun hmem => hl (hsuffix.subset hmem)
  unfold cacheText at h
  split at h
  · cases h
  · rename_i t ht
    split_ifs at h with hid
    rw [Option.some.injEq] at h
    obtain ⟨cStart, hdrop, hrun⟩ := cacheLine_tagged clientId tail hl ht
    have hbound := hclosed t ht hid
    -- the text starts inside the line
    have hstart : (l ++ 0 :: tail).drop (cStart + (cacheId t).length + 2) = text ++ 0 :: tail := by
      rw [Nat.add_assoc, ← List.drop_drop, hdrop, List.drop_append_of_le_length hbound, h]
    refine ⟨(l ++ 0 :: tail).drop (text.length + 1), ?_, ?_⟩
    · rw [hrun, if_neg hid, moveLine_of_drop hstart htext]
      rfl
    · have := hsuffix.length_le
      simp only [List.length_append, List.length_cons, List.length_drop]
      omega

/-- Where the id is not closed, the text is looked for behind the terminator. -/
theorem cacheLine_past (hl : (0 : Byte) ∉ l) (h : ¬ IdClosed clientId l) :
    ∃ e, cacheLine clientId (l ++ [0]) = .error e := by
  unfold IdClosed at h
  push Not at h
  obtain ⟨t, ht, hid, hbound⟩ := h
  obtain ⟨cStart, hdrop, hrun⟩ := cacheLine_tagged clientId [] hl ht
  have hend : (l ++ [0]).length ≤ cStart + (cacheId t).length + 2 := by
    have := congrArg List.length hdrop
    simp only [List.length_drop, List.length_append, List.length_singleton] at this ⊢
    omega
  refine ⟨⟨cStart + (cacheId t).length + 2⟩, ?_⟩
  rw [hrun, if_neg hid, moveLine, strlen_of_length_le hend]
  rfl

/-- A line is never read past its terminator exactly when its id is closed. -/
theorem cacheLine_inside_iff (hl : (0 : Byte) ∉ l) :
    (∃ found, cacheLine clientId (l ++ [0]) = .ok found) ↔ IdClosed clientId l := by
  constructor
  · rintro ⟨found, hfound⟩
    by_contra hclosed
    obtain ⟨e, he⟩ := cacheLine_past hl hclosed
    rw [hfound] at he
    cases he
  · intro hclosed
    cases h : cacheText clientId l with
    | none => exact ⟨none, cacheLine_skipped hl h⟩
    | some text =>
      obtain ⟨rest, hrest, -⟩ := cacheLine_returned [] hl h hclosed
      exact ⟨_, hrest⟩

/-! ## The delivered lines -/

/-- A buffer that holds a NUL holds a string, and memory behind it. -/
theorem cells_eq_cstr {memory : ℕ → Byte} {len : ℕ} (h : ∃ i < len, memory i = 0) :
    ∃ tail, cells memory len = cstr (cells memory len) ++ 0 :: tail := by
  have hsplit : cstr (cells memory len) ++ (cells memory len).dropWhile (· ≠ 0) =
      cells memory len := List.takeWhile_append_dropWhile
  cases hdrop : (cells memory len).dropWhile (· ≠ 0) with
  | nil =>
    obtain ⟨i, hi, hnul⟩ := h
    have hmem := mem_cells.mpr ⟨i, hi, hnul⟩
    have hall := List.dropWhile_eq_nil_iff.mp hdrop 0 hmem
    simp at hall
  | cons c tail =>
    have hc := List.head?_dropWhile_not (· ≠ (0 : Byte)) (cells memory len)
    rw [hdrop] at hc hsplit
    have hzero : c = 0 := by simpa using hc
    rw [hzero] at hsplit
    exact ⟨tail, hsplit.symm⟩

/-- A line that `get_next_watch_line` returns is terminated inside the buffer. -/
theorem getNextWatchLine_terminated {len : ℕ} (hlen : 1 ≤ len) (hmax : len < 2 ^ 64)
    (allow : Bool) (passes : ℕ) (s : WatchState) (buf : ℕ → Byte)
    (h : (getNextWatchLine allow passes s buf len).1 = some .success) :
    ∃ i < len, (getNextWatchLine allow passes s buf len).2.1 i = 0 := by
  induction passes generalizing s buf with
  | zero => cases h
  | succ passes ih =>
    unfold getNextWatchLine at h ⊢
    cases allow with
    | false => cases h
    | true =>
      simp only [Bool.not_true, Bool.false_eq_true, if_false] at h ⊢
      cases hc : (connectWatch s).watch.connection with
      | none =>
        rw [hc] at h
        exact ih _ _ h
      | some entry =>
        rw [hc] at h
        simp only at h ⊢
        have hline := readlineLoop_bounded hmax _ 0 len (connectWatch s).watch.buffer
          ((connectWatch s).incoming entry.connection) hlen (copying_start buf len)
        rw [← sockReadline] at hline
        generalize sockReadline true buf len (connectWatch s).watch.buffer
          ((connectWatch s).incoming entry.connection) = r at h hline ⊢
        -- `match` on the status: waiting, a line, a failed connection
        split at h
        · cases h
        · rename_i hrv
          have hstored := hline.stored
          exact ⟨r.bufptr.pos, by omega, hline.terminated hrv⟩
        · exact ih _ _ h

theorem cells_getD {mem : Bytes} {len : ℕ} (h : mem.length = len) (memory : ℕ → Byte) :
    cells (fun i => mem.getD i (memory i)) len = mem := by
  refine List.ext_getElem (by simp [h]) fun i hi hmem => ?_
  simp only [cells, List.getElem_map, List.getElem_range]
  exact List.getD_eq_getElem _ _ hmem

/-! ## One call -/

variable {len : ℕ}

/-- What `get_next_watch_cache_line` makes of what `get_next_watch_line` has left. -/
theorem getNextWatchCacheLine_succ (passes lines : ℕ) (s : WatchState) (buf : ℕ → Byte) :
    getNextWatchCacheLine true clientId passes len (lines + 1) s buf =
      let (rv, memory, s) := getNextWatchLine true passes s buf len
      if rv = some .success then
        let line := cstr (cells memory len)
        match cacheLine clientId (cells memory len) with
        | .error e => ⟨.error e, memory, s, [line]⟩
        | .ok (some mem) => ⟨.ok (some .success), fun i => mem.getD i (memory i), s, [line]⟩
        | .ok none =>
          let r := getNextWatchCacheLine true clientId passes len lines s memory
          { r with delivered := line :: r.delivered }
      else ⟨.ok rv, memory, s, []⟩ := by
  rw [getNextWatchCacheLine, if_neg (by simp)]

/-- The lines delivered are strings. -/
theorem nul_notMem_delivered (clientId : Option Bytes) (len passes lines : ℕ) (s : WatchState) (buf : ℕ → Byte) :
    ∀ l ∈ (getNextWatchCacheLine true clientId passes len lines s buf).delivered,
      (0 : Byte) ∉ l := by
  induction lines generalizing s buf with
  | zero =>
    intro l hl
    cases hl
  | succ lines ih =>
    rw [getNextWatchCacheLine_succ]
    generalize getNextWatchLine true passes s buf len = got
    obtain ⟨rv, memory, s'⟩ := got
    have hline := nul_notMem_cstr (cells memory len)
    simp only
    split_ifs
    · split
      · simpa using hline
      · simpa using hline
      · intro l hl
        rcases List.mem_cons.mp hl with rfl | hl
        · exact hline
        · exact ih s' memory l hl
    · intro l hl
      cases hl

/-- A call returns the text of the last line it has taken; the others have none. -/
structure TakesLines (clientId : Option Bytes) (len : ℕ) (r : CacheLineResult) : Prop where
  inBuffer : ∃ rv, r.rv = .ok rv
  texts : (r.returned len).toList = r.delivered.filterMap (cacheText clientId)
  suffix : ∀ text, r.returned len = some text →
    ∃ l, r.delivered.getLast? = some l ∧ text <:+ l

/-- No line is got. -/
theorem takesLines_nil {rv : Option AprStatus} (h : rv ≠ some .success) (memory : ℕ → Byte)
    (s : WatchState) : TakesLines clientId len ⟨.ok rv, memory, s, []⟩ := by
  have hnone : CacheLineResult.returned len ⟨.ok rv, memory, s, []⟩ = none := by
    rw [CacheLineResult.returned]
    split
    · rename_i hrv
      exact absurd (Except.ok.inj hrv) h
    · rfl
  refine ⟨⟨rv, rfl⟩, ?_, fun text htext => ?_⟩
  · rw [hnone]
    rfl
  · rw [hnone] at htext
    cases htext

/-- A line is skipped. -/
theorem TakesLines.cons {r : CacheLineResult} (h : TakesLines clientId len r)
    (hl : cacheText clientId l = none) :
    TakesLines clientId len { r with delivered := l :: r.delivered } := by
  refine ⟨h.inBuffer, ?_, fun text htext => ?_⟩
  · show (r.returned len).toList = (l :: r.delivered).filterMap (cacheText clientId)
    rw [List.filterMap_cons_none hl, h.texts]
  · obtain ⟨k, hk, hsuffix⟩ := h.suffix text htext
    exact ⟨k, by simp [List.getLast?_cons, hk], hsuffix⟩

/-- The text of a line is returned. -/
theorem takesLines_returned {text rest : Bytes} (hl : (0 : Byte) ∉ l)
    (htext : cacheText clientId l = some text) (hlength : (text ++ 0 :: rest).length = len)
    (memory : ℕ → Byte) (s : WatchState) :
    TakesLines clientId len
      ⟨.ok (some .success), fun i => (text ++ 0 :: rest).getD i (memory i), s, [l]⟩ := by
  have hsuffix := cacheText_suffix htext
  have hfree : (0 : Byte) ∉ text := fun hmem => hl (hsuffix.subset hmem)
  have hreturned : CacheLineResult.returned len
      ⟨.ok (some .success), fun i => (text ++ 0 :: rest).getD i (memory i), s, [l]⟩ =
        some text := by
    rw [CacheLineResult.returned]
    simp only
    rw [cells_getD hlength, cstr_append_nul hfree]
  refine ⟨⟨_, rfl⟩, ?_, fun u hu => ?_⟩
  · rw [hreturned]
    simp [htext]
  · rw [hreturned, Option.some.injEq] at hu
    rw [← hu]
    exact ⟨l, rfl, hsuffix⟩

/-- A call whose lines have their ids closed returns the text of the last of them, and
    skips the others. -/
theorem getNextWatchCacheLine_spec (clientId : Option Bytes) (hlen : 1 ≤ len)
    (hmax : len < 2 ^ 64) (passes lines : ℕ) (s : WatchState) (buf : ℕ → Byte)
    (hclosed : ∀ l ∈ (getNextWatchCacheLine true clientId passes len lines s buf).delivered,
      IdClosed clientId l) :
    TakesLines clientId len (getNextWatchCacheLine true clientId passes len lines s buf) := by
  induction lines generalizing s buf with
  | zero => exact takesLines_nil (fun h => by cases h) buf s
  | succ lines ih =>
    rw [getNextWatchCacheLine_succ] at hclosed ⊢
    have hterminated := getNextWatchLine_terminated hlen hmax true passes s buf
    generalize getNextWatchLine true passes s buf len = got at hclosed hterminated ⊢
    obtain ⟨rv, memory, s'⟩ := got
    simp only at hclosed hterminated ⊢
    by_cases hrv : rv = some .success
    · obtain ⟨tail, htail⟩ := cells_eq_cstr (hterminated hrv)
      have hnul := nul_notMem_cstr (cells memory len)
      have hlength := length_cells memory len
      rw [if_pos hrv] at hclosed ⊢
      generalize cstr (cells memory len) = l at hclosed htail hnul ⊢
      rw [htail] at hclosed hlength ⊢
      cases htext : cacheText clientId l with
      | none =>
        rw [cacheLine_skipped hnul htext] at hclosed ⊢
        have hnext := ih s' memory fun k hk => hclosed k (List.mem_cons_of_mem l hk)
        exact hnext.cons htext
      | some text =>
        have hidClosed : IdClosed clientId l := by
          apply hclosed
          split
          · exact List.mem_singleton_self l
          · exact List.mem_singleton_self l
          · exact List.mem_cons_self
        obtain ⟨rest, hrun, hsame⟩ := cacheLine_returned tail hnul htext hidClosed
        rw [hrun]
        exact takesLines_returned hnul htext (hsame.trans hlength) memory s'
    · rw [if_neg hrv]
      exact takesLines_nil hrv memory s'

/-! ## Successive calls -/

/-- Calls whose lines all have their ids closed. -/
theorem cacheFaithful_of_closed (hlen : 1 ≤ len) (hmax : len < 2 ^ 64) (passes lines n : ℕ)
    (s : WatchState) (buf : ℕ → Byte)
    (hclosed : ∀ r ∈ watchCacheLines clientId passes len lines n s buf,
      ∀ l ∈ r.delivered, IdClosed clientId l) :
    CacheFaithful clientId len (watchCacheLines clientId passes len lines n s buf) := by
  induction n generalizing s buf with
  | zero =>
    refine ⟨?_, rfl, ?_⟩
    · intro r hr
      cases hr
    · intro r hr
      cases hr
  | succ n ih =>
    rw [watchCacheLines] at hclosed ⊢
    have hnul := nul_notMem_delivered clientId len passes lines s buf
    have hspec := getNextWatchCacheLine_spec clientId hlen hmax passes lines s buf
    generalize getNextWatchCacheLine true clientId passes len lines s buf = r at hclosed hnul hspec ⊢
    have hhead : ∀ l ∈ r.delivered, IdClosed clientId l := by
      refine hclosed r ?_
      split <;> exact List.mem_cons_self
    obtain ⟨⟨rv, hrv⟩, hreturned, hlast⟩ := hspec hhead
    rw [hrv] at hclosed ⊢
    have hrest := ih r.state r.memory fun q hq => hclosed q (List.mem_cons_of_mem r hq)
    refine ⟨fun q hq l hl => ?_, ?_, fun q hq text htext => ?_⟩
    · rcases List.mem_cons.mp hq with rfl | hq
      · exact (cacheLine_inside_iff (hnul l hl)).mpr (hhead l hl)
      · exact hrest.inside q hq l hl
    · rw [List.flatMap_cons, List.filterMap_append, ← hreturned, ← hrest.texts, List.filterMap_cons]
      cases r.returned len <;> rfl
    · rcases List.mem_cons.mp hq with rfl | hq
      · exact hlast text htext
      · exact hrest.suffix q hq text htext

theorem nul_notMem_watchCacheLines (passes lines n : ℕ) (s : WatchState) (buf : ℕ → Byte) :
    ∀ r ∈ watchCacheLines clientId passes len lines n s buf, ∀ l ∈ r.delivered,
      (0 : Byte) ∉ l := by
  induction n generalizing s buf with
  | zero => exact fun r hr => by cases hr
  | succ n ih =>
    intro r hr
    rw [watchCacheLines] at hr
    have hnul := nul_notMem_delivered clientId len passes lines s buf
    split at hr
    · rw [List.mem_singleton.mp hr]
      exact hnul
    · rcases List.mem_cons.mp hr with rfl | hr
      · exact hnul
      · exact ih _ _ r hr

/-- Successive calls of `get_next_watch_cache_line` return the text of every line of
    somebody else, in order, and read no line past its terminator, exactly when
    two characters follow the id in every such line. -/
theorem cacheFaithful_iff (clientId : Option Bytes) {len : ℕ} (hlen : 1 ≤ len)
    (hmax : len < 2 ^ 31) (passes lines n : ℕ) (s : WatchState) (buf : ℕ → Byte) :
    CacheFaithful clientId len (watchCacheLines clientId passes len lines n s buf) ↔
      ∀ r ∈ watchCacheLines clientId passes len lines n s buf, ∀ l ∈ r.delivered,
        IdClosed clientId l := by
  constructor
  · intro h r hr l hl
    have hnul := nul_notMem_watchCacheLines passes lines n s buf r hr l hl
    exact (cacheLine_inside_iff hnul).mp (h.inside r hr l hl)
  · exact cacheFaithful_of_closed hlen (by omega) passes lines n s buf

/-- A watch on a new connection that delivers one chunk. -/
def chunkWatch (bytes : Bytes) (h : bytes.length ≤ readBufSize) : WatchState :=
  freshWatch (oneTrackerWorld [] .success []) 0 (fun _ => 0) (fun _ => [⟨.success, bytes, h⟩])
    (Stream'.const .success)

/-- A line of the client `7` itself, then one of client `42`. -/
theorem cacheFaithful_two :
    let s := chunkWatch (str "[cache][7] a\r\n[cache][42] b\r\n") (by decide)
    let results := watchCacheLines (some (str "7")) 1 100 2 1 s fun _ => 0
    results.map (·.returned 100) = [some (str "b")] ∧
      CacheFaithful (some (str "7")) 100 results := by
  intro s results
  refine ⟨by decide +kernel, ?_⟩
  refine (cacheFaithful_iff (some (str "7")) (by decide) (by decide) 1 2 1 s fun _ => 0).mpr ?_
  intro r hr l hl
  have hline : l = str "[cache][7] a" ∨ l = str "[cache][42] b" := by
    have hall : (results.flatMap (·.delivered)) = [str "[cache][7] a", str "[cache][42] b"] := by
      decide +kernel
    have hmem : l ∈ results.flatMap (·.delivered) := List.mem_flatMap.mpr ⟨r, hr, hl⟩
    rw [hall] at hmem
    simpa using hmem
  rcases hline with rfl | rfl
  · intro t ht _
    have hbehind : behindFirst (str "[cache][") (str "[cache][7] a") = some (str "7] a") := by
      decide +kernel
    rw [hbehind, Option.some.injEq] at ht
    rw [← ht]
    decide
  · intro t ht _
    have hbehind : behindFirst (str "[cache][") (str "[cache][42] b") = some (str "42] b") := by
      decide +kernel
    rw [hbehind, Option.some.injEq] at ht
    rw [← ht]
    decide

/-- A line that ends right behind its id: what is returned is the LF that stands behind
    the terminator. -/
theorem cacheLine_reads_past :
    let s := chunkWatch (str "[cache][abc]\r\n") (by decide)
    let results := watchCacheLines none 1 100 1 1 s fun _ => 0
    results.map (fun r => (r.delivered, r.returned 100)) =
        [([str "[cache][abc]"], some [LF])] ∧
      ¬ CacheFaithful none 100 results := by
  intro s results
  refine ⟨by decide +kernel, fun h => ?_⟩
  have htexts := h.texts
  revert htexts
  decide +kernel

end MogileFs
