import MogileFs.Tracker.Response

/-!
# How a response line arrives

The receive loop of `mfs_tracker_request` (`src/tracker.c`, lines 162–206) keeps a line
that comes in one chunk in its buffer on the stack, and gathers any other in a growing
one. `receiveLine` is that loop.

Results:
* `receiveLine_chunks`: with part of the line gathered, the loop ends with the whole line.
* `mfsTrackerRequest_chunks`: however a line is split, the request ends as the parser does
  on the whole line.
-/

namespace MogileFs

/-- The chunks, taken one after another. -/
def chunkBytes (chunks : List (Recv mfsReadBufferSize)) : Bytes := chunks.flatMap Recv.bytes

/-- Every call of `apr_socket_recv` is answered with bytes. -/
def Delivered (chunks : List (Recv mfsReadBufferSize)) : Prop :=
  ∀ buf ∈ chunks, buf.rv = .success ∧ buf.bytes ≠ []

theorem chunkBytes_ne_nil {chunks : List (Recv mfsReadBufferSize)} (h : Delivered chunks)
    (hne : chunks ≠ []) : chunkBytes chunks ≠ [] := by
  obtain ⟨buf, chunks, rfl⟩ := List.exists_cons_of_ne_nil hne
  rw [chunkBytes, List.flatMap_cons]
  exact List.append_ne_nil_of_left_ne_nil (h buf List.mem_cons_self).2 _

/-- What is gathered before the last chunk does not end with LF. -/
theorem getLast?_ne_of_unfinished {line gathered rest : Bytes} (hline : LF ∉ line)
    (h : gathered ++ rest = line ++ [LF]) (hrest : rest ≠ []) : gathered.getLast? ≠ some LF := by
  have hlen := congrArg List.length h
  have hpos := List.length_pos_of_ne_nil hrest
  simp only [List.length_append, List.length_singleton] at hlen
  have hgathered : gathered <+: line :=
    List.prefix_of_prefix_length_le ⟨rest, h⟩ (List.prefix_append _ _) (by omega)
  exact fun hlast => hline (hgathered.subset (List.mem_of_getLast? hlast))

/-- With `gathered` bytes of the line in `final_buffer`, the loop comes to its end; what
    the socket would deliver after the line is left there. -/
theorem receiveLine_chunks {line : Bytes} (hline : LF ∉ line)
    {chunks : List (Recv mfsReadBufferSize)} (hchunks : Delivered chunks) (hne : chunks ≠ [])
    (later : List (Recv mfsReadBufferSize)) (finalBuffer : Option Bytes)
    (h : finalBuffer.getD [] ++ chunkBytes chunks = line ++ [LF]) :
    receiveLine finalBuffer (chunks ++ later) = .ok (line ++ [LF]) := by
  induction chunks generalizing finalBuffer with
  | nil => exact absurd rfl hne
  | cons buf chunks ih =>
    obtain ⟨hrv, hbytes⟩ := hchunks buf List.mem_cons_self
    rw [chunkBytes, List.flatMap_cons, ← List.append_assoc] at h
    rw [List.cons_append, receiveLine, if_neg (not_not.mpr hrv), if_neg hbytes]
    by_cases hlast : chunks = []
    · -- the last chunk, alone or behind others
      subst hlast
      rw [List.flatMap_nil, List.append_nil] at h
      have hend : (line ++ [LF]).getLast? = some LF := by simp
      by_cases hfirst : buf.bytes.getLast? = some LF ∧ finalBuffer = none
      · rw [if_pos hfirst, ← h, hfirst.2]
        rfl
      · simp only [if_neg hfirst, if_pos hend, h]
    · have hrest := chunkBytes_ne_nil (fun b hb => hchunks b (List.mem_cons_of_mem buf hb)) hlast
      have hend := getLast?_ne_of_unfinished hline h hrest
      have hfirst : ¬(buf.bytes.getLast? = some LF ∧ finalBuffer = none) := by
        rintro ⟨hlf, rfl⟩
        exact hend hlf
      simp only [if_neg hfirst, if_neg hend]
      exact ih (fun b hb => hchunks b (List.mem_cons_of_mem buf hb)) hlast _ h

theorem terminateLine_crlf (line : Bytes) :
    terminateLine (line ++ [CR, LF]) = .ok (line ++ [0, LF]) := by
  have hlen : (line ++ [CR, LF]).length = line.length + 2 := by simp
  have hcr : (line ++ [CR, LF]).getD line.length 0 = CR := by simp
  rw [terminateLine, hlen, Nat.add_sub_cancel, if_pos ⟨by omega, hcr⟩]
  congr 1
  rw [List.set_append_right _ _ le_rfl, Nat.sub_self]
  rfl

/-- A line without LF, followed by CRLF, in any chunks: the status, `*ok` and the hash
    are those of the parser on the line with its CR replaced by NUL. -/
theorem mfsTrackerRequest_chunks {line : Bytes} (hline : LF ∉ line)
    {chunks : List (Recv mfsReadBufferSize)} (hchunks : Delivered chunks)
    (h : chunkBytes chunks = line ++ [CR, LF]) (later : List (Recv mfsReadBufferSize))
    (ok : Option Bool) (result : Hash) :
    mfsTrackerRequest ⟨.success, chunks ++ later⟩ ok result =
      mfsTrackerParseResponse (line ++ [0, LF]) ok result := by
  have hne : chunks ≠ [] := by
    rintro rfl
    simp [chunkBytes] at h
  have hcr : LF ∉ line ++ [CR] := by
    rw [List.mem_append, List.mem_singleton]
    exact not_or.mpr ⟨hline, by decide⟩
  have hreceive : receiveLine none (chunks ++ later) = .ok (line ++ [CR, LF]) := by
    rw [receiveLine_chunks hcr hchunks hne later none (by simpa using h)]
    simp
  unfold mfsTrackerRequest exchangeReply
  rw [if_neg (by simp), hreceive]
  simp only [terminateLine_crlf]
  rfl

/-- A line whose LF arrives alone. -/
theorem mfsTrackerRequest_chunks_lone_lf :
    mfsTrackerRequest
      ⟨.success, [⟨.success, str "OK 1 a=b\r", by decide⟩, ⟨.success, str "\n", by decide⟩] ++ []⟩
      none aprHashMake =
    mfsTrackerParseResponse (str "OK 1 a=b" ++ [0, LF]) none aprHashMake :=
  mfsTrackerRequest_chunks (by decide) (by unfold Delivered; decide) (by decide) [] none aprHashMake

end MogileFs
