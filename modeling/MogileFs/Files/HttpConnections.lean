import MogileFs.Download.Storage
import MogileFs.Library.Runs
import MogileFs.Upload.Upload

/-!
# HTTP connections

Every file server has a list of at most 50 connections (`src/file.c`, line 142).
`mfs_file_server_put` (`src/file_upload.c`, lines 127–227) and `mfs_file_server_get`
(`src/file_download.c`, lines 165–307) acquire one each, and give it back with
`apr_reslist_release` or `apr_reslist_invalidate`. A move here is the part of a call up to
`apr_reslist_acquire`, or all that comes behind it, so that calls of several threads overlap in
every way; a call to a server whose connections are all out waits.

Results:
* `put_settled_iff`, `get_reslist`: what one call does with its connection.
* `connections_settled_iff`: every acquired connection is given back, and those that are out belong
  to calls under way, exactly as long as no PUT fails to get the size of its file.
* `connection_leaked`: a PUT that fails so keeps its connection for good.
-/

namespace MogileFs

open Runs

/-! ## One call -/

/-- What a call that returns has done: no connection, or one that was passed to exactly one of
    `apr_reslist_release` and `apr_reslist_invalidate`. -/
def Settled (reslist : List ReslistCall) : Prop :=
  reslist = [] ∨ ∃ rv, reslist = [.acquired, .released rv] ∨ reslist = [.acquired, .invalidated rv]

/-- The early return of line 185: the size is asked for, and cannot be had. -/
def statFails (bytesGiven : Bool) (totalBytes : ℤ) (out : PutOutcome) : Prop :=
  out.server.Had ∧ bytesGiven = false ∧ totalBytes = -1 ∧ ∃ rv, out.fileSize = .error rv

theorem not_settled_acquired : ¬Settled [.acquired] := by
  rintro (h | ⟨rv, h | h⟩) <;> cases h

/-- The three ways out of a PUT. -/
theorem put_reslist (bytesGiven : Bool) (totalBytes : ℤ) (out : PutOutcome) :
    ¬out.server.Had ∧ (mfsFileServerPut bytesGiven totalBytes out).reslist = [] ∨
      statFails bytesGiven totalBytes out ∧
        (mfsFileServerPut bytesGiven totalBytes out).reslist = [.acquired] ∨
      out.server.Had ∧ ¬statFails bytesGiven totalBytes out ∧
        Settled (mfsFileServerPut bytesGiven totalBytes out).reslist ∧
        (mfsFileServerPut bytesGiven totalBytes out).reslist ≠ [] := by
  by_cases hhad : out.server.Had
  · right
    obtain ⟨hserver, hacquire⟩ := hhad
    unfold mfsFileServerPut
    rw [if_neg (not_not_intro hserver), if_neg (not_not_intro hacquire)]
    cases hsize : (if !bytesGiven && totalBytes = -1 then out.fileSize else .ok totalBytes) with
    | error rv =>
      left
      split_ifs at hsize with hasked
      obtain ⟨hbytes, htotal⟩ := Bool.and_eq_true_iff.mp hasked
      refine ⟨⟨⟨hserver, hacquire⟩, ?_, of_decide_eq_true htotal, rv, hsize⟩, rfl⟩
      simpa using hbytes
    | ok size =>
      right
      refine ⟨⟨hserver, hacquire⟩, ?_, ?_⟩
      · rintro ⟨-, rfl, rfl, rv, hfile⟩
        simp [hfile] at hsize
      · by_cases hcompleted : out.completed
        · simp only [hcompleted, if_true]
          exact ⟨.inr ⟨_, .inl rfl⟩, List.cons_ne_nil _ _⟩
        · simp only [hcompleted, Bool.false_eq_true, if_false]
          exact ⟨.inr ⟨_, .inr rfl⟩, List.cons_ne_nil _ _⟩
  · left
    refine ⟨hhad, ?_⟩
    unfold mfsFileServerPut
    by_cases hserver : out.server.getFileServer = .success
    · rw [if_neg (not_not_intro hserver), if_pos fun hacquire => hhad ⟨hserver, hacquire⟩]
    · rw [if_pos hserver]

theorem put_settled_iff (bytesGiven : Bool) (totalBytes : ℤ) (out : PutOutcome) :
    Settled (mfsFileServerPut bytesGiven totalBytes out).reslist ↔
      ¬statFails bytesGiven totalBytes out := by
  rcases put_reslist bytesGiven totalBytes out with ⟨hhad, h⟩ | ⟨hfails, h⟩ | ⟨-, hfails, h, -⟩
  · rw [h]
    exact iff_of_true (.inl rfl) fun hfails => hhad hfails.1
  · rw [h]
    exact iff_of_false not_settled_acquired (not_not_intro hfails)
  · exact iff_of_true h hfails

/-- The epilogue of a GET does nothing to the connections. -/
theorem finishTransfer_reslist {rv rv' : AprStatus} {buf : WriteBuffer} {d : Disk}
    {st st' : DownloadState} (h : finishTransfer rv buf d st = .ok (rv', st')) :
    st'.reslist = st.reslist := by
  unfold finishTransfer at h
  cases hfile : st.file with
  | some file =>
    simp only [hfile, Except.ok.injEq, Prod.mk.injEq] at h
    exact h.2 ▸ rfl
  | none =>
    cases hbrigade : st.brigade with
    | some brigade =>
      simp only [hfile, hbrigade, Except.ok.injEq, Prod.mk.injEq] at h
      exact h.2 ▸ rfl
    | none =>
      simp only [hfile, hbrigade, finishBytes] at h
      by_cases hrv : rv ≠ .success
      · rw [if_pos hrv] at h
        simp only [Except.ok.injEq, Prod.mk.injEq] at h
        exact h.2 ▸ rfl
      · rw [if_neg hrv] at h
        cases hspill : buf.file with
        | some file =>
          simp only [hspill, Except.ok.injEq, Prod.mk.injEq] at h
          exact h.2 ▸ rfl
        | none =>
          cases hbytes : st.bytes with
          | none => simp [hspill, hbytes] at h
          | some bytes =>
            simp only [hspill, hbytes] at h
            by_cases hflatten : d.outcome.1.rv = .success
            · simp only [hflatten, if_true, Except.ok.injEq, Prod.mk.injEq] at h
              exact h.2 ▸ rfl
            · simp only [hflatten, if_false, Except.ok.injEq, Prod.mk.injEq] at h
              exact h.2 ▸ rfl

/-- What a GET that returns has done to the connections of its server. -/
theorem get_reslist {maxBufferSize : ℕ} {p : FilePath} {destinationFilePath : Option Bytes}
    {st st' : DownloadState} {rv : AprStatus}
    (h : mfsFileServerGet maxBufferSize p destinationFilePath st = .ok (rv, st')) :
    ∃ reslist, st'.reslist = st.reslist ++ reslist ∧ Settled reslist ∧
      (p.server.Had ↔ reslist ≠ []) := by
  rcases mfsFileServerGet_cases h with ⟨hhad, -, rfl⟩ | ⟨hhad, taken, buf, d, -, hfinish⟩
  · exact ⟨[], (List.append_nil _).symm, .inl rfl, iff_of_false hhad (not_not_intro rfl)⟩
  · refine ⟨_, finishTransfer_reslist hfinish, ?_, iff_of_true hhad (List.cons_ne_nil _ _)⟩
    split_ifs
    · exact .inr ⟨_, .inl rfl⟩
    · exact .inr ⟨_, .inr rfl⟩

/-! ## Calls on one file system -/

/-- A call with what it will meet; `hostinfo` of its URL names the file server. -/
inductive HttpCall
  | put (hostinfo : Bytes) (bytesGiven : Bool) (totalBytes : ℤ) (out : PutOutcome)
  | get (hostinfo : Bytes) (maxBufferSize : ℕ) (p : FilePath) (destinationFilePath : Option Bytes)
    (st : DownloadState)

def HttpCall.hostinfo : HttpCall → Bytes
  | put hostinfo .. => hostinfo
  | get hostinfo .. => hostinfo

def HttpCall.server : HttpCall → ServerOutcome
  | put _ _ _ out => out.server
  | get _ _ p _ _ => p.server

/-- What the call does to the connections before it returns; `none` when it goes through NULL. -/
def HttpCall.reslist : HttpCall → Option (List ReslistCall)
  | put _ bytesGiven totalBytes out => some (mfsFileServerPut bytesGiven totalBytes out).reslist
  | get _ maxBufferSize p destinationFilePath st =>
    match mfsFileServerGet maxBufferSize p destinationFilePath st with
    | .error _ => none
    | .ok (_, st') => some (st'.reslist.drop st.reslist.length)

/-- The call is a PUT that fails to get the size of its file. -/
def HttpCall.StatFails : HttpCall → Prop
  | put _ bytesGiven totalBytes out => statFails bytesGiven totalBytes out
  | get .. => False

/-- The connections of each host that are acquired and not given back, the calls under way behind
    `apr_reslist_acquire`, and what the calls that have returned did. -/
structure HttpSystem where
  outstanding : Bytes → ℕ
  running : List HttpCall
  returned : List (List ReslistCall)
  crashed : Bool

/-- `hmax` of `apr_reslist_create`. -/
def hardLimit : ℕ := 50

/-- A call gets to the point behind `apr_reslist_acquire`, or the `i`-th call under way does the
    rest. -/
inductive HttpMove
  | acquire (call : HttpCall)
  | finish (i : ℕ)

/-- A call that finds all connections out waits: the move is not made. -/
def HttpMove.apply (s : HttpSystem) (move : HttpMove) : HttpSystem :=
  if s.crashed then s
  else
    match move with
    | .acquire call =>
      if call.server.Had then
        if s.outstanding call.hostinfo < hardLimit then
          { s with
            outstanding := Function.update s.outstanding call.hostinfo
              (s.outstanding call.hostinfo + 1)
            running := s.running ++ [call] }
        else s
      else { s with running := s.running ++ [call] }
    | .finish i =>
      match s.running[i]? with
      | none => s
      | some call =>
        match call.reslist with
        | none => { s with crashed := true }
        | some reslist =>
          { s with
            outstanding := Function.update s.outstanding call.hostinfo
              (s.outstanding call.hostinfo - reslist.countP (· ≠ .acquired))
            running := s.running.eraseIdx i
            returned := s.returned ++ [reslist] }

/-- After `mfs_init_file_system`. -/
def newHttpSystem : HttpSystem := ⟨fun _ => 0, [], [], false⟩

/-- The call is under way with a connection of the host. -/
def HttpCall.Uses (hostinfo : Bytes) (call : HttpCall) : Bool :=
  call.server.Had ∧ call.hostinfo = hostinfo

/-- The calls under way that have a connection of the host. -/
def HttpSystem.inUse (s : HttpSystem) (hostinfo : Bytes) : ℕ :=
  s.running.countP (HttpCall.Uses hostinfo)

/-- Every call that has returned gave its connection back, once; the connections that are out
    belong to calls under way, so that none is out when no call is, and fewer than 50 calls do
    not use up the limit. -/
structure HttpConserved (s : HttpSystem) : Prop where
  settled : ∀ reslist ∈ s.returned, Settled reslist
  outstanding : ∀ hostinfo, s.outstanding hostinfo = s.inUse hostinfo
  idle : s.running = [] → ∀ hostinfo, s.outstanding hostinfo = 0
  limit : ∀ hostinfo, s.inUse hostinfo < hardLimit → s.outstanding hostinfo < hardLimit

/-- The call that finishes is not a PUT that fails to get the size of its file. -/
def FinishesWithSize (s : HttpSystem) : HttpMove → Prop
  | .acquire _ => True
  | .finish i => s.crashed = false → ∀ call ∈ s.running[i]?, ¬call.StatFails

/-! ## The invariant -/

/-- What is given back: one connection, if one was acquired. -/
theorem Settled.countP {reslist : List ReslistCall} (h : Settled reslist) :
    reslist.countP (· ≠ .acquired) = if reslist ≠ [] then 1 else 0 := by
  rcases h with rfl | ⟨rv, rfl | rfl⟩
  · rfl
  · rfl
  · rfl

/-- What a call that returns has done. -/
theorem HttpCall.reslist_spec {call : HttpCall} {reslist : List ReslistCall}
    (h : call.reslist = some reslist) :
    (Settled reslist ↔ ¬call.StatFails) ∧ (call.server.Had ↔ reslist ≠ []) := by
  cases call with
  | put hostinfo bytesGiven totalBytes out =>
    obtain rfl := Option.some.inj h
    refine ⟨put_settled_iff bytesGiven totalBytes out, ?_⟩
    rcases put_reslist bytesGiven totalBytes out with
      ⟨hhad, h⟩ | ⟨hfails, h⟩ | ⟨hhad, -, -, hne⟩
    · rw [h]
      exact iff_of_false hhad (not_not_intro rfl)
    · rw [h]
      exact iff_of_true hfails.1 (List.cons_ne_nil _ _)
    · exact iff_of_true hhad hne
  | get hostinfo maxBufferSize p destinationFilePath st =>
    simp only [HttpCall.reslist] at h
    cases hget : mfsFileServerGet maxBufferSize p destinationFilePath st with
    | error d => simp [hget] at h
    | ok result =>
      obtain ⟨rv, st'⟩ := result
      obtain ⟨r, hr, hsettled, hhad⟩ := get_reslist hget
      simp only [hget, hr, List.drop_left, Option.some.injEq] at h
      subst h
      exact ⟨iff_of_true hsettled not_false, hhad⟩

/-- Only a GET goes through NULL. -/
theorem HttpCall.not_statFails_of_crash {call : HttpCall} (h : call.reslist = none) :
    ¬call.StatFails := by
  cases call with
  | put hostinfo bytesGiven totalBytes out => cases h
  | get hostinfo maxBufferSize p destinationFilePath st => exact not_false

theorem HttpConserved.of_outstanding {s : HttpSystem}
    (hsettled : ∀ reslist ∈ s.returned, Settled reslist)
    (houtstanding : ∀ hostinfo, s.outstanding hostinfo = s.inUse hostinfo) : HttpConserved s where
  settled := hsettled
  outstanding := houtstanding
  idle := by
    intro hidle hostinfo
    rw [houtstanding, HttpSystem.inUse, hidle]
    rfl
  limit hostinfo h := by rwa [houtstanding]

theorem httpConserved_new : HttpConserved newHttpSystem :=
  .of_outstanding (fun _ h => absurd h List.not_mem_nil) fun _ => rfl

theorem uses_of_had {call : HttpCall} (h : call.server.Had) (hostinfo : Bytes) :
    call.Uses hostinfo = decide (call.hostinfo = hostinfo) := by
  simp [HttpCall.Uses, h]

theorem uses_of_not_had {call : HttpCall} (h : ¬call.server.Had) (hostinfo : Bytes) :
    call.Uses hostinfo = false := by
  simp [HttpCall.Uses, h]

/-- A connection is acquired. -/
theorem httpConserved_acquire {s : HttpSystem} (h : HttpConserved s) (call : HttpCall) :
    HttpConserved (HttpMove.apply s (.acquire call)) := by
  cases hcrashed : s.crashed with
  | true => simpa only [HttpMove.apply, hcrashed, if_true] using h
  | false =>
    by_cases hhad : call.server.Had
    · by_cases hroom : s.outstanding call.hostinfo < hardLimit
      · simp only [HttpMove.apply, hcrashed, Bool.false_eq_true, if_false, hhad, hroom, if_true]
        refine .of_outstanding h.settled fun hostinfo => ?_
        rw [HttpSystem.inUse, List.countP_append, List.countP_singleton, uses_of_had hhad]
        by_cases hhost : hostinfo = call.hostinfo
        · subst hhost
          simp [Function.update_self, h.outstanding, HttpSystem.inUse]
        · simp [Function.update_of_ne hhost, h.outstanding, HttpSystem.inUse, Ne.symm hhost]
      · simpa only [HttpMove.apply, hcrashed, Bool.false_eq_true, if_false, hhad, hroom, if_true]
          using h
    · simp only [HttpMove.apply, hcrashed, Bool.false_eq_true, if_false, hhad]
      refine .of_outstanding h.settled fun hostinfo => ?_
      rw [HttpSystem.inUse, List.countP_append, List.countP_singleton, uses_of_not_had hhad,
        h.outstanding]
      rfl

/-- A call that is under way at place `i`, apart from the others. -/
theorem inUse_of_getElem {s : HttpSystem} {i : ℕ} {call : HttpCall}
    (hcall : s.running[i]? = some call) (hostinfo : Bytes) :
    s.inUse hostinfo = (s.running.eraseIdx i).countP (HttpCall.Uses hostinfo) +
      if call.Uses hostinfo then 1 else 0 := by
  obtain ⟨hi, rfl⟩ := List.getElem?_eq_some_iff.mp hcall
  rw [HttpSystem.inUse, ← (List.getElem_cons_eraseIdx_perm hi).countP_eq, List.countP_cons]

/-- One move keeps the books exactly when the call that finishes has the size of its file. -/
theorem httpConserved_apply_iff (s : HttpSystem) (move : HttpMove) (h : HttpConserved s) :
    HttpConserved (HttpMove.apply s move) ↔ FinishesWithSize s move := by
  cases move with
  | acquire call => exact iff_of_true (httpConserved_acquire h call) trivial
  | finish i =>
    unfold HttpMove.apply FinishesWithSize
    cases hcrashed : s.crashed with
    | true => simpa using h
    | false =>
      simp only [Bool.false_eq_true, if_false, forall_const]
      cases hcall : s.running[i]? with
      | none => simpa using h
      | some call =>
        simp only [Option.mem_some_iff, forall_eq']
        cases hreslist : call.reslist with
        | none =>
          exact iff_of_true (.of_outstanding h.settled h.outstanding)
            (HttpCall.not_statFails_of_crash hreslist)
        | some reslist =>
          obtain ⟨hsettled, hhad⟩ := HttpCall.reslist_spec hreslist
          rw [← hsettled]
          refine ⟨fun hnext => hnext.settled reslist (List.mem_append_right _
            (List.mem_singleton_self reslist)), fun hreturn =>
              .of_outstanding ?_ fun hostinfo => ?_⟩
          · intro r hr
            rcases List.mem_append.mp hr with hr | hr
            · exact h.settled r hr
            · rwa [List.mem_singleton.mp hr]
          · have hbefore := (h.outstanding hostinfo).trans (inUse_of_getElem hcall hostinfo)
            simp only [HttpSystem.inUse, hreturn.countP]
            by_cases hhost : hostinfo = call.hostinfo
            · subst hhost
              rw [Function.update_self, hbefore]
              by_cases hserver : call.server.Had
              · rw [if_pos (hhad.mp hserver), uses_of_had hserver, decide_eq_true rfl, if_pos rfl]
                omega
              · rw [if_neg (fun hne => hserver (hhad.mpr hne)), uses_of_not_had hserver]
                rfl
            · have huses : call.Uses hostinfo = false := by
                simp [HttpCall.Uses, Ne.symm hhost]
              rw [Function.update_of_ne hhost, hbefore, huses]
              rfl

/-- However the calls overlap, every connection is given back once and none is out without a call
    exactly as long as no PUT fails to get the size of its file. -/
theorem connections_settled_iff (moves : List HttpMove) :
    Throughout HttpMove.apply HttpConserved newHttpSystem moves ↔
      Meets HttpMove.apply FinishesWithSize newHttpSystem moves :=
  invariant_iff_meets httpConserved_apply_iff httpConserved_new

/-- A PUT from a file whose size cannot be had. -/
def putWithoutSize : HttpCall :=
  .put (str "a") false (-1) ⟨⟨.success, .success, .success⟩, .error .egeneral, 201, true⟩

/-- After it has returned its connection is still out. -/
theorem connection_leaked :
    ¬Throughout HttpMove.apply HttpConserved newHttpSystem
        [.acquire putWithoutSize, .finish 0] ∧
      (run HttpMove.apply newHttpSystem [.acquire putWithoutSize, .finish 0]).running = [] ∧
      (run HttpMove.apply newHttpSystem
        [.acquire putWithoutSize, .finish 0]).outstanding (str "a") = 1 := by
  have hidle : (run HttpMove.apply newHttpSystem
      [.acquire putWithoutSize, .finish 0]).running = [] := rfl
  have hout : (run HttpMove.apply newHttpSystem
      [.acquire putWithoutSize, .finish 0]).outstanding (str "a") = 1 := by decide +kernel
  refine ⟨fun h => ?_, hidle, hout⟩
  have hzero := (h 2).idle hidle (str "a")
  rw [List.take_of_length_le (by simp), hout] at hzero
  exact absurd hzero one_ne_zero

end MogileFs
