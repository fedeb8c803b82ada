import MogileFs.Common.Apr
import MogileFs.Library.Runs
import MogileFs.Library.RwLock

/-!
# File servers by host

`mfs_get_file_server` of `src/file.c` (lines 110–163), called by any number of threads on one
file system. A move of a thread is one call of APR: the two lock operations of either section,
the lookups, the creation of the connection list, and the insertion. A lock that cannot be taken
ends the process.

Results:
* `serverInv_apply`: the invariant of the lock, the hash and the calls under way.
* `getFileServer_once`: one server for each host, for every interleaving.
-/

namespace MogileFs

open RwLock

/-! ## The function -/

/-- `mfs_file_server`: where `apr_palloc` put it, and `url`, the copy of the `hostinfo` that is
    also its key in the hash. -/
structure MfsFileServer where
  address : ℕ
  url : Bytes
deriving DecidableEq

/-- Where a call stands, in front of its next move. -/
inductive FileServerPoint
  /-- `apr_thread_rwlock_rdlock` (line 115). -/
  | rdlock
  /-- `apr_hash_get` (line 122). -/
  | lookup
  /-- `apr_thread_rwlock_unlock` (line 123), with what the lookup found. -/
  | rdunlock (fs : Option MfsFileServer)
  /-- `apr_thread_rwlock_wrlock` (line 132). -/
  | wrlock
  /-- `apr_hash_get` (line 139). -/
  | recheck
  /-- `apr_palloc` and `apr_reslist_create` (lines 141–142). -/
  | create
  /-- `apr_thread_rwlock_unlock` after a failed creation (line 144). -/
  | createFailed (rv : AprStatus)
  /-- `apr_pstrdup` and `apr_hash_set` (lines 148–149). -/
  | insert (address : ℕ)
  /-- `apr_thread_rwlock_unlock` (lines 150 and 155). -/
  | wrunlock (fs : MfsFileServer)
deriving DecidableEq

/-- What a call does to the lock. -/
inductive LockCall
  | rdlock
  | wrlock
  | unlock
deriving DecidableEq

/-- A call under way: `uri->hostinfo`, where it stands, what it has done to the lock, and the
    servers it has stored in the hash. -/
structure FileServerCall where
  hostinfo : Bytes
  point : FileServerPoint
  locks : List LockCall
  sets : List MfsFileServer
deriving DecidableEq

/-- A call that has returned, with `*file_server`. -/
structure FileServerReturn where
  hostinfo : Bytes
  rv : AprStatus
  fs : Option MfsFileServer
  locks : List LockCall
  sets : List MfsFileServer
deriving DecidableEq

/-- The file system and its threads: `lock`, the hash `file_servers`, the next address of the
    pool, the calls under way, the `apr_hash_set` calls made so far, the calls that have
    returned, and whether the process has exited. -/
structure FileServers (T : Type*) where
  lock : Lock T
  fileServers : Bytes → Option MfsFileServer
  palloc : ℕ
  calls : T → Option FileServerCall
  stored : List MfsFileServer
  returned : List FileServerReturn
  exited : Bool

/-- A thread calls the function, or makes its next move; `rv` is what the lock operation or
    `apr_reslist_create` of that move answers. -/
inductive FileServerMove (T : Type*)
  | begin (t : T) (hostinfo : Bytes)
  | step (t : T) (rv : AprStatus)

variable {T : Type*} [DecidableEq T]

/-- Thread `t` goes on at `point`. -/
def FileServers.goOn (s : FileServers T) (t : T) (call : FileServerCall)
    (point : FileServerPoint) : FileServers T :=
  { s with calls := Function.update s.calls t (some { call with point := point }) }

/-- Thread `t` has done `event` to the lock and goes on at `point`. -/
def FileServers.goOnWith (s : FileServers T) (t : T) (call : FileServerCall) (event : LockCall)
    (point : FileServerPoint) : FileServers T :=
  s.goOn t { call with locks := call.locks ++ [event] } point

/-- Thread `t` unlocks and returns. -/
def FileServers.unlockAndReturn (s : FileServers T) (t : T) (call : FileServerCall)
    (rv : AprStatus) (fs : Option MfsFileServer) : FileServers T :=
  { s with
    lock := unlock s.lock t
    calls := Function.update s.calls t none
    returned := s.returned ++ [⟨call.hostinfo, rv, fs, call.locks ++ [.unlock], call.sets⟩] }

/-- One move of a call. -/
def FileServerCall.step (s : FileServers T) (t : T) (call : FileServerCall) (rv : AprStatus) :
    FileServers T :=
  match call.point with
  | .rdlock =>
    if rv ≠ .success then { s with exited := true }
    else
      match rdlock s.lock t with
      | none => s
      | some lock => { s with lock := lock }.goOnWith t call .rdlock .lookup
  | .lookup => s.goOn t call (.rdunlock (s.fileServers call.hostinfo))
  | .rdunlock (some fs) => s.unlockAndReturn t call .success (some fs)
  | .rdunlock none => { s with lock := unlock s.lock t }.goOnWith t call .unlock .wrlock
  | .wrlock =>
    if rv ≠ .success then { s with exited := true }
    else
      match wrlock s.lock t with
      | none => s
      | some lock => { s with lock := lock }.goOnWith t call .wrlock .recheck
  | .recheck =>
    match s.fileServers call.hostinfo with
    | none => s.goOn t call .create
    | some fs => s.goOn t call (.wrunlock fs)
  | .create =>
    if rv ≠ .success then { s with palloc := s.palloc + 1 }.goOn t call (.createFailed rv)
    else { s with palloc := s.palloc + 1 }.goOn t call (.insert s.palloc)
  | .createFailed rv => s.unlockAndReturn t call rv none
  | .insert address =>
    let fs : MfsFileServer := ⟨address, call.hostinfo⟩
    { s with
      fileServers := Function.update s.fileServers fs.url (some fs)
      stored := s.stored ++ [fs] }.goOn t { call with sets := call.sets ++ [fs] } (.wrunlock fs)
  | .wrunlock fs => s.unlockAndReturn t call .success (some fs)

/-- One move of the system. A thread inside a call makes no second one, and nothing happens
    after the process has exited. -/
def FileServerMove.apply (s : FileServers T) (move : FileServerMove T) : FileServers T :=
  if s.exited then s
  else
    match move with
    | .begin t hostinfo =>
      match s.calls t with
      | none => s.goOn t ⟨hostinfo, .rdlock, [], []⟩ .rdlock
      | some _ => s
    | .step t rv =>
      match s.calls t with
      | none => s
      | some call => call.step s t rv

/-- After `mfs_init_file_system`: an empty hash and no call. -/
def newFileServers : FileServers T := ⟨free, fun _ => none, 0, fun _ => none, [], [], false⟩

/-! ## The invariant -/

/-- How a call that stands at the point holds the lock. -/
def FileServerPoint.mode : FileServerPoint → Mode
  | .rdlock => .free
  | .lookup => .read
  | .rdunlock _ => .read
  | .wrlock => .free
  | _ => .write

/-- What a call that stands at the point has done to the lock. -/
def FileServerPoint.locks : FileServerPoint → List LockCall
  | .rdlock => []
  | .lookup => [.rdlock]
  | .rdunlock _ => [.rdlock]
  | .wrlock => [.rdlock, .unlock]
  | _ => [.rdlock, .unlock, .wrlock]

/-- What the call knows about the hash. -/
def FileServerPoint.Knows (fileServers : Bytes → Option MfsFileServer) (hostinfo : Bytes) :
    FileServerPoint → Prop
  | .rdunlock (some fs) => fileServers hostinfo = some fs
  | .create => fileServers hostinfo = none
  | .createFailed rv => rv ≠ .success
  | .insert _ => fileServers hostinfo = none
  | .wrunlock fs => fileServers hostinfo = some fs
  | _ => True

/-- A call that is consistent with where it stands. -/
structure FileServerCall.Sound (fileServers : Bytes → Option MfsFileServer)
    (call : FileServerCall) : Prop where
  locks : call.locks = call.point.locks
  knows : call.point.Knows fileServers call.hostinfo
  sets : (∀ fs, call.point ≠ .wrunlock fs) → call.sets = []

/-- A call that has returned: a server it returned is the one in the hash, one that failed has
    stored nothing, and every lock it took has been released. -/
structure FileServerReturn.Sound (fileServers : Bytes → Option MfsFileServer)
    (r : FileServerReturn) : Prop where
  success : r.rv = .success → ∃ fs, r.fs = some fs ∧ fileServers r.hostinfo = some fs
  failure : r.rv ≠ .success → r.fs = none ∧ r.sets = []
  locks : r.locks = [.rdlock, .unlock] ∨ r.locks = [.rdlock, .unlock, .wrlock, .unlock]

/-- How the threads hold the lock. -/
def threadMode (calls : T → Option FileServerCall) (t : T) : Mode :=
  match calls t with
  | none => .free
  | some call => call.point.mode

structure ServerInv (s : FileServers T) : Prop where
  held : HeldAs s.lock (threadMode s.calls)
  calls : ∀ t call, s.calls t = some call → call.Sound s.fileServers
  stored : ∀ h fs, s.fileServers h = some fs ↔ fs ∈ s.stored ∧ fs.url = h
  once : (s.stored.map MfsFileServer.url).Nodup
  returned : ∀ r ∈ s.returned, r.Sound s.fileServers

theorem threadMode_update (calls : T → Option FileServerCall) (t : T) (call : Option FileServerCall) :
    threadMode (Function.update calls t call) =
      Function.update (threadMode calls) t (match call with
        | none => .free
        | some call => call.point.mode) := by
  funext u
  by_cases hu : u = t
  · subst hu
    rw [threadMode, Function.update_self, Function.update_self]
  · rw [threadMode, Function.update_of_ne hu, Function.update_of_ne hu, threadMode]

omit [DecidableEq T] in
theorem threadMode_of_some {calls : T → Option FileServerCall} {t : T} {call : FileServerCall}
    (h : calls t = some call) : threadMode calls t = call.point.mode := by
  rw [threadMode, h]

/-! ## Moves -/

/-- A move that leaves the hash alone: thread `t` goes on at another point, with the lock held
    as that point has it. -/
theorem ServerInv.goOn {s : FileServers T} (h : ServerInv s) {t : T} {lock : Lock T} {palloc : ℕ}
    {call : FileServerCall} {point : FileServerPoint}
    (hheld : HeldAs lock (Function.update (threadMode s.calls) t point.mode))
    (hsound : FileServerCall.Sound s.fileServers { call with point := point }) :
    ServerInv ({ s with lock := lock, palloc := palloc }.goOn t call point) where
  held := by
    simp only [FileServers.goOn, threadMode_update]
    exact hheld
  calls := by
    intro u call'' hu
    by_cases hut : u = t
    · subst hut
      simp only [FileServers.goOn, Function.update_self, Option.some.injEq] at hu
      exact hu ▸ hsound
    · simp only [FileServers.goOn, Function.update_of_ne hut] at hu
      exact h.calls u call'' hu
  stored := h.stored
  once := h.once
  returned := h.returned

/-- The lock stays as it is held. -/
theorem HeldAs.stay {lock : Lock T} {mode : T → Mode} {t : T} {m : Mode}
    (h : HeldAs lock mode) (ht : mode t = m) : HeldAs lock (Function.update mode t m) := by
  rw [← ht, Function.update_eq_self]
  exact h

theorem ServerInv.unlockAndReturn {s : FileServers T} (h : ServerInv s) {t : T}
    {call : FileServerCall} (hmode : call.point.mode ≠ .free) (hcall : s.calls t = some call)
    {rv : AprStatus} {fs : Option MfsFileServer}
    (hsound : FileServerReturn.Sound s.fileServers
      ⟨call.hostinfo, rv, fs, call.locks ++ [.unlock], call.sets⟩) :
    ServerInv (s.unlockAndReturn t call rv fs) where
  held := by
    have hthread := threadMode_of_some hcall
    simp only [FileServers.unlockAndReturn, threadMode_update]
    cases hcase : call.point.mode with
    | free => exact absurd hcase hmode
    | read => exact h.held.unlock_read (hthread.trans hcase)
    | write => exact h.held.unlock_write (hthread.trans hcase)
  calls := by
    intro u call'' hu
    by_cases hut : u = t
    · subst hut
      simp only [FileServers.unlockAndReturn, Function.update_self, reduceCtorEq] at hu
    · simp only [FileServers.unlockAndReturn, Function.update_of_ne hut] at hu
      exact h.calls u call'' hu
  stored := h.stored
  once := h.once
  returned := by
    intro r hr
    rcases List.mem_append.mp hr with hr | hr
    · exact h.returned r hr
    · obtain rfl := List.mem_singleton.mp hr
      exact hsound

/-- A server for a host that has none is stored in the hash: it stays one server for each
    host. -/
theorem stored_insert {fileServers : Bytes → Option MfsFileServer} {stored : List MfsFileServer}
    (h : ∀ host fs, fileServers host = some fs ↔ fs ∈ stored ∧ fs.url = host)
    (honce : (stored.map MfsFileServer.url).Nodup) {new : MfsFileServer}
    (hnone : fileServers new.url = none) :
    (∀ host fs, Function.update fileServers new.url (some new) host = some fs ↔
        fs ∈ stored ++ [new] ∧ fs.url = host) ∧
      ((stored ++ [new]).map MfsFileServer.url).Nodup := by
  have hfresh : ∀ fs ∈ stored, fs.url ≠ new.url := by
    intro fs hmem hurl
    have hfs := (h new.url fs).mpr ⟨hmem, hurl⟩
    rw [hnone] at hfs
    cases hfs
  constructor
  · intro host fs
    rw [List.mem_append, List.mem_singleton]
    by_cases hhost : host = new.url
    · subst hhost
      rw [Function.update_self, Option.some.injEq]
      constructor
      · rintro rfl
        exact ⟨Or.inr rfl, rfl⟩
      · rintro ⟨hmem | rfl, hurl⟩
        · exact absurd hurl (hfresh fs hmem)
        · rfl
    · rw [Function.update_of_ne hhost, h]
      constructor
      · exact fun hfs => ⟨Or.inl hfs.1, hfs.2⟩
      · rintro ⟨hmem | rfl, hurl⟩
        · exact ⟨hmem, hurl⟩
        · exact absurd hurl.symm hhost
  · rw [List.map_append, List.map_singleton]
    refine List.nodup_append.mpr ⟨honce, List.nodup_singleton _, ?_⟩
    intro url hmem url' hurl' heq
    obtain ⟨fs, hfs, rfl⟩ := List.mem_map.mp hmem
    rw [List.mem_singleton.mp hurl'] at heq
    exact hfresh fs hfs heq

/-- The insertion, by the only thread that holds the lock. -/
theorem ServerInv.insert {s : FileServers T} (h : ServerInv s) {t : T} {call : FileServerCall}
    (hcall : s.calls t = some call) {address : ℕ} (hpoint : call.point = .insert address)
    (rv : AprStatus) : ServerInv (call.step s t rv) := by
  have hsound := h.calls t call hcall
  have hnone : s.fileServers call.hostinfo = none := by
    have hknows := hsound.knows
    rw [hpoint] at hknows
    exact hknows
  have hwrite : threadMode s.calls t = .write := by rw [threadMode_of_some hcall, hpoint]; rfl
  have hkeeps : ∀ {host fs}, s.fileServers host = some fs →
      Function.update s.fileServers call.hostinfo (some ⟨address, call.hostinfo⟩) host =
        some fs := by
    intro host fs hfs
    have hne : host ≠ call.hostinfo := by
      rintro rfl
      rw [hnone] at hfs
      cases hfs
    rw [Function.update_of_ne hne, hfs]
  have hfresh : s.fileServers (MfsFileServer.url ⟨address, call.hostinfo⟩) = none := hnone
  obtain ⟨hstored, honce⟩ := stored_insert h.stored h.once hfresh
  unfold FileServerCall.step
  simp only [hpoint]
  refine ⟨?_, ?_, hstored, honce, ?_⟩
  · simp only [FileServers.goOn, threadMode_update]
    exact HeldAs.stay h.held hwrite
  · intro u call' hu
    by_cases hut : u = t
    · subst hut
      simp only [FileServers.goOn, Function.update_self, Option.some.injEq] at hu
      subst hu
      refine ⟨by rw [hsound.locks, hpoint]; rfl, ?_, fun hnot => absurd rfl (hnot _)⟩
      simp only [FileServerPoint.Knows, FileServers.goOn, Function.update_self]
    · simp only [FileServers.goOn, Function.update_of_ne hut] at hu
      obtain ⟨hlocks, -, hsets⟩ := h.calls u call' hu
      -- the others hold nothing, so that they know nothing about the hash
      have hfree : call'.point.mode = .free := by
        rw [← threadMode_of_some hu]
        exact h.held.exclusive hwrite hut
      refine ⟨hlocks, ?_, hsets⟩
      generalize call'.point = point at hfree ⊢
      cases point <;> trivial
  · intro r hr
    obtain ⟨hsuccess, hfailure, hlocks⟩ := h.returned r hr
    refine ⟨fun hrv => ?_, hfailure, hlocks⟩
    obtain ⟨fs, hfs, hhash⟩ := hsuccess hrv
    exact ⟨fs, hfs, hkeeps hhash⟩

theorem serverInv_step {s : FileServers T} (h : ServerInv s) {t : T} {call : FileServerCall}
    (hcall : s.calls t = some call) (rv : AprStatus) : ServerInv (call.step s t rv) := by
  have hsound := h.calls t call hcall
  have hmode := threadMode_of_some hcall
  obtain ⟨hlocks, hknows, hsets⟩ := hsound
  cases hpoint : call.point with
  | rdlock =>
    rw [hpoint] at hlocks hmode
    have hnothing := hsets (by rw [hpoint]; nofun)
    unfold FileServerCall.step
    simp only [hpoint]
    split_ifs
    · exact ⟨h.held, h.calls, h.stored, h.once, h.returned⟩
    · cases hlock : rdlock s.lock t with
      | none => exact h
      | some lock =>
        refine h.goOn ?_ ?_
        · exact h.held.rdlock hmode hlock
        · exact ⟨by rw [hlocks]; rfl, trivial, fun _ => hnothing⟩
  | lookup =>
    rw [hpoint] at hlocks hmode
    have hnothing := hsets (by rw [hpoint]; nofun)
    unfold FileServerCall.step
    simp only [hpoint]
    refine h.goOn (HeldAs.stay h.held hmode) ⟨hlocks, ?_, fun _ => hnothing⟩
    show FileServerPoint.Knows s.fileServers call.hostinfo (.rdunlock (s.fileServers call.hostinfo))
    cases hfs : s.fileServers call.hostinfo with
    | none => trivial
    | some fs => exact hfs
  | rdunlock fs =>
    rw [hpoint] at hlocks hmode hknows
    have hnothing := hsets (by rw [hpoint]; nofun)
    unfold FileServerCall.step
    cases fs with
    | none =>
      simp only [hpoint]
      refine h.goOn ?_ ?_
      · exact h.held.unlock_read hmode
      · exact ⟨by rw [hlocks]; rfl, trivial, fun _ => hnothing⟩
    | some fs =>
      simp only [hpoint]
      exact h.unlockAndReturn (by rw [hpoint]; nofun) hcall ⟨fun _ => ⟨fs, rfl, hknows⟩,
        fun hrv => absurd rfl hrv, Or.inl (by rw [hlocks]; rfl)⟩
  | wrlock =>
    rw [hpoint] at hlocks hmode
    have hnothing := hsets (by rw [hpoint]; nofun)
    unfold FileServerCall.step
    simp only [hpoint]
    split_ifs
    · exact ⟨h.held, h.calls, h.stored, h.once, h.returned⟩
    · cases hlock : wrlock s.lock t with
      | none => exact h
      | some lock =>
        refine h.goOn ?_ ?_
        · exact h.held.wrlock hlock
        · exact ⟨by rw [hlocks]; rfl, trivial, fun _ => hnothing⟩
  | recheck =>
    rw [hpoint] at hlocks hmode
    have hnothing := hsets (by rw [hpoint]; nofun)
    unfold FileServerCall.step
    simp only [hpoint]
    cases hfs : s.fileServers call.hostinfo with
    | none =>
      exact h.goOn (HeldAs.stay h.held hmode) ⟨hlocks, hfs, fun _ => hnothing⟩
    | some fs =>
      exact h.goOn (HeldAs.stay h.held hmode) ⟨hlocks, hfs, fun _ => hnothing⟩
  | create =>
    rw [hpoint] at hlocks hmode hknows
    have hnothing := hsets (by rw [hpoint]; nofun)
    unfold FileServerCall.step
    simp only [hpoint]
    split_ifs with hrv
    · exact h.goOn (HeldAs.stay h.held hmode) ⟨hlocks, hrv, fun _ => hnothing⟩
    · exact h.goOn (HeldAs.stay h.held hmode) ⟨hlocks, hknows, fun _ => hnothing⟩
  | createFailed rv' =>
    rw [hpoint] at hlocks hknows
    have hnothing := hsets (by rw [hpoint]; nofun)
    unfold FileServerCall.step
    simp only [hpoint]
    exact h.unlockAndReturn (by rw [hpoint]; nofun) hcall ⟨fun hrv => absurd hrv hknows,
      fun _ => ⟨rfl, hnothing⟩, Or.inr (by rw [hlocks]; rfl)⟩
  | insert address => exact h.insert hcall hpoint rv
  | wrunlock fs =>
    rw [hpoint] at hlocks hknows
    unfold FileServerCall.step
    simp only [hpoint]
    exact h.unlockAndReturn (by rw [hpoint]; nofun) hcall ⟨fun _ => ⟨fs, rfl, hknows⟩,
      fun hrv => absurd rfl hrv, Or.inr (by rw [hlocks]; rfl)⟩

theorem serverInv_apply {s : FileServers T} (h : ServerInv s) (move : FileServerMove T) :
    ServerInv (move.apply s) := by
  unfold FileServerMove.apply
  split_ifs
  · exact h
  · cases move with
    | begin t hostinfo =>
      cases hcall : s.calls t with
      | some call => simpa only [hcall] using h
      | none =>
        have hfree : threadMode s.calls t = .free := by rw [threadMode, hcall]
        simp only [hcall]
        exact h.goOn (HeldAs.stay h.held hfree) ⟨rfl, trivial, fun _ => rfl⟩
    | step t rv =>
      cases hcall : s.calls t with
      | none => simpa only [hcall] using h
      | some call =>
        simp only [hcall]
        exact serverInv_step h hcall rv

theorem serverInv_new : ServerInv (newFileServers : FileServers T) where
  held := heldAs_free
  calls := nofun
  stored := fun h fs => by simp [newFileServers]
  once := List.nodup_nil
  returned := nofun

theorem stored_step (s : FileServers T) (t : T) (call : FileServerCall) (rv : AprStatus) :
    s.stored <+: (call.step s t rv).stored := by
  unfold FileServerCall.step
  cases call.point with
  | rdlock =>
    simp only
    split_ifs
    · exact List.prefix_rfl
    · split <;> exact List.prefix_rfl
  | rdunlock fs => cases fs <;> exact List.prefix_rfl
  | wrlock =>
    simp only
    split_ifs
    · exact List.prefix_rfl
    · split <;> exact List.prefix_rfl
  | recheck =>
    simp only
    split <;> exact List.prefix_rfl
  | create =>
    simp only
    split_ifs <;> exact List.prefix_rfl
  | insert address => exact List.prefix_append _ _
  | lookup => exact List.prefix_rfl
  | createFailed rv => exact List.prefix_rfl
  | wrunlock fs => exact List.prefix_rfl

/-- A move stores at the end of what has been stored. -/
theorem stored_apply (s : FileServers T) (move : FileServerMove T) :
    s.stored <+: (move.apply s).stored := by
  unfold FileServerMove.apply
  split_ifs
  · exact List.prefix_rfl
  · cases move with
    | begin t hostinfo =>
      simp only
      split <;> exact List.prefix_rfl
    | step t rv =>
      simp only
      split
      · exact List.prefix_rfl
      · exact stored_step s t _ rv

/-! ## Runs -/

/-- Any number of threads, any hosts, any order of moves. In every state a host has been stored
    at most once and the hash has what has been stored; every call that has returned
    `APR_SUCCESS` returned the server the hash has, every other one has stored nothing; its
    locks have been released, and a thread outside the function holds none. A server that is in
    the hash stays there. -/
theorem getFileServer_once (moves : List (FileServerMove T)) :
    Runs.Throughout FileServerMove.apply (fun s : FileServers T =>
        (s.stored.map MfsFileServer.url).Nodup ∧
        (∀ h fs, s.fileServers h = some fs ↔ fs ∈ s.stored ∧ fs.url = h) ∧
        (∀ r ∈ s.returned, r.Sound s.fileServers) ∧
        ∀ t, s.calls t = none → t ∉ s.lock.readers ∧ s.lock.writer ≠ some t)
      newFileServers moves ∧
    ∀ k k', k ≤ k' → ∀ h fs,
      (Runs.run FileServerMove.apply (newFileServers : FileServers T) (moves.take k)).fileServers h =
        some fs →
      (Runs.run FileServerMove.apply (newFileServers : FileServers T) (moves.take k')).fileServers h =
        some fs := by
  have hinv : Runs.Throughout FileServerMove.apply ServerInv (newFileServers : FileServers T)
      moves := by
    refine Runs.throughout_of_steps ?_ ?_
    · exact fun s move h => serverInv_apply h move
    · exact serverInv_new
  refine ⟨fun k => ⟨(hinv k).once, (hinv k).stored, (hinv k).returned, fun t ht => ?_⟩, ?_⟩
  · have hfree : threadMode (Runs.run FileServerMove.apply newFileServers (moves.take k)).calls t =
        .free := by rw [threadMode, ht]
    have hreaders := (hinv k).held.readers t
    have hwriter := (hinv k).held.writer t
    rw [hfree] at hreaders hwriter
    exact ⟨List.count_eq_zero.mp hreaders, fun hw => by cases hwriter.mp hw⟩
  · intro k k' hk h fs hfs
    have hgrows := @Runs.run_take_le _ _ FileServerMove.apply
      (fun s s' : FileServers T => s.stored <+: s'.stored) (fun _ => List.prefix_rfl)
      (fun _ _ _ => List.IsPrefix.trans) stored_apply newFileServers moves _ _ hk
    have hstored := ((hinv k).stored h fs).mp hfs
    exact ((hinv k').stored h fs).mpr ⟨hgrows.subset hstored.1, hstored.2⟩

end MogileFs
