import MogileFs.Directory.PathInfo
import MogileFs.Request.Outcome

/-!
# Queries and their outputs

The five calls of `src/file.c` that ask the tracker for something and store it through the
caller's pointers: `mfs_get_paths` (lines 185–240), `mfs_list_directory` and `mfs_path_info`
(lines 471–646), `mfs_stats_filepath` and `mfs_checkfs_filepath` (lines 649–728). Each is given
what `mfs_request_do` leaves (`Answer`) and what the outputs hold before.

Results:
* `mfsRequestDo_answer`: what `mfs_request_do` leaves with the caller's pool is an `Answer`.
* `getPaths_spared_iff`, `listDirectory_spared`, `pathInfo_spared_iff`, `stored_spared_iff`: when
  a call that fails has left its outputs alone.
* `failedQuery_iff`: all five together.
-/

namespace MogileFs

open KeyedUpdates

/-! ## Answers -/

/-- What `mfs_request_do` leaves: after a success `*ok` is set, and an `ERR` answer has its
    code in the hash. -/
structure Answer where
  rv : AprStatus
  ok : Option Bool
  result : Hash
  answered : rv = .success → ok.isSome
  errorCode : rv = .success → ok = some false → (aprHashGet result (str "ERROR_CODE")).isSome

/-- A reply that stores `*ok` false stores an error code. -/
def Reply.CodeIfError (r : Reply) : Prop :=
  r.ok = some false → (lastValue r.sets (str "ERROR_CODE")).isSome

theorem Reply.codeIfError_fail (rv : AprStatus) : (Reply.fail rv).CodeIfError := by
  intro h
  cases h

theorem parseOk_codeIfError (buf : Bytes) : (parseOk buf).CodeIfError := by
  unfold parseOk
  cases skipSpaceOrNumber buf with
  | none => exact Reply.codeIfError_fail _
  | some nextPos =>
    intro h
    simp only at h
    split_ifs at h
    cases h

theorem parseErr_codeIfError (buf : Bytes) : (parseErr buf).CodeIfError := by
  unfold parseErr
  cases skipChar buf (ch ' ') with
  | none => exact Reply.codeIfError_fail _
  | some nextPos =>
    simp only
    cases skipNotChar (buf.drop nextPos) (ch ' ') with
    | none => exact Reply.codeIfError_fail _
    | some codeLength =>
      simp only
      cases skipChar ((buf.drop nextPos).drop (codeLength + 1)) (ch ' ') with
      | none => exact Reply.codeIfError_fail _
      | some nextPos' =>
        intro _
        simp [lastValue]

theorem exchangeReply_codeIfError (x : Exchange) : (exchangeReply x).CodeIfError := by
  unfold exchangeReply
  split_ifs with hsend
  · exact Reply.codeIfError_fail _
  · cases receiveLine none x.recv with
    | error rv => exact Reply.codeIfError_fail _
    | ok finalBuffer =>
      simp only
      cases terminateLine finalBuffer with
      | error rv => exact Reply.codeIfError_fail _
      | ok finalBuffer =>
        simp only
        unfold parseResponse
        split_ifs
        · exact Reply.codeIfError_fail _
        · exact parseOk_codeIfError _
        · exact parseErr_codeIfError _
        · exact Reply.codeIfError_fail _

/-- With the caller's pool, `mfs_request_do` leaves an answer. -/
theorem mfsRequestDo_answer (w : World) (ok : Option Bool) (result : Hash) :
    ((mfsRequestDo w .given ok result).rv = .success →
      (mfsRequestDo w .given ok result).ok.isSome) ∧
    ((mfsRequestDo w .given ok result).rv = .success →
      (mfsRequestDo w .given ok result).ok = some false →
        (aprHashGet (mfsRequestDo w .given ok result).result (str "ERROR_CODE")).isSome) := by
  obtain ⟨hiff, hok⟩ := mfsRequestDo_given_sound w ok result
  constructor
  · intro hrv
    obtain ⟨x, hx, hxrv⟩ := hiff.mp hrv
    obtain ⟨hsome, hstored⟩ := hok x hx hxrv
    rw [hstored]
    exact hsome
  · intro hrv herr
    obtain ⟨x, hx, hxrv⟩ := hiff.mp hrv
    obtain ⟨-, hstored⟩ := hok x hx hxrv
    -- the exchange that succeeded is the last one
    obtain hnil | ⟨rejected, accepted, hcall⟩ :=
      List.eq_nil_or_concat' (exchangesOf w (mfsRequestDo w .given ok result))
    · rw [hnil] at hx
      cases hx
    · obtain ⟨hrejected, -, hresult⟩ := result_of_accepted hcall
      rw [hcall] at hx
      have hlast : x = accepted := by
        rcases List.mem_append.mp hx with hx | hx
        · exact absurd hxrv (hrejected x hx)
        · exact List.mem_singleton.mp hx
      rw [hlast] at hstored
      have hcode := exchangeReply_codeIfError accepted (hstored.symm.trans herr)
      obtain ⟨code, hcode⟩ := Option.isSome_iff_exists.mp hcode
      rw [hresult]
      show (setAll _ _ (str "ERROR_CODE")).isSome
      rw [setAll_of_lastValue _ hcode]
      rfl

/-- The answer to a request. -/
def requestAnswer (w : World) : Answer where
  rv := (mfsRequestDo w .given none aprHashMake).rv
  ok := (mfsRequestDo w .given none aprHashMake).ok
  result := (mfsRequestDo w .given none aprHashMake).result
  answered := (mfsRequestDo_answer w none aprHashMake).1
  errorCode := (mfsRequestDo_answer w none aprHashMake).2

/-! ## The calls -/

/-- `MAX_ALLOWED_PATHS`. -/
def maxAllowedPaths : ℤ := 100

/-- `apr_psprintf(pool, "path%d", pos)`. -/
def pathKey (pos : ℕ) : Bytes := str "path" ++ decimalNat pos

/-- `*paths` and `*path_count`. -/
structure PathsOut where
  paths : List (Option Bytes)
  pathCount : ℤ
deriving DecidableEq

/-- The body of the loop (lines 208–216) on `rv` and `s_paths`. -/
def getPathsBody (result : Hash) (s : AprStatus × List (Option Bytes)) (pos : ℕ) :
    AprStatus × List (Option Bytes) :=
  let path := aprHashGet result (pathKey pos)
  (if path = none then .egeneral else s.1, s.2 ++ [path])

/-- The answer was `OK` (lines 198–229). -/
def getPathsOk (result : Hash) (out : PathsOut) : AprStatus × PathsOut :=
  match aprHashGet result (str "paths") with
  | none => (.egeneral, out)
  | some pathCountStr =>
    let pc := atoi pathCountStr
    if 0 < pc ∧ pc < maxAllowedPaths then
      let (rv, sPaths) := (List.range' 1 pc.toNat).foldl (getPathsBody result) (.success, [])
      if rv = .success then (rv, ⟨sPaths, pc⟩) else (rv, out)
    else if pc = 0 ∧ cstr pathCountStr = str "0" then
      (.egeneral, { out with pathCount := 0 }) -- does this mean not found?.. can it even happen?
    else (.egeneral, out)

/-- `mfs_get_paths` behind its `mfs_request_do` (lines 197–239). -/
def mfsGetPaths (rv : AprStatus) (ok : Option Bool) (result : Hash) (out : PathsOut) :
    AprStatus × PathsOut :=
  if rv ≠ .success then (rv, out)
  else if ok = some true then getPathsOk result out
  else if errorCode result = some (str "unknown_key") then (.ebadpath, out)
  else (.egeneral, out)

/-- `*filepath_entries`, when it points to a list, and `*child_count`. -/
structure EntriesOut where
  filepathEntries : Option (List FilepathEntry)
  childCount : ℤ
deriving DecidableEq

/-- The outputs after `mfs_list_directory`. -/
def EntriesOut.store (out : EntriesOut) (listing : Listing) : EntriesOut where
  filepathEntries := listing.filepathEntries.or out.filepathEntries
  childCount := listing.childCount.getD out.childCount

/-- `mfs_filepath_stats`. -/
structure FilepathStats where
  totalMb : ℤ
  usedMb : ℤ
deriving DecidableEq

/-- A number of the answer, or what stands for one that is missing. -/
def numberOr (result : Hash) (key : Bytes) (missing : ℤ) : ℤ :=
  match aprHashGet result key with
  | some tmp => aprAtoi64 tmp
  | none => missing

/-- The numbers that `mfs_stats_filepath` stores (lines 671–684). -/
def statsOf (result : Hash) : FilepathStats where
  totalMb := numberOr result (str "mb_total") 0
  usedMb := numberOr result (str "mb_used") 0

/-- `mfs_stats_filepath` behind its `mfs_request_do` (lines 663–686). After an `ERR` answer it
    goes on. -/
def mfsStatsFilepath (rv : AprStatus) (ok : Option Bool) (result : Hash) (stats : FilepathStats) :
    AprStatus × FilepathStats :=
  if rv ≠ .success then (rv, stats)
  else (if ok = some true then .success else .egeneral, statsOf result)

/-- `mfs_check_fs_result`. -/
structure CheckFsResult where
  total : ℤ
  fixed : ℤ
deriving DecidableEq

/-- The numbers that `mfs_checkfs_filepath` stores (lines 714–726). -/
def checkFsOf (result : Hash) : CheckFsResult where
  total := numberOr result (str "total") (-1)
  fixed := numberOr result (str "fixed") (-1)

/-- `mfs_checkfs_filepath` behind its `mfs_request_do` (lines 706–728). It too goes on after an
    `ERR` answer. -/
def mfsCheckfsFilepath (rv : AprStatus) (ok : Option Bool) (result : Hash)
    (stats : CheckFsResult) : AprStatus × CheckFsResult :=
  if rv ≠ .success then (rv, stats)
  else (if ok = some true then .success else .egeneral, checkFsOf result)

/-- One of the five calls, with what its outputs hold. -/
inductive Query
  | getPaths (out : PathsOut)
  | listDirectory (out : EntriesOut)
  | pathInfo (entry : EntryMemory)
  | statsFilepath (stats : FilepathStats)
  | checkfsFilepath (stats : CheckFsResult)
deriving DecidableEq

/-- The status of the call, and its outputs afterwards. -/
def Query.run (a : Answer) : Query → AprStatus × Query
  | getPaths out =>
    let (rv, out) := mfsGetPaths a.rv a.ok a.result out
    (rv, getPaths out)
  | listDirectory out =>
    let listing := mfsListDirectory a.rv a.ok a.result
    (listing.rv, listDirectory (out.store listing))
  | pathInfo entry =>
    let (rv, entry) := mfsPathInfo a.rv a.ok a.result entry
    (rv, pathInfo entry)
  | statsFilepath stats =>
    let (rv, stats) := mfsStatsFilepath a.rv a.ok a.result stats
    (rv, statsFilepath stats)
  | checkfsFilepath stats =>
    let (rv, stats) := mfsCheckfsFilepath a.rv a.ok a.result stats
    (rv, checkfsFilepath stats)

/-! ## What a call that fails leaves -/

/-- `entry` holds already what `mfs_path_info` stores before it looks at the type. -/
def EntryMemory.Holds (entry : EntryMemory) (result : Hash) : Prop :=
  entry.name = .null ∧ entry.mtime = entryMtime (aprHashGet result (str "mtime")) ∧
    entry.serverId = entryServerId (aprHashGet result (str "nid"))

/-- The answers with which a call stores something and then fails do not come, or the outputs
    hold already what is stored. -/
def Query.Spared (a : Answer) : Query → Prop
  -- `OK` with the count 0
  | getPaths out => a.rv = .success → a.ok = some true →
      (aprHashGet a.result (str "paths")).map cstr = some (str "0") → out.pathCount = 0
  | listDirectory _ => True
  -- `OK` without a type, or with the type of a symlink and no link
  | pathInfo entry => a.rv = .success → a.ok = some true →
      (aprHashGet a.result (str "type") = none → entry.Holds a.result) ∧
      ∀ type, aprHashGet a.result (str "type") = some type → type.head? = some (ch 'L') →
        aprHashGet a.result (str "link") = none →
          entry.Holds a.result ∧ entry.type = PathType.symlink.code ∧ entry.link = .null
  -- `ERR`
  | statsFilepath stats => a.rv = .success → a.ok = some false → stats = statsOf a.result
  | checkfsFilepath stats => a.rv = .success → a.ok = some false → stats = checkFsOf a.result

theorem EntryMemory.begin_eq_iff {entry : EntryMemory} {result : Hash} :
    entry.begin result = entry ↔ entry.Holds result := by
  obtain ⟨name, type, mtime, size, serverId, link⟩ := entry
  unfold EntryMemory.begin EntryMemory.Holds
  simp only [EntryMemory.mk.injEq, true_and, and_true]
  constructor
  · rintro ⟨h1, h2, h3⟩
    exact ⟨h1.symm, h2.symm, h3.symm⟩
  · rintro ⟨h1, h2, h3⟩
    exact ⟨h1.symm, h2.symm, h3.symm⟩

theorem getPathsOk_spared_iff (result : Hash) (out : PathsOut) :
    ((getPathsOk result out).1 ≠ .success → (getPathsOk result out).2 = out) ↔
      ((aprHashGet result (str "paths")).map cstr = some (str "0") → out.pathCount = 0) := by
  have hzero : atoi (str "0") = 0 := by decide +kernel
  unfold getPathsOk
  cases hpaths : aprHashGet result (str "paths") with
  | none => simp
  | some pathCountStr =>
    simp only [Option.map_some, Option.some.injEq]
    by_cases hcount : cstr pathCountStr = str "0"
    · have hnone : atoi pathCountStr = 0 := by rw [← atoi_cstr, hcount, hzero]
      rw [hnone, if_neg (by decide), if_pos ⟨rfl, hcount⟩]
      constructor
      · intro h _
        exact (congrArg PathsOut.pathCount (h AprStatus.noConfusion)).symm
      · intro h _
        obtain ⟨paths, pathCount⟩ := out
        rw [show pathCount = 0 from h hcount]
    · refine iff_of_true ?_ fun h => absurd h hcount
      split_ifs with hrange hsuccess hnone
      · intro h
        exact absurd hsuccess h
      · intro _
        rfl
      · exact absurd hnone.2 hcount
      · intro _
        rfl

theorem pathInfoOk_spared_iff (result : Hash) (entry : EntryMemory) :
    ((pathInfoOk result entry).1 ≠ .success → (pathInfoOk result entry).2 = entry) ↔
      (aprHashGet result (str "type") = none → entry.Holds result) ∧
      ∀ type, aprHashGet result (str "type") = some type → type.head? = some (ch 'L') →
        aprHashGet result (str "link") = none →
          entry.Holds result ∧ entry.type = PathType.symlink.code ∧ entry.link = .null := by
  unfold pathInfoOk
  cases htype : aprHashGet result (str "type") with
  | none =>
    simp only [ne_eq, reduceCtorEq, not_false_eq_true, forall_const, false_imp_iff, and_true]
    exact EntryMemory.begin_eq_iff
  | some type =>
    simp only [reduceCtorEq, false_imp_iff, true_and, Option.some.injEq, forall_eq']
    split_ifs with hdirectory hsymlink hlink
    · refine iff_of_true (fun h => absurd rfl h) ?_
      intro hsymlink
      rw [hdirectory] at hsymlink
      exact absurd hsymlink (by decide)
    · -- the link is missing
      rw [hlink]
      constructor
      · intro h _ _
        have hentry := h AprStatus.noConfusion
        have htypeLink := congrArg EntryMemory.type hentry
        have hnull := congrArg EntryMemory.link hentry
        refine ⟨⟨?_, ?_, ?_⟩, htypeLink.symm, hnull.symm⟩
        · exact (congrArg EntryMemory.name hentry).symm
        · exact (congrArg EntryMemory.mtime hentry).symm
        · exact (congrArg EntryMemory.serverId hentry).symm
      · intro h _
        obtain ⟨hholds, htypeLink, hnull⟩ := h hsymlink rfl
        rw [EntryMemory.begin_eq_iff.mpr hholds, ← htypeLink, show EntryPointer.ofHash none = entry.link
          from hnull.symm]
    · exact iff_of_true (fun h => absurd rfl h) fun _ hnone => absurd hnone hlink
    · exact iff_of_true (fun h => absurd rfl h) fun h => absurd h hsymlink

/-- A listing that fails stores nothing. -/
theorem listOk_of_failure (result : Hash) :
    (listOk result).rv ≠ .success → listOk result = .fail (listOk result).rv := by
  unfold listOk
  cases aprHashGet result (str "files") with
  | none => exact fun _ => rfl
  | some pathCountStr =>
    simp only
    split_ifs
    · cases listEntries result 0 (atoi pathCountStr).toNat with
      | error rv => exact fun _ => rfl
      | ok entries => exact fun h => absurd rfl h
    · exact fun h => absurd rfl h
    · exact fun _ => rfl

theorem listDirectory_spared (rv : AprStatus) (ok : Option Bool) (result : Hash)
    (out : EntriesOut) : (mfsListDirectory rv ok result).rv ≠ .success →
      out.store (mfsListDirectory rv ok result) = out := by
  have hfail : ∀ rv, out.store (.fail rv) = out := fun _ => rfl
  unfold mfsListDirectory
  split_ifs
  · exact fun _ => hfail _
  · intro h
    rw [listOk_of_failure result h, hfail]
  · exact fun _ => hfail _
  · exact fun _ => hfail _

/-- A call that goes on after an `ERR` answer, with the value it stores. -/
theorem stored_spared_iff {α : Type} (a : Answer) (prior stored : α) :
    ((if a.rv ≠ .success then (a.rv, prior)
        else (if a.ok = some true then .success else .egeneral, stored)).1 ≠ .success →
      (if a.rv ≠ .success then (a.rv, prior)
        else (if a.ok = some true then .success else .egeneral, stored)).2 = prior) ↔
      (a.rv = .success → a.ok = some false → prior = stored) := by
  by_cases hrv : a.rv = .success
  · simp only [hrv, ne_eq, not_true_eq_false, if_false, true_imp_iff]
    obtain ⟨ok, hok⟩ := Option.isSome_iff_exists.mp (a.answered hrv)
    rw [hok]
    cases ok with
    | true => simp
    | false => simp [eq_comm]
  · rw [if_pos hrv]
    exact iff_of_true (fun _ => rfl) fun h => absurd h hrv

theorem getPaths_spared_iff (a : Answer) (out : PathsOut) :
    ((mfsGetPaths a.rv a.ok a.result out).1 ≠ .success →
      (mfsGetPaths a.rv a.ok a.result out).2 = out) ↔ (Query.getPaths out).Spared a := by
  unfold mfsGetPaths Query.Spared
  split_ifs with hrv hok
  · exact iff_of_true (fun _ => rfl) fun h => absurd h hrv
  · rw [getPathsOk_spared_iff]
    have hsuccess := not_not.mp hrv
    simp only [hsuccess, hok, true_imp_iff]
  · exact iff_of_true (fun _ => rfl) fun _ h => absurd h hok
  · exact iff_of_true (fun _ => rfl) fun _ h => absurd h hok

theorem pathInfo_spared_iff (a : Answer) (entry : EntryMemory) :
    ((mfsPathInfo a.rv a.ok a.result entry).1 ≠ .success →
      (mfsPathInfo a.rv a.ok a.result entry).2 = entry) ↔ (Query.pathInfo entry).Spared a := by
  unfold mfsPathInfo Query.Spared
  split_ifs with hrv hok
  · exact iff_of_true (fun _ => rfl) fun h => absurd h hrv
  · rw [pathInfoOk_spared_iff]
    have hsuccess := not_not.mp hrv
    simp only [hsuccess, hok, true_imp_iff]
  · exact iff_of_true (fun _ => rfl) fun _ h => absurd h hok
  · exact iff_of_true (fun _ => rfl) fun _ h => absurd h hok
  · exact iff_of_true (fun _ => rfl) fun _ h => absurd h hok

/-- For every answer and whatever the outputs hold: a call that fails has left its outputs
    alone exactly when the answer is none of those with which it stores first and fails then,
    or what it stores stands there already. -/
theorem failedQuery_iff (a : Answer) (q : Query) :
    ((q.run a).1 ≠ .success → (q.run a).2 = q) ↔ q.Spared a := by
  cases q with
  | getPaths out =>
    rw [← getPaths_spared_iff]
    simp only [Query.run, Query.getPaths.injEq]
  | listDirectory out =>
    refine iff_of_true ?_ trivial
    intro h
    exact congrArg Query.listDirectory (listDirectory_spared a.rv a.ok a.result out h)
  | pathInfo entry =>
    rw [← pathInfo_spared_iff]
    simp only [Query.run, Query.pathInfo.injEq]
  | statsFilepath stats =>
    simp only [Query.run, Query.statsFilepath.injEq]
    exact stored_spared_iff a stats (statsOf a.result)
  | checkfsFilepath stats =>
    simp only [Query.run, Query.checkfsFilepath.injEq]
    exact stored_spared_iff a stats (checkFsOf a.result)

/-- An answer that the domain is not known. -/
def errorAnswer : Answer where
  rv := .success
  ok := some false
  result := setAll aprHashMake [(str "ERROR_CODE", str "unreg_domain")]
  answered := fun _ => rfl
  errorCode := fun _ _ => by decide +kernel

/-- The statistics that the caller holds from before are overwritten. -/
theorem failedQuery_overwrites_stats :
    ¬(((Query.statsFilepath ⟨1000, 400⟩).run errorAnswer).1 ≠ .success →
      ((Query.statsFilepath ⟨1000, 400⟩).run errorAnswer).2 =
        .statsFilepath ⟨1000, 400⟩) := by
  decide +kernel

end MogileFs
