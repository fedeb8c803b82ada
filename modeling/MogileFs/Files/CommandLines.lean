import MogileFs.Files.Commands
import MogileFs.Tracker.RequestLine

/-!
# Commands as a tracker reads them

The lines that the calls of `src/file.c` and `src/file_upload.c` send, taken apart as the protocol
has it: the name of the command up to the first space, the arguments between `&`, both halves of
each decoded, CR LF at the end.

Results:
* `requestBytes_addParameters`: the bytes that are sent for a list of pairs.
* `readArguments_arguments`: every request is told from its arguments.
* `readRequest_line`: a tracker reads back the request of every call, its times in whole seconds.
* `requestLines_readBack`: the same for the parameters as the calls put them together.
-/

namespace MogileFs

open KeyedUpdates

/-! ## The bytes -/

theorem addParameters_collected (pairs : List (Bytes × Bytes)) :
    Collected (addParameters pairs) pairs 0 := by
  have hcalls : ∀ pairs : List (Bytes × Bytes),
      plainPairs 0 (pairs.map fun p => AddCall.parameter p.1 p.2) = pairs ∧
        metaCalls (pairs.map fun p => AddCall.parameter p.1 p.2) = 0 := by
    intro pairs
    induction pairs with
    | nil => exact ⟨rfl, rfl⟩
    | cons p pairs ih => exact ⟨congrArg (p :: ·) ih.1, ih.2⟩
  have h := runCalls_collected (pairs.map fun p => AddCall.parameter p.1 p.2)
  rw [(hcalls pairs).1, (hcalls pairs).2, runCalls, List.foldl_map] at h
  exact h

/-- The line of a command and its pairs. -/
theorem requestBytes_addParameters (cmd : Bytes) {pairs : List (Bytes × Bytes)}
    (hne : pairs ≠ []) (palloc : ℕ → Byte) :
    requestBytes cmd (addParameters pairs) palloc =
      cmd ++ ch ' ' :: encodedPairs pairs ++ [CR, LF] := by
  have hcollected := addParameters_collected pairs
  have hbody : lineBody pairs 0 = encodedPairs pairs := rfl
  obtain ⟨hwrote, -⟩ := buildRequest_wrote hcollected hne cmd palloc
  rw [requestBytes, requestLength_eq hcollected hne, ← hbody]
  exact hwrote.map_range rfl

/-! ## Reading a line -/

/-- The name in front of the first space, and the decoded pairs behind it. -/
def readText (text : Bytes) : Bytes × List (Bytes × Bytes) :=
  (text.takeWhile (· ≠ ch ' '),
    (((text.dropWhile (· ≠ ch ' ')).drop 1).splitOn (ch '&')).map decodedPair)

/-- The name and the arguments of a request line. -/
def readLine (line : Bytes) : Option (Bytes × List (Bytes × Bytes)) :=
  if [CR, LF] <:+ line then some (readText (line.take (line.length - 2))) else none

theorem readText_encodedPairs {cmd : Bytes} (hcmd : ch ' ' ∉ cmd) {pairs : List (Bytes × Bytes)}
    (hne : pairs ≠ []) (hpairs : ∀ p ∈ pairs, (0 : Byte) ∉ p.1 ∧ (0 : Byte) ∉ p.2) :
    readText (cmd ++ ch ' ' :: encodedPairs pairs) = (cmd, pairs) := by
  have hfirst : ∀ c ∈ cmd, (decide (c ≠ ch ' ')) = true := by
    intro c hc
    refine decide_eq_true ?_
    rintro rfl
    exact hcmd hc
  rw [readText, List.takeWhile_append_of_pos hfirst, List.dropWhile_append_of_pos hfirst,
    List.takeWhile_cons_of_neg (by simp), List.dropWhile_cons_of_neg (by simp), List.append_nil,
    List.drop_one, List.tail_cons, map_decodedPair hpairs hne]

theorem readLine_encodedPairs {cmd : Bytes} (hcmd : ch ' ' ∉ cmd) {pairs : List (Bytes × Bytes)}
    (hne : pairs ≠ []) (hpairs : ∀ p ∈ pairs, (0 : Byte) ∉ p.1 ∧ (0 : Byte) ∉ p.2) :
    readLine (cmd ++ ch ' ' :: encodedPairs pairs ++ [CR, LF]) = some (cmd, pairs) := by
  have htext : (cmd ++ ch ' ' :: encodedPairs pairs ++ [CR, LF]).take
      ((cmd ++ ch ' ' :: encodedPairs pairs ++ [CR, LF]).length - 2) =
        cmd ++ ch ' ' :: encodedPairs pairs := by
    refine List.take_left' ?_
    simp only [List.length_append, List.length_cons, List.length_nil]
    omega
  rw [readLine, if_pos (List.suffix_append _ _), htext, readText_encodedPairs hcmd hne hpairs]

/-! ## Names -/

def commandNames : List CommandName :=
  [.getPaths, .delete, .filepathsDeleteNode, .filepathsCreateNode, .sleep, .rename,
    .filepathsRename, .filepathsSetMtime, .filepathsListDirectory, .filepathsPathInfo,
    .filepathsStats, .filepathsCheckFs, .createOpen, .createClose]

/-- The command with the name. -/
def CommandName.ofText (text : Bytes) : Option CommandName :=
  commandNames.find? fun name => name.text = text

theorem ofText_text (name : CommandName) : CommandName.ofText name.text = some name := by
  cases name <;> decide +kernel

theorem lineChars_notMem_text (name : CommandName) : ∀ c ∈ lineChars, c ∉ name.text := by
  cases name <;> decide +kernel

/-! ## Arguments -/

/-- A `0` or a `1`. -/
def readFlag (text : Bytes) : Option Bool :=
  if text = str "1" then some true else if text = str "0" then some false else none

theorem readFlag_flagText (flag : Bool) : readFlag (flagText flag) = some flag := by
  cases flag <;> decide +kernel

/-- The request that a name and its arguments stand for. `mtime` is sent in seconds. -/
def readArguments (name : CommandName) (args : List (Bytes × Bytes)) : Option TrackerRequest :=
  let value := fun key => lastValue args (str key)
  match name with
  | .getPaths => do
    some (.command (.getPaths (← value "domain") (← value "key")
      (← (← value "noverify") |> readFlag)))
  | .delete => do some (.command (.delete (← value "domain") (← value "key")))
  | .filepathsDeleteNode => do
    some (.command (.deleteFilepathNode (← value "domain") (← value "arg1")))
  | .filepathsCreateNode =>
    if value "arg2" = some (str "D") then do
      some (.command (.createDirectory (← value "domain") (← value "arg1")))
    else if value "arg2" = some (str "L") then do
      some (.command (.createLink (← value "domain") (← value "arg1") (← value "arg3")))
    else none
  | .sleep => do some (.command (.sleep (aprAtoi64 (← value "duration"))))
  | .rename => do
    some (.command (.rename (← value "domain") (← value "from_key") (← value "to_key")))
  | .filepathsRename => do
    some (.command (.renameFilepath (← value "domain") (← value "arg1") (← value "arg2")))
  | .filepathsSetMtime => do
    some (.command (.setMtime (← value "domain") (← value "arg1")
      (aprAtoi64 (← value "arg2") * 1000000)))
  | .filepathsListDirectory => do
    some (.command (.listDirectory (← value "domain") (← value "arg1")))
  | .filepathsPathInfo => do some (.command (.pathInfo (← value "domain") (← value "arg1")))
  | .filepathsStats => do some (.command (.statsFilepath (← value "domain")))
  | .filepathsCheckFs => do
    some (.command (.checkfsFilepath (← value "domain") (← (← value "arg1") |> readFlag)))
  | .createOpen => do
    some (.createOpen (← value "domain") (← value "class") (← value "key"))
  | .createClose => do
    some (.createClose ((value "mtime").map fun mtime => aprAtoi64 mtime * 1000000)
      (← value "fid") (← value "devid") (aprAtoi64 (← value "size")) (← value "domain")
      (← value "path") (← value "key"))

/-- The request on a line, for a tracker. -/
def readRequest (line : Bytes) : Option TrackerRequest :=
  (readLine line).bind fun text =>
    (CommandName.ofText text.1).bind fun name => readArguments name text.2

/-! ## What fits into a request -/

def TrackerRequest.NumbersFit : TrackerRequest → Prop
  | .command (.sleep duration) => -2 ^ 31 ≤ duration ∧ duration < 2 ^ 31
  | .command (.setMtime _ _ mtime) => -2 ^ 63 ≤ mtime ∧ mtime < 2 ^ 63
  | .createClose mtime _ _ size _ _ _ =>
    (∀ time ∈ mtime, -2 ^ 63 ≤ time ∧ time < 2 ^ 63) ∧ -2 ^ 63 ≤ size ∧ size < 2 ^ 63
  | _ => True

/-- The arguments are C strings, and the numbers are of their types. -/
structure TrackerRequest.Fits (request : TrackerRequest) : Prop where
  strings : ∀ p ∈ request.own, (0 : Byte) ∉ p.2
  numbers : request.NumbersFit

/-- Times lose what is below the second. -/
def wholeSeconds (time : ℤ) : ℤ := aprTimeSec time * 1000000

/-- The request as it comes over. -/
def TrackerRequest.received : TrackerRequest → TrackerRequest
  | .command (.setMtime domain key mtime) => .command (.setMtime domain key (wholeSeconds mtime))
  | .createClose mtime fid devid size domain path key =>
    .createClose (mtime.map wholeSeconds) fid devid size domain path key
  | request => request

theorem aprTimeSec_bounds {time : ℤ} (hlow : -2 ^ 63 ≤ time) (hhigh : time < 2 ^ 63) :
    -2 ^ 63 ≤ aprTimeSec time ∧ aprTimeSec time < 2 ^ 63 := by
  have hsign : Int.sign 1000000 = 1 := rfl
  rw [aprTimeSec, Int.tdiv_eq_ediv, hsign]
  constructor <;> split_ifs <;> omega

/-- A time that is sent, and read back. -/
theorem aprAtoi64_seconds {time : ℤ} (h : -2 ^ 63 ≤ time ∧ time < 2 ^ 63) :
    aprAtoi64 (decimal (aprTimeSec time)) * 1000000 = wholeSeconds time := by
  obtain ⟨hlow, hhigh⟩ := aprTimeSec_bounds h.1 h.2
  rw [aprAtoi64_decimal hlow hhigh, wholeSeconds]

/-! ## Reading the arguments back -/

/-- The keys of a request are different C strings, and none is that of the client's id. -/
theorem own_keys (request : TrackerRequest) :
    (str "client_id" :: request.own.map Prod.fst).Nodup ∧
      ∀ p ∈ request.own, (0 : Byte) ∉ p.1 := by
  have hkeys : ∀ own : List (Bytes × Bytes), (∀ k ∈ own.map Prod.fst, (0 : Byte) ∉ k) →
      ∀ p ∈ own, (0 : Byte) ∉ p.1 := fun own h p hp => h p.1 (List.mem_map_of_mem hp)
  cases request with
  | command c =>
    refine ⟨?_, hkeys _ ?_⟩ <;> cases c <;>
      simp only [TrackerRequest.own, Command.own, List.map_cons, List.map_nil] <;> decide +kernel
  | createOpen =>
    refine ⟨?_, hkeys _ ?_⟩ <;>
      simp only [TrackerRequest.own, List.map_cons, List.map_nil] <;> decide +kernel
  | createClose mtime =>
    refine ⟨?_, hkeys _ ?_⟩ <;> cases mtime <;>
      simp only [TrackerRequest.own, Option.map_none, Option.map_some, Option.toList_none,
        Option.toList_some, List.nil_append, List.cons_append, List.map_cons, List.map_nil] <;>
      decide +kernel

theorem lastValue_clientPair {k : Bytes} (hk : k ≠ str "client_id") (clientId : Option Bytes) :
    lastValue (clientPair clientId) k = none := by
  rw [lastValue_eq_none_iff]
  intro hmem
  cases clientId with
  | none => cases hmem
  | some clientId => exact hk (List.mem_singleton.mp hmem)

/-- Every argument is found under its key, whether or not the client has an id. -/
theorem lastValue_arguments {request : TrackerRequest} (clientId : Option Bytes) {k v : Bytes}
    (h : (k, v) ∈ request.own) : lastValue (request.arguments clientId) k = some v := by
  have hnodup := (own_keys request).1
  rw [List.nodup_cons] at hnodup
  have hk : k ≠ str "client_id" := by
    rintro rfl
    exact hnodup.1 (List.mem_map_of_mem h)
  have hown := lastValue_of_nodup hnodup.2 h
  rw [TrackerRequest.arguments, lastValue_append, hown]
  split_ifs
  · rfl
  · rw [lastValue_clientPair hk, Option.none_or]

/-- The command of `src/file.c`, from arguments that have at least its own. -/
theorem readArguments_command {c : Command} (h : (TrackerRequest.command c).NumbersFit)
    {args : List (Bytes × Bytes)} (hargs : ∀ p ∈ c.own, lastValue args p.1 = some p.2) :
    readArguments c.name args = some (TrackerRequest.command c).received := by
  cases c <;> simp only [Command.own, List.forall_mem_cons] at hargs
  case getPaths domain key noverify =>
    obtain ⟨hdomain, hnoverify, hkey, -⟩ := hargs
    show readArguments .getPaths args = _
    simp only [readArguments, hdomain, hnoverify, hkey, Option.bind_eq_bind, Option.bind_some,
      readFlag_flagText]
    rfl
  case delete domain key =>
    obtain ⟨hdomain, hkey, -⟩ := hargs
    show readArguments .delete args = _
    simp only [readArguments, hdomain, hkey, Option.bind_eq_bind, Option.bind_some]
    rfl
  case deleteFilepathNode domain key =>
    obtain ⟨hdomain, hkey, -⟩ := hargs
    show readArguments .filepathsDeleteNode args = _
    simp only [readArguments, hdomain, hkey, Option.bind_eq_bind, Option.bind_some]
    rfl
  case createDirectory domain key =>
    obtain ⟨hdomain, hkey, htype, -⟩ := hargs
    show readArguments .filepathsCreateNode args = _
    simp only [readArguments, hdomain, hkey, htype, Option.bind_eq_bind, Option.bind_some,
      if_true]
    rfl
  case createLink domain key link =>
    obtain ⟨hdomain, hkey, htype, hlink, -⟩ := hargs
    have hnot : some (str "L") ≠ some (str "D") := by decide
    show readArguments .filepathsCreateNode args = _
    simp only [readArguments, hdomain, hkey, htype, hlink, Option.bind_eq_bind, Option.bind_some,
      if_neg hnot, if_true]
    rfl
  case sleep duration =>
    obtain ⟨hlow, hhigh⟩ := h
    obtain ⟨hduration, -⟩ := hargs
    show readArguments .sleep args = _
    simp only [readArguments, hduration, Option.bind_eq_bind, Option.bind_some,
      aprAtoi64_decimal (show -2 ^ 63 ≤ duration by omega) (show duration < 2 ^ 63 by omega)]
    rfl
  case rename domain fromKey toKey =>
    obtain ⟨hdomain, hfrom, hto, -⟩ := hargs
    show readArguments .rename args = _
    simp only [readArguments, hdomain, hfrom, hto, Option.bind_eq_bind, Option.bind_some]
    rfl
  case renameFilepath domain fromKey toKey =>
    obtain ⟨hdomain, hfrom, hto, -⟩ := hargs
    show readArguments .filepathsRename args = _
    simp only [readArguments, hdomain, hfrom, hto, Option.bind_eq_bind, Option.bind_some]
    rfl
  case setMtime domain key mtime =>
    obtain ⟨hdomain, hkey, hmtime, -⟩ := hargs
    show readArguments .filepathsSetMtime args = _
    simp only [readArguments, hdomain, hkey, hmtime, Option.bind_eq_bind, Option.bind_some,
      aprAtoi64_seconds h]
    rfl
  case listDirectory domain directory =>
    obtain ⟨hdomain, hdirectory, -⟩ := hargs
    show readArguments .filepathsListDirectory args = _
    simp only [readArguments, hdomain, hdirectory, Option.bind_eq_bind, Option.bind_some]
    rfl
  case pathInfo domain path =>
    obtain ⟨hdomain, hpath, -⟩ := hargs
    show readArguments .filepathsPathInfo args = _
    simp only [readArguments, hdomain, hpath, Option.bind_eq_bind, Option.bind_some]
    rfl
  case statsFilepath domain =>
    obtain ⟨hdomain, -⟩ := hargs
    show readArguments .filepathsStats args = _
    simp only [readArguments, hdomain, Option.bind_eq_bind, Option.bind_some]
    rfl
  case checkfsFilepath domain getTotal =>
    obtain ⟨hdomain, -, htotal, -⟩ := hargs
    show readArguments .filepathsCheckFs args = _
    simp only [readArguments, hdomain, htotal, Option.bind_eq_bind, Option.bind_some,
      readFlag_flagText]
    rfl

/-- A time that is not sent is not found either. -/
theorem lastValue_mtime (clientId : Option Bytes) (mtime : Option ℤ) (fid devid : Bytes) (size : ℤ)
    (domain path key : Bytes) :
    lastValue ((TrackerRequest.createClose mtime fid devid size domain path key).arguments
      clientId) (str "mtime") = mtime.map fun mtime => decimal (aprTimeSec mtime) := by
  cases mtime with
  | some mtime => exact lastValue_arguments clientId List.mem_cons_self
  | none =>
    have hown : lastValue [(str "fid", fid), (str "devid", devid), (str "size", decimal size),
        (str "domain", domain), (str "path", path), (str "key", key)] (str "mtime") = none := by
      rw [lastValue_eq_none_iff]
      simp only [List.map_cons, List.map_nil]
      decide +kernel
    show lastValue (_ ++ clientPair clientId) (str "mtime") = none
    rw [lastValue_append, lastValue_clientPair (by decide), Option.none_or]
    exact hown

/-- A tracker that knows the name tells the request from its arguments. -/
theorem readArguments_arguments {request : TrackerRequest} (h : request.NumbersFit)
    (clientId : Option Bytes) :
    readArguments request.name (request.arguments clientId) = some request.received := by
  have hargs : ∀ p ∈ request.own, lastValue (request.arguments clientId) p.1 = some p.2 :=
    fun p hp => lastValue_arguments clientId hp
  cases request with
  | command c => exact readArguments_command h hargs
  | createOpen domain storageClass key =>
    generalize (TrackerRequest.createOpen domain storageClass key).arguments clientId = args
      at hargs ⊢
    simp only [TrackerRequest.own, List.forall_mem_cons] at hargs
    obtain ⟨hdomain, hclass, hkey, -⟩ := hargs
    show readArguments .createOpen args = _
    simp only [readArguments, hdomain, hclass, hkey, Option.bind_eq_bind, Option.bind_some]
    rfl
  | createClose mtime fid devid size domain path key =>
    obtain ⟨htime, hlow, hhigh⟩ := h
    have hmtime := lastValue_mtime clientId mtime fid devid size domain path key
    generalize (TrackerRequest.createClose mtime fid devid size domain path key).arguments clientId
      = args at hargs hmtime ⊢
    simp only [TrackerRequest.own, List.forall_mem_append, List.forall_mem_cons] at hargs
    obtain ⟨-, hfid, hdevid, hsize, hdomain, hpath, hkey, -⟩ := hargs
    have hread : (mtime.map fun mtime => decimal (aprTimeSec mtime)).map
        (fun mtime => aprAtoi64 mtime * 1000000) = mtime.map wholeSeconds := by
      rw [Option.map_map]
      exact Option.map_congr fun time hmem => aprAtoi64_seconds (htime time hmem)
    show readArguments .createClose args = _
    simp only [readArguments, hfid, hdevid, hsize, hdomain, hpath, hkey, hmtime,
      Option.bind_eq_bind, Option.bind_some, aprAtoi64_decimal hlow hhigh, hread]
    rfl

/-! ## The round trip -/

/-- The bytes that are sent for a request. -/
def TrackerRequest.line (clientId : Option Bytes) (palloc : ℕ → Byte) (request : TrackerRequest) :
    Bytes :=
  requestBytes request.name.text (addParameters (request.arguments clientId)) palloc

theorem arguments_ne_nil (clientId : Option Bytes) (request : TrackerRequest) :
    request.arguments clientId ≠ [] := by
  have hown : request.own ≠ [] := by
    cases request with
    | command c => cases c <;> exact List.cons_ne_nil _ _
    | createOpen => exact List.cons_ne_nil _ _
    | createClose => exact List.append_ne_nil_of_right_ne_nil _ (List.cons_ne_nil _ _)
  exact List.append_ne_nil_of_left_ne_nil hown _

theorem nul_notMem_arguments {request : TrackerRequest} (h : request.Fits) {clientId : Option Bytes}
    (hid : ∀ id ∈ clientId, (0 : Byte) ∉ id) :
    ∀ p ∈ request.arguments clientId, (0 : Byte) ∉ p.1 ∧ (0 : Byte) ∉ p.2 := by
  intro p hp
  rcases List.mem_append.mp hp with hp | hp
  · exact ⟨(own_keys request).2 p hp, h.strings p hp⟩
  · split_ifs at hp with hanonymous
    · cases hp
    · obtain ⟨id, hsome, rfl⟩ := Option.map_eq_some_iff.mp (Option.mem_toList.mp hp)
      exact ⟨show (0 : Byte) ∉ str "client_id" by decide, hid id hsome⟩

/-- Every call of `src/file.c` and both requests of an upload, with any C strings and numbers, and
    whatever the id of the client: the tracker reads its arguments back from the line, but for what
    a time has below the second. -/
theorem readRequest_line {request : TrackerRequest} (h : request.Fits) {clientId : Option Bytes}
    (hid : ∀ id ∈ clientId, (0 : Byte) ∉ id) (palloc : ℕ → Byte) :
    readRequest (request.line clientId palloc) = some request.received := by
  have hspace := lineChars_notMem_text request.name (ch ' ') (by decide)
  rw [TrackerRequest.line, requestBytes_addParameters _ (arguments_ne_nil clientId request) palloc,
    readRequest, readLine_encodedPairs hspace (arguments_ne_nil clientId request)
      (nul_notMem_arguments h hid), Option.bind_some, ofText_text, Option.bind_some]
  exact readArguments_arguments h.numbers clientId

/-- The lines that are sent: for every command, with the parameters of its call; and for an upload
    without parameters of the caller's own, those of `create_open` and `create_close`. Different
    requests are sent in different lines. -/
theorem requestLines_readBack {clientId : Option Bytes} (hid : ∀ id ∈ clientId, (0 : Byte) ∉ id)
    (palloc : ℕ → Byte) :
    (∀ c : Command, (TrackerRequest.command c).Fits →
      readRequest (requestBytes c.name.text (c.parameters clientId) palloc) =
        some (TrackerRequest.command c).received) ∧
    (∀ u : Upload, u.extraOpenParameters = none → u.openRequest.Fits →
      readRequest (requestBytes (str "create_open") (openParameters u) palloc) =
        some u.openRequest) ∧
    (∀ (u : Upload) (mtime : Option ℤ) (fid devid : Bytes) (size : ℤ) (url : Bytes),
      u.clientId = clientId → u.extraCloseParameters = mtime.map mtimeParameters →
      (TrackerRequest.createClose mtime fid devid size u.domain url u.key).Fits →
      readRequest (requestBytes (str "create_close") (closeParameters u fid devid size url)
        palloc) =
        some (TrackerRequest.createClose mtime fid devid size u.domain url u.key).received) ∧
    ∀ request request' : TrackerRequest, request.Fits → request'.Fits →
      request.line clientId palloc = request'.line clientId palloc →
        request.received = request'.received := by
  refine ⟨fun c hc => ?_, fun u hextra hu => ?_, fun u mtime fid devid size url hclient hextra hu =>
    ?_, fun request request' h h' hline => ?_⟩
  · rw [parameters_eq]
    exact readRequest_line hc hid palloc
  · rw [openParameters_eq hextra clientId]
    exact readRequest_line hu hid palloc
  · rw [closeParameters_eq hextra, hclient]
    exact readRequest_line hu hid palloc
  · have hread := readRequest_line h hid palloc
    rw [hline, readRequest_line h' hid palloc, Option.some.injEq] at hread
    exact hread.symm

/-- A link whose name and target have to be encoded. -/
theorem requestLines_readBack_link :
    readRequest (requestBytes (CommandName.text .filepathsCreateNode)
      (createLinkParameters (some (str "web 1")) (str "d") (str "/a&b") (str "/c=d e"))
        fun _ => 1) =
      some (.command (.createLink (str "d") (str "/a&b") (str "/c=d e"))) :=
  (requestLines_readBack (show ∀ id ∈ some (str "web 1"), (0 : Byte) ∉ id by decide +kernel)
    fun _ => 1).1 (.createLink (str "d") (str "/a&b") (str "/c=d e")) ⟨by decide +kernel, trivial⟩

end MogileFs
