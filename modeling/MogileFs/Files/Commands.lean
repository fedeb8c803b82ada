import MogileFs.Files.Queries
import MogileFs.Upload.Upload

/-!
# Commands

The calls of `src/file.c` that send one command to the trackers (lines 185–728), with the
parameters they send and what they make of the answer, and the two commands of an upload
(`src/file_upload.c`, lines 244–330). The calls that ask for something are those of
`MogileFs.Files.Queries`; here are also the ones that change something.

Results:
* `parameters_eq`: the parameters of every command are its arguments, added one after another.
* `openParameters_eq`, `closeParameters_eq`: the commands of the uploads that
  `mfs_store_bytes`, `mfs_store_file` and their variants start.
-/

namespace MogileFs

/-! ## Parameters -/

/-- `mfs_tracker_add_parameter` for one pair after another, on a fresh list. -/
def addParameters (pairs : List (Bytes × Bytes)) : RequestParameters :=
  pairs.foldl (fun params p => mfsTrackerAddParameter params p.1 p.2) mfsTrackerInitParameters

/-- `if(file_system->client_id != NULL)`. -/
def addClientId (clientId : Option Bytes) (params : RequestParameters) : RequestParameters :=
  match clientId with
  | none => params
  | some clientId => mfsTrackerAddParameter params (str "client_id") clientId

/-- `apr_time_sec`: a division of the C language. -/
def aprTimeSec (time : ℤ) : ℤ := time.tdiv 1000000

/-- `noverify ? "1" : "0"`. -/
def flagText (flag : Bool) : Bytes := if flag then str "1" else str "0"

/-- Lines 189–192. -/
def getPathsParameters (domain key : Bytes) (noverify : Bool) : RequestParameters :=
  addParameters [(str "domain", domain), (str "noverify", flagText noverify), (str "key", key)]

/-- Lines 247–252. -/
def deleteParameters (clientId : Option Bytes) (domain key : Bytes) : RequestParameters :=
  addClientId clientId (addParameters [(str "domain", domain), (str "key", key)])

/-- Lines 271–277. -/
def deleteFilepathNodeParameters (clientId : Option Bytes) (domain key : Bytes) :
    RequestParameters :=
  addClientId clientId
    (addParameters [(str "domain", domain), (str "arg1", key), (str "argcount", str "1")])

/-- Lines 302–309. -/
def createDirectoryParameters (clientId : Option Bytes) (domain key : Bytes) :
    RequestParameters :=
  addClientId clientId (addParameters
    [(str "domain", domain), (str "arg1", key), (str "arg2", str "D"), (str "argcount", str "2")])

/-- Lines 338–346. -/
def createLinkParameters (clientId : Option Bytes) (domain key link : Bytes) :
    RequestParameters :=
  addClientId clientId (addParameters
    [(str "domain", domain), (str "arg1", key), (str "arg2", str "L"), (str "arg3", link),
      (str "argcount", str "3")])

/-- Lines 375–376. -/
def sleepParameters (duration : ℤ) : RequestParameters :=
  addParameters [(str "duration", decimal duration)]

/-- Lines 394–400. -/
def renameParameters (clientId : Option Bytes) (domain fromKey toKey : Bytes) :
    RequestParameters :=
  addClientId clientId (addParameters
    [(str "domain", domain), (str "from_key", fromKey), (str "to_key", toKey)])

/-- Lines 419–426. -/
def renameFilepathParameters (clientId : Option Bytes) (domain fromKey toKey : Bytes) :
    RequestParameters :=
  addClientId clientId (addParameters
    [(str "domain", domain), (str "arg1", fromKey), (str "arg2", toKey),
      (str "argcount", str "2")])

/-- Lines 447–454. -/
def setMtimeParameters (clientId : Option Bytes) (domain key : Bytes) (mtime : ℤ) :
    RequestParameters :=
  addClientId clientId (addParameters
    [(str "domain", domain), (str "arg1", key), (str "arg2", decimal (aprTimeSec mtime)),
      (str "argcount", str "2")])

/-- Lines 582–585. -/
def pathInfoParameters (domain path : Bytes) : RequestParameters :=
  addParameters [(str "domain", domain), (str "arg1", path), (str "argcount", str "1")]

/-- Lines 653–658. -/
def statsFilepathParameters (clientId : Option Bytes) (domain : Bytes) : RequestParameters :=
  addClientId clientId (addParameters [(str "domain", domain), (str "argcount", str "0")])

/-- Lines 692–702. -/
def checkfsFilepathParameters (clientId : Option Bytes) (domain : Bytes) (getTotal : Bool) :
    RequestParameters :=
  addClientId clientId (addParameters
    [(str "domain", domain), (str "argcount", str "1"), (str "arg1", flagText getTotal)])

/-! ## Commands -/

/-- A call of `src/file.c` that sends a command; `mtime` is an `apr_time_t`, in microseconds. -/
inductive Command
  | getPaths (domain key : Bytes) (noverify : Bool)
  | delete (domain key : Bytes)
  | deleteFilepathNode (domain key : Bytes)
  | createDirectory (domain key : Bytes)
  | createLink (domain key link : Bytes)
  | sleep (duration : ℤ)
  | rename (domain fromKey toKey : Bytes)
  | renameFilepath (domain fromKey toKey : Bytes)
  | setMtime (domain key : Bytes) (mtime : ℤ)
  | listDirectory (domain directory : Bytes)
  | pathInfo (domain path : Bytes)
  | statsFilepath (domain : Bytes)
  | checkfsFilepath (domain : Bytes) (getTotal : Bool)
deriving DecidableEq

/-- Everything that is asked of a tracker: a command, or one of the two of an upload. `mtime` is
    that of `mfs_store_bytes_filepath` and `mfs_store_file_filepath`. -/
inductive TrackerRequest
  | command (c : Command)
  | createOpen (domain storageClass key : Bytes)
  | createClose (mtime : Option ℤ) (fid devid : Bytes) (size : ℤ) (domain path key : Bytes)
deriving DecidableEq

/-- The argument `cmd` of `mfs_request_do`. -/
inductive CommandName
  | getPaths | delete | filepathsDeleteNode | filepathsCreateNode | sleep | rename
  | filepathsRename | filepathsSetMtime | filepathsListDirectory | filepathsPathInfo
  | filepathsStats | filepathsCheckFs | createOpen | createClose
deriving DecidableEq

def CommandName.text : CommandName → Bytes
  | getPaths => str "get_paths"
  | delete => str "delete"
  | filepathsDeleteNode => str "plugin_filepaths_delete_node"
  | filepathsCreateNode => str "plugin_filepaths_create_node"
  | sleep => str "sleep"
  | rename => str "rename"
  | filepathsRename => str "plugin_filepaths_rename"
  | filepathsSetMtime => str "plugin_filepaths_set_mtime"
  | filepathsListDirectory => str "plugin_filepaths_list_directory"
  | filepathsPathInfo => str "plugin_filepaths_path_info"
  | filepathsStats => str "plugin_filepaths_stats"
  | filepathsCheckFs => str "plugin_filepaths_check_fs"
  | createOpen => str "create_open"
  | createClose => str "create_close"

def Command.name : Command → CommandName
  | getPaths .. => .getPaths
  | delete .. => .delete
  | deleteFilepathNode .. => .filepathsDeleteNode
  | createDirectory .. | createLink .. => .filepathsCreateNode
  | sleep .. => .sleep
  | rename .. => .rename
  | renameFilepath .. => .filepathsRename
  | setMtime .. => .filepathsSetMtime
  | listDirectory .. => .filepathsListDirectory
  | pathInfo .. => .filepathsPathInfo
  | statsFilepath .. => .filepathsStats
  | checkfsFilepath .. => .filepathsCheckFs

def TrackerRequest.name : TrackerRequest → CommandName
  | command c => c.name
  | createOpen .. => .createOpen
  | createClose .. => .createClose

def Command.parameters (clientId : Option Bytes) : Command → RequestParameters
  | getPaths domain key noverify => getPathsParameters domain key noverify
  | delete domain key => deleteParameters clientId domain key
  | deleteFilepathNode domain key => deleteFilepathNodeParameters clientId domain key
  | createDirectory domain key => createDirectoryParameters clientId domain key
  | createLink domain key link => createLinkParameters clientId domain key link
  | sleep duration => sleepParameters duration
  | rename domain fromKey toKey => renameParameters clientId domain fromKey toKey
  | renameFilepath domain fromKey toKey => renameFilepathParameters clientId domain fromKey toKey
  | setMtime domain key mtime => setMtimeParameters clientId domain key mtime
  | listDirectory domain directory => listDirectoryParameters domain directory
  | pathInfo domain path => pathInfoParameters domain path
  | statsFilepath domain => statsFilepathParameters clientId domain
  | checkfsFilepath domain getTotal => checkfsFilepathParameters clientId domain getTotal

/-! ## Arguments -/

def clientPair (clientId : Option Bytes) : List (Bytes × Bytes) :=
  (clientId.map fun clientId => (str "client_id", clientId)).toList

/-- The arguments of a command, without the id of the client. -/
def Command.own : Command → List (Bytes × Bytes)
  | getPaths domain key noverify =>
    [(str "domain", domain), (str "noverify", flagText noverify), (str "key", key)]
  | delete domain key => [(str "domain", domain), (str "key", key)]
  | deleteFilepathNode domain key =>
    [(str "domain", domain), (str "arg1", key), (str "argcount", str "1")]
  | createDirectory domain key =>
    [(str "domain", domain), (str "arg1", key), (str "arg2", str "D"), (str "argcount", str "2")]
  | createLink domain key link =>
    [(str "domain", domain), (str "arg1", key), (str "arg2", str "L"), (str "arg3", link),
      (str "argcount", str "3")]
  | sleep duration => [(str "duration", decimal duration)]
  | rename domain fromKey toKey =>
    [(str "domain", domain), (str "from_key", fromKey), (str "to_key", toKey)]
  | renameFilepath domain fromKey toKey =>
    [(str "domain", domain), (str "arg1", fromKey), (str "arg2", toKey),
      (str "argcount", str "2")]
  | setMtime domain key mtime =>
    [(str "domain", domain), (str "arg1", key), (str "arg2", decimal (aprTimeSec mtime)),
      (str "argcount", str "2")]
  | listDirectory domain directory =>
    [(str "domain", domain), (str "arg1", directory), (str "argcount", str "1")]
  | pathInfo domain path =>
    [(str "domain", domain), (str "arg1", path), (str "argcount", str "1")]
  | statsFilepath domain => [(str "domain", domain), (str "argcount", str "0")]
  | checkfsFilepath domain getTotal =>
    [(str "domain", domain), (str "argcount", str "1"), (str "arg1", flagText getTotal)]

/-- The calls that do not send the id of the client. -/
def Command.anonymous : Command → Bool
  | getPaths .. | sleep .. | listDirectory .. | pathInfo .. => true
  | _ => false

def TrackerRequest.own : TrackerRequest → List (Bytes × Bytes)
  | command c => c.own
  | createOpen domain storageClass key =>
    [(str "domain", domain), (str "class", storageClass), (str "key", key)]
  | createClose mtime fid devid size domain path key =>
    (mtime.map fun mtime => (str "mtime", decimal (aprTimeSec mtime))).toList ++
      [(str "fid", fid), (str "devid", devid), (str "size", decimal size), (str "domain", domain),
        (str "path", path), (str "key", key)]

def TrackerRequest.anonymous : TrackerRequest → Bool
  | command c => c.anonymous
  | createOpen .. => true
  | createClose .. => false

/-- All arguments, in the order in which they are sent. -/
def TrackerRequest.arguments (clientId : Option Bytes) (request : TrackerRequest) :
    List (Bytes × Bytes) :=
  request.own ++ if request.anonymous then [] else clientPair clientId

theorem addClientId_addParameters (clientId : Option Bytes) (pairs : List (Bytes × Bytes)) :
    addClientId clientId (addParameters pairs) = addParameters (pairs ++ clientPair clientId) := by
  cases clientId with
  | none => rw [clientPair, Option.map_none, Option.toList_none, List.append_nil, addClientId]
  | some clientId => rw [addParameters, addParameters, List.foldl_append]; rfl

theorem parameters_eq (clientId : Option Bytes) (c : Command) :
    c.parameters clientId = addParameters ((TrackerRequest.command c).arguments clientId) := by
  cases c with
  | getPaths | sleep | listDirectory | pathInfo => rfl
  | _ => exact addClientId_addParameters clientId _

/-! ## The commands of an upload -/

/-- `extra_close_parameters` of `mfs_store_bytes_filepath` and `mfs_store_file_filepath` (lines
    358–361 and 375–378). -/
def mtimeParameters (mtime : ℤ) : RequestParameters :=
  mfsTrackerAddParameter mfsTrackerInitParameters (str "mtime") (decimal (aprTimeSec mtime))

/-- The arguments that all the calls which store something share, with what they read of
    `mfs_file_system`, and `apr_uri_parse`. -/
structure StoreArguments where
  domain : Bytes
  key : Bytes
  storageClass : Bytes
  maxRetries : ℤ
  clientId : Option Bytes
  aprUriParse : Bytes → Except AprStatus Uri

/-- `mfs_store_file_or_bytes` is called with these arguments; `bytes` and `file` are looked at for
    being NULL. -/
def StoreArguments.upload (a : StoreArguments) (bytesGiven : Bool) (totalBytes : ℤ)
    (fileGiven : Bool) (extraOpenParameters extraCloseParameters : Option RequestParameters) :
    Upload where
  domain := a.domain
  key := a.key
  storageClass := a.storageClass
  bytesGiven := bytesGiven
  totalBytes := totalBytes
  fileGiven := fileGiven
  extraOpenParameters := extraOpenParameters
  extraCloseParameters := extraCloseParameters
  maxRetries := a.maxRetries
  clientId := a.clientId
  aprUriParse := a.aprUriParse

/-- Lines 352–354. -/
def mfsStoreBytesEx (a : StoreArguments) (totalBytes : ℤ)
    (extraOpenParameters extraCloseParameters : Option RequestParameters) : Upload :=
  a.upload true totalBytes false extraOpenParameters extraCloseParameters

/-- Lines 356–363. -/
def mfsStoreBytesFilepath (a : StoreArguments) (totalBytes mtime : ℤ) : Upload :=
  a.upload true totalBytes false none (some (mtimeParameters mtime))

/-- Lines 369–371. -/
def mfsStoreFileEx (a : StoreArguments)
    (extraOpenParameters extraCloseParameters : Option RequestParameters) : Upload :=
  a.upload false (-1) true extraOpenParameters extraCloseParameters

/-- Lines 373–380. -/
def mfsStoreFileFilepath (a : StoreArguments) (mtime : ℤ) : Upload :=
  a.upload false (-1) true none (some (mtimeParameters mtime))

/-- Lines 382–384. -/
def mfsStoreFile (a : StoreArguments) : Upload := a.upload false (-1) true none none

/-- The request that `create_open` makes. -/
def Upload.openRequest (u : Upload) : TrackerRequest :=
  .createOpen u.domain u.storageClass u.key

theorem openParameters_eq {u : Upload} (h : u.extraOpenParameters = none)
    (clientId : Option Bytes) :
    openParameters u = addParameters (u.openRequest.arguments clientId) := by
  rw [openParameters, h]
  rfl

theorem closeParameters_eq {u : Upload} {mtime : Option ℤ}
    (h : u.extraCloseParameters = mtime.map mtimeParameters) (fid devid : Bytes) (totalBytes : ℤ)
    (putUrl : Bytes) :
    closeParameters u fid devid totalBytes putUrl =
      addParameters ((TrackerRequest.createClose mtime fid devid totalBytes u.domain putUrl
        u.key).arguments u.clientId) := by
  show _ = addParameters (_ ++ clientPair u.clientId)
  rw [← addClientId_addParameters, closeParameters, h]
  cases mtime <;> rfl

/-! ## What the calls make of the answer -/

/-- Behind `mfs_request_do`: an `ERR` answer is `APR_EGENERAL`. -/
def commandStatus (rv : AprStatus) (ok : Option Bool) : AprStatus :=
  if rv ≠ .success then rv else if ok = some true then .success else .egeneral

/-- `mfs_delete` (lines 257–264). -/
def mfsDelete (rv : AprStatus) (ok : Option Bool) : AprStatus := commandStatus rv ok

/-- `mfs_delete_filepath_node` (lines 283–295): a directory that is not empty has its own
    status. -/
def mfsDeleteFilepathNode (rv : AprStatus) (ok : Option Bool) (result : Hash) : AprStatus :=
  if rv ≠ .success then rv
  else if ok = some true then .success
  else if errorCode result = some (str "directory_not_empty") then .enotempty
  else .egeneral

/-- `*server_id` after `mfs_create_directory` and `mfs_create_link`; `none` when `server_id` is
    NULL. It is stored after an `ERR` answer too. -/
def storeServerId (rv : AprStatus) (result : Hash) (serverId : Option ℤ) : Option ℤ :=
  if rv ≠ .success then serverId
  else serverId.map fun prior => ((aprHashGet result (str "nid")).map aprAtoi64).getD prior

/-- `mfs_create_directory` (lines 315–331). -/
def mfsCreateDirectory (rv : AprStatus) (ok : Option Bool) (result : Hash)
    (serverId : Option ℤ) : AprStatus × Option ℤ :=
  (commandStatus rv ok, storeServerId rv result serverId)

/-- `mfs_create_link` (lines 352–368). -/
def mfsCreateLink (rv : AprStatus) (ok : Option Bool) (result : Hash)
    (serverId : Option ℤ) : AprStatus × Option ℤ :=
  (commandStatus rv ok, storeServerId rv result serverId)

/-- `mfs_sleep` (lines 381–388). -/
def mfsSleep (rv : AprStatus) (ok : Option Bool) : AprStatus := commandStatus rv ok

/-- `mfs_rename` (lines 405–412). -/
def mfsRename (rv : AprStatus) (ok : Option Bool) : AprStatus := commandStatus rv ok

/-- `mfs_rename_filepath` (lines 432–439). -/
def mfsRenameFilepath (rv : AprStatus) (ok : Option Bool) : AprStatus := commandStatus rv ok

/-- `mfs_set_mtime` (lines 460–467). -/
def mfsSetMtime (rv : AprStatus) (ok : Option Bool) : AprStatus := commandStatus rv ok

/-- What the output pointers of all the calls lead to. -/
structure CallerMemory where
  paths : PathsOut
  entries : EntriesOut
  entry : EntryMemory
  stats : FilepathStats
  checkFs : CheckFsResult
  serverId : Option ℤ
deriving DecidableEq

/-- What a call returns and leaves in the caller's memory, from what `mfs_request_do` leaves. -/
def Command.finish (c : Command) (rv : AprStatus) (ok : Option Bool) (result : Hash)
    (mem : CallerMemory) : AprStatus × CallerMemory :=
  match c with
  | getPaths .. =>
    let r := mfsGetPaths rv ok result mem.paths
    (r.1, { mem with paths := r.2 })
  | delete .. => (mfsDelete rv ok, mem)
  | deleteFilepathNode .. => (mfsDeleteFilepathNode rv ok result, mem)
  | createDirectory .. =>
    let r := mfsCreateDirectory rv ok result mem.serverId
    (r.1, { mem with serverId := r.2 })
  | createLink .. =>
    let r := mfsCreateLink rv ok result mem.serverId
    (r.1, { mem with serverId := r.2 })
  | sleep .. => (mfsSleep rv ok, mem)
  | rename .. => (mfsRename rv ok, mem)
  | renameFilepath .. => (mfsRenameFilepath rv ok, mem)
  | setMtime .. => (mfsSetMtime rv ok, mem)
  | listDirectory .. =>
    let listing := mfsListDirectory rv ok result
    (listing.rv, { mem with entries := mem.entries.store listing })
  | pathInfo .. =>
    let r := mfsPathInfo rv ok result mem.entry
    (r.1, { mem with entry := r.2 })
  | statsFilepath .. =>
    let r := mfsStatsFilepath rv ok result mem.stats
    (r.1, { mem with stats := r.2 })
  | checkfsFilepath .. =>
    let r := mfsCheckfsFilepath rv ok result mem.checkFs
    (r.1, { mem with checkFs := r.2 })

end MogileFs
