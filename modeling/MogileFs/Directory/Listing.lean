import MogileFs.Tracker.Decimal
import MogileFs.Tracker.Parameters
import MogileFs.Tracker.Response

/-!
# Directory listings

`mfs_list_directory` of `src/file.c` (lines 471–575), a call of the FilePaths plugin. What
`mfs_request_do` leaves behind (its status, `*ok` and `result`) is an argument; 64-bit numbers
are integers, cut down to their type where the source computes with them. A decoded value may
hold a NUL (`%00`), where `strcmp` stops: it compares `cstr` of the value.
-/

namespace MogileFs

/-- `TYPE_FILE`, `TYPE_DIRECTORY` and `TYPE_SYMLINK`. -/
inductive PathType
  | file
  | directory
  | symlink
deriving DecidableEq

/-- `mfs_filepath_entry`. -/
structure FilepathEntry where
  name : Bytes
  type : PathType
  mtime : ℤ
  size : ℕ
  serverId : ℤ
  link : Option Bytes
deriving DecidableEq

/-- `MAX_ALLOWED_DIRECTORY_ENTRIES`. -/
def maxAllowedDirectoryEntries : ℤ := 32000

/-- `sprintf(key, "file%d<field>", pos)`. -/
def fileKey (pos : ℕ) (field : Bytes) : Bytes := str "file" ++ (decimalNat pos ++ field)

/-- The parameters of the request (lines 476–479). -/
def listDirectoryParameters (domain directory : Bytes) : RequestParameters :=
  let params := mfsTrackerInitParameters
  let params := mfsTrackerAddParameter params (str "domain") domain
  let params := mfsTrackerAddParameter params (str "arg1") directory
  mfsTrackerAddParameter params (str "argcount") (str "1")

/-- `entries[pos].mtime` (lines 504–511). -/
def entryMtime (mtime : Option Bytes) : ℤ :=
  match mtime with
  | some mtime => aprTimeFromSec (aprAtoi64 mtime)
  | none => 0

/-- `entries[pos].server_id` (lines 513–520). -/
def entryServerId (nid : Option Bytes) : ℤ :=
  match nid with
  | some nid => aprAtoi64 nid
  | none => -1

/-- `entries[pos].size` of a file (lines 545–551), an `apr_size_t`. -/
def entrySize (size : Option Bytes) : ℕ :=
  match size with
  | some size => (aprAtoi64 size % 2 ^ 64).toNat
  | none => 0

/-- The body of the loop (lines 497–552) on a zeroed entry. -/
def listEntry (result : Hash) (pos : ℕ) : Except AprStatus FilepathEntry :=
  match aprHashGet result (fileKey pos []) with
  | none => .error .egeneral
  | some name =>
    let mtime := entryMtime (aprHashGet result (fileKey pos (str ".mtime")))
    let serverId := entryServerId (aprHashGet result (fileKey pos (str ".nid")))
    match aprHashGet result (fileKey pos (str ".type")) with
    | none => .error .egeneral
    | some type =>
      if type.head? = some (ch 'D') then .ok ⟨name, .directory, mtime, 0, serverId, none⟩
      else if type.head? = some (ch 'L') then
        match aprHashGet result (fileKey pos (str ".link")) with
        | none => .error .egeneral
        | some link => .ok ⟨name, .symlink, mtime, 0, serverId, some link⟩
      else
        .ok ⟨name, .file, mtime, entrySize (aprHashGet result (fileKey pos (str ".size"))), serverId,
          none⟩

/-- The loop from `pos` on, with `left` entries to go. -/
def listEntries (result : Hash) (pos : ℕ) : ℕ → Except AprStatus (List FilepathEntry)
  | 0 => .ok []
  | left + 1 =>
    match listEntry result pos with
    | .error rv => .error rv
    | .ok entry =>
      match listEntries result (pos + 1) left with
      | .error rv => .error rv
      | .ok entries => .ok (entry :: entries)

/-- The return value, and what is stored through `filepath_entries` and `child_count`; `none`
    when the caller's variable is left alone. -/
structure Listing where
  rv : AprStatus
  filepathEntries : Option (List FilepathEntry)
  childCount : Option ℤ
deriving DecidableEq

/-- A return without an answer for the caller. -/
def Listing.fail (rv : AprStatus) : Listing := ⟨rv, none, none⟩

/-- The answer was `OK` (lines 486–563). -/
def listOk (result : Hash) : Listing :=
  match aprHashGet result (str "files") with
  | none => .fail .egeneral
  | some pathCountStr =>
    let pc := atoi pathCountStr
    if 0 < pc ∧ pc < maxAllowedDirectoryEntries then
      match listEntries result 0 pc.toNat with
      | .error rv => .fail rv
      | .ok entries => ⟨.success, some entries, some pc⟩
    else if pc = 0 ∧ cstr pathCountStr = str "0" then ⟨.success, none, some 0⟩
    else .fail .egeneral

/-- The code of an `ERR` answer, as `strcmp` sees it. -/
def errorCode (result : Hash) : Option Bytes :=
  (aprHashGet result (str "ERROR_CODE")).map cstr

/-- `mfs_list_directory` behind its `mfs_request_do` (lines 484–575). -/
def mfsListDirectory (rv : AprStatus) (ok : Option Bool) (result : Hash) : Listing :=
  if rv ≠ .success then .fail rv
  else if ok = some true then listOk result
  else if errorCode result = some (str "unknown_key") then .fail .ebadpath
  else .fail .egeneral

end MogileFs
