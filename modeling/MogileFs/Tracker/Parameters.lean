import MogileFs.Common.Cursor
import MogileFs.Tracker.Codec

/-!
# Request parameters and the request line

`tracker_request_parameters` and the functions of `src/tracker.c` that fill it
(lines 79–150), and `mfs_tracker_build_request` (lines 269–309). The linked
list is a `List`; the running totals `count`, `strlen` and `meta_count` are
kept beside it as the source keeps them. The request is written into memory
through a cursor, `strcpy` by `strcpy`, so that a wrong length shows.
-/

namespace MogileFs

/-- `tracker_request_parameter`. -/
structure RequestParameter where
  key : Bytes
  keyLength : ℕ
  value : Bytes
  valueLength : ℕ
  isMetadata : Bool
deriving DecidableEq

/-- `tracker_request_parameters`; `list` is what hangs from `head`. -/
structure RequestParameters where
  list : List RequestParameter
  count : ℕ
  strlen : ℕ
  metaCount : ℕ
deriving DecidableEq

/-- `mfs_tracker_init_parameters` (lines 79–81). -/
def mfsTrackerInitParameters : RequestParameters := ⟨[], 0, 0, 0⟩

/-- `mfs_tracker_add_parameter_pointers` (lines 90–108); the `+ 1` is for `=`. -/
def mfsTrackerAddParameterPointers (parameters : RequestParameters) (key : Bytes) (keyLength : ℕ)
    (value : Bytes) (valueLength : ℕ) : RequestParameters :=
  { parameters with
    list := parameters.list ++ [⟨key, keyLength, value, valueLength, false⟩]
    count := parameters.count + 1
    strlen := parameters.strlen + (keyLength + valueLength + 1) }

/-- `mfs_tracker_add_parameter` (lines 82–87). -/
def mfsTrackerAddParameter (parameters : RequestParameters) (key value : Bytes) :
    RequestParameters :=
  let encodedKey := mfsTrackerUrlEncode key
  let encodedValue := mfsTrackerUrlEncode value
  mfsTrackerAddParameterPointers parameters encodedKey encodedKey.length encodedValue
    encodedValue.length

/-- `mfs_tracker_add_meta_data` (lines 110–138). -/
def mfsTrackerAddMetaData (parameters : RequestParameters) (key value : Bytes) (prepare : Bool) :
    RequestParameters :=
  if prepare then
    let index := decimalNat parameters.metaCount
    let parameters := mfsTrackerAddParameter parameters (str "plugin.meta.key" ++ index) key
    let parameters := mfsTrackerAddParameter parameters (str "plugin.meta.value" ++ index) value
    { parameters with metaCount := parameters.metaCount + 1 }
  else
    { parameters with
      list := parameters.list ++ [⟨key, 0, value, 0, true⟩]
      count := parameters.count + 1
      metaCount := parameters.metaCount + 1 }

/-- `mfs_tracker_copy_parameter_pointers` (lines 140–150). -/
def mfsTrackerCopyParameterPointers (src dest : RequestParameters) : RequestParameters :=
  src.list.foldl
    (fun dest param =>
      if param.isMetadata then mfsTrackerAddMetaData dest param.key param.value true
      else mfsTrackerAddParameterPointers dest param.key param.keyLength param.value
        param.valueLength)
    dest

/-! ## `mfs_tracker_build_request` -/

/-- `plugin.meta.keys=%d&`, when there is meta data. -/
def metaCountParam (parameters : RequestParameters) : Bytes :=
  if parameters.metaCount > 0 then
    str "plugin.meta.keys=" ++ decimalNat parameters.metaCount ++ str "&"
  else []

/-- The `while(param != NULL)` loop (lines 294–303). -/
def buildParameters : List RequestParameter → Cursor → Cursor
  | [], b => b
  | param :: next, b =>
    let b := (b.strcpy param.key).advance param.keyLength
    let b := b.put (ch '=')
    let b := (b.strcpy param.value).advance param.valueLength
    buildParameters next (if next ≠ [] then b.put (ch '&') else b)

/-- `total_length` (lines 273–280), which becomes `*size`. -/
def requestLength (cmd : Bytes) (parameters : RequestParameters) : ℕ :=
  cmd.length + 3 + parameters.strlen + parameters.count - 1 + (metaCountParam parameters).length

/-- `mfs_tracker_build_request` (lines 269–309) over the uninitialised memory
    `apr_palloc` returns. -/
def mfsTrackerBuildRequest (cmd : Bytes) (parameters : RequestParameters) (palloc : ℕ → Byte) :
    Cursor :=
  let b : Cursor := ⟨Function.update palloc 0 0, 0, 1⟩
  let b := ((b.strcpy cmd).advance cmd.length).put (ch ' ')
  let b :=
    if parameters.metaCount > 0 then
      (b.strcpy (metaCountParam parameters)).advance (metaCountParam parameters).length
    else b
  let b := buildParameters parameters.list b
  ((b.put CR).put LF).put 0

/-- The bytes `apr_socket_send` is given: `*size` bytes of the request. -/
def requestBytes (cmd : Bytes) (parameters : RequestParameters) (palloc : ℕ → Byte) : Bytes :=
  (List.range (requestLength cmd parameters)).map (mfsTrackerBuildRequest cmd parameters palloc).memory

end MogileFs
