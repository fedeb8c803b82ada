import MogileFs.Directory.Listing

/-!
# One path

`mfs_path_info` of `src/file.c` (lines 578–646) decodes the attributes that
`mfs_list_directory` decodes for each of its entries, but into the entry the caller passes,
and not into zeroed memory. It sets `size` for a file and `link` for a symlink; for the other
kinds they stay what they were.

Results:
* `aprHashGet_attribute`: an attribute is found under its own key here and under `file0.`
  there.
* `listOk_single`, `pathInfoOk_spec`: the two decoders on the same attributes.
* `pathInfo_agrees_iff`: when they agree.
-/

namespace MogileFs

open KeyedUpdates

/-! ## The call -/

/-- What a `char *` in the caller's memory may hold. -/
inductive EntryPointer
  | null
  | string (s : Bytes)
  | stray (address : ℕ)
deriving DecidableEq

/-- A pointer that `apr_hash_get` returned, or a zeroed one. -/
def EntryPointer.ofHash : Option Bytes → EntryPointer
  | none => null
  | some s => string s

/-- `mfs_filepath_entry` in the caller's memory. -/
structure EntryMemory where
  name : EntryPointer
  type : UInt8
  mtime : ℤ
  size : ℕ
  serverId : ℤ
  link : EntryPointer
deriving DecidableEq

/-- `TYPE_FILE`, `TYPE_DIRECTORY` and `TYPE_SYMLINK` as they are defined. -/
def PathType.code : PathType → UInt8
  | .file => 0
  | .directory => 1
  | .symlink => 2

/-- What is stored before the type is looked at (lines 593–609). -/
def EntryMemory.begin (entry : EntryMemory) (result : Hash) : EntryMemory :=
  { entry with
    name := .null -- we dont set this ATM..
    mtime := entryMtime (aprHashGet result (str "mtime"))
    serverId := entryServerId (aprHashGet result (str "nid")) }

/-- The answer was `OK` (lines 593–633). -/
def pathInfoOk (result : Hash) (entry : EntryMemory) : AprStatus × EntryMemory :=
  let entry := entry.begin result
  match aprHashGet result (str "type") with
  | none => (.egeneral, entry)
  | some type =>
    if type.head? = some (ch 'D') then (.success, { entry with type := PathType.directory.code })
    else if type.head? = some (ch 'L') then
      let link := aprHashGet result (str "link")
      let entry := { entry with type := PathType.symlink.code, link := .ofHash link }
      if link = none then (.egeneral, entry) else (.success, entry)
    else
      (.success, { entry with
        type := PathType.file.code
        size := entrySize (aprHashGet result (str "size")) })

/-- `mfs_path_info` behind its `mfs_request_do` (lines 591–645): the status and
    `*filepath_entry`. -/
def mfsPathInfo (rv : AprStatus) (ok : Option Bool) (result : Hash) (entry : EntryMemory) :
    AprStatus × EntryMemory :=
  if rv ≠ .success then (rv, entry)
  else if ok = some true then pathInfoOk result entry
  else if errorCode result = some (str "path_not_found") then (.ebadpath, entry)
  else if errorCode result = some (str "unknown_key") then (.ebadpath, entry)
  else (.egeneral, entry)

/-! ## The same attributes in both answers -/

/-- The pairs of a listing whose one entry has the attributes `pairs`. -/
def singleListing (name : Bytes) (pairs : List (Bytes × Bytes)) : List (Bytes × Bytes) :=
  (str "files", str "1") :: (str "file0", name) ::
    pairs.map fun p => (str "file0." ++ p.1, p.2)

theorem aprHashGet_setAll (pairs : List (Bytes × Bytes)) (k : Bytes) :
    aprHashGet (setAll aprHashMake pairs) k = lastValue pairs k := by
  show setAll aprHashMake pairs k = _
  rw [setAll_apply]
  exact Option.or_none

/-- An attribute of the entry has its prefix. -/
theorem aprHashGet_attribute (name : Bytes) (pairs : List (Bytes × Bytes)) (k : Bytes) :
    aprHashGet (setAll aprHashMake (singleListing name pairs)) (str "file0." ++ k) =
      lastValue pairs k := by
  rw [aprHashGet_setAll, singleListing, lastValue, lastValue]
  have hmap : lastValue (pairs.map fun p => (str "file0." ++ p.1, p.2)) (str "file0." ++ k) =
      lastValue pairs k :=
    lastValue_map (f := fun k => str "file0." ++ k) fun p _ hp => List.append_cancel_left hp
  have hfiles : str "files" ≠ str "file0." ++ k := by
    intro h
    have := congrArg (fun s : Bytes => s.getD 4 0) h
    revert this
    show ¬ch 's' = ch '0'
    decide
  have hfile : str "file0" ≠ str "file0." ++ k := by
    intro h
    have := congrArg List.length h
    simp [str] at this
  rw [hmap, if_neg hfile, if_neg hfiles, Option.or_none, Option.or_none]

/-- The keys of the entry itself are no keys of attributes. -/
theorem aprHashGet_entry (name : Bytes) (pairs : List (Bytes × Bytes)) :
    aprHashGet (setAll aprHashMake (singleListing name pairs)) (str "files") = some (str "1") ∧
      aprHashGet (setAll aprHashMake (singleListing name pairs)) (str "file0") = some name := by
  have hnone : ∀ k : Bytes, k.length ≤ 5 →
      lastValue (pairs.map fun p => (str "file0." ++ p.1, p.2)) k = none := by
    intro k hk
    rw [lastValue_eq_none_iff, List.map_map]
    intro hmem
    obtain ⟨p, -, hp⟩ := List.mem_map.mp hmem
    have hlen := congrArg List.length hp
    simp [str] at hlen
    omega
  rw [aprHashGet_setAll, aprHashGet_setAll, singleListing]
  constructor
  · rw [lastValue, lastValue, hnone _ (by decide),
      if_neg (show str "file0" ≠ str "files" by decide), if_pos rfl]
    rfl
  · rw [lastValue, lastValue, hnone _ (by decide), if_pos rfl]
    rfl

/-! ## Both decoders -/

/-- The entry of the listing. -/
def decodedEntry (name : Bytes) (pairs : List (Bytes × Bytes)) : Except AprStatus FilepathEntry :=
  let mtime := entryMtime (lastValue pairs (str "mtime"))
  let serverId := entryServerId (lastValue pairs (str "nid"))
  match lastValue pairs (str "type") with
  | none => .error .egeneral
  | some type =>
    if type.head? = some (ch 'D') then .ok ⟨name, .directory, mtime, 0, serverId, none⟩
    else if type.head? = some (ch 'L') then
      match lastValue pairs (str "link") with
      | none => .error .egeneral
      | some link => .ok ⟨name, .symlink, mtime, 0, serverId, some link⟩
    else .ok ⟨name, .file, mtime, entrySize (lastValue pairs (str "size")), serverId, none⟩

theorem listEntry_single (name : Bytes) (pairs : List (Bytes × Bytes)) :
    listEntry (setAll aprHashMake (singleListing name pairs)) 0 = decodedEntry name pairs := by
  have hkey : ∀ field, fileKey 0 (ch '.' :: field) = str "file0." ++ field := fun _ => rfl
  have hname : aprHashGet (setAll aprHashMake (singleListing name pairs)) (fileKey 0 []) =
      some name := (aprHashGet_entry name pairs).2
  have hfield : ∀ field, aprHashGet (setAll aprHashMake (singleListing name pairs))
      (fileKey 0 (ch '.' :: field)) = lastValue pairs field := by
    intro field
    rw [hkey, aprHashGet_attribute]
  have hmtime := hfield (str "mtime")
  have hnid := hfield (str "nid")
  have htype := hfield (str "type")
  have hlink := hfield (str "link")
  have hsize := hfield (str "size")
  unfold listEntry
  rw [hname]
  simp only
  rw [show str ".mtime" = ch '.' :: str "mtime" from rfl, show str ".nid" = ch '.' :: str "nid" from rfl,
    show str ".type" = ch '.' :: str "type" from rfl, show str ".link" = ch '.' :: str "link" from rfl,
    show str ".size" = ch '.' :: str "size" from rfl, hmtime, hnid, htype, hlink, hsize]
  rfl

/-- The listing of an entry, or of one that cannot be decoded. -/
def Listing.single : Except AprStatus FilepathEntry → Listing
  | .error rv => .fail rv
  | .ok entry => ⟨.success, some [entry], some 1⟩

/-- The listing with the one entry. -/
theorem listOk_single (name : Bytes) (pairs : List (Bytes × Bytes)) :
    listOk (setAll aprHashMake (singleListing name pairs)) =
      .single (decodedEntry name pairs) := by
  have hcount : atoi (str "1") = 1 := by decide +kernel
  unfold listOk
  rw [(aprHashGet_entry name pairs).1]
  simp only [hcount]
  rw [if_pos (by decide)]
  rw [show (1 : ℤ).toNat = 1 from rfl]
  simp only [listEntries, listEntry_single]
  cases decodedEntry name pairs with
  | error rv => rfl
  | ok entry => rfl

/-- `*filepath_entry` and the entry of the listing have the same type, time, size, server and
    link. -/
def EntryMemory.SameAttributes (info : EntryMemory) (entry : FilepathEntry) : Prop :=
  info.type = entry.type.code ∧ info.mtime = entry.mtime ∧ info.size = entry.size ∧
    info.serverId = entry.serverId ∧ info.link = .ofHash entry.link

/-- Both calls succeed or neither does, and after a success the entries are the same. -/
def DecodedAlike (info : AprStatus × EntryMemory) (listing : Listing) : Prop :=
  (info.1 = .success ↔ listing.rv = .success) ∧ (info.1 = .success →
    ∃ entry, listing.filepathEntries = some [entry] ∧ info.2.SameAttributes entry)

/-- What `mfs_path_info` does not write for the kind that the attributes name is zero already:
    `size` for all but a file, `link` for all but a symlink. -/
def EntryMemory.BlankFor (prior : EntryMemory) (pairs : List (Bytes × Bytes)) : Prop :=
  match lastValue pairs (str "type") with
  | none => True
  | some type =>
    if type.head? = some (ch 'D') then prior.size = 0 ∧ prior.link = .null
    else if type.head? = some (ch 'L') then lastValue pairs (str "link") ≠ none → prior.size = 0
    else prior.link = .null

/-- `mfs_path_info` on attributes of each kind. -/
theorem pathInfoOk_spec (pairs : List (Bytes × Bytes)) (prior : EntryMemory) (name : Bytes) :
    DecodedAlike (pathInfoOk (setAll aprHashMake pairs) prior)
      (.single (decodedEntry name pairs)) ↔ prior.BlankFor pairs := by
  unfold pathInfoOk EntryMemory.begin decodedEntry EntryMemory.BlankFor
  simp only [aprHashGet_setAll]
  cases lastValue pairs (str "type") with
  | none =>
    refine iff_of_true ⟨?_, ?_⟩ trivial
    · simp [Listing.single, Listing.fail]
    · intro h
      cases h
  | some type =>
    simp only
    split_ifs with hdirectory hsymlink hlink
    · constructor
      · rintro ⟨-, h⟩
        obtain ⟨entry, hentry, -, -, hsize, -, hlink⟩ := h rfl
        cases hentry
        exact ⟨hsize, hlink⟩
      · rintro ⟨hsize, hlink⟩
        exact ⟨Iff.rfl, fun _ => ⟨_, rfl, rfl, rfl, hsize, rfl, hlink⟩⟩
    · refine iff_of_true ⟨?_, ?_⟩ fun h => absurd hlink h
      · simp [hlink, Listing.single, Listing.fail]
      · intro h
        cases h
    · obtain ⟨link, hsome⟩ := Option.ne_none_iff_exists'.mp hlink
      rw [hsome]
      constructor
      · rintro ⟨-, h⟩ -
        obtain ⟨entry, hentry, -, -, hsize, -⟩ := h rfl
        cases hentry
        exact hsize
      · intro hsize
        exact ⟨Iff.rfl, fun _ => ⟨_, rfl, rfl, rfl, hsize (by simp), rfl, rfl⟩⟩
    · constructor
      · rintro ⟨-, h⟩
        obtain ⟨entry, hentry, -, -, -, -, hlink⟩ := h rfl
        cases hentry
        exact hlink
      · intro hlink
        exact ⟨Iff.rfl, fun _ => ⟨_, rfl, rfl, rfl, rfl, rfl, hlink⟩⟩

/-- For every list of attribute pairs, whatever the caller's entry held before: the two calls
    agree exactly when the entry is blank where `mfs_path_info` leaves it alone. -/
theorem pathInfo_agrees_iff (pairs : List (Bytes × Bytes)) (name : Bytes) (prior : EntryMemory) :
    DecodedAlike (mfsPathInfo .success (some true) (setAll aprHashMake pairs) prior)
        (mfsListDirectory .success (some true)
          (setAll aprHashMake (singleListing name pairs))) ↔ prior.BlankFor pairs := by
  have hinfo : mfsPathInfo .success (some true) (setAll aprHashMake pairs) prior =
      pathInfoOk (setAll aprHashMake pairs) prior := rfl
  have hlisting : mfsListDirectory .success (some true)
      (setAll aprHashMake (singleListing name pairs)) =
        listOk (setAll aprHashMake (singleListing name pairs)) := rfl
  rw [hinfo, hlisting, listOk_single]
  exact pathInfoOk_spec pairs prior name

/-- An entry that was used for a file of 20 bytes before. -/
def usedEntry : EntryMemory := ⟨.null, PathType.file.code, 0, 20, 1, .null⟩

/-- The same entry is then used for a directory. -/
theorem pathInfo_keeps_size :
    ¬DecodedAlike (mfsPathInfo .success (some true)
        (setAll aprHashMake [(str "type", str "D"), (str "nid", str "1")]) usedEntry)
      (mfsListDirectory .success (some true) (setAll aprHashMake
        (singleListing (str "dirtest") [(str "type", str "D"), (str "nid", str "1")]))) := by
  rintro ⟨-, h⟩
  obtain ⟨entry, hentry, -, -, hsize, -⟩ := h (by decide +kernel)
  have hlisted : (mfsListDirectory .success (some true) (setAll aprHashMake
      (singleListing (str "dirtest") [(str "type", str "D"), (str "nid", str "1")]))).filepathEntries =
      some [⟨str "dirtest", .directory, 0, 0, 1, none⟩] := by decide +kernel
  rw [hlisted, Option.some.injEq, List.cons.injEq] at hentry
  rw [← hentry.1] at hsize
  revert hsize
  decide +kernel

end MogileFs
