import MogileFs.Directory.Listing
import MogileFs.Tracker.RoundTrip

/-!
# A directory through the tracker

A tracker that lists a directory (`DirectoryNode`) in one `OK` line, with the pairs in any order,
against `mfs_tracker_parse_response` and `mfs_list_directory`.

Results:
* `fileKey_injective`: the keys of different entries and fields are different.
* `aprHashGet_listing`: the hash finds every field of every entry, whatever the order.
* `listDirectory_roundTrip`: the entries come back, in the order of their numbers.
-/

namespace MogileFs

open KeyedUpdates

/-! ## The directory -/

/-- What a directory entry is. -/
inductive NodeKind
  | directory
  | symlink (target : Bytes)
  | file (size : ℕ)
deriving DecidableEq

def NodeKind.Fits : NodeKind → Prop
  | .directory => True
  | .symlink target => (0 : Byte) ∉ target
  | .file size => size < 2 ^ 63

instance (kind : NodeKind) : Decidable kind.Fits := by
  cases kind <;> unfold NodeKind.Fits <;> infer_instance

/-- An entry of the directory; `mtime` is in seconds. Names are C strings, and the numbers fit
    into the 64 bits the client has for them. -/
structure DirectoryNode where
  name : Bytes
  kind : NodeKind
  mtime : ℤ
  nid : ℕ
  nameString : (0 : Byte) ∉ name
  kindFits : kind.Fits
  mtimeFits : -2 ^ 63 ≤ mtime * 1000000 ∧ mtime * 1000000 < 2 ^ 63
  nidFits : nid < 2 ^ 63

/-- The entry as the client has it. -/
def DirectoryNode.entry (node : DirectoryNode) : FilepathEntry where
  name := node.name
  type := match node.kind with
    | .directory => .directory
    | .symlink _ => .symlink
    | .file _ => .file
  mtime := node.mtime * 1000000
  size := match node.kind with
    | .file size => size
    | _ => 0
  serverId := node.nid
  link := match node.kind with
    | .symlink target => some target
    | _ => none

/-- The fields of an entry: what follows `file<i>` in the key, and the value. -/
def DirectoryNode.fields (node : DirectoryNode) : List (Bytes × Bytes) :=
  [([], node.name), (str ".mtime", decimal node.mtime), (str ".nid", decimalNat node.nid)] ++
    match node.kind with
    | .directory => [(str ".type", str "D")]
    | .symlink target => [(str ".type", str "L"), (str ".link", target)]
    | .file size => [(str ".type", str "F"), (str ".size", decimalNat size)]

/-- The pairs of the `pos`-th entry. -/
def nodePairs (pos : ℕ) (node : DirectoryNode) : List (Bytes × Bytes) :=
  node.fields.map fun field => (fileKey pos field.1, field.2)

/-- The pairs of the directory. -/
def listingPairs (nodes : List DirectoryNode) : List (Bytes × Bytes) :=
  (str "files", decimalNat nodes.length) ::
    nodes.zipIdx.flatMap fun node => nodePairs node.2 node.1

/-! ## Keys -/

/-- The field names. -/
def fieldNames : List Bytes :=
  [[], str ".mtime", str ".nid", str ".type", str ".link", str ".size"]

theorem field_mem_fieldNames {node : DirectoryNode} {field : Bytes × Bytes}
    (h : field ∈ node.fields) : field.1 ∈ fieldNames := by
  rw [DirectoryNode.fields] at h
  rcases List.mem_append.mp h with h | h
  · simp only [List.mem_cons, List.not_mem_nil, or_false] at h
    rcases h with rfl | rfl | rfl <;> simp [fieldNames]
  · cases hkind : node.kind with
    | directory =>
      rw [hkind] at h
      simp only [List.mem_singleton] at h
      rw [h]
      simp [fieldNames]
    | symlink target =>
      rw [hkind] at h
      simp only [List.mem_cons, List.not_mem_nil, or_false] at h
      rcases h with rfl | rfl <;> simp [fieldNames]
    | file size =>
      rw [hkind] at h
      simp only [List.mem_cons, List.not_mem_nil, or_false] at h
      rcases h with rfl | rfl <;> simp [fieldNames]

theorem drop_fileKey (pos : ℕ) (field : Bytes) :
    (fileKey pos field).drop 4 = decimalNat pos ++ field := by
  have hfile : (str "file").length = 4 := rfl
  exact List.drop_left' hfile

/-- The number ends where the field begins: no field starts with a digit. -/
theorem takeWhile_fileKey (pos : ℕ) {field : Bytes} (hfield : field ∈ fieldNames) :
    ((fileKey pos field).drop 4).takeWhile isdigit = decimalNat pos := by
  have hnone : ∀ field ∈ fieldNames, field.takeWhile isdigit = [] := by decide +kernel
  rw [drop_fileKey, List.takeWhile_append_of_pos fun c hc => isdigit_of_mem_decimalNat hc,
    hnone field hfield, List.append_nil]

theorem fileKey_injective {pos pos' : ℕ} {field field' : Bytes} (hfield : field ∈ fieldNames)
    (hfield' : field' ∈ fieldNames) (h : fileKey pos field = fileKey pos' field') :
    pos = pos' ∧ field = field' := by
  have hpos : pos = pos' := decimalNat_injective (by
    rw [← takeWhile_fileKey pos hfield, h, takeWhile_fileKey pos' hfield'])
  subst hpos
  exact ⟨rfl, List.append_cancel_left (List.append_cancel_left h)⟩

theorem fileKey_ne_files (pos : ℕ) (field : Bytes) : fileKey pos field ≠ str "files" := by
  intro h
  obtain ⟨c, s, hcs⟩ := List.exists_cons_of_ne_nil (decimalNat_ne_nil pos)
  have hc : isdigit c := isdigit_of_mem_decimalNat (by rw [hcs]; exact List.mem_cons_self)
  have hkey : (fileKey pos field).drop 4 = (str "files").drop 4 := by rw [h]
  rw [drop_fileKey, hcs, List.cons_append] at hkey
  rw [(List.cons.inj hkey).1] at hc
  exact absurd hc (by decide)

/-- A key needs no encoding. -/
theorem urlEncode_fileKey (pos : ℕ) {field : Bytes} (hfield : field ∈ fieldNames) :
    (0 : Byte) ∉ fileKey pos field ∧ mfsTrackerUrlEncode (fileKey pos field) = fileKey pos field := by
  have hnames : ∀ field ∈ fieldNames, ∀ c ∈ field, unreserved c := by decide +kernel
  have hfile : ∀ c ∈ str "file", unreserved c := by decide +kernel
  have hchars : ∀ c ∈ fileKey pos field, unreserved c := by
    intro c hc
    rcases List.mem_append.mp hc with hc | hc
    · exact hfile c hc
    · rcases List.mem_append.mp hc with hc | hc
      · exact unreserved_of_isdigit (isdigit_of_mem_decimalNat hc)
      · exact hnames field hfield c hc
  have hnul : (0 : Byte) ∉ fileKey pos field := fun h => absurd (hchars 0 h) (by decide)
  exact ⟨hnul, (urlEncode_eq_self_iff hnul).mpr hchars⟩

/-! ## The pairs in the hash -/

theorem mem_listingPairs {nodes : List DirectoryNode} {p : Bytes × Bytes} :
    p ∈ listingPairs nodes ↔ p = (str "files", decimalNat nodes.length) ∨
      ∃ pos node, nodes[pos]? = some node ∧ ∃ field ∈ node.fields,
        p = (fileKey pos field.1, field.2) := by
  rw [listingPairs, List.mem_cons, List.mem_flatMap]
  refine or_congr_right ⟨?_, ?_⟩
  · rintro ⟨⟨node, pos⟩, hnode, hp⟩
    obtain ⟨field, hfield, rfl⟩ := List.mem_map.mp hp
    exact ⟨pos, node, List.mem_zipIdx_iff_getElem?.mp hnode, field, hfield, rfl⟩
  · rintro ⟨pos, node, hnode, field, hfield, rfl⟩
    exact ⟨(node, pos), List.mem_zipIdx_iff_getElem?.mpr hnode, List.mem_map_of_mem hfield⟩

/-- An entry has every field once. -/
theorem fields_unique {node : DirectoryNode} {name v w : Bytes} (hv : (name, v) ∈ node.fields)
    (hw : (name, w) ∈ node.fields) : v = w := by
  have hnodup : (node.fields.map Prod.fst).Nodup := by
    rw [DirectoryNode.fields]
    cases node.kind <;> simp only [List.map_append, List.map_cons, List.map_nil] <;> decide
  have := lastValue_of_nodup hnodup hv
  rw [lastValue_of_nodup hnodup hw] at this
  exact (Option.some.inj this).symm

/-- So has the directory. -/
theorem listingPairs_unique {nodes : List DirectoryNode} {k v w : Bytes}
    (hv : (k, v) ∈ listingPairs nodes) (hw : (k, w) ∈ listingPairs nodes) : v = w := by
  rcases mem_listingPairs.mp hv with hv | ⟨pos, node, hnode, field, hfield, hv⟩
  · obtain ⟨rfl, rfl⟩ := Prod.mk.inj hv
    rcases mem_listingPairs.mp hw with hw | ⟨pos, node, -, field, -, hw⟩
    · exact (Prod.mk.inj hw).2.symm
    · exact absurd (Prod.mk.inj hw).1.symm (fileKey_ne_files pos field.1)
  · obtain ⟨rfl, rfl⟩ := Prod.mk.inj hv
    rcases mem_listingPairs.mp hw with hw | ⟨pos', node', hnode', field', hfield', hw⟩
    · exact absurd (Prod.mk.inj hw).1 (fileKey_ne_files pos field.1)
    · obtain ⟨hkey, rfl⟩ := Prod.mk.inj hw
      obtain ⟨rfl, hname⟩ := fileKey_injective (field_mem_fieldNames hfield)
        (field_mem_fieldNames hfield') hkey
      obtain rfl : node = node' := Option.some.inj (hnode.symm.trans hnode')
      exact fields_unique hfield (hname ▸ hfield')

/-- The hash finds every pair, in whatever order they were stored. -/
theorem aprHashGet_listing {nodes : List DirectoryNode} {pairs : List (Bytes × Bytes)}
    (hpairs : pairs.Perm (listingPairs nodes)) {k v : Bytes} (h : (k, v) ∈ listingPairs nodes) :
    aprHashGet (setAll aprHashMake pairs) k = some v := by
  refine setAll_of_lastValue _ ?_
  have hsome : lastValue pairs k ≠ none := fun hnone =>
    (lastValue_eq_none_iff pairs k).mp hnone (List.mem_map_of_mem (hpairs.mem_iff.mpr h))
  obtain ⟨w, hw⟩ := Option.ne_none_iff_exists'.mp hsome
  rw [hw, listingPairs_unique h (hpairs.mem_iff.mp (lastValue_mem hw))]

/-! ## The line -/

theorem nul_notMem_decimal (n : ℤ) : (0 : Byte) ∉ decimal n := by
  rw [decimal]
  split_ifs
  · intro h
    rcases List.mem_cons.mp h with h | h
    · exact absurd h (by decide)
    · exact notMem_decimalNat _ (by decide) h
  · exact notMem_decimalNat _ (by decide)

theorem nul_notMem_fields {node : DirectoryNode} {field : Bytes × Bytes}
    (h : field ∈ node.fields) : (0 : Byte) ∉ field.2 := by
  have hkind := node.kindFits
  rw [DirectoryNode.fields] at h
  rcases List.mem_append.mp h with h | h
  · simp only [List.mem_cons, List.not_mem_nil, or_false] at h
    rcases h with rfl | rfl | rfl
    · exact node.nameString
    · exact nul_notMem_decimal _
    · exact notMem_decimalNat _ (by decide)
  · generalize node.kind = kind at h hkind
    cases kind with
    | directory =>
      obtain rfl := List.mem_singleton.mp h
      exact show (0 : Byte) ∉ str "D" by decide
    | symlink target =>
      simp only [List.mem_cons, List.not_mem_nil, or_false] at h
      rcases h with rfl | rfl
      · exact show (0 : Byte) ∉ str "L" by decide
      · exact hkind
    | file size =>
      simp only [List.mem_cons, List.not_mem_nil, or_false] at h
      rcases h with rfl | rfl
      · exact show (0 : Byte) ∉ str "F" by decide
      · exact notMem_decimalNat _ (by decide)

/-- What every pair of the directory is like: C strings, and a key that starts with `f` and
    needs no encoding. -/
theorem listingPairs_strings {nodes : List DirectoryNode} {p : Bytes × Bytes}
    (h : p ∈ listingPairs nodes) :
    (0 : Byte) ∉ p.1 ∧ mfsTrackerUrlEncode p.1 = p.1 ∧ p.1.head? = some (ch 'f') ∧
      (0 : Byte) ∉ p.2 := by
  rcases mem_listingPairs.mp h with rfl | ⟨pos, node, -, field, hfield, rfl⟩
  · exact ⟨show (0 : Byte) ∉ str "files" by decide,
      show mfsTrackerUrlEncode (str "files") = str "files" by decide +kernel, rfl,
      notMem_decimalNat _ (by decide)⟩
  · obtain ⟨hnul, hencode⟩ := urlEncode_fileKey pos (field_mem_fieldNames hfield)
    exact ⟨hnul, hencode, rfl, show (0 : Byte) ∉ field.2 from nul_notMem_fields hfield⟩

theorem responsePairs_listing {nodes : List DirectoryNode} {pairs : List (Bytes × Bytes)}
    (hpairs : pairs.Perm (listingPairs nodes)) : ResponsePairs pairs where
  key p hp := (listingPairs_strings (hpairs.mem_iff.mp hp)).1
  value p hp := (listingPairs_strings (hpairs.mem_iff.mp hp)).2.2.2
  keyNonempty p hp hnil := by
    have hhead := (listingPairs_strings (hpairs.mem_iff.mp hp)).2.2.1
    rw [hnil] at hhead
    cases hhead
  first p hp c hc := by
    have hmem : p ∈ pairs := List.mem_of_mem_head? hp
    rw [(listingPairs_strings (hpairs.mem_iff.mp hmem)).2.2.1] at hc
    obtain rfl := Option.mem_some.mp hc
    decide

/-- The parser stores the pairs as they are. -/
theorem parseResponse_listing {nodes : List DirectoryNode} {pairs : List (Bytes × Bytes)}
    (hpairs : pairs.Perm (listingPairs nodes)) :
    parseResponse (okLine none pairs ++ [0, LF]) = ⟨.success, some true, pairs⟩ := by
  have hkeys : (pairs.map fun p => (mfsTrackerUrlEncode p.1, p.2)) = pairs := by
    refine (List.map_congr_left fun p hp => ?_).trans (List.map_id pairs)
    exact Prod.ext (listingPairs_strings (hpairs.mem_iff.mp hp)).2.1 rfl
  rw [parseResponse_okLine (fun _ hd => absurd hd (Option.not_mem_none _))
    (responsePairs_listing hpairs), hkeys]

/-! ## Entries -/

theorem entryMtime_decimal {n : ℤ} (hn : -2 ^ 63 ≤ n * 1000000 ∧ n * 1000000 < 2 ^ 63) :
    entryMtime (some (decimal n)) = n * 1000000 := by
  show aprTimeFromSec (aprAtoi64 (decimal n)) = n * 1000000
  rw [aprAtoi64_decimal (by omega) (by omega)]
  exact Int.bmod_eq_of_le (by omega) (by omega)

theorem entrySize_decimalNat {n : ℕ} (hn : n < 2 ^ 63) : entrySize (some (decimalNat n)) = n := by
  show (aprAtoi64 (decimalNat n) % 2 ^ 64).toNat = n
  rw [aprAtoi64_decimalNat hn]
  omega

theorem listEntry_listing {nodes : List DirectoryNode} {pairs : List (Bytes × Bytes)}
    (hpairs : pairs.Perm (listingPairs nodes)) {pos : ℕ} {node : DirectoryNode}
    (hnode : nodes[pos]? = some node) :
    listEntry (setAll aprHashMake pairs) pos = .ok node.entry := by
  have hget : ∀ field ∈ node.fields,
      aprHashGet (setAll aprHashMake pairs) (fileKey pos field.1) = some field.2 :=
    fun field hfield => aprHashGet_listing hpairs
      (mem_listingPairs.mpr (Or.inr ⟨pos, node, hnode, field, hfield, rfl⟩))
  have hname := hget ([], node.name) (by simp [DirectoryNode.fields])
  have hmtime := hget (str ".mtime", decimal node.mtime) (by simp [DirectoryNode.fields])
  have hnid := hget (str ".nid", decimalNat node.nid) (by simp [DirectoryNode.fields])
  have hserver : entryServerId (some (decimalNat node.nid)) = node.nid :=
    aprAtoi64_decimalNat node.nidFits
  have hfits := node.kindFits
  rw [listEntry, hname]
  simp only [hmtime, hnid, entryMtime_decimal node.mtimeFits, hserver]
  cases hkind : node.kind with
  | directory =>
    have htype := hget (str ".type", str "D") (by simp [DirectoryNode.fields, hkind])
    simp only [htype]
    rw [if_pos (by decide), DirectoryNode.entry]
    simp only [hkind]
  | symlink target =>
    have htype := hget (str ".type", str "L") (by simp [DirectoryNode.fields, hkind])
    have hlink := hget (str ".link", target) (by simp [DirectoryNode.fields, hkind])
    simp only [htype, hlink]
    rw [if_neg (by decide), if_pos (by decide), DirectoryNode.entry]
    simp only [hkind]
  | file size =>
    have htype := hget (str ".type", str "F") (by simp [DirectoryNode.fields, hkind])
    have hsize := hget (str ".size", decimalNat size) (by simp [DirectoryNode.fields, hkind])
    rw [hkind] at hfits
    simp only [htype, hsize]
    rw [if_neg (by decide), if_neg (by decide), entrySize_decimalNat hfits, DirectoryNode.entry]
    simp only [hkind]

theorem listEntries_listing {nodes : List DirectoryNode} {pairs : List (Bytes × Bytes)}
    (hpairs : pairs.Perm (listingPairs nodes)) {pos left : ℕ}
    (hleft : pos + left = nodes.length) :
    listEntries (setAll aprHashMake pairs) pos left =
      .ok ((nodes.drop pos).map DirectoryNode.entry) := by
  induction left generalizing pos with
  | zero =>
    rw [List.drop_eq_nil_of_le (by omega)]
    rfl
  | succ left ih =>
    have hpos : pos < nodes.length := by omega
    rw [listEntries, listEntry_listing hpairs (List.getElem?_eq_getElem hpos)]
    simp only
    rw [ih (by omega), List.drop_eq_getElem_cons hpos, List.map_cons]

/-! ## The round trip -/

theorem listOk_listing {nodes : List DirectoryNode} {pairs : List (Bytes × Bytes)}
    (hpairs : pairs.Perm (listingPairs nodes)) (hlen : nodes.length < 32000) :
    listOk (setAll aprHashMake pairs) = ⟨.success,
      if nodes = [] then none else some (nodes.map DirectoryNode.entry), some nodes.length⟩ := by
  have hfiles := aprHashGet_listing hpairs (mem_listingPairs.mpr (Or.inl rfl))
  rw [listOk, hfiles]
  simp only [atoi_decimalNat (show nodes.length < 2 ^ 31 by omega)]
  by_cases hnil : nodes = []
  · subst hnil
    rw [if_neg (by decide), if_pos ⟨rfl, by decide +kernel⟩, if_pos rfl]
    rfl
  · have hpos : 0 < nodes.length := List.length_pos_of_ne_nil hnil
    have hmax : (nodes.length : ℤ) < maxAllowedDirectoryEntries := by
      rw [maxAllowedDirectoryEntries]
      omega
    rw [if_pos ⟨by omega, hmax⟩, if_neg hnil, Int.toNat_natCast,
      listEntries_listing hpairs (Nat.zero_add _), List.drop_zero]

/-- Any directory of fewer than 32000 entries, its pairs in any order: the client gets the
    count, and the entries in the order of their numbers unless there are none. -/
theorem listDirectory_roundTrip {nodes : List DirectoryNode}
    (hlen : (nodes.length : ℤ) < maxAllowedDirectoryEntries) {pairs : List (Bytes × Bytes)}
    (hpairs : pairs.Perm (listingPairs nodes)) (ok : Option Bool) :
    ∃ rv ok' result,
      mfsTrackerParseResponse (okLine none pairs ++ [0, LF]) ok aprHashMake = (rv, ok', result) ∧
      mfsListDirectory rv ok' result = ⟨.success,
        if nodes = [] then none else some (nodes.map DirectoryNode.entry), some nodes.length⟩ := by
  refine ⟨_, _, _, by rw [mfsTrackerParseResponse, parseResponse_listing hpairs], ?_⟩
  rw [maxAllowedDirectoryEntries] at hlen
  have hok : Reply.okAfter ⟨.success, some true, pairs⟩ ok = some true := Option.some_or
  rw [mfsListDirectory, if_neg (fun h => h rfl), if_pos hok]
  exact listOk_listing hpairs (by omega)

/-- A directory, a link and a file, in the order in which the tracker numbers them. -/
theorem listDirectory_roundTrip_three :
    ∃ rv ok' result,
      mfsTrackerParseResponse (okLine none (listingPairs
        [⟨str "a b", .directory, -1, 7, by decide, by decide, by decide, by decide⟩,
          ⟨str "&=", .symlink (str "/%20"), 2, 8, by decide, by decide, by decide, by decide⟩,
          ⟨[], .file 20, 3, 9, by decide, by decide, by decide, by decide⟩]) ++ [0, LF]) none
        aprHashMake = (rv, ok', result) ∧
      mfsListDirectory rv ok' result = ⟨.success, some
        [⟨str "a b", .directory, -1000000, 0, 7, none⟩,
          ⟨str "&=", .symlink, 2000000, 0, 8, some (str "/%20")⟩,
          ⟨[], .file, 3000000, 20, 9, none⟩], some 3⟩ :=
  @listDirectory_roundTrip
    [⟨str "a b", .directory, -1, 7, by decide, by decide, by decide, by decide⟩,
      ⟨str "&=", .symlink (str "/%20"), 2, 8, by decide, by decide, by decide, by decide⟩,
      ⟨[], .file 20, 3, 9, by decide, by decide, by decide, by decide⟩]
    (by decide) _ (List.Perm.refl _) none

end MogileFs
