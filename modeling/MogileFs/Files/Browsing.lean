import MogileFs.Directory.RoundTrip
import MogileFs.Files.Sessions

/-!
# Looking at directories and paths

`mfs_list_directory` and `mfs_path_info` (`src/file.c`, lines 471–646) against trackers that
keep a tree of directories, while others change it. A request that gets no answer is sent again,
to another tracker, and the tree may have changed in between.

Results:
* `pathInfoOk_attributes`: what `mfs_path_info` makes of the attributes of a path.
* `sameAttributes_info`: in a blank entry, the same as `mfs_list_directory`.
* `directory_snapshot`, `path_snapshot`: what a call stores is what the tree was like at one
  moment of the call.
-/

namespace MogileFs

open AtLeastOnce KeyedUpdates

/-! ## Attributes of a path -/

/-- The pairs of a reply to `plugin_filepaths_path_info`. -/
def DirectoryNode.attributes (node : DirectoryNode) : List (Bytes × Bytes) :=
  [(str "mtime", decimal node.mtime), (str "nid", decimalNat node.nid)] ++
    match node.kind with
    | .directory => [(str "type", str "D")]
    | .symlink target => [(str "type", str "L"), (str "link", target)]
    | .file size => [(str "type", str "F"), (str "size", decimalNat size)]

/-- The caller's entry with the attributes in it. -/
def DirectoryNode.info (node : DirectoryNode) (prior : EntryMemory) : EntryMemory where
  name := .null
  type := node.entry.type.code
  mtime := node.mtime * 1000000
  size := match node.kind with
    | .file size => size
    | _ => prior.size
  serverId := node.nid
  link := match node.kind with
    | .symlink target => .string target
    | _ => prior.link

/-- In an entry that is blank, they are those of the listing. -/
theorem sameAttributes_info (node : DirectoryNode) {prior : EntryMemory} (hsize : prior.size = 0)
    (hlink : prior.link = .null) : (node.info prior).SameAttributes node.entry := by
  refine ⟨rfl, rfl, ?_, rfl, ?_⟩
  · rw [DirectoryNode.info, DirectoryNode.entry]
    cases node.kind <;> simp [hsize]
  · rw [DirectoryNode.info, DirectoryNode.entry]
    cases node.kind <;> simp [hlink, EntryPointer.ofHash]

theorem attributes_nodup (node : DirectoryNode) : (node.attributes.map Prod.fst).Nodup := by
  rw [DirectoryNode.attributes]
  cases node.kind <;> simp only [List.map_append, List.map_cons, List.map_nil] <;> decide

/-- The attributes, in whatever order they come. -/
theorem pathInfoOk_attributes {node : DirectoryNode} {pairs : List (Bytes × Bytes)}
    (hpairs : pairs.Perm node.attributes) (prior : EntryMemory) :
    pathInfoOk (setAll aprHashMake pairs) prior = (.success, node.info prior) := by
  have hnodup : (pairs.map Prod.fst).Nodup :=
    (hpairs.map Prod.fst).nodup_iff.mpr (attributes_nodup node)
  have hget : ∀ {k v : Bytes}, (k, v) ∈ node.attributes →
      aprHashGet (setAll aprHashMake pairs) k = some v := by
    intro k v hmem
    exact setAll_of_lastValue _ (lastValue_of_nodup hnodup (hpairs.mem_iff.mpr hmem))
  have hmtime := @hget (str "mtime") (decimal node.mtime) (by simp [DirectoryNode.attributes])
  have hnid := @hget (str "nid") (decimalNat node.nid) (by simp [DirectoryNode.attributes])
  have hserver : entryServerId (some (decimalNat node.nid)) = node.nid :=
    aprAtoi64_decimalNat node.nidFits
  have hfits := node.kindFits
  rw [pathInfoOk]
  simp only [EntryMemory.begin, hmtime, hnid, entryMtime_decimal node.mtimeFits, hserver]
  cases hkind : node.kind with
  | directory =>
    have htype := @hget (str "type") (str "D") (by simp [DirectoryNode.attributes, hkind])
    simp only [htype]
    rw [if_pos (by decide), DirectoryNode.info, DirectoryNode.entry]
    simp only [hkind]
  | symlink target =>
    have htype := @hget (str "type") (str "L") (by simp [DirectoryNode.attributes, hkind])
    have hlink := @hget (str "link") target (by simp [DirectoryNode.attributes, hkind])
    simp only [htype, hlink]
    rw [if_neg (by decide), if_pos (by decide), if_neg (by simp), DirectoryNode.info,
      DirectoryNode.entry]
    simp only [hkind, EntryPointer.ofHash]
  | file size =>
    have htype := @hget (str "type") (str "F") (by simp [DirectoryNode.attributes, hkind])
    have hsize := @hget (str "size") (decimalNat size) (by simp [DirectoryNode.attributes, hkind])
    rw [hkind] at hfits
    simp only [htype, hsize]
    rw [if_neg (by decide), if_neg (by decide), entrySize_decimalNat hfits, DirectoryNode.info,
      DirectoryNode.entry]
    simp only [hkind]

/-! ## Trackers with a tree -/

variable {σ : Type*} {service : Service σ} {domain : Bytes}
  {directory : σ → Bytes → Option (List DirectoryNode)} {node : σ → Bytes → Option DirectoryNode}

/-- The reply is one of the errors that the client knows for a path that is not there. -/
def TrackerReply.NotThere (reply : TrackerReply) (codes : List Bytes) : Prop :=
  reply.isOk = false ∧ ∃ code ∈ codes, errorCode (setAll aprHashMake reply.pairs) = some code

/-- What the trackers answer about directories; a listing changes none. -/
structure Lists (service : Service σ) (domain : Bytes)
    (directory : σ → Bytes → Option (List DirectoryNode)) : Prop where
  count : ∀ s path nodes, directory s path = some nodes → nodes.length < 2 ^ 31
  there : ∀ s path nodes, directory s path = some nodes →
    (service.execute s (Command.listDirectory domain path).received).2.isOk ∧
      (service.execute s (Command.listDirectory domain path).received).2.pairs.Perm
        (listingPairs nodes)
  notThere : ∀ s path, directory s path = none →
    (service.execute s (Command.listDirectory domain path).received).2.NotThere
      [str "unknown_key"]
  unchanged : ∀ s path,
    directory (service.step s (Command.listDirectory domain path).received) = directory s

/-- What they answer about paths; a look at one changes none. -/
structure Describes (service : Service σ) (domain : Bytes)
    (node : σ → Bytes → Option DirectoryNode) : Prop where
  there : ∀ s path n, node s path = some n →
    (service.execute s (Command.pathInfo domain path).received).2.isOk ∧
      (service.execute s (Command.pathInfo domain path).received).2.pairs.Perm n.attributes
  notThere : ∀ s path, node s path = none →
    (service.execute s (Command.pathInfo domain path).received).2.NotThere
      [str "path_not_found", str "unknown_key"]
  unchanged : ∀ s path, node (service.step s (Command.pathInfo domain path).received) = node s

/-- A listing of the directory as it is, into the caller's variables. -/
def listingOf (nodes : Option (List DirectoryNode)) (out : EntriesOut) : AprStatus × EntriesOut :=
  match nodes with
  | none => (.ebadpath, out)
  | some nodes =>
    if (nodes.length : ℤ) < maxAllowedDirectoryEntries then
      (.success, ⟨if nodes = [] then out.filepathEntries else some (nodes.map DirectoryNode.entry),
        nodes.length⟩)
    else (.egeneral, out)

/-- A directory with too many entries is refused. -/
theorem listOk_tooMany {nodes : List DirectoryNode} {pairs : List (Bytes × Bytes)}
    (hpairs : pairs.Perm (listingPairs nodes)) (hlen : 32000 ≤ nodes.length)
    (hmax : nodes.length < 2 ^ 31) : listOk (setAll aprHashMake pairs) = .fail .egeneral := by
  have hfiles := aprHashGet_listing hpairs (mem_listingPairs.mpr (Or.inl rfl))
  rw [listOk, hfiles]
  simp only [atoi_decimalNat hmax]
  rw [if_neg, if_neg]
  · rintro ⟨hzero, -⟩
    omega
  · rintro ⟨-, hsmall⟩
    rw [maxAllowedDirectoryEntries] at hsmall
    omega

/-- The outputs of `mfs_list_directory` for the reply of such trackers. -/
theorem Lists.finish (h : Lists service domain directory) (s : σ) (path : Bytes)
    (mem : CallerMemory) {reply : TrackerReply}
    (hreply : reply = (service.execute s (Command.listDirectory domain path).received).2) :
    (Command.listDirectory domain path).finish .success (some reply.isOk)
        (setAll aprHashMake reply.pairs) mem =
      ((listingOf (directory s path) mem.entries).1,
        { mem with entries := (listingOf (directory s path) mem.entries).2 }) := by
  show ((mfsListDirectory .success (some reply.isOk) (setAll aprHashMake reply.pairs)).rv,
    { mem with
      entries := mem.entries.store
        (mfsListDirectory .success (some reply.isOk) (setAll aprHashMake reply.pairs)) }) = _
  cases hdirectory : directory s path with
  | none =>
    obtain ⟨hok, code, hmem, hcode⟩ := h.notThere s path hdirectory
    rw [← hreply] at hok hcode
    rw [List.mem_singleton.mp hmem] at hcode
    rw [hok, mfsListDirectory, if_neg (fun h => h rfl), if_neg (by decide), if_pos hcode]
    rfl
  | some nodes =>
    obtain ⟨hok, hpairs⟩ := h.there s path nodes hdirectory
    rw [← hreply] at hok hpairs
    rw [hok, mfsListDirectory, if_neg (fun h => h rfl), if_pos rfl, listingOf]
    by_cases hlen : nodes.length < 32000
    · have hsmall : (nodes.length : ℤ) < maxAllowedDirectoryEntries := by
        rw [maxAllowedDirectoryEntries]
        omega
      rw [listOk_listing hpairs hlen]
      simp only [if_pos hsmall, EntriesOut.store]
      split_ifs <;> rfl
    · have hlarge : ¬(nodes.length : ℤ) < maxAllowedDirectoryEntries := by
        rw [maxAllowedDirectoryEntries]
        omega
      rw [listOk_tooMany hpairs (by omega) (h.count s path nodes hdirectory)]
      simp only [if_neg hlarge]
      rfl

/-- What `mfs_path_info` returns and leaves for a path as it is. -/
def infoOf (node : Option DirectoryNode) (prior : EntryMemory) : AprStatus × EntryMemory :=
  match node with
  | none => (.ebadpath, prior)
  | some node => (.success, node.info prior)

/-- The outputs of `mfs_path_info` for the reply of such trackers. -/
theorem Describes.finish (h : Describes service domain node) (s : σ) (path : Bytes)
    (mem : CallerMemory) {reply : TrackerReply}
    (hreply : reply = (service.execute s (Command.pathInfo domain path).received).2) :
    (Command.pathInfo domain path).finish .success (some reply.isOk)
        (setAll aprHashMake reply.pairs) mem =
      ((infoOf (node s path) mem.entry).1,
        { mem with entry := (infoOf (node s path) mem.entry).2 }) := by
  show ((mfsPathInfo .success (some reply.isOk) (setAll aprHashMake reply.pairs) mem.entry).1,
    { mem with
      entry := (mfsPathInfo .success (some reply.isOk) (setAll aprHashMake reply.pairs)
        mem.entry).2 }) = _
  cases hnode : node s path with
  | none =>
    obtain ⟨hok, code, hmem, hcode⟩ := h.notThere s path hnode
    rw [← hreply] at hok hcode
    rw [hok, mfsPathInfo, if_neg (fun h => h rfl), if_neg (by decide), hcode]
    rcases List.mem_pair.mp hmem with rfl | rfl
    · rw [if_pos rfl]
      rfl
    · rw [if_neg (by decide), if_pos rfl]
      rfl
  | some n =>
    obtain ⟨hok, hpairs⟩ := h.there s path n hnode
    rw [← hreply] at hok hpairs
    rw [hok, mfsPathInfo, if_neg (fun h => h rfl), if_pos rfl, pathInfoOk_attributes hpairs]
    rfl

/-! ## Snapshots -/

/-- What others do, as far as `view` shows it. -/
def Changes {τ : Type*} (service : Service σ) (view : σ → τ) (before after : τ) : Prop :=
  ∃ s s₁, service.others s s₁ ∧ view s = before ∧ view s₁ = after

/-- Requests that the view does not see leave it to the others. -/
theorem logged_changes {τ : Type*} {view : σ → τ} {request : TrackerRequest}
    (hunchanged : ∀ s, view (service.step s request) = view s) {s s' : σ}
    {replies : List TrackerReply}
    (h : Logged service.execute service.others s (repliesTo request replies) s') :
    Relation.ReflTransGen (Changes service view) (view s) (view s') := by
  generalize hlog : repliesTo request replies = log at h
  induction h generalizing replies with
  | refl s => exact .refl
  | other hother _ ih => exact .head ⟨_, _, hother, rfl, rfl⟩ (ih hlog)
  | entry _ ih =>
    obtain ⟨first, rest, hreplies, hfirst, hrest⟩ := List.map_eq_cons_iff.mp hlog
    obtain ⟨rfl, -⟩ := Prod.mk.inj hfirst
    have hafter := ih hrest
    have hsame := hunchanged
    unfold Service.step at hsame
    rwa [hsame] at hafter

variable {clientId : Option Bytes} {palloc : ℕ → Byte} {w : World} {mem : CallerMemory} {s s' : σ}
  {replies : List TrackerReply}

/-- An answered call of a command that the view does not see: its outputs are those for a reply
    that was given at one moment, when others had changed the view and the call itself had not. -/
theorem callCommand_snapshot {τ : Type*} {view : σ → τ} {c : Command}
    (hc : (TrackerRequest.command c).Fits) (hid : ∀ id ∈ clientId, (0 : Byte) ∉ id)
    (hunchanged : ∀ s, view (service.step s c.received) = view s)
    (hrun : service.Runs clientId palloc c s (callCommand c w mem).exchanges replies s')
    (hanswered : (callCommand c w mem).Answered) :
    ∃ s₁ reply, Relation.ReflTransGen (Changes service view) (view s) (view s₁) ∧
      Relation.ReflTransGen (Changes service view) (view s₁) (view s') ∧
      reply = (service.execute s₁ c.received).2 ∧
      ((callCommand c w mem).rv, (callCommand c w mem).mem) =
        c.finish .success (some reply.isOk) (setAll aprHashMake reply.pairs) mem := by
  obtain ⟨unheard, reply, s₁, -, hbefore, hreply, hafter, hfinish⟩ :=
    (callCommand_service hc hid hrun).answered hanswered
  have hnone : Logged service.execute service.others (service.step s₁ c.received)
      (repliesTo c.received []) s' := hafter
  have hlater : Relation.ReflTransGen (Changes service view)
      (view (service.step s₁ c.received)) (view s') :=
    logged_changes hunchanged hnone
  rw [hunchanged] at hlater
  exact ⟨s₁, reply, logged_changes hunchanged hbefore, hlater, hreply, hfinish⟩

/-- The arguments of both commands. -/
theorem nul_notMem_pathArguments {path : Bytes} (hdomain : (0 : Byte) ∉ domain)
    (hpath : (0 : Byte) ∉ path) :
    ∀ p ∈ [(str "domain", domain), (str "arg1", path), (str "argcount", str "1")],
      (0 : Byte) ∉ p.2 := by
  have hcount : (0 : Byte) ∉ str "1" := by decide
  intro p hp
  simp only [List.mem_cons, List.not_mem_nil, or_false] at hp
  rcases hp with rfl | rfl | rfl
  · exact hdomain
  · exact hpath
  · exact hcount

/-- A listing that is answered is the directory at one moment of the call, all of it: however
    often the request was sent, and to however many trackers, the entries are not from different
    moments. A directory of 32000 entries or more is refused, and one that is not there reported. -/
theorem directory_snapshot (hlists : Lists service domain directory) {path : Bytes}
    (hdomain : (0 : Byte) ∉ domain) (hpath : (0 : Byte) ∉ path)
    (hid : ∀ id ∈ clientId, (0 : Byte) ∉ id)
    (hrun : service.Runs clientId palloc (.listDirectory domain path) s
      (callCommand (.listDirectory domain path) w mem).exchanges replies s')
    (hanswered : (callCommand (.listDirectory domain path) w mem).Answered) :
    ∃ tree, Relation.ReflTransGen (Changes service directory) (directory s) tree ∧
      Relation.ReflTransGen (Changes service directory) tree (directory s') ∧
      ((callCommand (.listDirectory domain path) w mem).rv,
          (callCommand (.listDirectory domain path) w mem).mem) =
        ((listingOf (tree path) mem.entries).1,
          { mem with entries := (listingOf (tree path) mem.entries).2 }) := by
  have hfits : (TrackerRequest.command (.listDirectory domain path)).Fits :=
    ⟨nul_notMem_pathArguments hdomain hpath, trivial⟩
  obtain ⟨s₁, reply, hbefore, hafter, hreply, hfinish⟩ :=
    callCommand_snapshot hfits hid (fun s => hlists.unchanged s path) hrun hanswered
  exact ⟨directory s₁, hbefore, hafter, hfinish.trans (hlists.finish s₁ path mem hreply)⟩

/-- A path that is looked at, too; what the attributes do not say stays in the caller's entry. -/
theorem path_snapshot (hdescribes : Describes service domain node) {path : Bytes}
    (hdomain : (0 : Byte) ∉ domain) (hpath : (0 : Byte) ∉ path)
    (hid : ∀ id ∈ clientId, (0 : Byte) ∉ id)
    (hrun : service.Runs clientId palloc (.pathInfo domain path) s
      (callCommand (.pathInfo domain path) w mem).exchanges replies s')
    (hanswered : (callCommand (.pathInfo domain path) w mem).Answered) :
    ∃ tree, Relation.ReflTransGen (Changes service node) (node s) tree ∧
      Relation.ReflTransGen (Changes service node) tree (node s') ∧
      ((callCommand (.pathInfo domain path) w mem).rv,
          (callCommand (.pathInfo domain path) w mem).mem) =
        ((infoOf (tree path) mem.entry).1,
          { mem with entry := (infoOf (tree path) mem.entry).2 }) := by
  have hfits : (TrackerRequest.command (.pathInfo domain path)).Fits :=
    ⟨nul_notMem_pathArguments hdomain hpath, trivial⟩
  obtain ⟨s₁, reply, hbefore, hafter, hreply, hfinish⟩ :=
    callCommand_snapshot hfits hid (fun s => hdescribes.unchanged s path) hrun hanswered
  exact ⟨node s₁, hbefore, hafter, hfinish.trans (hdescribes.finish s₁ path mem hreply)⟩

/-! ## A tree -/

/-- Directories with their entries, and paths with their attributes. -/
structure Tree where
  directory : Bytes → Option (List DirectoryNode)
  node : Bytes → Option DirectoryNode
  count : ∀ path nodes, directory path = some nodes → nodes.length < 2 ^ 31

theorem plainPairs_listing (nodes : List DirectoryNode) : PlainPairs (listingPairs nodes) where
  toResponsePairs := responsePairs_listing (List.Perm.refl _)
  plain _ hp := (listingPairs_strings hp).2.1

/-- The attributes as pairs of a reply. -/
theorem plainPairs_attributes (node : DirectoryNode) : PlainPairs node.attributes := by
  have hkeys : ∀ k ∈ [str "mtime", str "nid", str "type", str "link", str "size"],
      (0 : Byte) ∉ k ∧ k ≠ [] ∧ mfsTrackerUrlEncode k = k := by decide +kernel
  have hpair : ∀ p ∈ node.attributes,
      p.1 ∈ [str "mtime", str "nid", str "type", str "link", str "size"] ∧
        ∃ field ∈ node.fields, field.2 = p.2 := by
    intro p hp
    rw [DirectoryNode.attributes] at hp
    rw [DirectoryNode.fields]
    cases hkind : node.kind <;>
    · rw [hkind] at hp
      simp only [List.mem_append, List.mem_cons, List.not_mem_nil, or_false] at hp
      rcases hp with (rfl | rfl) | rfl | rfl <;> simp
  constructor
  · constructor
    · intro p hp
      exact (hkeys p.1 (hpair p hp).1).1
    · intro p hp
      obtain ⟨field, hfield, hvalue⟩ := (hpair p hp).2
      rw [← hvalue]
      exact nul_notMem_fields hfield
    · intro p hp
      exact (hkeys p.1 (hpair p hp).1).2.1
    · intro p hp c hc
      obtain rfl := Option.mem_some.mp (show p ∈ some (str "mtime", decimal node.mtime) from hp)
      obtain rfl := Option.mem_some.mp (show c ∈ some (ch 'm') from hc)
      decide
  · intro p hp
    exact (hkeys p.1 (hpair p hp).1).2.2

/-- The reply to a listing. -/
def Tree.listing (tree : Tree) (path : Bytes) : TrackerReply :=
  match tree.directory path with
  | some nodes => .ok none (listingPairs nodes) (plainPairs_listing nodes)
  | none => unknownKeyReply

/-- The reply to a look at a path. -/
def Tree.description (tree : Tree) (path : Bytes) : TrackerReply :=
  match tree.node path with
  | some node => .ok none node.attributes (plainPairs_attributes node)
  | none => unknownKeyReply

/-- Trackers that tell what a tree holds; others may do anything to it. -/
def treeService : Service Tree where
  execute tree request :=
    match request with
    | .command (.listDirectory _ path) => (tree, tree.listing path)
    | .command (.pathInfo _ path) => (tree, tree.description path)
    | _ => (tree, unknownKeyReply)
  others _ _ := True
  unknown := unknownKeyReply

theorem unknownKeyReply_notThere {codes : List Bytes} (h : str "unknown_key" ∈ codes) :
    unknownKeyReply.NotThere codes := ⟨rfl, _, h, by decide +kernel⟩

theorem lists_treeService (domain : Bytes) : Lists treeService domain Tree.directory where
  count tree := tree.count
  there tree path nodes h := by
    show (tree.listing path).isOk = true ∧ (tree.listing path).pairs.Perm (listingPairs nodes)
    rw [Tree.listing, h]
    exact ⟨rfl, List.Perm.refl _⟩
  notThere tree path h := by
    show (tree.listing path).NotThere _
    rw [Tree.listing, h]
    exact unknownKeyReply_notThere (by decide)
  unchanged _ _ := rfl

theorem describes_treeService (domain : Bytes) : Describes treeService domain Tree.node where
  there tree path node h := by
    show (tree.description path).isOk = true ∧ (tree.description path).pairs.Perm node.attributes
    rw [Tree.description, h]
    exact ⟨rfl, List.Perm.refl _⟩
  notThere tree path h := by
    show (tree.description path).NotThere _
    rw [Tree.description, h]
    exact unknownKeyReply_notThere (by decide)
  unchanged _ _ := rfl

/-- A directory of that name. -/
def subdirectory (name : Bytes) (h : (0 : Byte) ∉ name) : DirectoryNode where
  name := name
  kind := .directory
  mtime := 0
  nid := 1
  nameString := h
  kindFits := trivial
  mtimeFits := by decide
  nidFits := by decide

/-- A tree of one directory with one entry. -/
def oneEntry (node : DirectoryNode) : Tree where
  directory path := if path = str "/d" then some [node] else none
  node path := if path = str "/d/e" then some node else none
  count path nodes h := by
    split_ifs at h
    cases h
    simp

def treeOfA : Tree := oneEntry (subdirectory (str "a") (by decide +kernel))

def treeOfB : Tree := oneEntry (subdirectory (str "b") (by decide +kernel))

/-- The reply to the first request is cut off, and the request comes again. -/
def browsingExchanges : List Exchange :=
  [⟨.success, [⟨.success, str "OK files=1&file0=a&fil", by decide +kernel⟩]⟩,
    ⟨.success, [⟨.success, str "OK files=1&file0=b&file0.mtime=0&file0.nid=1&file0.type=D\r\n",
      by decide +kernel⟩]⟩]

def emptyMemory : CallerMemory :=
  ⟨⟨[], 0⟩, ⟨none, 0⟩, ⟨.null, 0, 0, 0, 0, .null⟩, ⟨0, 0⟩, ⟨0, 0⟩, none⟩

/-- A call with the exchanges ahead of it. -/
def browsingCall (c : Command) (exchanges : List Exchange) : CommandCall :=
  callCommand c (oneTrackerWorld [⟨0, 0⟩] .success exchanges) emptyMemory

/-- Another client has renamed the entry in the meantime. -/
theorem browsingRun : treeService.Runs none (fun _ => 1) (.listDirectory (str "d") (str "/d"))
    treeOfA (browsingCall (.listDirectory (str "d") (str "/d")) browsingExchanges).exchanges
    [treeOfA.listing (str "/d"), treeOfB.listing (str "/d")] treeOfB := by
  have hexchanges : (browsingCall (.listDirectory (str "d") (str "/d"))
      browsingExchanges).exchanges = browsingExchanges := by decide +kernel
  have hcarries : (browsingExchanges[0].Carries (treeOfA.listing (str "/d"))) ∧
      browsingExchanges[1].Carries (treeOfB.listing (str "/d")) := by
    unfold Exchange.Carries
    decide +kernel
  have hrun : ServiceRun treeService.execute treeService.others
      (.command (.listDirectory (str "d") (str "/d"))) treeOfA
      [browsingExchanges[0], browsingExchanges[1]]
      [treeOfA.listing (str "/d"), treeOfB.listing (str "/d")] treeOfB :=
    .executed_of_eq treeOfA rfl hcarries.1
      (.other trivial (.executed_of_eq treeOfB rfl hcarries.2 (.refl _)))
  rw [hexchanges]
  exact Service.Runs.of_execute hrun
    ⟨nul_notMem_pathArguments (by decide +kernel) (by decide +kernel), trivial⟩ (by decide +kernel)

theorem directory_snapshot_renamed :
    ∃ tree, Relation.ReflTransGen (Changes treeService Tree.directory) treeOfA.directory tree ∧
      Relation.ReflTransGen (Changes treeService Tree.directory) tree treeOfB.directory ∧
      ((browsingCall (.listDirectory (str "d") (str "/d")) browsingExchanges).rv,
          (browsingCall (.listDirectory (str "d") (str "/d")) browsingExchanges).mem) =
        ((listingOf (tree (str "/d")) emptyMemory.entries).1,
          { emptyMemory with
            entries := (listingOf (tree (str "/d")) emptyMemory.entries).2 }) :=
  directory_snapshot (lists_treeService (str "d")) (by decide +kernel) (by decide +kernel)
    (by decide +kernel) browsingRun (by decide +kernel)

def describingExchanges : List Exchange :=
  [⟨.success, [⟨.success, str "OK mtime=0&nid=1&type=D\r\n", by decide +kernel⟩]⟩]

theorem describingRun : treeService.Runs none (fun _ => 1) (.pathInfo (str "d") (str "/d/e"))
    treeOfA (browsingCall (.pathInfo (str "d") (str "/d/e")) describingExchanges).exchanges
    [treeOfA.description (str "/d/e")] treeOfA := by
  have hexchanges : (browsingCall (.pathInfo (str "d") (str "/d/e"))
      describingExchanges).exchanges = describingExchanges := by decide +kernel
  have hcarries : describingExchanges[0].Carries (treeOfA.description (str "/d/e")) := by
    unfold Exchange.Carries
    decide +kernel
  have hrun : ServiceRun treeService.execute treeService.others
      (.command (.pathInfo (str "d") (str "/d/e"))) treeOfA [describingExchanges[0]]
      [treeOfA.description (str "/d/e")] treeOfA :=
    .executed_of_eq treeOfA rfl hcarries (.refl _)
  rw [hexchanges]
  exact Service.Runs.of_execute hrun
    ⟨nul_notMem_pathArguments (by decide +kernel) (by decide +kernel), trivial⟩ (by decide +kernel)

theorem path_snapshot_directory :
    ∃ tree, Relation.ReflTransGen (Changes treeService Tree.node) treeOfA.node tree ∧
      Relation.ReflTransGen (Changes treeService Tree.node) tree treeOfA.node ∧
      ((browsingCall (.pathInfo (str "d") (str "/d/e")) describingExchanges).rv,
          (browsingCall (.pathInfo (str "d") (str "/d/e")) describingExchanges).mem) =
        ((infoOf (tree (str "/d/e")) emptyMemory.entry).1,
          { emptyMemory with
            entry := (infoOf (tree (str "/d/e")) emptyMemory.entry).2 }) :=
  path_snapshot (describes_treeService (str "d")) (by decide +kernel) (by decide +kernel)
    (by decide +kernel) describingRun (by decide +kernel)

end MogileFs
