import MogileFs.Common.Apr

/-!
# File servers

What `mfs_file_server_get` and `mfs_file_server_put` meet outside: the URL, the
file server and its list of HTTP connections, and one exchange with libcurl.
-/

namespace MogileFs

/-- `apr_uri_t`, as far as it is looked at; `none` is NULL. -/
structure Uri where
  scheme : Option Bytes
  hostinfo : Option Bytes
  path : Option Bytes
deriving DecidableEq

/-- The test that follows every `apr_uri_parse`. -/
def Uri.usable (uri : Uri) : Bool := uri.hostinfo.isSome && uri.scheme.isSome && uri.path.isSome

/-- The statuses of `mfs_get_file_server` and `apr_reslist_acquire`, and of the
    `apr_reslist_release` or `apr_reslist_invalidate` after the exchange. -/
structure ServerOutcome where
  getFileServer : AprStatus
  acquire : AprStatus
  settle : AprStatus
deriving DecidableEq

/-- What is done to the connections of a file server. -/
inductive ReslistCall
  | acquired
  | released (rv : AprStatus)
  | invalidated (rv : AprStatus)
deriving DecidableEq

/-- What `rv = mfs_get_file_server(…) != APR_SUCCESS` stores in `rv` when the call
    fails: the comparison, not the status. -/
def comparisonStatus : AprStatus := .other 1

end MogileFs
