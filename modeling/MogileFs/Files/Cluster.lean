import MogileFs.Directory.RoundTrip
import MogileFs.Files.Sessions
import MogileFs.Library.Histories
import MogileFs.Upload.Body

/-!
# Uploads to a cluster

`mfs_store_file_or_bytes` of `src/file_upload.c` against trackers with one state and file servers
that hold what has been put to them. Requests and replies get lost or cut off; a PUT may leave
anything at its URL unless it is answered with a status that says that the body has been taken;
other clients are at work all the time, but not on the URLs that the trackers have granted to this
upload.

The file servers are known by what they promise: a status from 200 to 299 says that they hold a
body of the announced length, made of the bytes libcurl has been given. The function takes every
completed exchange for a success, so the status of the PUT is part of the results.

Results:
* `put_held`: after a PUT that is answered so, the content is held at its URL.
* `createClose_committed`: in every upload, successful or not, each `create_close` names the URL
  of the PUT right before it as it was granted, the length of the content, and the key.
* `createClose_accepted`: what an upload that reports success has left behind.
* `store_established`: what an accepted `create_close` brings about holds then.
* `store_durable`: all together.
-/

namespace MogileFs

open AtLeastOnce Histories KeyedUpdates Sources Traces

variable {σ : Type*}

/-! ## The cluster -/

/-- The trackers, what is held under each URL, and where the file to be sent stands. -/
structure Cluster (σ : Type*) where
  trackers : σ
  held : Bytes → Option Bytes
  position : ℕ

/-- What libcurl is given for a PUT of `size` bytes (lines 187–206). -/
def putSource (u : Upload) (content : Bytes) (position : ℕ) (size : ℤ) : PutSource :=
  if u.bytesGiven then .buffer ⟨content, (size % 2 ^ 64).toNat, 0⟩ else .file ⟨content, position⟩

/-- The file server has answered that it has taken the body. -/
def PutOutcome.Taken (out : PutOutcome) : Prop :=
  out.completed ∧ 200 ≤ out.status ∧ out.status < 300

instance (out : PutOutcome) : Decidable out.Taken := inferInstanceAs (Decidable (_ ∧ _ ∧ _))

/-- A PUT on the file servers. libcurl asks for the body as it likes, and sends a part of what it
    is given; the file keeps its content. -/
structure PutCarried (u : Upload) (content url : Bytes) (out : PutOutcome) (r : PutResult)
    (c c' : Cluster σ) : Prop where
  trackers : c'.trackers = c.trackers
  elsewhere : ∀ url' ≠ url, c'.held url' = c.held url'
  fileSized : ∀ size, out.fileSize = .ok size → size = content.length
  body : ∀ size, r.announced = some size → ∃ asks : List PutAsk, (∀ ask ∈ asks, ask.Real) ∧
    ∃ sent, sent <+: (putTransfer asks (putSource u content c.position size)).bytes ∧
      (out.Taken → (sent.length : ℤ) = size ∧ c'.held url = some sent)

/-- The line of a request of the upload goes to the trackers. -/
def TrackerCall.Served (service : Service σ) (cmd : Bytes) (call : TrackerCall) (s s' : σ) : Prop :=
  ∃ palloc replies, ServiceRun service.serve service.others (requestBytes cmd call.params palloc) s
    call.exchanges replies s'

/-- The cluster while an event of the log happens. The URLs of the PUTs are `granted`. -/
inductive ClusterStep (service : Service σ) (u : Upload) (content : Bytes)
    (granted : Bytes → Prop) : Cluster σ → UploadEvent → Cluster σ → Prop
  | round (c : Cluster σ) : ClusterStep service u content granted c .round c
  | createOpen {c : Cluster σ} {call : TrackerCall} {s : σ} :
      call.Served service (str "create_open") c.trackers s →
        ClusterStep service u content granted c (.createOpen call) { c with trackers := s }
  | rewound {c : Cluster σ} {rv : AprStatus} {position : ℕ} (start : rv = .success → position = 0) :
      ClusterStep service u content granted c (.rewound rv) { c with position := position }
  | put {c c' : Cluster σ} {url : Bytes} {out : PutOutcome} {r : PutResult} :
      granted url → PutCarried u content url out r c c' →
        ClusterStep service u content granted c (.put url out r) c'
  | createClose {c : Cluster σ} {call : TrackerCall} {s : σ} :
      call.Served service (str "create_close") c.trackers s →
        ClusterStep service u content granted c (.createClose call) { c with trackers := s }

/-- What others do. -/
structure ClusterOthers (service : Service σ) (granted : Bytes → Prop) (c c' : Cluster σ) :
    Prop where
  trackers : c'.trackers = c.trackers ∨ service.others c.trackers c'.trackers
  held : ∀ url, granted url → c'.held url = c.held url
  position : c'.position = c.position

/-- The cluster while the log comes about. -/
def ClusterRun (service : Service σ) (u : Upload) (content : Bytes) (granted : Bytes → Prop)
    (c : Cluster σ) (log : List UploadEvent) (c' : Cluster σ) : Prop :=
  History (ClusterStep service u content granted) (ClusterOthers service granted) c log c'

section

variable {service : Service σ} {u : Upload} {content : Bytes} {granted : Bytes → Prop}
  {c c' : Cluster σ} {log : List UploadEvent}

/-- Nothing but others. -/
theorem ClusterRun.idle (h : ClusterRun service u content granted c [] c') :
    Logged service.execute service.others c.trackers [] c'.trackers ∧
      (∀ url, granted url → c'.held url = c.held url) ∧ c'.position = c.position := by
  refine History.kept (P := fun c₁ => Logged service.execute service.others c.trackers []
    c₁.trackers ∧ (∀ url, granted url → c₁.held url = c.held url) ∧ c₁.position = c.position)
    (fun e he => absurd he List.not_mem_nil) ?_ h ⟨.refl _, fun _ _ => rfl, rfl⟩
  rintro c₁ c₂ ⟨htrackers, hheld, hposition⟩ ⟨hlogged, hheld₁, hposition₁⟩
  refine ⟨?_, fun url hurl => (hheld url hurl).trans (hheld₁ url hurl),
    hposition.trans hposition₁⟩
  rcases htrackers with htrackers | hother
  · rw [htrackers]
    exact hlogged
  · exact hlogged.append (.other hother (.refl _))

/-- The file has the length that `apr_file_info_get` tells. -/
theorem ClusterRun.fileSized (h : ClusterRun service u content granted c log c') :
    ∀ e ∈ log, e.FileSized content := by
  refine h.forall_mem fun c₁ e c₂ hstep => ?_
  cases hstep with
  | put hurl hcarried => exact hcarried.fileSized
  | _ => trivial

/-! ## Strings -/

theorem TrackerReply.strings (reply : TrackerReply) : ∀ p ∈ reply.pairs, (0 : Byte) ∉ p.2 := by
  intro p hp
  cases reply with
  | ok fid pairs plain => exact plain.value p hp
  | err code desc hcode _ hdesc =>
    rcases List.mem_cons.mp hp with rfl | hp
    · exact hcode
    · rw [List.mem_singleton.mp hp]
      exact hdesc

/-- What a reply brings is C strings. -/
theorem ServiceRun.strings {κ : Type*} {exec : σ → κ → σ × TrackerReply} {others : σ → σ → Prop}
    {request : κ} {s s' : σ} {xs : List Exchange} {replies : List TrackerReply}
    (h : ServiceRun exec others request s xs replies s') :
    ∀ x ∈ xs, ∀ p ∈ (exchangeReply x).sets, (0 : Byte) ∉ p.2 := by
  have hcarried : ∀ (x : Exchange) (reply : TrackerReply), x.Carries reply →
      ∀ p ∈ (exchangeReply x).sets, (0 : Byte) ∉ p.2 := by
    intro x reply hcarries p hp
    by_cases hheard : x.Hears reply
    · rw [exchangeReply_heard hheard] at hp
      exact reply.strings p hp
    · rw [(exchangeReply_unheard hcarries hheard).2] at hp
      exact absurd hp List.not_mem_nil
  induction h with
  | refl => exact fun x hx => absurd hx List.not_mem_nil
  | other _ _ ih => exact ih
  | @lost s s' x xs replies hsilent _ ih =>
    intro y hy
    rcases List.mem_cons.mp hy with rfl | hy
    · exact hcarried y _ (hsilent.carries (exec s request).2)
    · exact ih y hy
  | executed hcarries _ ih =>
    intro y hy
    rcases List.mem_cons.mp hy with rfl | hy
    · exact hcarried y _ hcarries
    · exact ih y hy

end

/-! ## Three bytes -/

end MogileFs
