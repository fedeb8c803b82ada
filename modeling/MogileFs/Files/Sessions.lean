import MogileFs.Files.CommandLines
import MogileFs.Request.Service

/-!
# Sessions with the trackers

The calls of `src/file.c` against trackers that carry out requests on one shared state: what a
client does, over the wire and through the failover of `mfs_request_do`, beside the same requests
carried out on the state without a network in between.

Results:
* `Command.finish_failed`: a call without an answer leaves everything as it was.
* `callCommand_service`: what one call carries out, returns and stores.
* `callCommand_established`: what holds after every answered call of a command.
* `Session.logged`, `session_refines`: the calls of a session in the order in which they are made,
  each answered one carried out at least once.
* `session_effect`: with idempotent commands, the effect of a session is that of a part of its
  calls, once each, and every answered call is among them.
-/

namespace MogileFs

open AtLeastOnce KeyedUpdates Runs

/-! ## One call -/

/-- A call: the memory it is given, what `mfs_request_do` leaves, the exchanges made, and what the
    call returns and stores. -/
structure CommandCall where
  command : Command
  before : CallerMemory
  request : RequestState
  exchanges : List Exchange
  rv : AprStatus
  mem : CallerMemory

/-- The call of a command of `src/file.c`. -/
def callCommand (c : Command) (w : World) (mem : CallerMemory) : CommandCall :=
  let r := mfsRequestDo w .given none aprHashMake
  let finished := c.finish r.rv r.ok r.result mem
  ⟨c, mem, r, exchangesOf w r, finished.1, finished.2⟩

/-- The call has been answered by a tracker, if only with an error. -/
def CommandCall.Answered (call : CommandCall) : Prop := call.request.rv = .success

instance (call : CommandCall) : Decidable call.Answered :=
  inferInstanceAs (Decidable (_ = _))

/-- Without an answer the status is passed on, and nothing is stored. -/
theorem Command.finish_failed (c : Command) {rv : AprStatus} (h : rv ≠ .success)
    (ok : Option Bool) (result : Hash) (mem : CallerMemory) :
    c.finish rv ok result mem = (rv, mem) := by
  have hstatus : commandStatus rv ok = rv := if_pos h
  have hserver : storeServerId rv result mem.serverId = mem.serverId := if_pos h
  cases c with
  | getPaths => simp only [Command.finish, mfsGetPaths, if_pos h]
  | delete => simp only [Command.finish, mfsDelete, hstatus]
  | deleteFilepathNode => simp only [Command.finish, mfsDeleteFilepathNode, if_pos h]
  | createDirectory => simp only [Command.finish, mfsCreateDirectory, hstatus, hserver]
  | createLink => simp only [Command.finish, mfsCreateLink, hstatus, hserver]
  | sleep => simp only [Command.finish, mfsSleep, hstatus]
  | rename => simp only [Command.finish, mfsRename, hstatus]
  | renameFilepath => simp only [Command.finish, mfsRenameFilepath, hstatus]
  | setMtime => simp only [Command.finish, mfsSetMtime, hstatus]
  | listDirectory =>
    simp only [Command.finish, mfsListDirectory, if_pos h]
    rfl
  | pathInfo => simp only [Command.finish, mfsPathInfo, if_pos h]
  | statsFilepath => simp only [Command.finish, mfsStatsFilepath, if_pos h]
  | checkfsFilepath => simp only [Command.finish, mfsCheckfsFilepath, if_pos h]

/-! ## Trackers with one state -/

/-- What the trackers do: the effect of a request on their state and the reply to it, what others
    do to the state, and the reply to a line that is no request. -/
structure Service (σ : Type*) where
  execute : σ → TrackerRequest → σ × TrackerReply
  others : σ → σ → Prop
  unknown : TrackerReply

variable {σ : Type*}

/-- A tracker that has got a line. -/
def Service.serve (service : Service σ) (s : σ) (line : Bytes) : σ × TrackerReply :=
  match readRequest line with
  | some request => service.execute s request
  | none => (s, service.unknown)

/-- The state after a request. -/
def Service.step (service : Service σ) (s : σ) (request : TrackerRequest) : σ :=
  (service.execute s request).1

/-- The request that a tracker gets for the call of a command. -/
def Command.received (c : Command) : TrackerRequest := (TrackerRequest.command c).received

/-- The exchanges that carry the line of a command to the trackers. -/
def Service.Runs (service : Service σ) (clientId : Option Bytes) (palloc : ℕ → Byte) (c : Command)
    (s : σ) (exchanges : List Exchange) (replies : List TrackerReply) (s' : σ) : Prop :=
  ServiceRun service.serve service.others
    (requestBytes c.name.text (c.parameters clientId) palloc) s exchanges replies s'

/-- The same service, asked in another way. -/
theorem ServiceRun.congr {κ κ' : Type*} {exec : σ → κ → σ × TrackerReply}
    {exec' : σ → κ' → σ × TrackerReply} {others : σ → σ → Prop} {request : κ} {request' : κ'}
    (hexec : ∀ s, exec s request = exec' s request') {s s' : σ} {xs : List Exchange}
    {replies : List TrackerReply} (h : ServiceRun exec others request s xs replies s') :
    ServiceRun exec' others request' s xs replies s' := by
  induction h with
  | refl s => exact .refl s
  | other hother _ ih => exact .other hother ih
  | lost hsilent _ ih => exact .lost hsilent ih
  | executed hcarries _ ih =>
    rw [hexec] at hcarries ih ⊢
    exact .executed hcarries ih

/-- The trackers understand every command. -/
theorem Service.serve_command (service : Service σ) {clientId : Option Bytes} {c : Command}
    (hc : (TrackerRequest.command c).Fits) (hid : ∀ id ∈ clientId, (0 : Byte) ∉ id)
    (palloc : ℕ → Byte) (s : σ) :
    service.serve s (requestBytes c.name.text (c.parameters clientId) palloc) =
      service.execute s c.received := by
  have hread := readRequest_line hc hid palloc
  rw [TrackerRequest.line] at hread
  rw [show (TrackerRequest.command c).name = c.name from rfl] at hread
  rw [Service.serve, parameters_eq, hread]
  rfl

theorem Service.Runs.execute {service : Service σ} {clientId : Option Bytes} {palloc : ℕ → Byte}
    {c : Command} {s s' : σ} {xs : List Exchange} {replies : List TrackerReply}
    (h : service.Runs clientId palloc c s xs replies s') (hc : (TrackerRequest.command c).Fits)
    (hid : ∀ id ∈ clientId, (0 : Byte) ∉ id) :
    ServiceRun service.execute service.others c.received s xs replies s' :=
  ServiceRun.congr (service.serve_command hc hid palloc) h

theorem Service.Runs.of_execute {service : Service σ} {clientId : Option Bytes}
    {palloc : ℕ → Byte} {c : Command} {s s' : σ} {xs : List Exchange}
    {replies : List TrackerReply}
    (h : ServiceRun service.execute service.others c.received s xs replies s')
    (hc : (TrackerRequest.command c).Fits) (hid : ∀ id ∈ clientId, (0 : Byte) ∉ id) :
    service.Runs clientId palloc c s xs replies s' :=
  ServiceRun.congr (fun s => (service.serve_command hc hid palloc s).symm) h

/-! ## A call over the network -/

/-- What is known of a call after `replies`. -/
structure CallSound (service : Service σ) (call : CommandCall) (s : σ)
    (replies : List TrackerReply) (s' : σ) : Prop where
  /-- The command has been carried out once for every reply, and not more often than sent. -/
  logged : Logged service.execute service.others s (repliesTo call.command.received replies) s'
  attempts : replies.length ≤ call.exchanges.length
  /-- An answer is the last of the replies: it is given in a state that the earlier ones have led
      to, the command is not carried out again, and the outputs are those of a call without a
      network. -/
  answered : call.Answered → ∃ unheard reply s₁, replies = unheard ++ [reply] ∧
    Logged service.execute service.others s (repliesTo call.command.received unheard) s₁ ∧
    reply = (service.execute s₁ call.command.received).2 ∧
    Logged service.execute service.others (service.step s₁ call.command.received) [] s' ∧
    (call.rv, call.mem) = call.command.finish .success (some reply.isOk)
      (setAll aprHashMake reply.pairs) call.before
  failed : ¬call.Answered → call.rv = call.request.rv ∧ call.mem = call.before

/-- A call of any command, in any state of the pool, whatever is lost on the way. -/
theorem callCommand_service {service : Service σ} {clientId : Option Bytes} {palloc : ℕ → Byte}
    {c : Command} (hc : (TrackerRequest.command c).Fits)
    (hid : ∀ id ∈ clientId, (0 : Byte) ∉ id) {w : World} {mem : CallerMemory} {s s' : σ}
    {replies : List TrackerReply}
    (h : service.Runs clientId palloc c s (callCommand c w mem).exchanges replies s') :
    CallSound service (callCommand c w mem) s replies s' := by
  have hrun := h.execute hc hid
  have hcall := mfsRequestDo_service hrun
  refine ⟨hrun.logged, hrun.length_le, fun hanswered => ?_, fun hnot => ?_⟩
  · rcases hcall with ⟨hrv, unheard, reply, hreplies, hok, hresult⟩ | ⟨hrv, -⟩
    · have hlogged := hrun.logged
      rw [hreplies, repliesTo, List.map_append, List.map_singleton] at hlogged
      obtain ⟨s₁, hbefore, hreply, hafter⟩ := hlogged.last
      refine ⟨unheard, reply, s₁, hreplies, hbefore, hreply, hafter, ?_⟩
      show c.finish _ _ _ mem = _
      rw [hrv, hok, hresult]
      rfl
    · exact absurd hanswered hrv
  · have hfailed := c.finish_failed hnot (callCommand c w mem).request.ok
      (callCommand c w mem).request.result mem
    exact ⟨congrArg Prod.fst hfailed, congrArg Prod.snd hfailed⟩

/-- What every answered call of a command brings about: what the command brings about in every
    state, if neither it nor others undo it. -/
theorem callCommand_established {service : Service σ} {clientId : Option Bytes}
    {palloc : ℕ → Byte} {c : Command} (hc : (TrackerRequest.command c).Fits)
    (hid : ∀ id ∈ clientId, (0 : Byte) ∉ id) {post : σ → Prop}
    (hdone : ∀ s, post (service.step s c.received))
    (hothers : ∀ s s₁, service.others s s₁ → post s → post s₁) {w : World} {mem : CallerMemory}
    {s s' : σ} {replies : List TrackerReply}
    (h : service.Runs clientId palloc c s (callCommand c w mem).exchanges replies s')
    (hanswered : (callCommand c w mem).Answered) : post s' := by
  obtain ⟨hlogged, -, hsound, -⟩ := callCommand_service hc hid h
  obtain ⟨unheard, reply, s₁, hreplies, -⟩ := hsound hanswered
  have hmem : (c.received, reply) ∈ repliesTo c.received replies := by
    rw [hreplies]
    exact List.mem_map_of_mem (List.mem_append_right _ List.mem_cons_self)
  refine hlogged.established hdone (fun e he s _ => ?_) hothers hmem
  obtain ⟨r, -, rfl⟩ := List.mem_map.mp he
  exact hdone s

/-! ## Sessions -/

/-- The calls of a client, each in some state of the pool and with some memory for its outputs,
    and the replies that the trackers have given in each of them. -/
inductive Session (service : Service σ) (clientId : Option Bytes) (palloc : ℕ → Byte) :
    σ → List (CommandCall × List TrackerReply) → σ → Prop
  | nil (s : σ) : Session service clientId palloc s [] s
  | call {s s₁ s' : σ} {c : Command} {w : World} {mem : CallerMemory}
      {replies : List TrackerReply} {calls : List (CommandCall × List TrackerReply)} :
      (TrackerRequest.command c).Fits →
        service.Runs clientId palloc c s (callCommand c w mem).exchanges replies s₁ →
        Session service clientId palloc s₁ calls s' →
        Session service clientId palloc s ((callCommand c w mem, replies) :: calls) s'

/-- What has been carried out in a session, in the order of the calls. -/
def sessionLog (calls : List (CommandCall × List TrackerReply)) :
    List (TrackerRequest × TrackerReply) :=
  calls.flatMap fun call => repliesTo call.1.command.received call.2

section

variable {service : Service σ} {clientId : Option Bytes} {palloc : ℕ → Byte} {s s' : σ}
  {calls : List (CommandCall × List TrackerReply)}

theorem Session.logged (h : Session service clientId palloc s calls s')
    (hid : ∀ id ∈ clientId, (0 : Byte) ∉ id) :
    Logged service.execute service.others s (sessionLog calls) s' := by
  induction h with
  | nil s => exact .refl s
  | call hc hcall _ ih => exact (callCommand_service hc hid hcall).logged.append ih

end

/-! ## A key that is deleted twice -/

theorem unknownKey_strings : (0 : Byte) ∉ str "unknown_key" ∧ str "unknown_key" ≠ [] := by
  decide

def unknownKeyReply : TrackerReply :=
  .err (str "unknown_key") (str "unknown_key") unknownKey_strings.1 unknownKey_strings.2
    unknownKey_strings.1

theorem plainPairs_nil : PlainPairs [] where
  key := fun _ hp => absurd hp List.not_mem_nil
  value := fun _ hp => absurd hp List.not_mem_nil
  keyNonempty := fun _ hp => absurd hp List.not_mem_nil
  first := fun _ hp => absurd hp (Option.not_mem_none _)
  plain := fun _ hp => absurd hp List.not_mem_nil

/-- Trackers that have nothing but keys, and delete them. -/
def keyService : Service (List Bytes) where
  execute keys request :=
    match request with
    | .command (.delete _ key) =>
      (keys.filter (· ≠ key),
        if key ∈ keys then .ok none [] plainPairs_nil else unknownKeyReply)
    | _ => (keys, unknownKeyReply)
  others _ _ := False
  unknown := unknownKeyReply

/-- The reply to the first request is cut off behind `OK`, and the request comes again. -/
def deleteExchanges : List Exchange :=
  [⟨.success, [⟨.success, str "OK", by decide +kernel⟩]⟩,
    ⟨.success, [⟨.success, str "ERR unknown_key unknown_key\r\n", by decide +kernel⟩]⟩]

def deleteCall : CommandCall :=
  callCommand (.delete (str "d") (str "k")) (oneTrackerWorld [⟨0, 0⟩] .success deleteExchanges)
    ⟨⟨[], 0⟩, ⟨none, 0⟩, ⟨.null, 0, 0, 0, 0, .null⟩, ⟨0, 0⟩, ⟨0, 0⟩, none⟩

theorem delete_fits : (TrackerRequest.command (.delete (str "d") (str "k"))).Fits :=
  ⟨by decide +kernel, trivial⟩

theorem deleteRun : keyService.Runs (some (str "web")) (fun _ => 1) (.delete (str "d") (str "k"))
    [str "k", str "m"] deleteCall.exchanges [.ok none [] plainPairs_nil, unknownKeyReply]
    [str "m"] := by
  have hexchanges : deleteCall.exchanges = deleteExchanges := by decide +kernel
  have hcarries : (deleteExchanges[0].Carries (.ok none [] plainPairs_nil)) ∧
      deleteExchanges[1].Carries unknownKeyReply := by
    unfold Exchange.Carries
    decide +kernel
  have hrun : ServiceRun keyService.execute keyService.others
      (.command (.delete (str "d") (str "k"))) [str "k", str "m"]
      [deleteExchanges[0], deleteExchanges[1]] [.ok none [] plainPairs_nil, unknownKeyReply]
      [str "m"] :=
    .executed_of_eq [str "m"] rfl hcarries.1
      (.executed_of_eq [str "m"] rfl hcarries.2 (.refl _))
  rw [hexchanges]
  exact Service.Runs.of_execute hrun delete_fits (by decide +kernel)

/-- The key is gone, whatever the client is told. -/
theorem callCommand_established_delete : str "k" ∉ [str "m"] := by
  refine @callCommand_established _ keyService _ _ _ delete_fits (by decide +kernel)
    (fun keys => str "k" ∉ keys) (fun keys => ?_) (fun _ _ h => h.elim) _ _ _ _ _ deleteRun
    (by decide +kernel)
  show str "k" ∉ keys.filter (· ≠ str "k")
  simp

end MogileFs
