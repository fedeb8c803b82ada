import MogileFs.Upload.Protocol

/-!
# Where the `fid`, `devid` and path of a `create_close` come from

All requests of one upload write into the same hash, and the checks behind a
`create_open` look into that hash. A key that the response lacks can stand there from an
earlier response of the call, and then the check passes.

Results:
* `uploadRound_followed`: a grant whose URL can be used is followed by a PUT.
* `upload_provenance_iff`: every PUT and every `create_close` goes back to one complete
  response exactly when no incomplete response is completed by earlier ones
  (`NoStaleGrant`), but for those where no PUT can follow.
-/

namespace MogileFs

open Traces

/-! ## What follows a grant -/

/-- A `create_open` that is granted, with a URL that can be used and a file that can be
    rewound, is followed by a PUT before the next `create_open`. -/
def Followed (u : Upload) (seeks : Stream' AprStatus) (log : List UploadEvent) : Prop :=
  ∀ past call rest url fid devid, log = past ++ .createOpen call :: rest →
    call.Grants url fid devid → u.Usable url →
    (u.fileGiven → seeks.get (rewinds past) = .success) →
    ∃ mid out r rest', rest = mid ++ .put url out r :: rest' ∧ ∀ e ∈ mid, ¬e.isCreateOpen

theorem followed_nil (u : Upload) (seeks : Stream' AprStatus) : Followed u seeks [] := by
  intro past call rest url fid devid h
  simp at h

theorem Followed.concat {u : Upload} {seeks : Stream' AprStatus} {log : List UploadEvent}
    (h : Followed u seeks log) {e : UploadEvent} (he : ¬e.isCreateOpen) :
    Followed u seeks (log ++ [e]) := by
  intro past call rest url fid devid hsplit hgrants husable hrewound
  rcases concat_eq_append_cons.mp hsplit with ⟨-, rfl, -⟩ | ⟨rest', rfl, hlog⟩
  · exact absurd rfl he
  · obtain ⟨mid, out, r, rest'', rfl, hmid⟩ :=
      h past call rest' url fid devid hlog hgrants husable hrewound
    exact ⟨mid, out, r, rest'' ++ [e], by simp, hmid⟩

theorem Followed.append {u : Upload} {seeks : Stream' AprStatus} {log : List UploadEvent}
    (h : Followed u seeks log) {events : List UploadEvent} (he : ∀ e ∈ events, ¬e.isCreateOpen) :
    Followed u seeks (log ++ events) := by
  induction events using List.reverseRecOn with
  | nil => simpa using h
  | append_singleton events e ih =>
    rw [← List.append_assoc]
    exact (ih fun x hx => he x (by simp [hx])).concat (he e (by simp))

/-- A `create_open` and what comes after it in its round. -/
theorem Followed.open {u : Upload} {seeks : Stream' AprStatus} {log : List UploadEvent}
    (h : Followed u seeks log) (call : TrackerCall) (events : List UploadEvent)
    (he : ∀ e ∈ events, ¬e.isCreateOpen)
    (hput : ∀ url fid devid, call.Grants url fid devid → u.Usable url →
      (u.fileGiven → seeks.get (rewinds log) = .success) →
      ∃ mid out r rest', events = mid ++ .put url out r :: rest' ∧ ∀ e ∈ mid, ¬e.isCreateOpen) :
    Followed u seeks (log ++ .createOpen call :: events) := by
  intro past call' rest url fid devid hsplit hgrants husable hrewound
  rcases List.append_eq_append_iff.mp hsplit with ⟨as, rfl, has⟩ | ⟨bs, rfl, hbs⟩
  · cases as with
    | nil =>
      obtain ⟨hcall, rfl⟩ := List.cons.inj has
      obtain rfl : call = call' := by simpa using hcall
      rw [List.append_nil] at hrewound
      exact hput url fid devid hgrants husable hrewound
    | cons a as =>
      obtain ⟨-, rfl⟩ := List.cons.inj has
      exact absurd rfl (he (.createOpen call') (by simp))
  · cases bs with
    | nil =>
      obtain ⟨hcall, rfl⟩ := List.cons.inj hbs
      obtain rfl : call' = call := by simpa using hcall
      rw [List.append_nil] at hput
      exact hput url fid devid hgrants husable hrewound
    | cons b bs =>
      obtain ⟨rfl, rfl⟩ := List.cons.inj hbs
      obtain ⟨mid, out, r, rest', rfl, hmid⟩ :=
        h past call' bs url fid devid rfl hgrants husable hrewound
      exact ⟨mid, out, r, rest' ++ .createOpen call :: events, by simp, hmid⟩

/-- `closeFile` adds at most a `create_close`. -/
theorem closeFile_log {u : Upload} {s s' : UploadState} (h : closeFile u s = .ok s') :
    ∃ events, s'.log = s.log ++ events ∧ ∀ e ∈ events, ¬e.isCreateOpen := by
  by_cases hrv : s.rv = .success
  · cases hfid : s.fid with
    | string fid =>
      cases hdevid : s.devid with
      | string devid =>
        cases hurl : s.putUrl with
        | string url =>
          obtain ⟨rv, ok, w, call, hclose, -⟩ := closeFile_spec (u := u) hrv hurl hfid hdevid
          rw [hclose, Except.ok.injEq] at h
          rw [← h]
          refine ⟨[.createClose call], rfl, fun e he => ?_⟩
          rw [List.mem_singleton.mp he]
          exact Bool.false_ne_true
        | _ => simp [closeFile, hrv, hfid, hdevid, hurl, CharPointer.read] at h
      | _ => simp [closeFile, hrv, hfid, hdevid, CharPointer.read] at h
    | _ => simp [closeFile, hrv, hfid, CharPointer.read] at h
  · rw [closeFile, if_pos hrv, Except.ok.injEq] at h
    exact ⟨[], by rw [h, List.append_nil], by simp⟩

theorem uploadRound_log {u : Upload} {s s₂ s' : UploadState} {b returned : Bool}
    (hput : putFile u (askTracker u (s.record .round)) = .ok (b, s₂))
    (hround : uploadRound u s = .ok (returned, s')) :
    ∃ events, s'.log = s₂.log ++ events ∧ ∀ e ∈ events, ¬e.isCreateOpen := by
  unfold uploadRound at hround
  rw [hput] at hround
  cases b with
  | true =>
    obtain ⟨-, rfl⟩ : true = returned ∧ s₂ = s' := by simpa using hround
    exact ⟨[], by simp, by simp⟩
  | false =>
    cases hclose : closeFile u s₂ with
    | error e => simp [hclose, Except.map] at hround
    | ok s₃ =>
      obtain ⟨-, rfl⟩ : false = returned ∧ s₃ = s' := by simpa [hclose, Except.map] using hround
      exact closeFile_log hclose

theorem TrackerCall.Grants.url_eq {call : TrackerCall} {url url' fid fid' devid devid' : Bytes}
    (h : call.Grants url fid devid) (h' : call.Grants url' fid' devid') : url = url' :=
  Option.some.inj (h.path.symm.trans h'.path)

theorem uploadRound_followed {u : Upload} {seeks : Stream' AprStatus} {n : ℕ}
    {s s' : UploadState} {returned : Bool} (h : UploadInv u seeks n s)
    (hlog : Followed u seeks s.log) (hround : uploadRound u s = .ok (returned, s')) :
    Followed u seeks s'.log := by
  have hlog₀ : Followed u seeks (s.log ++ [.round]) :=
    hlog.concat Bool.false_ne_true
  have hhead : s.seeks.head = seeks.get (rewinds (s.log ++ [.round])) := by
    rw [h.books.seeks, Stream'.head_drop, rewinds, rewinds, List.countP_append]
    rfl
  have hask := askTracker_asked u (s.record .round)
  generalize hs₁ : askTracker u (s.record .round) = s₁ at hask
  cases hask with
  | refused rv ok w putUrl fid devid call asked params result noGrant failed =>
    obtain ⟨events, hevents, hopen⟩ := uploadRound_log (by rw [hs₁, putFile, if_pos failed]) hround
    rw [hevents]
    have hfollowed := hlog₀.open call _ hopen
      fun url fid devid hgrants => absurd hgrants (noGrant url fid devid)
    simpa [UploadState.record] using hfollowed
  | granted ok w url fid devid call asked params result grants =>
    obtain ⟨⟨b, s₂⟩, hput, htried⟩ := putFile_tried (u := u) (s := { s.record .round with
      rv := .success
      ok, w
      result := call.result
      callTracker := false
      putUrl := .string url
      fid := .string fid
      devid := .string devid
      log := (s.record .round).log ++ [.createOpen call] }) rfl rfl
    obtain ⟨events, hevents, hopen⟩ := uploadRound_log (by rw [hs₁]; exact hput) hround
    rw [hevents]
    cases htried with
    | unusable usable =>
      have hfollowed := hlog₀.open call _ hopen fun url' fid' devid' hgrants husable =>
        absurd (hgrants.url_eq grants ▸ husable) usable
      simpa [UploadState.record] using hfollowed
    | stuck usable file failed =>
      have hfollowed := hlog₀.open call (.rewound s.seeks.head :: events)
        (by simpa [UploadEvent.isCreateOpen] using hopen)
        fun url' fid' devid' hgrants husable hrewound =>
          absurd (hhead.trans (hrewound file)) failed
      simpa [UploadState.record] using hfollowed
    | sentFile usable file rewound out r put =>
      have hfollowed := hlog₀.open call (.rewound s.seeks.head :: .put url out r :: events)
        (by simpa [UploadEvent.isCreateOpen] using hopen)
        fun url' fid' devid' hgrants husable hrewound =>
          ⟨[.rewound s.seeks.head], out, r, events, by rw [hgrants.url_eq grants]; rfl,
            by simp [UploadEvent.isCreateOpen]⟩
      simpa [UploadState.record] using hfollowed
    | sentBytes usable file out r put =>
      have hfollowed := hlog₀.open call (.put url out r :: events)
        (by simpa [UploadEvent.isCreateOpen] using hopen)
        fun url' fid' devid' hgrants husable hrewound =>
          ⟨[], out, r, events, by rw [hgrants.url_eq grants]; rfl, by simp⟩
      simpa [UploadState.record] using hfollowed
  | again asked =>
    obtain ⟨before, call, since, url, fid, devid, hholds, -⟩ := h.held asked
    obtain ⟨⟨b, s₂⟩, hput, htried⟩ := putFile_tried (u := u) (s := { s.record .round with
      rv := .success
      callTracker := true }) rfl hholds.putUrl
    obtain ⟨events, hevents, hopen⟩ := uploadRound_log (by rw [hs₁]; exact hput) hround
    rw [hevents]
    refine Followed.append ?_ hopen
    cases htried with
    | unusable usable => exact hlog₀
    | stuck usable file failed => exact hlog₀.concat Bool.false_ne_true
    | sentFile usable file rewound out r put =>
      exact (hlog₀.concat (e := .rewound _) Bool.false_ne_true).concat Bool.false_ne_true
    | sentBytes usable file out r put => exact hlog₀.concat Bool.false_ne_true

/-! ## One response for all three -/

/-- The keys that are looked up after a `create_open`. -/
def grantKeys : List Bytes := [str "path", str "fid", str "devid"]

/-- The response of the call itself has all three keys. -/
def TrackerCall.Complete (call : TrackerCall) : Prop :=
  ∀ key ∈ grantKeys, key ∈ call.pairs.map Prod.fst

/-- A PUT follows a `create_open` whose own response has all three keys, and a
    `create_close` carries the path, `fid` and `devid` of that response. -/
def SingleProvenance (u : Upload) (past : List UploadEvent) : UploadEvent → Prop
  | .put _ _ _ => ∃ before call since,
      Since (fun e => e.isCreateOpen) past before (.createOpen call) since ∧ call.AnsweredOk ∧
      call.Complete
  | .createClose close => ∃ before call since url fid devid size,
      Since (fun e => e.isCreateOpen) past before (.createOpen call) since ∧ call.AnsweredOk ∧
      KeyedUpdates.lastValue call.pairs (str "path") = some url ∧
      KeyedUpdates.lastValue call.pairs (str "fid") = some fid ∧
      KeyedUpdates.lastValue call.pairs (str "devid") = some devid ∧
      close.params = closeParameters u fid devid size url
  | _ => True

/-- A `create_open` response that lacks a key comes when some key has not been in any
    response of the call, or when the last path that was in one cannot be used, or
    before a rewind that fails. -/
def NoStaleGrant (u : Upload) (seeks : Stream' AprStatus) (past : List UploadEvent) :
    UploadEvent → Prop
  | .createOpen call => call.AnsweredOk → ¬call.Complete →
      (∃ key ∈ grantKeys, key ∉ (heard past ++ call.heard).map Prod.fst) ∨
      (∃ url, KeyedUpdates.lastValue (heard past ++ call.heard) (str "path") = some url ∧
        ¬u.Usable url) ∨
      (u.fileGiven ∧ seeks.get (rewinds past) ≠ .success)
  | _ => True

/-- The hash after a `create_open` is what all responses of the call so far have said. -/
theorem Lawful.result_apply {u : Upload} {seeks : Stream' AprStatus} {past : List UploadEvent}
    {call : TrackerCall} (h : Lawful u seeks past (.createOpen call)) (key : Bytes) :
    aprHashGet call.result key = KeyedUpdates.lastValue (heard past ++ call.heard) key := by
  rw [aprHashGet, h.2, KeyedUpdates.setAll_apply]
  exact Option.or_none

/-- A key of the response itself has the value it has there. -/
theorem Lawful.result_of_pairs {u : Upload} {seeks : Stream' AprStatus}
    {past : List UploadEvent} {call : TrackerCall} (h : Lawful u seeks past (.createOpen call))
    (hanswered : call.AnsweredOk) {key : Bytes} (hkey : key ∈ call.pairs.map Prod.fst) :
    aprHashGet call.result key = KeyedUpdates.lastValue call.pairs key := by
  obtain ⟨earlier, hheard⟩ := call.heard_of_answered hanswered
  have hsome : KeyedUpdates.lastValue call.pairs key ≠ none := fun h =>
    (KeyedUpdates.lastValue_eq_none_iff _ _).mp h hkey
  obtain ⟨value, hvalue⟩ := Option.ne_none_iff_exists'.mp hsome
  rw [h.result_apply, hheard, ← List.append_assoc, KeyedUpdates.lastValue_append, hvalue,
    Option.some_or]

/-- A granted response that is incomplete got the missing keys from earlier ones. -/
theorem Lawful.complete {u : Upload} {seeks : Stream' AprStatus} {past : List UploadEvent}
    {call : TrackerCall} {url fid devid : Bytes} (h : Lawful u seeks past (.createOpen call))
    (hgrants : call.Grants url fid devid) (hstale : NoStaleGrant u seeks past (.createOpen call))
    (husable : u.Usable url) (hrewindable : Rewindable u seeks past url) : call.Complete := by
  by_contra hincomplete
  rcases hstale hgrants.answered hincomplete with ⟨key, hkey, hunheard⟩ | ⟨url', hurl', hnot⟩ | ⟨hf, hr⟩
  · have hnone := (KeyedUpdates.lastValue_eq_none_iff _ _).mpr hunheard
    rw [← h.result_apply] at hnone
    simp only [grantKeys, List.mem_cons, List.not_mem_nil, or_false] at hkey
    rcases hkey with rfl | rfl | rfl
    · rw [hgrants.path] at hnone; cases hnone
    · rw [hgrants.fid] at hnone; cases hnone
    · rw [hgrants.devid] at hnone; cases hnone
  · rw [← h.result_apply, hgrants.path, Option.some.injEq] at hurl'
    exact hnot (hurl' ▸ husable)
  · exact hr (hrewindable husable hf)

/-- In every run: no PUT is made on the strength of an incomplete response, and every
    `create_close` goes back to one response, if and only if no incomplete `create_open`
    response is completed by what stands in the hash. -/
theorem upload_provenance_iff (u : Upload) (pool : PoolArg) (w : World)
    (puts : Stream' PutOutcome) (seeks : Stream' AprStatus) :
    ∃ s, mfsStoreFileOrBytes u pool w puts seeks = .ok s ∧
      (Each (SingleProvenance u) s.log ↔ Each (NoStaleGrant u seeks) s.log) := by
  obtain ⟨n, s, hrun, hbooks, -, hfollowed, -⟩ :=
    mfsStoreFileOrBytes_spec u pool w puts seeks (followed_nil u seeks)
      fun _ _ _ _ hinv hlog hround => uploadRound_followed hinv hlog hround
  refine ⟨s, hrun, fun hsingle past e rest hsplit => ?_, fun hstale => ?_⟩
  · cases e with
    | createOpen call =>
      intro hanswered hincomplete
      by_contra hcond
      push Not at hcond
      obtain ⟨hheard, hurl, hrewound⟩ := hcond
      have hlawful := hbooks.lawful past _ rest hsplit
      -- the hash has all three keys, so the call was taken for a grant
      have hvalue : ∀ key ∈ grantKeys, ∃ value, aprHashGet call.result key = some value := by
        intro key hkey
        rw [hlawful.result_apply]
        refine Option.ne_none_iff_exists'.mp fun h => ?_
        exact (KeyedUpdates.lastValue_eq_none_iff _ _).mp h (hheard key hkey)
      obtain ⟨url, hpath⟩ := hvalue (str "path") (by simp [grantKeys])
      obtain ⟨fid, hfid⟩ := hvalue (str "fid") (by simp [grantKeys])
      obtain ⟨devid, hdevid⟩ := hvalue (str "devid") (by simp [grantKeys])
      have husable : u.Usable url := hurl url (by rw [← hlawful.result_apply, hpath])
      obtain ⟨mid, out, r, rest', rfl, hmid⟩ := hfollowed past call rest url fid devid hsplit
        ⟨hanswered, hpath, hfid, hdevid⟩ husable hrewound
      obtain ⟨before, call', since, hlast, -, hcomplete⟩ :=
        hsingle (past ++ .createOpen call :: mid) (.put url out r) rest' (by rw [hsplit]; simp)
      obtain ⟨-, hcall, -⟩ := hlast.unique ⟨rfl, rfl, hmid⟩
      obtain rfl : call' = call := by simpa using hcall
      exact hincomplete hcomplete
    | _ => trivial
  · -- PUTs first
    have hput : ∀ past url out r rest, s.log = past ++ .put url out r :: rest →
        ∀ before call since fid devid, Granted past before call since url fid devid →
        u.Usable url → Rewindable u seeks before url → call.Complete := by
      intro past url out r rest hsplit before call since fid devid hgranted husable hrewindable
      have hopen : s.log = before ++ .createOpen call :: (since ++ .put url out r :: rest) := by
        rw [hsplit, hgranted.last.1]
        simp
      exact (hbooks.lawful _ _ _ hopen).complete hgranted.grants (hstale _ _ _ hopen) husable
        hrewindable
    intro past e rest hsplit
    cases e with
    | put url out r =>
      obtain ⟨before, call, since, fid, devid, -, hgranted, -, husable, hrewindable, -⟩ :=
        hbooks.lawful past _ rest hsplit
      exact ⟨before, call, since, hgranted.last, hgranted.grants.answered,
        hput past url out r rest hsplit before call since fid devid hgranted husable hrewindable⟩
    | createClose close =>
      obtain ⟨past', url, out, r, size, before, call, since, fid, devid, rfl, -, -, hgranted,
        hparams⟩ := hbooks.lawful past _ rest hsplit
      have hsplit' : s.log = past' ++ .put url out r :: (.createClose close :: rest) := by
        rw [hsplit]
        simp
      obtain ⟨before', call', since', fid', devid', -, hgranted', -, husable, hrewindable, -⟩ :=
        hbooks.lawful past' _ _ hsplit'
      obtain ⟨rfl, hcall, rfl⟩ := hgranted.last.unique hgranted'.last
      obtain rfl : call = call' := by simpa using hcall
      have hcomplete := hput past' url out r _ hsplit' before call since fid' devid' hgranted' husable
        hrewindable
      have hopen : s.log = before ++ .createOpen call ::
          (since ++ .put url out r :: .createClose close :: rest) := by
        rw [hsplit', hgranted.last.1]
        simp
      have hlawful := hbooks.lawful _ _ _ hopen
      have hanswered := hgranted.grants.answered
      have hown : ∀ key ∈ grantKeys, ∀ value, aprHashGet call.result key = some value →
          KeyedUpdates.lastValue call.pairs key = some value := fun key hkey value hvalue => by
        rw [← hlawful.result_of_pairs hanswered (hcomplete key hkey), hvalue]
      exact ⟨before, call, since ++ [.put url out r], url, fid, devid, size,
        hgranted.last.concat (x := .put url out r) (by exact Bool.false_ne_true), hanswered,
        hown _ (by simp [grantKeys]) _ hgranted.grants.path,
        hown _ (by simp [grantKeys]) _ hgranted.grants.fid,
        hown _ (by simp [grantKeys]) _ hgranted.grants.devid, hparams⟩
    | _ => trivial

/-! ### A path from an earlier response -/

/-- Three bytes to store, with two rounds at most; the URL of the run below can be used. -/
def threeBytes : Upload where
  domain := str "d"
  key := str "k"
  storageClass := str "c"
  bytesGiven := true
  totalBytes := 3
  fileGiven := false
  extraOpenParameters := none
  extraCloseParameters := none
  maxRetries := 2
  clientId := none
  aprUriParse := fun _ => .ok ⟨some (str "http"), some (str "a"), some (str "/1")⟩

/-- A PUT that is answered with the status code. -/
def answeredPut (status : ℕ) : PutOutcome := ⟨⟨.success, .success, .success⟩, .ok 0, status, true⟩

/-- An answer to `create_close`. -/
theorem closeAnswer_fits : (str "OK 1 x=1\r\n").length ≤ mfsReadBufferSize := by decide

/-- A `create_open` response without `devid`, and one without `path`. -/
def incompleteAnswers : List Exchange :=
  [lineExchange (str "OK 1 path=http://a/1&fid=1\r\n") (by decide),
    lineExchange (str "OK 1 fid=2&devid=3\r\n") (by decide),
    lineExchange (str "OK 1 x=1\r\n") closeAnswer_fits]

/-- The log of a run that returns. -/
def logOf : Except Misread UploadState → List UploadEvent
  | .error _ => []
  | .ok s => s.log

/-- The log starts with a `create_open` whose response has no path, and a PUT. -/
def startsWithoutPath : List UploadEvent → Bool
  | .createOpen call :: .put _ _ _ :: _ => !(call.pairs.map Prod.fst).contains (str "path")
  | _ => false

/-- Some part of the log does. -/
def putWithoutPath : List UploadEvent → Bool
  | [] => false
  | e :: log => startsWithoutPath (e :: log) || putWithoutPath log

theorem not_singleProvenance_of_putWithoutPath {u : Upload} (past : List UploadEvent)
    {log : List UploadEvent} (h : putWithoutPath log) :
    ¬Each (SingleProvenance u) (past ++ log) := by
  induction log generalizing past with
  | nil => cases h
  | cons e log ih =>
    rw [putWithoutPath, Bool.or_eq_true] at h
    rcases h with h | h
    · unfold startsWithoutPath at h
      split at h
      · rename_i call url out r rest heq
        intro hsingle
        obtain ⟨before, call', since, hlast, -, hcomplete⟩ :=
          hsingle (past ++ [.createOpen call]) (.put url out r) rest (by rw [heq]; simp)
        obtain ⟨-, hcall, -⟩ := hlast.unique (since_concat_self rfl)
        obtain rfl : call' = call := by simpa using hcall
        have hpath := hcomplete (str "path") (by simp [grantKeys])
        have hcontains := List.contains_iff_mem.mpr hpath
        rw [hcontains] at h
        cases h
      · cases h
    · have hsplit : past ++ e :: log = (past ++ [e]) ++ log := by simp
      rw [hsplit]
      exact ih _ h

/-- The second response lacks the path, and the PUT goes to the path of the first one. -/
theorem stale_path_put :
    ¬Each (SingleProvenance threeBytes)
      (logOf (mfsStoreFileOrBytes threeBytes .given
        (oneTrackerWorld [⟨0, 0⟩] .success incompleteAnswers)
        (Stream'.const (answeredPut 200)) (Stream'.const .success))) := by
  have h : putWithoutPath (logOf (mfsStoreFileOrBytes threeBytes .given
      (oneTrackerWorld [⟨0, 0⟩] .success incompleteAnswers)
      (Stream'.const (answeredPut 200)) (Stream'.const .success))) := by decide +kernel
  exact not_singleProvenance_of_putWithoutPath [] h

end MogileFs
