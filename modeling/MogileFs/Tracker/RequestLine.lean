import MogileFs.Tracker.Decimal
import MogileFs.Tracker.EncodedPairs
import MogileFs.Tracker.Parameters

/-!
# The request line

What `mfs_tracker_build_request` (`src/tracker.c`, lines 269–309) makes of the parameters that
`mfs_tracker_add_parameter` and `mfs_tracker_add_meta_data` have collected. The lengths in the
list are `int`s of the source, all of them at most the length of the line (`Collected.lengths`).

Results:
* `runCalls_collected`: the list after any sequence of calls, and the totals kept beside it.
* `Measured.buildRequest_wrote_text`: the bytes written for any list with true lengths, and
  `Measured.requestLength_eq`: the size given to the socket.
* `buildRequest_wrote`: the bytes written, for any collected list.
* `requestLine_roundTrip`: one line, from which the pairs are read back.
-/

namespace MogileFs

/-! ## Calls -/

/-- One call that adds to a list of parameters; `metaData` is
    `mfs_tracker_add_meta_data(…, prepare = true)`. -/
inductive AddCall
  | parameter (key value : Bytes)
  | metaData (key value : Bytes)
deriving DecidableEq

def AddCall.run (parameters : RequestParameters) : AddCall → RequestParameters
  | .parameter key value => mfsTrackerAddParameter parameters key value
  | .metaData key value => mfsTrackerAddMetaData parameters key value true

/-- The calls in order, on a fresh list. -/
def runCalls (calls : List AddCall) : RequestParameters :=
  calls.foldl AddCall.run mfsTrackerInitParameters

/-- Key and value are C strings. -/
def AddCall.Strings : AddCall → Prop
  | .parameter key value => (0 : Byte) ∉ key ∧ (0 : Byte) ∉ value
  | .metaData key value => (0 : Byte) ∉ key ∧ (0 : Byte) ∉ value

instance (call : AddCall) : Decidable call.Strings := by
  cases call <;> exact inferInstanceAs (Decidable (_ ∧ _))

/-! ## The pairs of the calls -/

/-- The two pairs of the `index`-th call for meta data. -/
def metaPairs (index : ℕ) (key value : Bytes) : List (Bytes × Bytes) :=
  [(str "plugin.meta.key" ++ decimalNat index, key),
    (str "plugin.meta.value" ++ decimalNat index, value)]

/-- The pairs the calls stand for; `index` counts those for meta data. -/
def plainPairs : ℕ → List AddCall → List (Bytes × Bytes)
  | _, [] => []
  | index, .parameter key value :: calls => (key, value) :: plainPairs index calls
  | index, .metaData key value :: calls =>
    metaPairs index key value ++ plainPairs (index + 1) calls

def AddCall.isMetaData : AddCall → Bool
  | .parameter .. => false
  | .metaData .. => true

/-- The number of calls for meta data. -/
def metaCalls (calls : List AddCall) : ℕ := calls.countP AddCall.isMetaData

/-- The count of the meta data, when there is any. -/
def metaCountPair (metaCount : ℕ) : List (Bytes × Bytes) :=
  if 0 < metaCount then [(str "plugin.meta.keys", decimalNat metaCount)] else []

/-! ## The collected list -/

/-- The parameter of a pair, with its lengths. -/
def pairParameter (p : Bytes × Bytes) : RequestParameter :=
  ⟨mfsTrackerUrlEncode p.1, (mfsTrackerUrlEncode p.1).length, mfsTrackerUrlEncode p.2,
    (mfsTrackerUrlEncode p.2).length, false⟩

/-- The list holds the pairs, and the totals agree with it. -/
structure Collected (parameters : RequestParameters) (pairs : List (Bytes × Bytes))
    (metaCount : ℕ) : Prop where
  list : parameters.list = pairs.map pairParameter
  count : parameters.count = pairs.length
  strlen : parameters.strlen = (pairs.map fun p => (encodedPair p).length).sum
  metaCount : parameters.metaCount = metaCount

theorem length_encodedPair (p : Bytes × Bytes) : (encodedPair p).length =
    (mfsTrackerUrlEncode p.1).length + (mfsTrackerUrlEncode p.2).length + 1 := by
  rw [encodedPair, List.length_append, List.length_cons]
  omega

theorem Collected.addParameter {parameters : RequestParameters} {pairs : List (Bytes × Bytes)}
    {n : ℕ} (h : Collected parameters pairs n) (key value : Bytes) :
    Collected (mfsTrackerAddParameter parameters key value) (pairs ++ [(key, value)]) n where
  list := by
    simp only [mfsTrackerAddParameter, mfsTrackerAddParameterPointers, h.list, List.map_append,
      List.map_singleton, pairParameter]
  count := by
    simp only [mfsTrackerAddParameter, mfsTrackerAddParameterPointers, h.count,
      List.length_append, List.length_singleton]
  strlen := by
    simp only [mfsTrackerAddParameter, mfsTrackerAddParameterPointers, h.strlen,
      List.map_append, List.map_singleton, List.sum_append, List.sum_singleton,
      length_encodedPair]
  metaCount := h.metaCount

theorem Collected.addMetaData {parameters : RequestParameters} {pairs : List (Bytes × Bytes)}
    {n : ℕ} (h : Collected parameters pairs n) (key value : Bytes) :
    Collected (mfsTrackerAddMetaData parameters key value true)
      (pairs ++ metaPairs n key value) (n + 1) := by
  have hadded := (h.addParameter (str "plugin.meta.key" ++ decimalNat n) key).addParameter
    (str "plugin.meta.value" ++ decimalNat n) value
  rw [List.append_assoc] at hadded
  rw [mfsTrackerAddMetaData, if_pos rfl, h.metaCount]
  exact ⟨hadded.list, hadded.count, hadded.strlen, congrArg (· + 1) hadded.metaCount⟩

theorem foldl_collected (calls : List AddCall) {parameters : RequestParameters}
    {pairs : List (Bytes × Bytes)} {n : ℕ} (h : Collected parameters pairs n) :
    Collected (calls.foldl AddCall.run parameters) (pairs ++ plainPairs n calls)
      (n + metaCalls calls) := by
  induction calls generalizing parameters pairs n with
  | nil => simpa [plainPairs, metaCalls] using h
  | cons call calls ih =>
    cases call with
    | parameter key value =>
      have hrest := ih (h.addParameter key value)
      rw [List.append_assoc] at hrest
      exact hrest
    | metaData key value =>
      have hrest := ih (h.addMetaData key value)
      rw [List.append_assoc] at hrest
      have hcount : n + 1 + metaCalls calls = n + metaCalls (.metaData key value :: calls) := by
        rw [metaCalls, metaCalls, List.countP_cons_of_pos rfl]
        omega
      rw [hcount] at hrest
      exact hrest

theorem runCalls_collected (calls : List AddCall) :
    Collected (runCalls calls) (plainPairs 0 calls) (metaCalls calls) := by
  have h := foldl_collected calls (⟨rfl, rfl, rfl, rfl⟩ : Collected mfsTrackerInitParameters [] 0)
  rwa [List.nil_append, Nat.zero_add] at h

/-! ## Lists with true lengths -/

/-- `k=v`, both halves as they are. -/
def rawPair (p : Bytes × Bytes) : Bytes := p.1 ++ ch '=' :: p.2

/-- The pairs with `&` between them. -/
def rawPairs (raw : List (Bytes × Bytes)) : Bytes := [ch '&'].intercalate (raw.map rawPair)

/-- The parameter of a pair that is handed over as it is, with its lengths. -/
def rawParameter (p : Bytes × Bytes) : RequestParameter :=
  ⟨p.1, p.1.length, p.2, p.2.length, false⟩

def encodedHalves (p : Bytes × Bytes) : Bytes × Bytes :=
  (mfsTrackerUrlEncode p.1, mfsTrackerUrlEncode p.2)

/-- The list holds the pairs as they are, and `count` and `strlen` agree with it. -/
structure Measured (parameters : RequestParameters) (raw : List (Bytes × Bytes)) : Prop where
  list : parameters.list = raw.map rawParameter
  count : parameters.count = raw.length
  strlen : parameters.strlen = (raw.map fun p => (rawPair p).length).sum

theorem rawPairs_encodedHalves (pairs : List (Bytes × Bytes)) :
    rawPairs (pairs.map encodedHalves) = encodedPairs pairs := by
  rw [rawPairs, List.map_map]
  rfl

theorem Collected.measured {parameters : RequestParameters} {pairs : List (Bytes × Bytes)}
    {n : ℕ} (h : Collected parameters pairs n) :
    Measured parameters (pairs.map encodedHalves) where
  list := by
    rw [h.list, List.map_map]
    rfl
  count := by rw [h.count, List.length_map]
  strlen := by
    rw [h.strlen, List.map_map]
    rfl

theorem rawPairs_cons (p : Bytes × Bytes) {raw : List (Bytes × Bytes)} (h : raw ≠ []) :
    rawPairs (p :: raw) = rawPair p ++ ch '&' :: rawPairs raw := by
  rw [rawPairs, List.map_cons, List.intercalate_cons_of_ne_nil (by simpa using h)]
  simp [rawPairs]

theorem rawPairs_singleton (p : Bytes × Bytes) : rawPairs [p] = rawPair p :=
  List.intercalate_singleton

/-- One `&` less than there are pairs. -/
theorem length_rawPairs {raw : List (Bytes × Bytes)} (hne : raw ≠ []) :
    (rawPairs raw).length + 1 = (raw.map fun p => (rawPair p).length).sum + raw.length := by
  induction raw with
  | nil => exact absurd rfl hne
  | cons p raw ih =>
    by_cases hnil : raw = []
    · simp [hnil, rawPairs_singleton]
    · have := ih hnil
      rw [rawPairs_cons p hnil, List.length_append, List.length_cons, List.map_cons,
        List.sum_cons, List.length_cons]
      omega

/-- `total_length`: the command, the space, the count of the meta data, the pairs, CR and LF. -/
theorem Measured.requestLength_eq {parameters : RequestParameters} {raw : List (Bytes × Bytes)}
    (h : Measured parameters raw) (hne : raw ≠ []) (cmd : Bytes) :
    requestLength cmd parameters =
      (cmd ++ ch ' ' :: (metaCountParam parameters ++ rawPairs raw) ++ [CR, LF]).length := by
  have hlen := length_rawPairs hne
  rw [requestLength, h.strlen, h.count]
  simp only [List.length_append, List.length_cons, List.length_nil]
  omega

/-- Without parameters the size is one byte short of the line: the `- 1` is for an `&` that is
    not missing. -/
theorem Measured.requestLength_nil {parameters : RequestParameters} (h : Measured parameters [])
    (cmd : Bytes) :
    requestLength cmd parameters + 1 =
      (cmd ++ ch ' ' :: (metaCountParam parameters ++ rawPairs []) ++ [CR, LF]).length := by
  rw [requestLength, h.strlen, h.count]
  simp only [rawPairs, List.map_nil, List.intercalate_nil, List.length_append, List.length_cons,
    List.length_nil, List.sum_nil]
  omega

/-! ## The body -/

/-- Everything between the space and CR LF. -/
def lineBody (pairs : List (Bytes × Bytes)) (metaCount : ℕ) : Bytes :=
  encodedPairs (metaCountPair metaCount ++ pairs)

theorem encodedPair_metaCount (n : ℕ) : encodedPair (str "plugin.meta.keys", decimalNat n) =
    str "plugin.meta.keys=" ++ decimalNat n := by
  rw [encodedPair, urlEncode_decimalNat]
  rfl

/-- The count is written with its `&`, the pairs follow. -/
theorem lineBody_eq {parameters : RequestParameters} {pairs : List (Bytes × Bytes)} {n : ℕ}
    (h : Collected parameters pairs n) (hne : pairs ≠ []) :
    lineBody pairs n = metaCountParam parameters ++ encodedPairs pairs := by
  rw [lineBody, metaCountPair, metaCountParam, h.metaCount]
  by_cases hn : 0 < n
  · rw [if_pos hn, if_pos hn, List.singleton_append, encodedPairs_cons _ hne,
      encodedPair_metaCount]
    simp only [List.append_assoc]
    rfl
  · rw [if_neg hn, if_neg hn]
    rfl

/-- `total_length`: the command, the space, the body, CR and LF. -/
theorem requestLength_eq {parameters : RequestParameters} {pairs : List (Bytes × Bytes)} {n : ℕ}
    (h : Collected parameters pairs n) (hne : pairs ≠ []) (cmd : Bytes) :
    requestLength cmd parameters = (cmd ++ ch ' ' :: lineBody pairs n ++ [CR, LF]).length := by
  rw [h.measured.requestLength_eq (by simpa using hne), rawPairs_encodedHalves, lineBody_eq h hne]

/-- No length the source keeps in an `int` exceeds that of the line. -/
theorem Collected.lengths {parameters : RequestParameters} {pairs : List (Bytes × Bytes)} {n : ℕ}
    (h : Collected parameters pairs n) (cmd : Bytes) :
    parameters.strlen + parameters.count ≤ requestLength cmd parameters ∧
      ∀ param ∈ parameters.list, param.keyLength + param.valueLength ≤ parameters.strlen := by
  refine ⟨?_, fun param hparam => ?_⟩
  · rw [requestLength]
    omega
  · rw [h.list] at hparam
    obtain ⟨p, hp, rfl⟩ := List.mem_map.mp hparam
    have hle : (encodedPair p).length ≤ (pairs.map fun p => (encodedPair p).length).sum :=
      List.single_le_sum (fun _ _ => Nat.zero_le _) _ (List.mem_map_of_mem hp)
    rw [length_encodedPair p] at hle
    rw [h.strlen]
    exact (Nat.le_succ _).trans hle

/-! ## Writing -/

theorem buildParameters_wrote (raw : List (Bytes × Bytes)) {b : Cursor} {s : Bytes}
    (h : b.Wrote s) :
    (buildParameters (raw.map rawParameter) b).Wrote (s ++ rawPairs raw) := by
  induction raw generalizing b s with
  | nil => simpa [buildParameters, rawPairs] using h
  | cons p raw ih =>
    have hpair := ((h.strcpy_advance p.1).put (ch '=')).strcpy_advance p.2
    have htext : s ++ p.1 ++ [ch '='] ++ p.2 = s ++ rawPair p := by
      simp [rawPair]
    rw [htext] at hpair
    rw [List.map_cons, buildParameters]
    by_cases hnil : raw = []
    · subst hnil
      rw [if_neg (by simp), rawPairs_singleton]
      exact hpair
    · rw [if_pos (by simpa using hnil), rawPairs_cons p hnil]
      have hrest := ih (hpair.put (ch '&'))
      rw [List.append_assoc, List.append_assoc] at hrest
      exact hrest

/-- What is written for any list with true lengths, also an empty one: the line and its NUL, and
    nothing behind the cursor. -/
theorem Measured.buildRequest_wrote_text {parameters : RequestParameters}
    {raw : List (Bytes × Bytes)} (h : Measured parameters raw) (cmd : Bytes) (palloc : ℕ → Byte) :
    (mfsTrackerBuildRequest cmd parameters palloc).Wrote
        (cmd ++ ch ' ' :: (metaCountParam parameters ++ rawPairs raw) ++ [CR, LF] ++ [0]) ∧
      (mfsTrackerBuildRequest cmd parameters palloc).top ≤
        (mfsTrackerBuildRequest cmd parameters palloc).pos := by
  have hstart : (⟨Function.update palloc 0 0, 0, 1⟩ : Cursor).Wrote [] :=
    ⟨rfl, fun i hi => absurd hi (Nat.not_lt_zero i), le_rfl⟩
  have hcmd := (hstart.strcpy_advance cmd).put (ch ' ')
  rw [List.nil_append] at hcmd
  generalize hb : (((⟨Function.update palloc 0 0, 0, 1⟩ : Cursor).strcpy cmd).advance
    cmd.length).put (ch ' ') = b at hcmd
  -- `if(parameters->meta_count > 0)`
  have hmeta : (if parameters.metaCount > 0 then
      (b.strcpy (metaCountParam parameters)).advance (metaCountParam parameters).length
      else b).Wrote (cmd ++ [ch ' '] ++ metaCountParam parameters) := by
    by_cases hcount : parameters.metaCount > 0
    · rw [if_pos hcount]
      exact hcmd.strcpy_advance _
    · rw [if_neg hcount, metaCountParam, if_neg hcount, List.append_nil]
      exact hcmd
  have hbody := buildParameters_wrote raw hmeta
  have htext : cmd ++ [ch ' '] ++ metaCountParam parameters ++ rawPairs raw =
      cmd ++ ch ' ' :: (metaCountParam parameters ++ rawPairs raw) := by
    simp
  rw [htext, ← h.list] at hbody
  have hbuild : mfsTrackerBuildRequest cmd parameters palloc =
      (((buildParameters parameters.list (if parameters.metaCount > 0 then
        (b.strcpy (metaCountParam parameters)).advance (metaCountParam parameters).length
        else b)).put CR).put LF).put 0 := by
    rw [← hb]
    rfl
  rw [hbuild]
  generalize buildParameters parameters.list _ = b' at hbody
  constructor
  · have hend := ((hbody.put CR).put LF).put 0
    rw [List.append_assoc _ [CR]] at hend
    exact hend
  · have htop := hbody.top
    have hpos := hbody.pos
    simp only [Cursor.put] at htop hpos ⊢
    omega

/-- The line and its NUL have been written, and nothing behind them. -/
theorem buildRequest_wrote {parameters : RequestParameters} {pairs : List (Bytes × Bytes)}
    {n : ℕ} (h : Collected parameters pairs n) (hne : pairs ≠ []) (cmd : Bytes)
    (palloc : ℕ → Byte) :
    (mfsTrackerBuildRequest cmd parameters palloc).Wrote
        (cmd ++ ch ' ' :: lineBody pairs n ++ [CR, LF] ++ [0]) ∧
      (mfsTrackerBuildRequest cmd parameters palloc).top ≤ requestLength cmd parameters + 1 := by
  obtain ⟨hwrote, htop⟩ := h.measured.buildRequest_wrote_text cmd palloc
  rw [rawPairs_encodedHalves, ← lineBody_eq h hne] at hwrote
  refine ⟨hwrote, htop.trans (le_of_eq ?_)⟩
  rw [hwrote.pos, requestLength_eq h hne, List.length_append, List.length_singleton]

/-! ## One line at most -/

theorem notMem_metaCountParam {c : Byte} (hc : urlChar c = false) (hequals : c ≠ ch '=')
    (hand : c ≠ ch '&') (parameters : RequestParameters) : c ∉ metaCountParam parameters := by
  rw [metaCountParam]
  split_ifs
  · have hpair := notMem_encodedPair (str "plugin.meta.keys", decimalNat parameters.metaCount) hc
      hequals
    rw [encodedPair_metaCount] at hpair
    intro h
    rcases List.mem_append.mp h with h | h
    · exact hpair h
    · exact hand (List.mem_singleton.mp h)
  · exact List.not_mem_nil

/-- LF is sent as the last byte or not at all. -/
theorem requestBytes_oneLine {parameters : RequestParameters} {pairs : List (Bytes × Bytes)}
    {n : ℕ} (h : Collected parameters pairs n) {cmd : Bytes} (hcmd : LF ∉ cmd)
    (palloc : ℕ → Byte) : LF ∉ (requestBytes cmd parameters palloc).dropLast := by
  obtain ⟨hwrote, -⟩ := h.measured.buildRequest_wrote_text cmd palloc
  rw [rawPairs_encodedHalves] at hwrote
  generalize hbody : cmd ++ ch ' ' :: (metaCountParam parameters ++ encodedPairs pairs) = body
    at hwrote
  have hlen : requestLength cmd parameters ≤ (body ++ [CR, LF]).length := by
    rw [← hbody, ← rawPairs_encodedHalves]
    by_cases hne : pairs = []
    · subst hne
      exact (Nat.le_succ _).trans_eq (h.measured.requestLength_nil cmd)
    · exact (h.measured.requestLength_eq (by simpa using hne) cmd).le
  have htake : requestBytes cmd parameters palloc =
      (body ++ [CR, LF]).take (requestLength cmd parameters) := by
    have hsplit : body ++ [CR, LF] ++ [0] =
        (body ++ [CR, LF]).take (requestLength cmd parameters) ++
        ((body ++ [CR, LF]).drop (requestLength cmd parameters) ++ [0]) := by
      rw [← List.append_assoc, List.take_append_drop]
    have hread := hwrote.map_range hsplit
    rwa [List.length_take, min_eq_left hlen] at hread
  have hbodyLF : LF ∉ body ++ [CR] := by
    rw [← hbody]
    simp only [List.mem_append, List.mem_cons, not_or]
    refine ⟨⟨hcmd, by decide, ?_, ?_⟩, by decide, List.not_mem_nil⟩
    · exact notMem_metaCountParam (by decide) (by decide) (by decide) parameters
    · exact notMem_encodedPairs pairs (by decide) (by decide) (by decide)
  have hinit : (body ++ [CR, LF]).dropLast = body ++ [CR] := by
    rw [show body ++ [CR, LF] = (body ++ [CR]) ++ [LF] by simp, List.dropLast_concat]
  intro hmem
  refine hbodyLF ?_
  rw [htake, List.dropLast_take_eq_take_dropLast, hinit] at hmem
  exact List.mem_of_mem_take hmem

/-! ## Reading the line back -/

/-- A piece at its first `=`, both halves decoded. -/
def decodedPair (piece : Bytes) : Bytes × Bytes :=
  (mfsTrackerUrlDecode (piece.takeWhile (· ≠ ch '=')),
    mfsTrackerUrlDecode ((piece.dropWhile (· ≠ ch '=')).drop 1))

theorem decodedPair_encodedPair {p : Bytes × Bytes} (hkey : (0 : Byte) ∉ p.1)
    (hvalue : (0 : Byte) ∉ p.2) : decodedPair (encodedPair p) = p := by
  rw [decodedPair, takeWhile_encodedPair, dropWhile_encodedPair, urlDecode_urlEncode hkey,
    urlDecode_urlEncode hvalue]

theorem map_decodedPair {pairs : List (Bytes × Bytes)}
    (h : ∀ p ∈ pairs, (0 : Byte) ∉ p.1 ∧ (0 : Byte) ∉ p.2) (hne : pairs ≠ []) :
    ((encodedPairs pairs).splitOn (ch '&')).map decodedPair = pairs := by
  rw [splitOn_encodedPairs hne, List.map_map]
  exact (List.map_congr_left fun p hp => decodedPair_encodedPair (h p hp).1 (h p hp).2).trans
    (List.map_id pairs)

theorem nul_notMem_key (s : Bytes) (hs : (0 : Byte) ∉ s) (n : ℕ) :
    (0 : Byte) ∉ s ++ decimalNat n := by
  intro h
  rcases List.mem_append.mp h with h | h
  · exact hs h
  · exact notMem_decimalNat n (by decide) h

theorem nul_notMem_plainPairs {calls : List AddCall} (h : ∀ call ∈ calls, call.Strings) :
    ∀ index, ∀ p ∈ plainPairs index calls, (0 : Byte) ∉ p.1 ∧ (0 : Byte) ∉ p.2 := by
  induction calls with
  | nil => exact fun _ _ hp => absurd hp List.not_mem_nil
  | cons call calls ih =>
    intro index p hp
    have hcall := h call List.mem_cons_self
    have hcalls := ih fun c hc => h c (List.mem_cons_of_mem call hc)
    cases call with
    | parameter key value =>
      rcases List.mem_cons.mp hp with rfl | hp
      · exact hcall
      · exact hcalls index p hp
    | metaData key value =>
      rcases List.mem_append.mp hp with hp | hp
      · simp only [metaPairs, List.mem_cons, List.not_mem_nil, or_false] at hp
        rcases hp with rfl | rfl
        · exact ⟨nul_notMem_key _ (by decide) index, hcall.1⟩
        · exact ⟨nul_notMem_key _ (by decide) index, hcall.2⟩
      · exact hcalls (index + 1) p hp

theorem nul_notMem_metaCountPair (n : ℕ) :
    ∀ p ∈ metaCountPair n, (0 : Byte) ∉ p.1 ∧ (0 : Byte) ∉ p.2 := by
  intro p hp
  rw [metaCountPair] at hp
  split_ifs at hp
  · obtain rfl := List.mem_singleton.mp hp
    exact ⟨show (0 : Byte) ∉ str "plugin.meta.keys" by decide, notMem_decimalNat n (by decide)⟩
  · cases hp

theorem plainPairs_ne_nil {calls : List AddCall} (hne : calls ≠ []) (index : ℕ) :
    plainPairs index calls ≠ [] := by
  obtain ⟨call, calls, rfl⟩ := List.exists_cons_of_ne_nil hne
  cases call with
  | parameter key value => exact List.cons_ne_nil _ _
  | metaData key value => exact List.cons_ne_nil _ _

/-- The characters that separate the parts of a line and end it. -/
def lineChars : List Byte := [ch ' ', CR, LF, 0]

theorem lineChars_notMem_encodedPairs (pairs : List (Bytes × Bytes)) :
    ∀ c ∈ lineChars, c ∉ encodedPairs pairs := by
  have hchars : ∀ c ∈ lineChars, urlChar c = false ∧ c ≠ ch '=' ∧ c ≠ ch '&' := by
    decide +kernel
  intro c hc
  obtain ⟨hurl, hequals, hand⟩ := hchars c hc
  exact notMem_encodedPairs pairs hurl hequals hand

/-- A fresh list, any calls, and the request built from it: a C string that is one line, the
    bytes sent are those of the line, nothing is written outside its allocation, and the pairs
    of the calls are read back from the body. -/
theorem requestLine_roundTrip {cmd : Bytes} (hcmd : ∀ c ∈ lineChars, c ∉ cmd)
    {calls : List AddCall} (hne : calls ≠ []) (hcalls : ∀ call ∈ calls, call.Strings)
    (palloc : ℕ → Byte) :
    ∃ body,
      requestBytes cmd (runCalls calls) palloc = cmd ++ ch ' ' :: body ++ [CR, LF] ∧
      HoldsString (mfsTrackerBuildRequest cmd (runCalls calls) palloc).memory
        (cmd ++ ch ' ' :: body ++ [CR, LF]) ∧
      (mfsTrackerBuildRequest cmd (runCalls calls) palloc).top ≤
        requestLength cmd (runCalls calls) + 1 ∧
      (∀ c ∈ lineChars, c ∉ body) ∧
      (∀ piece ∈ body.splitOn (ch '&'), ch '=' ∈ piece) ∧
      (body.splitOn (ch '&')).map decodedPair =
        metaCountPair (metaCalls calls) ++ plainPairs 0 calls := by
  have hcollected := runCalls_collected calls
  have hpairs := plainPairs_ne_nil hne 0
  have hall : metaCountPair (metaCalls calls) ++ plainPairs 0 calls ≠ [] :=
    List.append_ne_nil_of_right_ne_nil _ hpairs
  obtain ⟨hwrote, htop⟩ := buildRequest_wrote hcollected hpairs cmd palloc
  have hbody := lineChars_notMem_encodedPairs
    (metaCountPair (metaCalls calls) ++ plainPairs 0 calls)
  refine ⟨lineBody (plainPairs 0 calls) (metaCalls calls), ?_, ?_, htop, hbody, ?_, ?_⟩
  · rw [requestBytes, requestLength_eq hcollected hpairs]
    exact hwrote.map_range rfl
  · refine hwrote.holdsString fun h => ?_
    rcases List.mem_append.mp h with h | h
    · rcases List.mem_append.mp h with h | h
      · exact hcmd 0 (by decide) h
      · rcases List.mem_cons.mp h with h | h
        · exact absurd h (by decide)
        · exact hbody 0 (by decide) h
    · exact absurd h (by decide)
  · intro piece hpiece
    rw [lineBody, splitOn_encodedPairs hall] at hpiece
    obtain ⟨p, -, rfl⟩ := List.mem_map.mp hpiece
    exact List.mem_append_right _ List.mem_cons_self
  · refine map_decodedPair (fun p hp => ?_) hall
    rcases List.mem_append.mp hp with hp | hp
    · exact nul_notMem_metaCountPair _ p hp
    · exact nul_notMem_plainPairs hcalls 0 p hp

/-- A parameter with every separator in it, and two calls for meta data. -/
theorem requestLine_roundTrip_meta :
    ∃ body,
      requestBytes (str "TEST") (runCalls [.parameter (str "a&b=") (str "%+ \r\n"),
          .metaData (str "meta1") [], .metaData [] (str "value2")]) (fun _ => 1) =
        str "TEST" ++ ch ' ' :: body ++ [CR, LF] ∧
      HoldsString (mfsTrackerBuildRequest (str "TEST") (runCalls
          [.parameter (str "a&b=") (str "%+ \r\n"), .metaData (str "meta1") [],
            .metaData [] (str "value2")]) (fun _ => 1)).memory
        (str "TEST" ++ ch ' ' :: body ++ [CR, LF]) ∧
      (mfsTrackerBuildRequest (str "TEST") (runCalls
          [.parameter (str "a&b=") (str "%+ \r\n"), .metaData (str "meta1") [],
            .metaData [] (str "value2")]) (fun _ => 1)).top ≤
        requestLength (str "TEST") (runCalls [.parameter (str "a&b=") (str "%+ \r\n"),
          .metaData (str "meta1") [], .metaData [] (str "value2")]) + 1 ∧
      (∀ c ∈ lineChars, c ∉ body) ∧
      (∀ piece ∈ body.splitOn (ch '&'), ch '=' ∈ piece) ∧
      (body.splitOn (ch '&')).map decodedPair =
        metaCountPair (metaCalls [.parameter (str "a&b=") (str "%+ \r\n"),
          .metaData (str "meta1") [], .metaData [] (str "value2")]) ++
        plainPairs 0 [.parameter (str "a&b=") (str "%+ \r\n"), .metaData (str "meta1") [],
          .metaData [] (str "value2")] :=
  requestLine_roundTrip (by decide +kernel) (by decide) (by decide +kernel) (fun _ => 1)

end MogileFs
